import TagTemplate.Byte

/-!
# Text as bytes

Characters are written as one to four bytes. Reading follows the table of well-formed sequences:
the first byte fixes how many bytes follow and between which bounds the second one lies, all
later ones lying between `80` and `BF`. Where bytes are not well formed, the longest stretch that
begins a well-formed sequence, or else one byte, is read as a replacement character.
-/

namespace TagTemplate

namespace Utf8

def encode (text : List Char) : Bytes :=
  text.flatMap String.utf8EncodeChar

/-- A sequence that lacks `missing` further bytes, the next one between `low` and `high`, with
the code point bits read so far. -/
structure Pending where
  missing : Nat
  low : Byte
  high : Byte
  bits : Nat
  deriving DecidableEq

/-- What the first byte of a sequence of two or more bytes leaves pending. -/
def Pending.ofLead? (b : Byte) : Option Pending :=
  let n := b.toNat
  if 0xC2 ≤ n ∧ n ≤ 0xDF then some ⟨1, 0x80, 0xBF, n - 0xC0⟩
  else if n = 0xE0 then some ⟨2, 0xA0, 0xBF, 0⟩
  else if n = 0xED then some ⟨2, 0x80, 0x9F, 0xD⟩
  else if 0xE1 ≤ n ∧ n ≤ 0xEF then some ⟨2, 0x80, 0xBF, n - 0xE0⟩
  else if n = 0xF0 then some ⟨3, 0x90, 0xBF, 0⟩
  else if 0xF1 ≤ n ∧ n ≤ 0xF3 then some ⟨3, 0x80, 0xBF, n - 0xF0⟩
  else if n = 0xF4 then some ⟨3, 0x80, 0x8F, 4⟩
  else none

def replacement : Char := '\uFFFD'

/-- What a byte outside a sequence gives, and what it leaves pending. -/
def first (b : Byte) : List Char × Option Pending :=
  if b < 0x80 then ([b.toChar], none)
  else
    match Pending.ofLead? b with
    | some pending => ([], some pending)
    | none => ([replacement], none)

/-- What the next byte gives. A byte that cannot go on the pending sequence starts anew. -/
def next : Option Pending → Byte → List Char × Option Pending
  | none, b => first b
  | some p, b =>
    if p.low ≤ b ∧ b ≤ p.high then
      let bits := p.bits * 64 + (b.toNat - 0x80)
      if p.missing = 1 then ([Char.ofNat bits], none)
      else ([], some ⟨p.missing - 1, 0x80, 0xBF, bits⟩)
    else
      let (text, pending) := first b
      (replacement :: text, pending)

def decodeFrom : Option Pending → Bytes → List Char
  | none, [] => []
  | some _, [] => [replacement]
  | pending, b :: rest =>
    let (text, pending') := next pending b
    text ++ decodeFrom pending' rest

/-- Reads any bytes, replacing what is not well formed. -/
def decode (bytes : Bytes) : List Char :=
  decodeFrom none bytes

/-- Reads well-formed bytes: those that are written again as they were. -/
def decode? (bytes : Bytes) : Option (List Char) :=
  let text := decode bytes
  if encode text = bytes then some text else none

end Utf8

def Bytes.text (bytes : Bytes) : String :=
  String.ofList (Utf8.decode bytes)

def Bytes.ofText (text : String) : Bytes :=
  Utf8.encode text.toList

end TagTemplate
