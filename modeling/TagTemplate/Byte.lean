/-!
# Bytes of a template

A template is a sequence of bytes. The tag grammar names fourteen of them and two classes,
digits and alphanumerics, both of which hold ASCII bytes only.
-/

namespace TagTemplate

abbrev Byte := UInt8

abbrev Bytes := List Byte

namespace Byte

def newline : Byte := 0x0A
def space : Byte := 0x20
def quote : Byte := 0x22
def leftParenthesis : Byte := 0x28
def rightParenthesis : Byte := 0x29
def plus : Byte := 0x2B
def comma : Byte := 0x2C
def hyphen : Byte := 0x2D
def period : Byte := 0x2E
def lessThan : Byte := 0x3C
def greaterThan : Byte := 0x3E
def backslash : Byte := 0x5C
def leftBrace : Byte := 0x7B
def rightBrace : Byte := 0x7D

def isDigit (b : Byte) : Bool :=
  0x30 ≤ b && b ≤ 0x39

def isLetter (b : Byte) : Bool :=
  (0x41 ≤ b && b ≤ 0x5A) || (0x61 ≤ b && b ≤ 0x7A)

def isAlphanumeric (b : Byte) : Bool :=
  b.isDigit || b.isLetter

theorem isDigit_of_isLetter {b : Byte} (h : b.isLetter = true) : b.isDigit = false := by
  simp only [isLetter, Bool.or_eq_true, Bool.and_eq_true, decide_eq_true_eq,
    UInt8.le_iff_toNat_le] at h
  simp only [isDigit, Bool.and_eq_false_iff, decide_eq_false_iff_not, UInt8.le_iff_toNat_le]
  simp at h ⊢
  omega

/-- The character whose code is the byte. -/
def toChar (b : Byte) : Char :=
  Char.ofNat b.toNat

theorem toNat_toChar (b : Byte) : b.toChar.toNat = b.toNat := by
  have hValid : b.toNat.isValidChar := Or.inl (by have := b.toNat_lt; omega)
  rw [toChar, Char.ofNat, dif_pos hValid]
  rfl

/-- Two uppercase hexadecimal digits. -/
def hexadecimal (b : Byte) : String :=
  String.ofList [digit (b.toNat / 16), digit (b.toNat % 16)]
where
  digit (n : Nat) : Char :=
    Char.ofNat (if n < 10 then 0x30 + n else 0x37 + n)

end Byte

/-- What stands at a place of the buffer, as a message names it: the byte itself if it is
printable ASCII, and the end of the buffer if there is no byte. -/
def Byte.describe : Option Byte → String
  | none => "EOF"
  | some b =>
    if b = newline then "\\n"
    else if 0x20 ≤ b && b < 0x7F then b.toChar.toString
    else "0x" ++ b.hexadecimal

/-- The bytes of the buffer from `start` to `stop`, as far as there are any. -/
def Bytes.slice (buffer : Bytes) (start stop : Nat) : Bytes :=
  (buffer.take stop).drop start

/-- The text of bytes that are all ASCII. -/
def Bytes.ascii (bytes : Bytes) : String :=
  String.ofList (bytes.map Byte.toChar)

theorem Bytes.ascii_inj {bytes bytes' : Bytes} : bytes.ascii = bytes'.ascii ↔ bytes = bytes' := by
  rw [ascii, ascii, String.ofList_inj]
  refine List.map_inj_right fun b b' h => ?_
  rw [← UInt8.toNat_inj, ← Byte.toNat_toChar, h, Byte.toNat_toChar]

end TagTemplate
