import TagTemplate.Byte

/-!
# Options of the tag grammar

The sigil opens a tag. It is an ASCII byte that has no other meaning in a tag. With balanced
bodies, a left brace in a body asks for a right brace of its own; without them a body ends at the
first right brace that is not escaped.
-/

namespace TagTemplate

/-- The punctuation of tags: what delimits, separates, escapes or joins. -/
def Byte.punctuation : Bytes :=
  [leftParenthesis, rightParenthesis, leftBrace, rightBrace, quote, comma, backslash, space,
    newline, plus, hyphen, lessThan, greaterThan, period]

/-- Holds of the bytes that cannot open a tag. -/
def Byte.isReserved (b : Byte) : Bool :=
  punctuation.contains b || b.isAlphanumeric || b < 0x20

structure Sigil where
  byte : Byte
  isAscii : byte < 0x80
  notReserved : byte.isReserved = false
  deriving DecidableEq

namespace Sigil

def ofByte? (b : Byte) : Option Sigil :=
  if h : b < 0x80 ∧ b.isReserved = false then some ⟨b, h.1, h.2⟩ else none

theorem byte_ne (sigil : Sigil) {b : Byte} (hb : b.isReserved = true) : sigil.byte ≠ b := by
  rintro rfl
  rw [sigil.notReserved] at hb
  cases hb

theorem byte_ne_backslash (sigil : Sigil) : sigil.byte ≠ Byte.backslash :=
  sigil.byte_ne (by decide)

/-- The number sign. -/
def standard : Sigil := ⟨0x23, by decide, by decide⟩

end Sigil

structure Options where
  sigil : Sigil
  balancedBodies : Bool
  deriving DecidableEq

namespace Options

def standard : Options := ⟨Sigil.standard, false⟩

/-- The byte that asks for one more right brace in a body. -/
def bodyOpener (options : Options) : Option Byte :=
  if options.balancedBodies then some Byte.leftBrace else none

end Options

end TagTemplate
