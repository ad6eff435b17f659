import TagTemplate.Text.Printable

/-!
# Quoted text

A text is shown between single quotes, or between double quotes if it holds a single quote and
no double one. Inside, a backslash and the quote in use are escaped, three controls have letters,
and other characters that are not printable are shown by their code in two, four or eight
hexadecimal digits.
-/

namespace TagTemplate

namespace Quoted

/-- The hexadecimal digits of `n`, at least `width` of them. -/
def hexadecimal (width n : Nat) : List Char :=
  let digits := Nat.toDigits 16 n
  List.replicate (width - digits.length) '0' ++ digits

def mark (text : List Char) : Char :=
  if text.contains '\'' && !text.contains '"' then '"' else '\''

def escaped (mark c : Char) : List Char :=
  if c = '\\' ∨ c = mark then ['\\', c]
  else if c = '\n' then ['\\', 'n']
  else if c = '\r' then ['\\', 'r']
  else if c = '\t' then ['\\', 't']
  else if isPrintable c then [c]
  else if c.toNat < 0x100 then '\\' :: 'x' :: hexadecimal 2 c.toNat
  else if c.toNat < 0x10000 then '\\' :: 'u' :: hexadecimal 4 c.toNat
  else '\\' :: 'U' :: hexadecimal 8 c.toNat

def chars (text : List Char) : List Char :=
  mark text :: text.flatMap (escaped (mark text)) ++ [mark text]

end Quoted

def quoted (text : String) : String :=
  String.ofList (Quoted.chars text.toList)

end TagTemplate
