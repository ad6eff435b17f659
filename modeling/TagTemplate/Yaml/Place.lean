/-!
# Places in a settings text

Settings are read line by line and column by column: indentation is a column, and a key must end
on the line where it began. A text is expected to end its lines with a line feed. The next-line
character and the two Unicode separators separate scalars and fold as line ends do, but lines and
columns are counted by the line feed alone.
-/

namespace TagTemplate.Yaml

def isBreak (c : Char) : Bool :=
  c = '\n' || c = '\u0085' || c = '\u2028' || c = '\u2029'

def isSpaceOrTab (c : Char) : Bool :=
  c = ' ' || c = '\t'

/-- What a line end contributes to a scalar. -/
def breakText (c : Char) : Char :=
  if c = '\u0085' then '\n' else c

/-- Holds where the text is at its end or a blank or a line end is next. -/
def atBlank : List Char → Bool
  | [] => true
  | c :: _ => isSpaceOrTab c || isBreak c

/-- Holds where, at the start of a line, one of the two document markers is next. -/
def atMarker : List Char → Bool
  | '-' :: '-' :: '-' :: rest => atBlank rest
  | '.' :: '.' :: '.' :: rest => atBlank rest
  | _ => false

/-- The characters of a settings text: no controls but tab and line ends. -/
def isTextual (c : Char) : Bool :=
  c = '\t' || c = '\n' || c = '\u0085' || (' ' ≤ c && c ≤ '~') ||
    ('\u00A0' ≤ c && c ≠ '\uFFFE' && c ≠ '\uFFFF')

structure Place where
  rest : List Char
  index : Nat
  line : Nat
  column : Nat

namespace Place

def start (text : List Char) : Place :=
  ⟨text, 0, 0, 0⟩

/-- The place behind the next character. Only a line feed starts a new line of the count, and a
byte order mark takes no column. -/
def next (p : Place) : Place :=
  match p.rest with
  | [] => p
  | c :: rest =>
    if c = '\n' then ⟨rest, p.index + 1, p.line + 1, 0⟩
    else ⟨rest, p.index + 1, p.line, if c = '\uFEFF' then p.column else p.column + 1⟩

def skip (p : Place) : Nat → Place
  | 0 => p
  | n + 1 => p.next.skip n

/-- The place where `rest`, an end of the rest, begins. -/
def upTo (p : Place) (rest : List Char) : Place :=
  p.skip (p.rest.length - rest.length)

end Place

end TagTemplate.Yaml
