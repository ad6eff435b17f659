import TagTemplate.Number.Decimal
import TagTemplate.Yaml.Place

/-!
# The texts of scalars

A scalar is written plainly, between quotes or as a block of lines. Each reader here takes the
characters from the start of the scalar and gives its text with the characters that follow it.
A line end inside a plain or quoted scalar is folded: alone it reads as a space, and of several
all but the first are kept.
-/

namespace TagTemplate.Yaml

/-- What a run of line ends contributes, the first of them apart. -/
def folded (first : Char) (others : List Char) : List Char :=
  if first ≠ '\n' then first :: others
  else if others = [] then [' ']
  else others

namespace Plain

/-- The run of characters up to a blank or an indicator. A colon with no blank behind it is part
of the run. -/
def run (flow : Bool) : List Char → List Char
  | [] => []
  | c :: rest =>
    if c = ':' && !atBlank rest then c :: run flow rest
    else if isSpaceOrTab c || isBreak c || c = ':' then []
    else if flow && [',', '[', ']', '\x7b', '\x7d'].contains c then []
    else c :: run flow rest

/-- The line ends and leading spaces in front of the next line that holds text, or nothing in
front of a document marker. -/
def breaks : List Char → Option (List Char × List Char)
  | [] => some ([], [])
  | c :: rest =>
    if c = ' ' then breaks rest
    else if isBreak c then
      if atMarker rest then none
      else (breaks rest).map fun (others, rest) => (breakText c :: others, rest)
    else some ([], c :: rest)

/-- The text that a gap between two runs contributes, and whether it has a line end. Without a
text the scalar ends in front of the gap. -/
structure Gap where
  text : List Char
  broken : Bool
  rest : List Char

def gap (chars : List Char) : Gap :=
  let spaces := chars.takeWhile (· = ' ')
  match chars.drop spaces.length with
  | [] => ⟨spaces, false, []⟩
  | c :: rest =>
    if isBreak c then
      if atMarker rest then ⟨[], true, rest⟩
      else
        match breaks rest with
        | none => ⟨[], true, rest⟩
        | some (others, rest) => ⟨folded (breakText c) others, true, rest⟩
    else ⟨spaces, false, c :: rest⟩

/-- A plain scalar, and whether a line end follows its last run. Outside brackets, a line that
is indented less than `indent` ends it. -/
def scan (flow : Bool) (indent : Int) (p : Place) : List Char × Bool × Place :=
  let own := run flow p.rest
  if own = [] ∨ p.rest.head? = some '#' then ([], false, p)
  else
    let behind := p.skip own.length
    let g := gap behind.rest
    let p' := behind.upTo g.rest
    if g.text = [] ∨ p'.rest.head? = some '#' ∨ (!flow ∧ p'.column < indent) then
      (own, g.broken, p')
    else if p'.rest.length < p.rest.length then
      let (others, broken, last) := scan flow indent p'
      if others = [] then (own, g.broken, last) else (own ++ g.text ++ others, broken, last)
    else (own, g.broken, p')
termination_by p.rest.length

end Plain

namespace Quote

/-- The characters that a letter behind a backslash stands for. -/
def replacements : List (Char × Char) :=
  [('0', '\x00'), ('a', '\x07'), ('b', '\x08'), ('t', '\t'), ('\t', '\t'), ('n', '\n'),
    ('v', '\x0B'), ('f', '\x0C'), ('r', '\r'), ('e', '\x1B'), (' ', ' '), ('"', '"'),
    ('/', '/'), ('\\', '\\'), ('N', '\u0085'), ('_', '\u00A0'), ('L', '\u2028'),
    ('P', '\u2029')]

/-- How many hexadecimal digits a letter behind a backslash asks for. -/
def codeLength? (c : Char) : Option Nat :=
  if c = 'x' then some 2 else if c = 'u' then some 4 else if c = 'U' then some 8 else none

/-- What stands between the last character of a quoted scalar and the next one: blanks of the
same line, or line ends, of which the first one is none where a backslash took it away. -/
inductive Pending
  | blanks (text : List Char)
  | lines (first : Option Char) (others : List Char)

namespace Pending

def none : Pending := blanks []

/-- What the gap contributes to the text. -/
def text : Pending → List Char
  | blanks text => text
  | lines (some first) others => folded first others
  | lines .none others => others

/-- The gap with one more line end. -/
def addBreak (c : Char) : Pending → Pending
  | blanks _ => lines (some (breakText c)) []
  | lines first others => lines first (others ++ [breakText c])

/-- The gap with one more blank, which counts only on the line of the text before it. -/
def addBlank (c : Char) : Pending → Pending
  | blanks text => blanks (text ++ [c])
  | lines first others => lines first others

end Pending

/-- The rest of a quoted scalar and what follows its closing quote. With a code, so many of its
hexadecimal digits are still to come behind the value that it has so far. -/
def scan (double : Bool) (pending : Pending) (code : Option (Nat × Nat)) :
    List Char → Option (List Char × List Char)
  | [] => none
  | c :: rest =>
    match code with
    | some (missing, value) => do
      let value := 16 * value + (← Decimal.digit? c)
      if missing ≤ 1 then
        if Nat.isValidChar value then
          let (text, last) ← scan double .none none rest
          return (Char.ofNat value :: text, last)
        else none
      else scan double .none (some (missing - 1, value)) rest
    | none =>
      if isSpaceOrTab c then scan double (pending.addBlank c) none rest
      else if isBreak c then
        if atMarker rest then none else scan double (pending.addBreak c) none rest
      else if double && c = '"' then some (pending.text, rest)
      else if double && c = '\\' then
        match rest with
        | [] => none
        | e :: rest =>
          if isBreak e then
            if atMarker rest then none
            else do
              let (text, last) ← scan double (.lines .none []) none rest
              return (pending.text ++ text, last)
          else
            match replacements.lookup e, codeLength? e with
            | some r, _ => do
              let (text, last) ← scan double .none none rest
              return (pending.text ++ r :: text, last)
            | none, some length => do
              let (text, last) ← scan double .none (some (length, 0)) rest
              return (pending.text ++ text, last)
            | none, none => none
      else if !double && c = '\'' then
        match rest with
        | '\'' :: rest => do
          let (text, last) ← scan double .none none rest
          return (pending.text ++ '\'' :: text, last)
        | rest => some (pending.text, rest)
      else do
        let (text, last) ← scan double .none none rest
        return (pending.text ++ c :: text, last)

end Quote

namespace Block

/-- Which of the line ends behind the last line of a block are kept. -/
inductive Chomping
  | strip
  | clip
  | keep

/-- The signs behind the indicator of a block: how its end is chomped and how deep it is
indented, in either order. -/
def header : List Char → Option (Chomping × Option Nat × List Char)
  | '+' :: rest => depth .keep rest
  | '-' :: rest => depth .strip rest
  | d :: rest =>
    if '1' ≤ d ∧ d ≤ '9' then
      let n := d.toNat - '0'.toNat
      match rest with
      | '+' :: rest => some (.keep, some n, rest)
      | '-' :: rest => some (.strip, some n, rest)
      | rest => some (.clip, some n, rest)
    else if d = '0' then none
    else some (.clip, none, d :: rest)
  | [] => some (.clip, none, [])
where
  depth (chomping : Chomping) : List Char → Option (Chomping × Option Nat × List Char)
    | d :: rest =>
      if '1' ≤ d ∧ d ≤ '9' then some (chomping, some (d.toNat - '0'.toNat), rest)
      else if d = '0' then none
      else some (chomping, none, d :: rest)
    | [] => some (chomping, none, [])

/-- What follows the header line, on which only a comment may stand. -/
def behindHeader (chars : List Char) : Option (List Char) :=
  if !atBlank chars then none
  else
    match chars.dropWhile (· = ' ') with
    | [] => some []
    | c :: rest =>
      if isBreak c then some rest
      else if c = '#' then some ((c :: rest).dropWhile (!isBreak ·) |>.drop 1)
      else none

/-- The column behind a line end that stands at `column`. Only a line feed goes back to the first
column. -/
def columnBehind (column : Nat) (c : Char) : Nat :=
  if c = '\n' then 0 else column + 1

/-- The column of the deepest indentation in front of the first line that holds text. -/
def deepest : Nat → List Char → Nat
  | _, [] => 0
  | column, c :: rest =>
    if c = ' ' then max (column + 1) (deepest (column + 1) rest)
    else if isBreak c then deepest (columnBehind column c) rest
    else 0

/-- The line ends in front of the next line that holds text, and what follows them and as much
indentation as the block has. -/
def breaks (indent : Nat) : Nat → List Char → List Char × List Char
  | _, [] => ([], [])
  | column, c :: rest =>
    if c = ' ' ∧ column < indent then breaks indent (column + 1) rest
    else if isBreak c then
      let (others, last) := breaks indent (columnBehind column c) rest
      (breakText c :: others, last)
    else ([], c :: rest)

/-- Holds where a line of the block goes on: text stands at its indentation. -/
def continues (indent : Nat) (p : Place) : Bool :=
  p.column = indent && !p.rest.isEmpty

/-- The lines of a block, from behind the indentation of one of them. A block that may stand at
the first column is ended by a document marker there. -/
def lines (fold : Bool) (chomping : Chomping) (least indent : Nat) (p : Place) :
    List Char × Place :=
  let line := p.rest.takeWhile (!isBreak ·)
  let leading := !(p.rest.head?.any isSpaceOrTab)
  let lineEnd := p.skip line.length
  match lineEnd.rest with
  | [] => (line, lineEnd)
  | c :: _ =>
    let behind := lineEnd.next
    let (others, rest) := breaks indent behind.column behind.rest
    let next := behind.upTo rest
    let isMarked := least = 0 && next.column = 0 && atMarker next.rest
    if h : continues indent next ∧ !isMarked ∧ next.rest.length < p.rest.length then
      let (text, last) := lines fold chomping least indent next
      let join :=
        if fold ∧ breakText c = '\n' ∧ leading ∧ !(next.rest.head?.any isSpaceOrTab) then
          if others = [] then [' '] else []
        else [breakText c]
      (line ++ join ++ others ++ text, last)
    else
      match chomping with
      | .strip => (line, next)
      | .clip => (line ++ [breakText c], next)
      | .keep => (line ++ breakText c :: others, next)
termination_by p.rest.length
decreasing_by exact h.2.2

/-- A block scalar, from behind its indicator. Without a depth in the header, its first line that
holds text tells how deep it is indented, at least by `least`; with one, it is indented so much
deeper than the block around it, at the second column if there is none. -/
def scan (fold : Bool) (least : Nat) (p : Place) : Option (List Char × Place) := do
  let (chomping, depth, rest) ← header p.rest
  let start := p.upTo (← behindHeader rest)
  let (least, indent) := match depth with
    | some n => (max least 1, max least 1 + n - 1)
    | none => (least, max least (deepest start.column start.rest))
  let (others, rest) := breaks indent start.column start.rest
  let first := start.upTo rest
  if continues indent first then
    let (text, last) := lines fold chomping least indent first
    return (others ++ text, last)
  else
    match chomping with
    | .keep => return (others, first)
    | _ => return ([], first)

end Block

end TagTemplate.Yaml
