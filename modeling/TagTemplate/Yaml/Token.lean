import TagTemplate.Yaml.Scalar

/-!
# Tokens of a settings text

A text is cut into scalars and indicators. Indentation becomes tokens too: a deeper column opens
a block and a shallower one closes it. A scalar or a bracket may turn out to be a key when a colon
follows it on its line, and a key token is then put in front of it.
-/

namespace TagTemplate.Yaml

inductive Token
  | documentStart
  | documentEnd
  | blockSequence
  | blockMapping
  | blockEnd
  | openBracket
  | closeBracket
  | openBrace
  | closeBrace
  | dash
  | comma
  | key
  | value
  /-- The tag that asks for a scalar to be read as if it were plain. -/
  | plainTag
  | scalar (plain : Bool) (text : List Char)
  deriving DecidableEq

namespace Token

/-- The two brackets of flow collections, by their opening tokens. -/
inductive Bracket
  | sequence
  | mapping
  deriving DecidableEq

/-- What may become a key: the number of tokens in front of it and where it starts. In a block
that continues at its column it has to become one. -/
structure Candidate where
  tokens : Nat
  required : Bool
  index : Nat
  line : Nat
  column : Nat

structure State where
  place : Place
  /-- The column of the innermost block, and -1 outside all blocks. -/
  indent : Int
  outer : List Int
  /-- Whether a key may start here. -/
  keyAllowed : Bool
  /-- What may become a key inside the innermost bracket. -/
  candidate : Option Candidate
  /-- The open brackets, each with what could become a key around it. -/
  brackets : List (Bracket × Option Candidate)
  /-- The tokens so far, the last one first. -/
  reversed : List Token

namespace State

def start (text : List Char) : State :=
  ⟨Place.start text, -1, [], true, none, [], []⟩

def inFlow (s : State) : Bool := !s.brackets.isEmpty

def emit (t : Token) (s : State) : State :=
  { s with reversed := t :: s.reversed }

def forward (n : Nat) (s : State) : State :=
  { s with place := s.place.skip n }

/-- How many characters of a gap to pass, and whether a line ends in it. Tabs count as blanks in
brackets only. -/
def gap (flow : Bool) : Bool → List Char → Nat × Bool
  | _, [] => (0, false)
  | comment, c :: rest =>
    if isBreak c then ((gap flow false rest).1 + 1, true)
    else if comment || c = '#' then
      let (n, broken) := gap flow true rest
      (n + 1, broken)
    else if c = ' ' || (flow && c = '\t') then
      let (n, broken) := gap flow false rest
      (n + 1, broken)
    else (0, false)

/-- Passes blanks, comments and line ends. A key may start on a new line. -/
def passGap (s : State) : State :=
  let (n, broken) := gap s.inFlow false s.place.rest
  let s := s.forward n
  if broken && !s.inFlow then { s with keyAllowed := true } else s

/-- Holds of what can no longer become a key: its line has ended or is too long. -/
def isStale (s : State) (c : Candidate) : Bool :=
  c.line ≠ s.place.line || 1024 < s.place.index - c.index

/-- Drops what can no longer become a key, on every level. -/
def dropStale (s : State) : Option State :=
  let check : Option Candidate → Option (Option Candidate)
    | none => some none
    | some c => if s.isStale c then (if c.required then none else some none) else some (some c)
  do
    let candidate ← check s.candidate
    let brackets ← s.brackets.mapM fun (b, c) => (check c).map fun c => (b, c)
    return { s with candidate, brackets }

/-- Forgets what could become a key, unless it has to. -/
def forget (s : State) : Option State :=
  match s.candidate with
  | some c => if c.required then none else some { s with candidate := none }
  | none => some s

/-- Remembers that what starts here may become a key. -/
def remember (s : State) : Option State :=
  if s.keyAllowed then do
    let required := !s.inFlow && s.indent = s.place.column
    let s ← s.forget
    return { s with
      candidate :=
        some ⟨s.reversed.length, required, s.place.index, s.place.line, s.place.column⟩ }
  else some s

/-- Closes the blocks that are indented deeper than `column`. -/
def unwind (column : Int) (s : State) : State :=
  if s.inFlow then s
  else
    let (deeper, _) := (s.indent :: s.outer).span (column < ·)
    let others := (s.indent :: s.outer).drop deeper.length
    { s with
      indent := others.headD (-1)
      outer := others.drop 1
      reversed := List.replicate deeper.length .blockEnd ++ s.reversed }

/-- Opens a block at `column` if that is deeper than the innermost one, its token standing behind
the first `tokens` tokens. -/
def indentTo (column : Nat) (block : Token) (tokens : Nat) (s : State) : State :=
  if s.indent < column then
    let later := s.reversed.length - tokens
    { s with
      indent := column
      outer := s.indent :: s.outer
      reversed := s.reversed.take later ++ block :: s.reversed.drop later }
  else s

/-- Opens a block here if its indicator is allowed to. -/
def openBlock (block : Token) (s : State) : Option State :=
  if s.inFlow then some s
  else if s.keyAllowed then some (s.indentTo s.place.column block s.reversed.length)
  else none

def documentMarker (t : Token) (s : State) : Option State := do
  let s ← (s.unwind (-1)).forget
  return (({ s with keyAllowed := false }).emit t).forward 3

def opening (b : Bracket) (t : Token) (s : State) : Option State := do
  let s ← s.remember
  let s := { s with
    brackets := (b, s.candidate) :: s.brackets
    candidate := none
    keyAllowed := true }
  return (s.emit t).forward 1

def closing (t : Token) (s : State) : Option State := do
  let s ← s.forget
  match s.brackets with
  | [] => none
  | (_, candidate) :: brackets =>
    let s := { s with candidate, brackets, keyAllowed := false }
    return (s.emit t).forward 1

def separator (s : State) : Option State := do
  let s ← s.forget
  return (({ s with keyAllowed := true }).emit .comma).forward 1

def item (s : State) : Option State := do
  let s ← (← s.openBlock .blockSequence).forget
  return (({ s with keyAllowed := true }).emit .dash).forward 1

def explicitKey (s : State) : Option State := do
  let s ← (← s.openBlock .blockMapping).forget
  return (({ s with keyAllowed := !s.inFlow }).emit .key).forward 1

def valueIndicator (s : State) : Option State :=
  match s.candidate with
  | some c =>
    let later := s.reversed.length - c.tokens
    let s := { s with
      candidate := none
      keyAllowed := false
      reversed := s.reversed.take later ++ Token.key :: s.reversed.drop later }
    let s := if s.inFlow then s else s.indentTo c.column .blockMapping c.tokens
    some ((s.emit .value).forward 1)
  | none => do
    let s ← (← s.openBlock .blockMapping).forget
    return (({ s with keyAllowed := !s.inFlow }).emit .value).forward 1

def quotedScalar (double : Bool) (s : State) : Option State := do
  let s ← s.remember
  let (text, rest) ← Quote.scan double .none none (s.place.rest.drop 1)
  let s := { s with keyAllowed := false, place := s.place.upTo rest }
  return s.emit (.scalar false text)

def blockScalar (fold : Bool) (s : State) : Option State := do
  let s ← s.forget
  let (text, place) ← Block.scan fold (s.indent + 1).toNat s.place.next
  return { s with keyAllowed := true, place }.emit (.scalar false text)

def plainScalar (s : State) : Option State := do
  let s ← s.remember
  let (text, broken, place) := Plain.scan s.inFlow (s.indent + 1) s.place
  return { s with keyAllowed := broken, place }.emit (.scalar true text)

def plainTagToken (s : State) : Option State := do
  let s ← s.remember
  return (({ s with keyAllowed := false }).emit .plainTag).forward 1

/-- Holds while something that encloses this place may still become a key. -/
def isHeld (s : State) : Bool :=
  s.brackets.any (·.2.isSome)

/-- Holds where a colon, with `rest` behind it, is an indicator. In braces it always is, but right
behind another one of a held place it needs a blank behind it. -/
def isValueIndicator (s : State) (held : Bool) (rest : List Char) : Bool :=
  match s.brackets with
  | [] => atBlank rest
  | (.sequence, _) :: _ => atBlank rest
  | (.mapping, _) :: _ => !(held && s.reversed.head? = some .value) || atBlank rest

/-- Holds where a plain scalar can start with `c`, `rest` being behind it. -/
def startsPlain (s : State) (c : Char) (rest : List Char) : Bool :=
  if ['-', '?', ':', ',', '[', ']', '\x7b', '\x7d', '#', '&', '*', '!', '|', '>', '\'', '"',
      '%', '@', '\x60'].contains c || isSpaceOrTab c || isBreak c then
    if c = '-' then !atBlank rest
    else if c = ':' && s.inFlow then !(rest.head?.any isSpaceOrTab)
    else (c = '?' || c = ':') && !s.inFlow && !atBlank rest
  else true

/-- The next token, at the character `c` with `rest` behind it. -/
def fetch (s : State) (held : Bool) (c : Char) (rest : List Char) : Option State :=
  if s.place.column = 0 && c = '%' then none
  else if s.place.column = 0 && c = '-' && atMarker (c :: rest) then s.documentMarker .documentStart
  else if s.place.column = 0 && c = '.' && atMarker (c :: rest) then s.documentMarker .documentEnd
  else if c = '[' then s.opening .sequence .openBracket
  else if c = '\x7b' then s.opening .mapping .openBrace
  else if c = ']' then s.closing .closeBracket
  else if c = '\x7d' then s.closing .closeBrace
  else if c = ',' then s.separator
  else if c = '-' && atBlank rest then s.item
  else if c = '?' && (s.inFlow || atBlank rest) then s.explicitKey
  else if c = ':' && s.isValueIndicator held rest then s.valueIndicator
  else if c = '!' && atBlank rest then s.plainTagToken
  else if c = '|' && !s.inFlow then s.blockScalar false
  else if c = '>' && !s.inFlow then s.blockScalar true
  else if c = '\'' then s.quotedScalar false
  else if c = '"' then s.quotedScalar true
  else if s.startsPlain c rest then s.plainScalar
  else none

/-- The tokens of a text, from a state in the middle of it. -/
def finish (s : State) : Option (List Token) := do
  let s' ← s.dropStale
  let ahead ← s'.passGap.dropStale
  let ahead := ahead.unwind ahead.place.column
  match ahead.place.rest with
  | [] =>
    let last ← (ahead.unwind (-1)).forget
    return last.reversed.reverse
  | c :: rest =>
    let next ← ahead.fetch s'.isHeld c rest
    if next.place.rest.length < s.place.rest.length then finish next else none
termination_by s.place.rest.length

end State

/-- Cuts a text into tokens. The first character may be a byte order mark, which counts as none. -/
def scan (text : List Char) : Option (List Token) :=
  if text.all isTextual then
    match text with
    | '\uFEFF' :: rest => (State.start rest).finish
    | text => (State.start text).finish
  else none

end Token

end TagTemplate.Yaml
