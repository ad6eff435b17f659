import TagTemplate.Cursor
import TagTemplate.Delimited
import TagTemplate.Template.Event

/-!
# Steps of reading at a cursor

A scan starts at a cursor and ends at one, with a value or a failure, and records events on its
way. Where it fails the cursor stays at the place it has come to.
-/

namespace TagTemplate

/-- The end of a scan that fails with an `ε` or gives an `α`. -/
structure Step (ε α : Type) where
  outcome : Except ε α
  cursor : Cursor
  trace : List Event

/-- The same end, with the events that came before. -/
def Step.after {ε α : Type} (earlier : List Event) (s : Step ε α) : Step ε α :=
  ⟨s.outcome, s.cursor, earlier ++ s.trace⟩

def Scan (α : Type) : Type :=
  Cursor → Step Failure α

namespace Scan

variable {α β : Type}

protected def pure (a : α) : Scan α := fun c => ⟨.ok a, c, []⟩

protected def bind (s : Scan α) (f : α → Scan β) : Scan β := fun c =>
  match s c with
  | ⟨.ok a, c', trace⟩ => (f a c').after trace
  | ⟨.error e, c', trace⟩ => ⟨.error e, c', trace⟩

instance : Monad Scan where
  pure := Scan.pure
  bind := Scan.bind

def fail (fault : Fault) : Scan α := fun c => ⟨.error (.bare fault), c, []⟩

def position : Scan Position := fun c => ⟨.ok c.position, c, []⟩

def peek : Scan (Option Byte) := fun c => ⟨.ok c.peek, c, []⟩

def pop : Scan Byte := fun c =>
  match c.rest with
  | [] => ⟨.error (.bare .endOfInput), c, []⟩
  | b :: rest => ⟨.ok b, ⟨c.position.next b, rest⟩, []⟩

/-- Takes the byte `b`, and nothing if another one is next. -/
def expect (b : Byte) : Scan Unit := do
  match ← peek with
  | none => fail .endOfInput
  | some actual =>
    if actual = b then discard pop
    else fail (.unexpectedByte (some b) (some actual) none)

/-- Takes the longest run of bytes that satisfy `p`. -/
def run (p : Byte → Bool) : Scan Bytes := fun c =>
  let taken := c.rest.takeWhile p
  ⟨.ok taken, c.skip taken.length, []⟩

def skipSpaces : Scan Unit :=
  discard (run (· = Byte.space))

/-- Takes a passage up to its delimiter and gives its content. -/
def upTo (delimiter : Byte) (opener : Option Byte) : Scan Bytes := fun c =>
  let passage := delimited delimiter opener c.rest
  ⟨.ok passage.content, c.skip passage.written.length, []⟩

def record (e : Event) : Scan Unit := fun c => ⟨.ok (), c, [e]⟩

/-- The outcome of reading another buffer. An error in it keeps its place there. -/
def inside (reading : Reading) : Scan (List Node) := fun c =>
  ⟨reading.result.mapError .located, c, reading.trace⟩

/-- The scan `s` with `s = body s`, for a body that uses `s` only behind the place where it
starts: a use that has taken no byte fails. -/
def fix (body : Scan α → Scan α) (c : Cursor) : Step Failure α :=
  body (fun c' => if c'.rest.length < c.rest.length then fix body c' else fail .endOfInput c') c
termination_by c.rest.length

end Scan

end TagTemplate
