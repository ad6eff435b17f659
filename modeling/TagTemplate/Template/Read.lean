import TagTemplate.Template.Element

/-!
# Reading a template

A buffer is read element by element up to its end. A fault in an element ends the reading with
an error that covers the stretch from the start of the element to where the fault was found. The
texts that are cut out of the buffer are shorter than it, and are read in the same way.
-/

namespace TagTemplate

namespace Template

section

variable (options : Options) (nested : Bytes → Reading)

/-- The next element, with a place for its fault. An error of a nested buffer has one already,
and was recorded there. -/
def locatedElement (c : Cursor) : Step ParseError (Option Node) :=
  let s := element options nested c
  match s.outcome with
  | .ok node? => ⟨.ok node?, s.cursor, s.trace⟩
  | .error (.located e) => ⟨.error e, s.cursor, s.trace⟩
  | .error (.bare fault) =>
    let e : ParseError := ⟨c.position.upTo s.cursor.position, fault⟩
    ⟨.error e, s.cursor, s.trace ++ [.failed e]⟩

def elements (c : Cursor) : Step ParseError (List Node) :=
  let s := locatedElement options nested c
  match s.outcome with
  | .error e => ⟨.error e, s.cursor, s.trace⟩
  | .ok none => ⟨.ok [], s.cursor, s.trace⟩
  | .ok (some node) =>
    if s.cursor.rest.length < c.rest.length then
      let others := elements s.cursor
      ⟨others.outcome.map (node :: ·), others.cursor, s.trace ++ others.trace⟩
    else ⟨.ok [node], s.cursor, s.trace⟩
termination_by c.rest.length

end

def read (options : Options) (buffer : Bytes) : Reading :=
  let s := elements options
    (fun text => if text.length < buffer.length then read options text else ⟨.ok [], []⟩)
    (Cursor.start buffer)
  ⟨s.outcome, s.trace⟩
termination_by buffer.length

/-- The elements from a cursor on, which may stand anywhere in its buffer. -/
def readFrom (options : Options) (c : Cursor) : Step ParseError (List Node) :=
  elements options (read options) c

end Template

end TagTemplate
