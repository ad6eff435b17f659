import TagTemplate.Fault
import TagTemplate.Node.Basic

/-!
# What happens while a template is read

The reader records each text that it cuts out to read on its own, and the error that ends it.
-/

namespace TagTemplate

/-- The constructs that hold a template of their own. -/
inductive Enclosure
  | body
  | string
  deriving DecidableEq

def Enclosure.name : Enclosure → String
  | body => "body"
  | string => "string"

inductive Event
  | nested (enclosure : Enclosure) (size : Nat)
  | failed (error : ParseError)
  deriving DecidableEq

def Event.message : Event → String
  | nested enclosure size => s!"Parsing nested {enclosure.name} ({size} bytes)"
  | failed e =>
    s!"Parse failed at {e.source.line}:{e.source.column} " ++
      s!"(bytes {e.source.start}..{e.source.stop}): {e.cause.message}"

/-- What comes of reading a whole buffer. -/
structure Reading where
  result : Except ParseError (List Node)
  trace : List Event

end TagTemplate
