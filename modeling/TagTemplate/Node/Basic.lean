import TagTemplate.Number.Binary64
import TagTemplate.Position

/-!
# Nodes of a template

A template is a list of raw passages and tags. A parameter of a tag is an identifier, a number,
a string or an expression, and a string holds a template of its own, as the body of a tag does.
Each node carries the stretch that it covers in its own buffer.
-/

namespace TagTemplate

inductive Operator
  | add
  | subtract
  | lessThan
  | greaterThan
  deriving DecidableEq

namespace Operator

def byte : Operator → Byte
  | add => Byte.plus
  | subtract => Byte.hyphen
  | lessThan => Byte.lessThan
  | greaterThan => Byte.greaterThan

def name : Operator → String
  | add => "add"
  | subtract => "subtract"
  | lessThan => "lessThan"
  | greaterThan => "greaterThan"

def all : List Operator :=
  [add, subtract, lessThan, greaterThan]

def ofByte? (b : Byte) : Option Operator :=
  all.find? (·.byte = b)

@[simp] theorem ofByte?_byte (op : Operator) : ofByte? op.byte = some op := by
  cases op <;> rfl

theorem ofByte?_eq_some_iff {b : Byte} {op : Operator} : ofByte? b = some op ↔ b = op.byte := by
  constructor
  · intro h
    have hFound := List.find?_some h
    exact (of_decide_eq_true hFound).symm
  · rintro rfl
    exact ofByte?_byte op

end Operator

inductive Node
  | raw (data : Bytes) (source : Source)
  | tag (name : Node) (parameters : List Node) (body : Option (List Node)) (source : Source)
  | identifier (name : String) (source : Source)
  | int (value : Int) (source : Source)
  | double (value : Binary64) (source : Source)
  | string (template : List Node) (source : Source)
  | expression (operator : Operator) (left right : Node) (source : Source)

namespace Node

def source : Node → Source
  | raw _ s => s
  | tag _ _ _ s => s
  | identifier _ s => s
  | int _ s => s
  | double _ s => s
  | string _ s => s
  | expression _ _ _ s => s

def withSource (s : Source) : Node → Node
  | raw data _ => raw data s
  | tag name parameters body _ => tag name parameters body s
  | identifier name _ => identifier name s
  | int value _ => int value s
  | double value _ => double value s
  | string template _ => string template s
  | expression operator left right _ => expression operator left right s

end Node

end TagTemplate
