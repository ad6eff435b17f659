import TagTemplate.Node.Basic

/-!
# Trees of a template

A tree is what is left of a node when every stretch that it covers is forgotten.
-/

namespace TagTemplate

inductive Tree
  | raw (data : Bytes)
  | tag (name : Tree) (parameters : List Tree) (body : Option (List Tree))
  | identifier (name : String)
  | int (value : Int)
  | double (value : Binary64)
  | string (template : List Tree)
  | expression (operator : Operator) (left right : Tree)

namespace Tree

section

variable (P : Bytes → Prop)

mutual

/-- Holds where `P` holds of the data of all raw passages in the tree, at any depth. -/
def EachRaw : Tree → Prop
  | raw data => P data
  | tag name parameters body => EachRaw name ∧ EachRawAmong parameters ∧ EachRawInBody body
  | identifier _ | int _ | double _ => True
  | string template => EachRawAmong template
  | expression _ left right => EachRaw left ∧ EachRaw right

def EachRawAmong : List Tree → Prop
  | [] => True
  | t :: ts => EachRaw t ∧ EachRawAmong ts

def EachRawInBody : Option (List Tree) → Prop
  | none => True
  | some ts => EachRawAmong ts

end

end

mutual

theorem eachRaw_true : ∀ t : Tree, EachRaw (fun _ => True) t
  | raw _ | identifier _ | int _ | double _ => trivial
  | tag name parameters body =>
    ⟨eachRaw_true name, eachRawAmong_true parameters, eachRawInBody_true body⟩
  | string template => eachRawAmong_true template
  | expression _ left right => ⟨eachRaw_true left, eachRaw_true right⟩

theorem eachRawAmong_true : ∀ ts : List Tree, EachRawAmong (fun _ => True) ts
  | [] => trivial
  | t :: ts => ⟨eachRaw_true t, eachRawAmong_true ts⟩

theorem eachRawInBody_true : ∀ body : Option (List Tree), EachRawInBody (fun _ => True) body
  | none => trivial
  | some ts => eachRawAmong_true ts

end

end Tree

namespace Node

mutual

def tree : Node → Tree
  | raw data _ => .raw data
  | tag name parameters body _ => .tag name.tree (trees parameters) (bodyTrees body)
  | identifier name _ => .identifier name
  | int value _ => .int value
  | double value _ => .double value
  | string template _ => .string (trees template)
  | expression operator left right _ => .expression operator left.tree right.tree

def trees : List Node → List Tree
  | [] => []
  | node :: nodes => node.tree :: trees nodes

def bodyTrees : Option (List Node) → Option (List Tree)
  | none => none
  | some nodes => some (trees nodes)

end

end Node

end TagTemplate
