import TagTemplate.Node.Basic

/-!
# Equality of nodes

Nodes are equal if they are of one kind and agree in what they hold and in where they stand. All
empty stretches of one line and column are the same, and the two zeros are equal.
-/

namespace TagTemplate

/-- Stretches are compared by the places they hold. -/
def Source.same (s t : Source) : Bool :=
  s.line = t.line && s.column = t.column &&
    ((s.isEmpty && t.isEmpty) || (s.start = t.start && s.stop = t.stop))

namespace Node

mutual

def same : Node → Node → Bool
  | raw data s, raw data' s' => data = data' && s.same s'
  | tag name parameters body s, tag name' parameters' body' s' =>
    name.same name' && sameEach parameters parameters' && sameBody body body' && s.same s'
  | identifier name s, identifier name' s' => name = name' && s.same s'
  | int value s, int value' s' => value = value' && s.same s'
  | double value s, double value' s' => value.sameNumber value' && s.same s'
  | string template s, string template' s' => sameEach template template' && s.same s'
  | expression operator left right s, expression operator' left' right' s' =>
    operator = operator' && left.same left' && right.same right' && s.same s'
  | _, _ => false

def sameEach : List Node → List Node → Bool
  | [], [] => true
  | a :: as, b :: bs => a.same b && sameEach as bs
  | _, _ => false

def sameBody : Option (List Node) → Option (List Node) → Bool
  | none, none => true
  | some as, some bs => sameEach as bs
  | _, _ => false

end

/-- The list without the nodes that equal an earlier one. -/
def distinct (nodes : List Node) : List Node :=
  nodes.foldl (fun kept node => if kept.any (·.same node) then kept else kept ++ [node]) []

end Node

end TagTemplate
