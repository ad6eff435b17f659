import TagTemplate.Node.Basic
import TagTemplate.Number.Shortest
import TagTemplate.Text.Utf8

/-!
# One line for each node

The description of a node shows its kind and what it holds. It leaves out where the node stands,
and of a body only tells whether there is one.
-/

namespace TagTemplate

namespace Node

mutual

def describe : Node → String
  | raw data _ => "Raw: `" ++ data.text ++ "`"
  | tag name parameters body _ =>
    "Tag: " ++ name.describe ++ "(" ++ ", ".intercalate (describeEach parameters) ++ ") Body: " ++
      (if body.isSome then "True" else "False")
  | identifier name _ => "`" ++ name ++ "`"
  | int value _ => "c:" ++ toString value
  | double value _ => "c:" ++ value.text
  | string template _ => "c:(" ++ ", ".intercalate (describeEach template) ++ ")"
  | expression operator left right _ =>
    "Expr: (" ++ left.describe ++ " " ++ operator.name ++ " " ++ right.describe ++ ")"

def describeEach : List Node → List String
  | [] => []
  | node :: nodes => node.describe :: describeEach nodes

end

def describeAll (nodes : List Node) : String :=
  "\n".intercalate (nodes.map describe)

end Node

end TagTemplate
