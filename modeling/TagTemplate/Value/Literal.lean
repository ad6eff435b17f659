import TagTemplate.Number.Shortest
import TagTemplate.Text.Quoted
import TagTemplate.Value.Basic

/-!
# Values in messages

A message shows a value by its literal or as plain text, and names it by its type. A whole number of
too many digits is not written, and neither is what holds one.
-/

namespace TagTemplate

namespace Value

mutual

def literal? : Value → Option String
  | null => some "None"
  | bool b => some (if b then "True" else "False")
  | int n => if Decimal.length n.natAbs ≤ Decimal.maxDigits then some (toString n) else none
  | double x => some x.text
  | text s => some (quoted s)
  | date year month day => some s!"datetime.date({year}, {month}, {day})"
  | list items => (literals? items).map fun texts => "[" ++ ", ".intercalate texts ++ "]"
  | tuple items =>
    (literals? items).map fun texts =>
      "(" ++ ", ".intercalate texts ++ (if items.length = 1 then ",)" else ")")
  | mapping entries =>
    (entryLiterals? entries).map fun texts => "\x7b" ++ ", ".intercalate texts ++ "\x7d"
  | other _ texts? => texts?.map (·.1)

def literals? : List Value → Option (List String)
  | [] => some []
  | item :: items => do return (← item.literal?) :: (← literals? items)

def entryLiterals? : List (Value × Value) → Option (List String)
  | [] => some []
  | entry :: entries => do return (← entryLiteral? entry) :: (← entryLiterals? entries)

def entryLiteral? : Value × Value → Option String
  | (key, value) => do return (← key.literal?) ++ ": " ++ (← value.literal?)

end

/-- A number in at least `width` digits. -/
def padded (width n : Nat) : String :=
  let digits := Nat.toDigits 10 n
  String.ofList (List.replicate (width - digits.length) '0' ++ digits)

/-- The value as plain text: a text stands for itself, and a date for its year, month and day. -/
def plain? : Value → Option String
  | text s => some s
  | date year month day =>
    some (padded 4 year ++ "-" ++ padded 2 month ++ "-" ++ padded 2 day)
  | other _ texts? => texts?.map (·.2)
  | value => value.literal?

def typeName : Value → String
  | null => "NoneType"
  | bool _ => "bool"
  | int _ => "int"
  | double _ => "float"
  | text _ => "str"
  | date _ _ _ => "date"
  | list _ => "list"
  | tuple _ => "tuple"
  | mapping _ => "dict"
  | other type _ => type

end Value

end TagTemplate
