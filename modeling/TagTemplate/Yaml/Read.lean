import TagTemplate.Value.Basic
import TagTemplate.Yaml.Node

/-!
# Values of a settings text

A plain scalar stands for a truth value, a number, a date or nothing if it is written like one, and
for its text otherwise. A mapping has no key twice, but may merge other mappings, whose entries its
own ones replace. A list may stand as a key, a mapping may not.

Options are loaded through any reader of settings, and what is known of them holds for all readers.
This is the one that a program may pass: it reads plain and quoted scalars, block and flow
collections and merged mappings, and refuses tags and aliases.
-/

namespace TagTemplate.Yaml

/-- The spellings of truth values and of nothing. -/
def words : List (String × Value) :=
  [("true", .bool true), ("True", .bool true), ("TRUE", .bool true),
    ("false", .bool false), ("False", .bool false), ("FALSE", .bool false),
    ("", .null), ("~", .null), ("null", .null), ("Null", .null), ("NULL", .null)]

/-- The plain scalars that have a meaning for the format itself and stand for no value. -/
def signs : List String := ["=", "<<"]

/-- The text behind an optional sign. -/
def unsigned : List Char → List Char
  | '+' :: text => text
  | '-' :: text => text
  | text => text

/-- A whole number: an optional sign, then decimal digits with underscores among them, or digits
of another base behind its mark. -/
def integer? (text : List Char) : Option Int := do
  let natural? (base : Nat) (digits : List Char) : Option Nat :=
    Decimal.natural? base (digits.filter (· ≠ '_'))
  let n ← match unsigned text with
    | '0' :: 'b' :: digits => natural? 2 digits
    | '0' :: 'o' :: digits => natural? 8 digits
    | '0' :: 'x' :: digits => natural? 16 digits
    | digits => natural? 10 digits
  if text.head? = some '_' then none
  else return if text.head? = some '-' then -(n : Int) else n

/-- Digits with underscores among them. -/
def isDigits (text : List Char) : Bool :=
  text.all fun c => c.isDigit || c = '_'

def isExponent (signed : Bool) (text : List Char) : Bool :=
  (!signed || text.head?.any fun c => c = '+' || c = '-') &&
    !(unsigned text).isEmpty && (unsigned text).all (·.isDigit)

/-- Holds of numbers with a point, an exponent or both: digits may lack on one side of the point,
and an exponent of a number without digits in front of the point needs a sign. -/
def isFraction (text : List Char) : Bool :=
  let (mantissa, exponent) := text.span fun c => c ≠ 'e' && c ≠ 'E'
  let (whole, fraction) := mantissa.span (· ≠ '.')
  isDigits whole && isDigits (fraction.drop 1) &&
    (if whole = [] then 1 < fraction.length else whole.head?.any (·.isDigit)) &&
    (if exponent = [] then fraction ≠ [] else isExponent (whole = []) (exponent.drop 1))

def double? (text : List Char) : Option Binary64 :=
  let negative := text.head? = some '-'
  if [".inf", ".Inf", ".INF"].contains (String.ofList (unsigned text)) then
    some (.signed negative .infinity)
  else if [".nan", ".NaN", ".NAN"].contains (String.ofList text) then some .nan
  else if isFraction (unsigned text) then Binary64.read? (text.filter (· ≠ '_'))
  else none

def isDay (year month day : Nat) : Bool :=
  let isLeap := year % 4 = 0 && (year % 100 ≠ 0 || year % 400 = 0)
  let days := if month = 2 then (if isLeap then 29 else 28)
    else if [4, 6, 9, 11].contains month then 30 else 31
  1 ≤ year && 1 ≤ month && month ≤ 12 && 1 ≤ day && day ≤ days

/-- Year, month and day, in four, two and two digits. -/
def date? : List Char → Option (Nat × Nat × Nat)
  | [a, b, c, d, '-', e, f, '-', g, h] => do
    return (← Decimal.natural? 10 [a, b, c, d], ← Decimal.natural? 10 [e, f],
      ← Decimal.natural? 10 [g, h])
  | _ => none

/-- What a plain scalar stands for. What is written like a date has to be a day. -/
def plain? (text : List Char) : Option Value :=
  let name := String.ofList text
  if signs.contains name then none
  else
    match words.lookup name, double? text, integer? text, date? text with
    | some value, _, _, _ => some value
    | none, some x, _, _ => some (.double x)
    | none, none, some n, _ => some (.int n)
    | none, none, none, some (year, month, day) =>
      if isDay year month day then some (.date year month day) else none
    | none, none, none, none => some (.text name)

/-- A value as a key, a list being frozen into a tuple. -/
def key? (value : Value) : Option Value :=
  let frozen := match value with
    | .list items => .tuple items
    | value => value
  if frozen.isKey then some frozen else none

/-- The entries of a mapping, those that are merged into it apart. -/
structure Entries where
  /-- Whether the mapping has a key that merges. -/
  merges : Bool
  merged : List (Value × Value)
  own : List (Value × Value)

namespace Entries

def all (e : Entries) : List (Value × Value) :=
  e.merged ++ e.own

/-- The mapping. Where entries are merged into it a later entry replaces an earlier one, and
otherwise no key may stand twice. -/
def mapping? (e : Entries) : Option Value :=
  if e.merged.isEmpty then if Value.haveDistinctKeys e.own then some (.mapping e.own) else none
  else some (.mapping (e.all.foldl (fun entries (k, v) => Value.insert k v entries) []))

/-- The entries behind a key that merges `others`. Only one such key may bring entries, and no
such key may follow it. -/
def merge? (others : List (Value × Value)) (e : Entries) : Option Entries :=
  if e.merges && !others.isEmpty then none
  else some ⟨true, others ++ e.merged, e.own⟩

end Entries

/-- Holds of the key that merges the mappings behind it. -/
def isMerge : Node → Bool
  | .scalar true ['<', '<'] => true
  | _ => false

mutual

def value? : Node → Option Value
  | .scalar true text => plain? text
  | .scalar false text => some (.text (String.ofList text))
  | .sequence items => (values? items).map .list
  | .mapping entries => do (← entries? entries).mapping?

def values? : List Node → Option (List Value)
  | [] => some []
  | item :: items => do return (← value? item) :: (← values? items)

def entries? : List (Node × Node) → Option Entries
  | [] => some ⟨false, [], []⟩
  | entry :: entries => do addEntry? entry (← entries? entries)

/-- The entries with one more in front. -/
def addEntry? : Node × Node → Entries → Option Entries
  | (key, value), e =>
    if isMerge key then do e.merge? (← merged? value)
    else do return { e with own := (← keyOf? key, ← value? value) :: e.own }

/-- The key that a node stands for. The equals sign is a plain text there. -/
def keyOf? : Node → Option Value
  | .scalar true ['='] => some (.text "=")
  | node => do key? (← value? node)

/-- The entries that a mapping, or a list of mappings, brings to another one. -/
def merged? : Node → Option (List (Value × Value))
  | .scalar _ _ => none
  | .sequence items => mergedAll? items
  | .mapping entries => do return (← entries? entries).all

/-- The entries that mappings bring to another one, those of the last first. -/
def mergedAll? : List Node → Option (List (Value × Value))
  | [] => some []
  | item :: items => do return (← mergedAll? items) ++ (← mergedItem? item)

def mergedItem? : Node → Option (List (Value × Value))
  | .mapping entries => do return (← entries? entries).all
  | _ => none

end

/-- The value that a text of settings holds, nothing if it holds no document. -/
def read? (text : String) : Option Value := do
  match ← Node.ofTokens? (← Token.scan text.toList) with
  | none => return .null
  | some node => value? node

end TagTemplate.Yaml
