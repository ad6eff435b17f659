import TagTemplate.Number.Binary64

/-!
# Data of a settings file

A value is what a settings file or a caller may give for options: nothing, a truth value, a
number, a text, a date, or values in a list or a mapping. A tuple is a list that stands as a key. Of
a value of any other kind, such as a time stamp, binary data, a set or a list that holds itself,
only the name of its type and its texts are known. Two keys are the same if they are equal as
numbers, a truth value counting as zero or one, or equal as texts, dates or tuples.
-/

namespace TagTemplate

inductive Value
  | null
  | bool (value : Bool)
  | int (value : Int)
  | double (value : Binary64)
  | text (value : String)
  | date (year month day : Nat)
  | list (items : List Value)
  | tuple (items : List Value)
  | mapping (entries : List (Value × Value))
  /-- The texts are the literal and the plain text, and there are none if it cannot be written. -/
  | other (type : String) (texts? : Option (String × String))

namespace Value

/-- The whole number that a value is equal to, if there is one. -/
def integer? : Value → Option Int
  | bool b => some (if b then 1 else 0)
  | int n => some n
  | double x => x.integer?
  | _ => none

mutual

def sameKey : Value → Value → Bool
  | null, null => true
  | text s, text t => s = t
  | date y m d, date y' m' d' => y = y' && m = m' && d = d'
  | tuple a, tuple b => sameKeys a b
  | double x, double y => x.sameNumber y
  | x, y =>
    match x.integer?, y.integer? with
    | some m, some n => m = n
    | _, _ => false

def sameKeys : List Value → List Value → Bool
  | [], [] => true
  | a :: as, b :: bs => a.sameKey b && sameKeys as bs
  | _, _ => false

end

mutual

def isKey : Value → Bool
  | list _ => false
  | mapping _ => false
  | tuple items => areKeys items
  | _ => true

def areKeys : List Value → Bool
  | [] => true
  | item :: items => item.isKey && areKeys items

end

/-- The entry of a mapping under a text. -/
def entry? (entries : List (Value × Value)) (key : String) : Option Value :=
  (entries.find? fun (k, _) => k.sameKey (text key)).map (·.2)

/-- The entries with `value` under `key`, at the place of an earlier entry with that key. -/
def insert (key value : Value) (entries : List (Value × Value)) : List (Value × Value) :=
  if entries.any (·.1.sameKey key) then
    entries.map fun (k, v) => if k.sameKey key then (k, value) else (k, v)
  else entries ++ [(key, value)]

def haveDistinctKeys : List (Value × Value) → Bool
  | [] => true
  | (key, _) :: entries => !entries.any (·.1.sameKey key) && haveDistinctKeys entries

end Value

end TagTemplate
