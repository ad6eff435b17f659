import TagTemplate.Options.Basic
import TagTemplate.Value.Literal

/-!
# Options from data

Options are given as a mapping from their names to values, or as nothing, which stands for the
standard options. Of several faults the first one in this order is reported: no mapping, unknown
names, a bad sigil, a bad choice of bodies. The message of a fault shows the values that are wrong.
If one of them cannot be written, there is no message, and the failure to write it is all that
comes out.
-/

namespace TagTemplate

inductive OptionsError
  | notMapping (value : Value)
  /-- The keys that name no option. -/
  | unknown (keys : List Value)
  | sigilNotAscii (value : Value)
  | sigilReserved (value : Value)
  | balancedNotBool (value : Value)

/-- What the user is told. Unknown keys stand in the order of code points. -/
def OptionsError.message? : OptionsError → Option String
  | notMapping value => some ("expected mapping, got " ++ value.typeName)
  | unknown keys =>
    (keys.mapM Value.plain?).map fun names =>
      "unknown option(s): " ++ ", ".intercalate (names.mergeSort fun a b => decide (a ≤ b))
  | sigilNotAscii value =>
    value.literal?.map ("sigil: expected a single ASCII character, got " ++ ·)
  | sigilReserved value =>
    value.literal?.map fun text => "sigil: " ++ text ++ " is reserved by the tag grammar"
  | balancedNotBool value => value.literal?.map ("balanced_bodies: expected bool, got " ++ ·)

namespace Options

def names : List String := ["sigil", "balanced_bodies"]

def isName : Value → Bool
  | .text s => names.contains s
  | _ => false

def unknownKeys (entries : List (Value × Value)) : List Value :=
  (entries.map (·.1)).filter (!isName ·)

/-- The entries of a mapping that names options only. -/
def entries (data : Value) : Except OptionsError (List (Value × Value)) :=
  match data with
  | .mapping entries =>
    match unknownKeys entries with
    | [] => .ok entries
    | keys => .error (.unknown keys)
  | data => .error (.notMapping data)

def sigilOfValue (value : Value) : Except OptionsError Sigil :=
  match value with
  | .text s =>
    match s.toList with
    | [c] =>
      if c.toNat < 0x80 then
        match Sigil.ofByte? c.toUInt8 with
        | some sigil => .ok sigil
        | none => .error (.sigilReserved value)
      else .error (.sigilNotAscii value)
    | _ => .error (.sigilNotAscii value)
  | _ => .error (.sigilNotAscii value)

def balancedOfValue : Value → Except OptionsError Bool
  | .bool b => .ok b
  | value => .error (.balancedNotBool value)

/-- The options that entries give, the standard ones where an entry lacks. -/
def ofEntries (entries : List (Value × Value)) : Except OptionsError Options := do
  let sigil ← ((Value.entry? entries "sigil").map sigilOfValue).getD (.ok standard.sigil)
  let balanced ← ((Value.entry? entries "balanced_bodies").map balancedOfValue).getD
    (.ok standard.balancedBodies)
  return ⟨sigil, balanced⟩

def ofValue (data : Value) : Except OptionsError Options :=
  match data with
  | .null => .ok standard
  | data => do ofEntries (← entries data)

end Options

end TagTemplate
