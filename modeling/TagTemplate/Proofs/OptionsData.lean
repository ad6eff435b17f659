import TagTemplate.Proofs.Messages

/-!
# Which data are options

Nothing stands for the standard options, and so does each option that a mapping lacks. A mapping is
taken if its keys name options and each value is one of the option that it stands under. All other
data are refused for the first of their faults, with a message if what it shows is written. As a
mapping has each key once, the order of its entries tells nothing.
-/

namespace TagTemplate

namespace Byte

/-- The parentheses and braces, the quote, the comma, the backslash, the space, the signs of the
four operators and the period. -/
def taken : Bytes :=
  [0x28, 0x29, 0x7B, 0x7D, 0x22, 0x2C, 0x5C, 0x20, 0x2B, 0x2D, 0x3C, 0x3E, 0x2E]

/-- Holds of the bytes that may open a tag. -/
structure IsFree (b : Byte) : Prop where
  low : 0x20 ≤ b
  high : b ≤ 0x7F
  notAlphanumeric : b.isAlphanumeric = false
  notTaken : b ∉ taken

theorem isFree_iff {b : Byte} : b.IsFree ↔ b < 0x80 ∧ b.isReserved = false := by
  have hTaken : taken ⊆ punctuation := by decide
  have hPunctuation : punctuation ⊆ newline :: taken := by decide
  have hHigh : b ≤ 0x7F ↔ b < 0x80 := by
    rw [UInt8.le_iff_toNat_le, UInt8.lt_iff_toNat_lt]
    exact Nat.lt_succ_iff.symm
  simp only [isReserved, List.contains_eq_mem, Bool.or_eq_false_iff, decide_eq_false_iff_not,
    UInt8.not_lt]
  constructor
  · rintro ⟨hLow, hAscii, hOther, hFree⟩
    refine ⟨hHigh.mp hAscii, ⟨fun hMem => ?_, hOther⟩, hLow⟩
    rcases List.mem_cons.mp (hPunctuation hMem) with rfl | hMem
    · exact absurd hLow (by decide)
    · exact hFree hMem
  · rintro ⟨hAscii, ⟨hFree, hOther⟩, hLow⟩
    exact ⟨hLow, hHigh.mpr hAscii, hOther, fun hMem => hFree (hTaken hMem)⟩

theorem IsFree.exists_sigil {b : Byte} (h : b.IsFree) : ∃ sigil : Sigil, sigil.byte = b := by
  obtain ⟨hAscii, hFree⟩ := isFree_iff.mp h
  exact ⟨⟨b, hAscii, hFree⟩, rfl⟩

end Byte

theorem Sigil.isFree (sigil : Sigil) : sigil.byte.IsFree :=
  Byte.isFree_iff.mpr ⟨sigil.isAscii, sigil.notReserved⟩

theorem Sigil.ofByte?_eq_some_iff {b : Byte} {sigil : Sigil} :
    ofByte? b = some sigil ↔ sigil.byte = b := by
  rw [ofByte?]
  split
  · rw [Option.some_inj]
    exact ⟨fun h => h ▸ rfl, fun h => by cases sigil; subst h; rfl⟩
  · rename_i hReserved
    refine ⟨nofun, ?_⟩
    rintro rfl
    exact absurd ⟨sigil.isAscii, sigil.notReserved⟩ hReserved

namespace Value

variable {entries entries' : List (Value × Value)} {key : String} {value value' : Value}

/-- The text of one ASCII character. -/
def character (b : Byte) : Value :=
  .text (String.ofList [b.toChar])

/-- Holds of the keys that name options. -/
def NamesOption (name : Value) : Prop :=
  name = text "sigil" ∨ name = text "balanced_bodies"

theorem isName_iff {name : Value} : Options.isName name = true ↔ name.NamesOption := by
  cases name <;> simp [Options.isName, NamesOption, Options.names]

instance : DecidablePred NamesOption :=
  fun _ => decidable_of_iff _ isName_iff

theorem sameKey_text_iff {name : Value} : name.sameKey (text key) = true ↔ name = text key := by
  cases name <;> simp [sameKey, integer?]

theorem entry?_eq_none_iff : entry? entries key = none ↔ ∀ value, (text key, value) ∉ entries := by
  simp only [Value.entry?, Option.map_eq_none_iff, List.find?_eq_none, sameKey_text_iff,
    Prod.forall]
  exact ⟨fun h value hMem => h _ _ hMem rfl, fun h name value hMem hName => h value (hName ▸ hMem)⟩

theorem mem_of_entry_eq_some (h : entry? entries key = some value) :
    (text key, value) ∈ entries := by
  obtain ⟨⟨name, value'⟩, hFind, rfl⟩ := Option.map_eq_some_iff.mp h
  have hName := List.find?_some hFind
  rw [sameKey_text_iff] at hName
  obtain rfl : name = text key := hName
  exact List.mem_of_find?_eq_some hFind

theorem eq_of_haveDistinctKeys (h : haveDistinctKeys entries = true)
    (hMem : (text key, value) ∈ entries) (hMem' : (text key, value') ∈ entries) :
    value = value' := by
  induction entries with
  | nil => cases hMem
  | cons entry entries ih =>
    obtain ⟨name, first⟩ := entry
    rw [haveDistinctKeys, Bool.and_eq_true, Bool.not_eq_true', List.any_eq_false] at h
    have hOther {value : Value} (hTail : (text key, value) ∈ entries) : name ≠ text key := by
      rintro rfl
      exact h.1 _ hTail (sameKey_text_iff.mpr rfl)
    rcases List.mem_cons.mp hMem with hHead | hTail <;>
      rcases List.mem_cons.mp hMem' with hHead' | hTail'
    · exact (Prod.mk.inj hHead).2.trans (Prod.mk.inj hHead').2.symm
    · exact absurd (Prod.mk.inj hHead).1.symm (hOther hTail')
    · exact absurd (Prod.mk.inj hHead').1.symm (hOther hTail)
    · exact ih h.2 hTail hTail'

theorem entry?_eq_some_iff (h : haveDistinctKeys entries = true) :
    entry? entries key = some value ↔ (text key, value) ∈ entries := by
  refine ⟨mem_of_entry_eq_some, fun hMem => ?_⟩
  cases hEntry : entry? entries key with
  | none => exact absurd hMem (entry?_eq_none_iff.mp hEntry value)
  | some value' => rw [eq_of_haveDistinctKeys h hMem (mem_of_entry_eq_some hEntry)]

theorem entry?_of_perm (h : haveDistinctKeys entries = true) (hPerm : entries.Perm entries') :
    entry? entries' key = entry? entries key := by
  cases hEntry : entry? entries' key with
  | none =>
    rw [eq_comm, entry?_eq_none_iff]
    exact fun value hMem => entry?_eq_none_iff.mp hEntry value (hPerm.mem_iff.mp hMem)
  | some value =>
    exact ((entry?_eq_some_iff h).mpr (hPerm.mem_iff.mpr (mem_of_entry_eq_some hEntry))).symm

end Value

namespace Options

open Value

theorem bind_eq_ok_iff {α β ε : Type} {x : Except ε α} {f : α → Except ε β} {b : β} :
    (x >>= f) = .ok b ↔ ∃ a, x = .ok a ∧ f a = .ok b := by
  cases x <;> simp [bind, Except.bind]

theorem bind_eq_error_iff {α β ε : Type} {x : Except ε α} {f : α → Except ε β} {e : ε} :
    (x >>= f) = .error e ↔ x = .error e ∨ ∃ a, x = .ok a ∧ f a = .error e := by
  cases x <;> simp [bind, Except.bind]

/-- Holds where `a` is what the value under the key stands for, and the standard where there is no
value. -/
def Sets {α : Type} (entries : List (Value × Value)) (key : String) (standsFor : Value → α → Prop)
    (standard a : α) : Prop :=
  (∃ value, (text key, value) ∈ entries ∧ standsFor value a) ∨
    (∀ value, (text key, value) ∉ entries) ∧ a = standard

section

variable {α : Type} {entries : List (Value × Value)} {key : String}
  {check : Value → Except OptionsError α} {standsFor : Value → α → Prop} {standard a : α}
  {e : OptionsError}

theorem check_eq_ok_iff (hKeys : haveDistinctKeys entries = true)
    (hCheck : ∀ value a, check value = .ok a ↔ standsFor value a) :
    ((Value.entry? entries key).map check).getD (.ok standard) = .ok a ↔
      Sets entries key standsFor standard a := by
  cases hEntry : entry? entries key with
  | none =>
    have hNone := entry?_eq_none_iff.mp hEntry
    simp [Sets, hNone, eq_comm]
  | some value =>
    have hOnly (value' : Value) : (text key, value') ∈ entries ↔ value = value' := by
      rw [← entry?_eq_some_iff hKeys, hEntry, Option.some_inj]
    simp [Sets, hOnly, hCheck]

theorem check_eq_error_iff (hKeys : haveDistinctKeys entries = true) :
    ((Value.entry? entries key).map check).getD (.ok standard) = .error e ↔
      ∃ value, (text key, value) ∈ entries ∧ check value = .error e := by
  cases hEntry : entry? entries key with
  | none =>
    have hNone := entry?_eq_none_iff.mp hEntry
    simp [hNone]
  | some value =>
    have hOnly (value' : Value) : (text key, value') ∈ entries ↔ value = value' := by
      rw [← entry?_eq_some_iff hKeys, hEntry, Option.some_inj]
    simp [hOnly]

theorem exists_sets_iff (hKeys : haveDistinctKeys entries = true) :
    (∃ a, Sets entries key standsFor standard a) ↔
      ∀ value, (text key, value) ∈ entries → ∃ a, standsFor value a := by
  constructor
  · rintro ⟨a, ⟨value, hMem, hValue⟩ | ⟨hNone, -⟩⟩ value' hMem'
    · exact ⟨a, eq_of_haveDistinctKeys hKeys hMem hMem' ▸ hValue⟩
    · exact absurd hMem' (hNone value')
  · intro h
    by_cases hNone : ∀ value, (text key, value) ∉ entries
    · exact ⟨standard, Or.inr ⟨hNone, rfl⟩⟩
    · obtain ⟨value, hMem⟩ := not_forall_not.mp hNone
      obtain ⟨a, hValue⟩ := h value hMem
      exact ⟨a, Or.inl ⟨value, hMem, hValue⟩⟩

end

section

variable {value : Value} {sigil : Sigil} {e : OptionsError}

/-- Holds where the value is wrong for a sigil: no ASCII character, or one that is not free. -/
inductive RefusesSigil : Value → OptionsError → Prop
  | notAscii {value : Value} : (∀ b : Byte, b < 0x80 → value ≠ character b) →
      RefusesSigil value (.sigilNotAscii value)
  | reserved {value : Value} {b : Byte} : value = character b → b < 0x80 → ¬b.IsFree →
      RefusesSigil value (.sigilReserved value)

theorem text_eq_character_iff {s : String} {b : Byte} :
    text s = character b ↔ s.toList = [b.toChar] := by
  rw [character, text.injEq, ← String.toList_inj, String.toList_ofList]

theorem toUInt8_toChar (b : Byte) : b.toChar.toUInt8 = b := by
  apply UInt8.toNat_inj.mp
  rw [Char.toUInt8, UInt32.toNat_toUInt8]
  exact (congrArg (· % 2 ^ 8) b.toNat_toChar).trans (Nat.mod_eq_of_lt b.toNat_lt)

theorem toNat_toUInt8 {c : Char} (hAscii : c.toNat < 0x80) : c.toUInt8.toNat = c.toNat := by
  rw [Char.toUInt8, UInt32.toNat_toUInt8]
  exact Nat.mod_eq_of_lt (Nat.lt_trans hAscii (by decide))

theorem toChar_toUInt8 {c : Char} (hAscii : c.toNat < 0x80) : Byte.toChar c.toUInt8 = c := by
  apply Char.ext
  apply UInt32.toNat_inj.mp
  exact (Byte.toNat_toChar _).trans (toNat_toUInt8 hAscii)

theorem character_inj {b b' : Byte} : character b = character b' ↔ b = b' := by
  refine ⟨fun h => ?_, congrArg character⟩
  rw [character, text_eq_character_iff, String.toList_ofList, List.singleton_inj] at h
  rw [← toUInt8_toChar b, h, toUInt8_toChar]

theorem sigilOfValue_character {b : Byte} (hAscii : b < 0x80) :
    sigilOfValue (character b) =
      (Sigil.ofByte? b).elim (.error (.sigilReserved (character b))) .ok := by
  have hLess : b.toChar.toNat < 0x80 := by
    rw [Byte.toNat_toChar]
    exact UInt8.lt_iff_toNat_lt.mp hAscii
  rw [character, sigilOfValue]
  simp only [String.toList_ofList, if_pos hLess, toUInt8_toChar]
  cases Sigil.ofByte? b <;> rfl

theorem sigilOfValue_of_not_ascii (h : ∀ b : Byte, b < 0x80 → value ≠ character b) :
    sigilOfValue value = .error (.sigilNotAscii value) := by
  cases value with
  | text s =>
    rw [sigilOfValue]
    split
    · rename_i c hCharacter
      split
      · rename_i hAscii
        have hLess : c.toUInt8 < 0x80 := by
          rw [UInt8.lt_iff_toNat_lt, toNat_toUInt8 hAscii]
          exact hAscii
        refine absurd ?_ (h c.toUInt8 hLess)
        rw [text_eq_character_iff, toChar_toUInt8 hAscii, hCharacter]
      · rfl
    · rfl
  | _ => rfl

theorem ofByte?_eq_none_iff {b : Byte} : Sigil.ofByte? b = none ↔ ¬b.IsFree := by
  rw [Sigil.ofByte?, Byte.isFree_iff]
  split
  · rename_i hFree
    exact iff_of_false nofun (not_not_intro hFree)
  · rename_i hReserved
    exact iff_of_true rfl hReserved

theorem sigilOfValue_eq_ok_iff : sigilOfValue value = .ok sigil ↔ value = character sigil.byte := by
  by_cases hCharacter : ∃ b : Byte, b < 0x80 ∧ value = character b
  · obtain ⟨b, hAscii, rfl⟩ := hCharacter
    rw [sigilOfValue_character hAscii, character_inj, @eq_comm _ b, ← Sigil.ofByte?_eq_some_iff]
    cases Sigil.ofByte? b <;> simp
  · simp only [not_exists, not_and] at hCharacter
    rw [sigilOfValue_of_not_ascii hCharacter]
    exact iff_of_false nofun (hCharacter sigil.byte sigil.isAscii)

theorem sigilOfValue_eq_error_iff : sigilOfValue value = .error e ↔ RefusesSigil value e := by
  constructor
  · intro h
    by_cases hCharacter : ∃ b : Byte, b < 0x80 ∧ value = character b
    · obtain ⟨b, hAscii, hValue⟩ := hCharacter
      rw [hValue, sigilOfValue_character hAscii] at h
      cases hSigil : Sigil.ofByte? b with
      | none =>
        rw [hSigil] at h
        obtain rfl := Except.error.inj h
        rw [← hValue]
        exact .reserved hValue hAscii (ofByte?_eq_none_iff.mp hSigil)
      | some sigil =>
        rw [hSigil] at h
        cases h
    · simp only [not_exists, not_and] at hCharacter
      rw [sigilOfValue_of_not_ascii hCharacter] at h
      obtain rfl := Except.error.inj h
      exact .notAscii hCharacter
  · rintro (hOther | ⟨rfl, hAscii, hReserved⟩)
    · exact sigilOfValue_of_not_ascii hOther
    · rw [sigilOfValue_character hAscii, ofByte?_eq_none_iff.mpr hReserved, Option.elim_none]

theorem exists_sigil_iff :
    (∃ sigil : Sigil, value = character sigil.byte) ↔
      ∃ b : Byte, b.IsFree ∧ value = character b := by
  constructor
  · rintro ⟨sigil, hValue⟩
    exact ⟨sigil.byte, sigil.isFree, hValue⟩
  · rintro ⟨b, hFree, hValue⟩
    obtain ⟨sigil, rfl⟩ := hFree.exists_sigil
    exact ⟨sigil, hValue⟩

theorem balancedOfValue_eq_ok_iff {b : Bool} : balancedOfValue value = .ok b ↔ value = .bool b := by
  cases value <;> simp [balancedOfValue]

theorem balancedOfValue_eq_error_iff :
    balancedOfValue value = .error e ↔ (∀ b, value ≠ .bool b) ∧ e = .balancedNotBool value := by
  cases value <;> simp [balancedOfValue, eq_comm]

end

section

variable {entries entries' : List (Value × Value)} {options : Options} {e : OptionsError}
  {data : Value}

/-- The keys that name no option. -/
def strangers (entries : List (Value × Value)) : List Value :=
  (entries.map (·.1)).filter fun key => ¬key.NamesOption

theorem unknownKeys_eq (entries : List (Value × Value)) :
    unknownKeys entries = strangers entries := by
  apply List.filter_congr
  intro key _
  have hName : isName key = decide key.NamesOption := by
    rw [Bool.eq_iff_iff, isName_iff, decide_eq_true_iff]
  rw [hName, decide_not]

theorem strangers_eq_nil_iff : strangers entries = [] ↔ ∀ entry ∈ entries, entry.1.NamesOption := by
  simp [strangers]

theorem strangers_perm (hPerm : entries.Perm entries') :
    (strangers entries).Perm (strangers entries') :=
  (hPerm.map _).filter _

theorem entries_mapping (entries : List (Value × Value)) :
    Options.entries (.mapping entries) =
      if ∀ entry ∈ entries, entry.1.NamesOption then .ok entries
      else .error (.unknown (strangers entries)) := by
  simp only [← strangers_eq_nil_iff]
  rw [Options.entries, unknownKeys_eq]
  cases strangers entries <;> rfl

theorem ofValue_mapping (entries : List (Value × Value)) :
    ofValue (.mapping entries) =
      if ∀ entry ∈ entries, entry.1.NamesOption then ofEntries entries
      else .error (.unknown (strangers entries)) := by
  change (Options.entries (.mapping entries) >>= ofEntries) = _
  rw [entries_mapping]
  split <;> rfl

theorem ofEntries_of_perm (hKeys : haveDistinctKeys entries = true)
    (hPerm : entries.Perm entries') : ofEntries entries' = ofEntries entries := by
  rw [ofEntries, ofEntries, entry?_of_perm hKeys hPerm, entry?_of_perm hKeys hPerm]

/-- Another order of the entries gives the same options or the same message. -/
theorem ofValue_of_perm (hKeys : haveDistinctKeys entries = true) (hPerm : entries.Perm entries') :
    (ofValue (.mapping entries')).mapError OptionsError.message? =
      (ofValue (.mapping entries)).mapError OptionsError.message? := by
  have hMessage := OptionsError.message?_unknown_of_perm (strangers_perm hPerm)
  rw [ofValue_mapping, ofValue_mapping, ofEntries_of_perm hKeys hPerm]
  simp only [hPerm.mem_iff]
  split
  · rfl
  · exact congrArg Except.error hMessage.symm

def SetsSigil (entries : List (Value × Value)) (sigil : Sigil) : Prop :=
  Sets entries "sigil" (fun value sigil => value = character sigil.byte) Sigil.standard sigil

def SetsBalanced (entries : List (Value × Value)) (balanced : Bool) : Prop :=
  Sets entries "balanced_bodies" (fun value b => value = .bool b) false balanced

/-- Holds where the entries, each of which is one of an option, give the options. -/
structure Describes (entries : List (Value × Value)) (options : Options) : Prop where
  names : ∀ entry ∈ entries, entry.1.NamesOption
  sigil : SetsSigil entries options.sigil
  balancedBodies : SetsBalanced entries options.balancedBodies

/-- Holds of the entries under which no value is wrong for a sigil. -/
def SigilFits (entries : List (Value × Value)) : Prop :=
  ∀ value, (text "sigil", value) ∈ entries → ∃ b : Byte, b.IsFree ∧ value = character b

/-- Holds of the entries under which no value is wrong for a choice of bodies. -/
def BalancedFits (entries : List (Value × Value)) : Prop :=
  ∀ value, (text "balanced_bodies", value) ∈ entries → ∃ b, value = .bool b

theorem exists_setsSigil_iff (hKeys : haveDistinctKeys entries = true) :
    (∃ sigil, SetsSigil entries sigil) ↔ SigilFits entries := by
  unfold SetsSigil
  rw [exists_sets_iff hKeys]
  simp only [exists_sigil_iff, SigilFits]

theorem exists_setsBalanced_iff (hKeys : haveDistinctKeys entries = true) :
    (∃ b, SetsBalanced entries b) ↔ BalancedFits entries :=
  exists_sets_iff hKeys

theorem check_sigil_iff (hKeys : haveDistinctKeys entries = true) {sigil : Sigil} :
    ((Value.entry? entries "sigil").map sigilOfValue).getD (.ok Sigil.standard) = .ok sigil ↔
      SetsSigil entries sigil :=
  check_eq_ok_iff hKeys fun _ _ => sigilOfValue_eq_ok_iff

theorem check_balanced_iff (hKeys : haveDistinctKeys entries = true) {b : Bool} :
    ((Value.entry? entries "balanced_bodies").map balancedOfValue).getD (.ok false) = .ok b ↔
      SetsBalanced entries b :=
  check_eq_ok_iff hKeys fun _ _ => balancedOfValue_eq_ok_iff

theorem ofEntries_eq_ok_iff (hKeys : haveDistinctKeys entries = true) :
    ofEntries entries = .ok options ↔
      SetsSigil entries options.sigil ∧ SetsBalanced entries options.balancedBodies := by
  simp only [ofEntries, bind_eq_ok_iff, standard, check_sigil_iff hKeys, check_balanced_iff hKeys]
  constructor
  · rintro ⟨sigil, hSets, b, hSets', h⟩
    obtain rfl := Except.ok.inj h
    exact ⟨hSets, hSets'⟩
  · rintro ⟨hSets, hSets'⟩
    exact ⟨_, hSets, _, hSets', rfl⟩

theorem ofEntries_eq_error_iff (hKeys : haveDistinctKeys entries = true) :
    ofEntries entries = .error e ↔
      (∃ value, (text "sigil", value) ∈ entries ∧ RefusesSigil value e) ∨
        SigilFits entries ∧ ∃ value, (text "balanced_bodies", value) ∈ entries ∧
          (∀ b, value ≠ .bool b) ∧ e = .balancedNotBool value := by
  simp only [ofEntries, bind_eq_error_iff, standard, check_sigil_iff hKeys,
    check_eq_error_iff hKeys, sigilOfValue_eq_error_iff, balancedOfValue_eq_error_iff,
    ← exists_setsSigil_iff hKeys]
  refine or_congr_right ⟨?_, ?_⟩
  · rintro ⟨sigil, hSets, hBalanced | ⟨b, -, h⟩⟩
    · exact ⟨⟨sigil, hSets⟩, hBalanced⟩
    · cases h
  · rintro ⟨⟨sigil, hSets⟩, hBalanced⟩
    exact ⟨sigil, hSets, Or.inl hBalanced⟩

/-- Holds where the data are refused for the first of their faults. -/
inductive Refuses : Value → OptionsError → Prop
  | notMapping {data : Value} : data ≠ .null → (∀ entries, data ≠ .mapping entries) →
      Refuses data (.notMapping data)
  | unknown {entries : List (Value × Value)} : (¬∀ entry ∈ entries, entry.1.NamesOption) →
      Refuses (.mapping entries) (.unknown (strangers entries))
  | sigil {entries : List (Value × Value)} {value : Value} {e : OptionsError} :
      (∀ entry ∈ entries, entry.1.NamesOption) → (text "sigil", value) ∈ entries →
      RefusesSigil value e → Refuses (.mapping entries) e
  | balancedNotBool {entries : List (Value × Value)} {value : Value} :
      (∀ entry ∈ entries, entry.1.NamesOption) → SigilFits entries →
      (text "balanced_bodies", value) ∈ entries → (∀ b, value ≠ .bool b) →
      Refuses (.mapping entries) (.balancedNotBool value)

theorem ofValue_mapping_of_names (h : ∀ entry ∈ entries, entry.1.NamesOption) :
    ofValue (.mapping entries) = ofEntries entries := by
  rw [ofValue_mapping, if_pos h]

theorem ofValue_mapping_of_not_names (h : ¬∀ entry ∈ entries, entry.1.NamesOption) :
    ofValue (.mapping entries) = .error (.unknown (strangers entries)) := by
  rw [ofValue_mapping, if_neg h]

theorem ofValue_mapping_eq_ok_iff (hKeys : haveDistinctKeys entries = true) :
    ofValue (.mapping entries) = .ok options ↔ Describes entries options := by
  by_cases hNames : ∀ entry ∈ entries, entry.1.NamesOption
  · rw [ofValue_mapping_of_names hNames, ofEntries_eq_ok_iff hKeys]
    exact ⟨fun h => ⟨hNames, h.1, h.2⟩, fun h => ⟨h.sigil, h.balancedBodies⟩⟩
  · rw [ofValue_mapping_of_not_names hNames]
    exact iff_of_false nofun fun h => hNames h.names

theorem ofValue_mapping_eq_error_iff (hKeys : haveDistinctKeys entries = true) :
    ofValue (.mapping entries) = .error e ↔ Refuses (.mapping entries) e := by
  constructor
  · intro h
    by_cases hNames : ∀ entry ∈ entries, entry.1.NamesOption
    · rw [ofValue_mapping_of_names hNames, ofEntries_eq_error_iff hKeys] at h
      rcases h with ⟨value, hMem, hValue⟩ | ⟨hSigil, value, hMem, hValue, rfl⟩
      · exact .sigil hNames hMem hValue
      · exact .balancedNotBool hNames hSigil hMem hValue
    · rw [ofValue_mapping_of_not_names hNames] at h
      obtain rfl := Except.error.inj h
      exact .unknown hNames
  · intro h
    generalize hData : Value.mapping entries = data at h
    cases h with
    | notMapping _ hOther => exact absurd hData.symm (hOther entries)
    | unknown hNames =>
      obtain rfl := Value.mapping.inj hData
      exact ofValue_mapping_of_not_names hNames
    | sigil hNames hMem hValue =>
      obtain rfl := Value.mapping.inj hData
      rw [ofValue_mapping_of_names hNames, ofEntries_eq_error_iff hKeys]
      exact Or.inl ⟨_, hMem, hValue⟩
    | balancedNotBool hNames hSigil hMem hValue =>
      obtain rfl := Value.mapping.inj hData
      rw [ofValue_mapping_of_names hNames, ofEntries_eq_error_iff hKeys]
      exact Or.inr ⟨hSigil, _, hMem, hValue, rfl⟩

/-- What is no mapping is refused, but for nothing at all. -/
theorem ofValue_of_not_mapping (hNull : data ≠ .null) (h : ∀ entries, data ≠ .mapping entries) :
    ofValue data = .error (.notMapping data) := by
  cases data with
  | null => exact absurd rfl hNull
  | mapping entries => exact absurd rfl (h entries)
  | _ => rfl

theorem ofValue_eq_ok_iff
    (hKeys : ∀ entries, data = .mapping entries → haveDistinctKeys entries = true) :
    ofValue data = .ok options ↔
      data = .null ∧ options = standard ∨
        ∃ entries, data = .mapping entries ∧ Describes entries options := by
  by_cases hMapping : ∃ entries, data = .mapping entries
  · obtain ⟨entries, rfl⟩ := hMapping
    rw [ofValue_mapping_eq_ok_iff (hKeys entries rfl)]
    simp
  · by_cases hNull : data = .null
    · subst hNull
      simp [ofValue, eq_comm]
    · simp only [not_exists] at hMapping
      rw [ofValue_of_not_mapping hNull hMapping]
      simp [hNull, hMapping]

theorem ofValue_eq_error_iff
    (hKeys : ∀ entries, data = .mapping entries → haveDistinctKeys entries = true) :
    ofValue data = .error e ↔ Refuses data e := by
  by_cases hMapping : ∃ entries, data = .mapping entries
  · obtain ⟨entries, rfl⟩ := hMapping
    exact ofValue_mapping_eq_error_iff (hKeys entries rfl)
  · simp only [not_exists] at hMapping
    constructor
    · intro h
      have hNull : data ≠ .null := by
        rintro rfl
        cases h
      rw [ofValue_of_not_mapping hNull hMapping] at h
      obtain rfl := Except.error.inj h
      exact .notMapping hNull hMapping
    · intro h
      cases h with
      | notMapping hNull hOther => exact ofValue_of_not_mapping hNull hOther
      | unknown | sigil | balancedNotBool => exact absurd rfl (hMapping _)

theorem exists_describes_iff (hKeys : haveDistinctKeys entries = true) :
    (∃ options, Describes entries options) ↔
      (∀ entry ∈ entries, entry.1.NamesOption) ∧ SigilFits entries ∧ BalancedFits entries := by
  rw [← exists_setsSigil_iff hKeys, ← exists_setsBalanced_iff hKeys]
  constructor
  · rintro ⟨options, h⟩
    exact ⟨h.names, ⟨_, h.sigil⟩, ⟨_, h.balancedBodies⟩⟩
  · rintro ⟨hNames, ⟨sigil, hSigil⟩, ⟨b, hBalanced⟩⟩
    exact ⟨⟨sigil, b⟩, hNames, hSigil, hBalanced⟩

/-- Which data are options, which options they are and why the others are refused is told by their
entries. The user is told why, whatever the order of the entries, if what the message shows is
written, and is told of nothing otherwise. -/
theorem ofValue_exact
    (hKeys : ∀ entries, data = .mapping entries → haveDistinctKeys entries = true) :
    ((∃ options, ofValue data = .ok options) ↔
        data = .null ∨ ∃ entries, data = .mapping entries ∧
          (∀ entry ∈ entries, entry.1.NamesOption) ∧ SigilFits entries ∧ BalancedFits entries) ∧
      (∀ options, ofValue data = .ok options ↔
        data = .null ∧ options = standard ∨
          ∃ entries, data = .mapping entries ∧ Describes entries options) ∧
      (∀ e, ofValue data = .error e ↔ Refuses data e) ∧
      (∀ e : OptionsError, (∃ message, e.message? = some message) ↔
        ∀ value ∈ e.shown, value.IsWritable) ∧
      (∀ keys message, (OptionsError.unknown keys).message? = some message ↔
        ∃ names, OptionsError.Lists keys names ∧
          message = "unknown option(s): " ++ ", ".intercalate names) ∧
      ∀ entries entries', data = .mapping entries → entries.Perm entries' →
        (ofValue (.mapping entries')).mapError OptionsError.message? =
          (ofValue data).mapError OptionsError.message? := by
  refine ⟨?_, fun options => ofValue_eq_ok_iff hKeys, fun e => ofValue_eq_error_iff hKeys,
    fun e => ?_, fun keys message => OptionsError.message?_unknown_eq_some_iff, ?_⟩
  · simp only [ofValue_eq_ok_iff hKeys]
    constructor
    · rintro ⟨options, ⟨hNull, -⟩ | ⟨entries, hData, h⟩⟩
      · exact Or.inl hNull
      · exact Or.inr ⟨entries, hData, (exists_describes_iff (hKeys entries hData)).mp ⟨options, h⟩⟩
    · rintro (hNull | ⟨entries, hData, h⟩)
      · exact ⟨standard, Or.inl ⟨hNull, rfl⟩⟩
      · obtain ⟨options, hOptions⟩ := (exists_describes_iff (hKeys entries hData)).mpr h
        exact ⟨options, Or.inr ⟨entries, hData, hOptions⟩⟩
  · rw [← Option.isSome_iff_exists]
    exact e.isSome_message?
  · rintro entries entries' rfl hPerm
    exact ofValue_of_perm (hKeys entries rfl) hPerm

/-- Two unknown keys and a sigil that is a letter, in two orders. -/
theorem ofValue_exact_unknown :
    haveDistinctKeys [(text "zoom", .null), (text "sigil", text "a"), (.int 1, .bool true)] =
        true ∧
      ofValue (.mapping [(text "zoom", .null), (text "sigil", text "a"), (.int 1, .bool true)]) =
        .error (.unknown [text "zoom", .int 1]) ∧
      (OptionsError.unknown [text "zoom", .int 1]).message? = some "unknown option(s): 1, zoom" ∧
      (ofValue (.mapping [(text "sigil", text "a"), (text "zoom", .null),
        (.int 1, .bool true)])).mapError OptionsError.message? =
        .error (some "unknown option(s): 1, zoom") := by
  have hKeys : haveDistinctKeys
      [(text "zoom", .null), (text "sigil", text "a"), (.int 1, .bool true)] = true := by
    with_unfolding_all rfl
  obtain ⟨-, -, hError, -, hMessage, hPerm⟩ := @ofValue_exact
    (.mapping [(text "zoom", .null), (text "sigil", text "a"), (.int 1, .bool true)])
    fun entries hData => Value.mapping.inj hData ▸ hKeys
  have hUnknown : ofValue (.mapping
      [(text "zoom", .null), (text "sigil", text "a"), (.int 1, .bool true)]) =
      .error (.unknown [text "zoom", .int 1]) := by
    apply (hError _).mpr
    exact .unknown (by decide)
  have hTexts : [text "zoom", .int 1].map plain? = ["zoom", "1"].map some := by
    with_unfolding_all rfl
  have hLists : OptionsError.Lists [text "zoom", .int 1] ["1", "zoom"] :=
    ⟨hTexts ▸ .swap _ _ _, by decide⟩
  have hText : (OptionsError.unknown [text "zoom", .int 1]).message? =
      some "unknown option(s): 1, zoom" :=
    (hMessage _ _).mpr ⟨_, hLists, rfl⟩
  refine ⟨hKeys, hUnknown, hText, (hPerm _ _ rfl (.swap _ _ _)).trans ?_⟩
  rw [hUnknown]
  exact congrArg Except.error hText

/-- A sigil that is a number of too many digits is refused, but the user is not told of it. -/
theorem ofValue_overlong_sigil :
    haveDistinctKeys [(text "sigil", .int (Nat.pow 10 Decimal.maxDigits))] = true ∧
      ∃ e, ofValue (.mapping [(text "sigil", .int (Nat.pow 10 Decimal.maxDigits))]) = .error e ∧
        ¬∃ message, e.message? = some message := by
  refine ⟨rfl, .sigilNotAscii (.int (Nat.pow 10 Decimal.maxDigits)), rfl, ?_⟩
  rw [← Option.isSome_iff_exists, OptionsError.isSome_message?]
  intro h
  exact not_isWritable_of_le (Nat.le_refl _) (h _ List.mem_cons_self)

end

end Options

end TagTemplate
