import Mathlib.Data.List.Perm.Basic
import TagTemplate.Options.OfValue

/-!
# Which values are written

A whole number is written unless it has too many digits, and a list or a mapping if all that it
holds is written. A value that is written has a literal and a plain text, any other has neither. So
a fault of the options has a message if each of the values that it shows is written.
-/

namespace TagTemplate

theorem Decimal.length_le_iff (n : Nat) {k : Nat} (hk : 0 < k) : length n ≤ k ↔ n < Nat.pow 10 k :=
  Nat.length_toDigits_le_iff (by decide) hk

namespace Value

mutual

/-- Holds of the values without whole numbers of too many digits. -/
def IsWritable : Value → Prop
  | int n => n.natAbs < Nat.pow 10 Decimal.maxDigits
  | list items => AreWritable items
  | tuple items => AreWritable items
  | mapping entries => AreEntriesWritable entries
  | other _ texts? => texts?.isSome = true
  | _ => True

def AreWritable : List Value → Prop
  | [] => True
  | item :: items => item.IsWritable ∧ AreWritable items

def AreEntriesWritable : List (Value × Value) → Prop
  | [] => True
  | entry :: entries => IsEntryWritable entry ∧ AreEntriesWritable entries

def IsEntryWritable : Value × Value → Prop
  | (key, value) => key.IsWritable ∧ value.IsWritable

end

theorem isSome_bind_bind {α β γ : Type} (a? : Option α) (b? : Option β) (f : α → β → γ) :
    (a?.bind fun a => b?.bind fun b => some (f a b)).isSome = true ↔
      a?.isSome = true ∧ b?.isSome = true := by
  cases a? <;> cases b? <;> simp

mutual

theorem isSome_literal? : ∀ value : Value, value.literal?.isSome = true ↔ value.IsWritable
  | null | bool _ | double _ | text _ | date _ _ _ => by simp [literal?, IsWritable]
  | int n => by
    rw [literal?, IsWritable, ← Decimal.length_le_iff n.natAbs (by decide)]
    split <;> simp [*]
  | list items => by simp [literal?, IsWritable, isSome_literals? items]
  | tuple items => by simp [literal?, IsWritable, isSome_literals? items]
  | mapping entries => by simp [literal?, IsWritable, isSome_entryLiterals? entries]
  | other _ _ => by simp [literal?, IsWritable]

theorem isSome_literals? : ∀ items, (literals? items).isSome = true ↔ AreWritable items
  | [] => by simp [literals?, AreWritable]
  | item :: items => by
    rw [AreWritable, ← isSome_literal? item, ← isSome_literals? items]
    exact isSome_bind_bind _ _ _

theorem isSome_entryLiterals? :
    ∀ entries, (entryLiterals? entries).isSome = true ↔ AreEntriesWritable entries
  | [] => by simp [entryLiterals?, AreEntriesWritable]
  | entry :: entries => by
    rw [AreEntriesWritable, ← isSome_entryLiteral? entry, ← isSome_entryLiterals? entries]
    exact isSome_bind_bind _ _ _

theorem isSome_entryLiteral? :
    ∀ entry, (entryLiteral? entry).isSome = true ↔ IsEntryWritable entry
  | (key, value) => by
    rw [IsEntryWritable, ← isSome_literal? key, ← isSome_literal? value]
    exact isSome_bind_bind _ _ _

end

theorem isSome_plain? (value : Value) : value.plain?.isSome = true ↔ value.IsWritable := by
  cases value with
  | text s => simp [plain?, IsWritable]
  | date year month day => simp [plain?, IsWritable]
  | other type texts? => simp [plain?, IsWritable]
  | _ => exact isSome_literal? _

theorem not_isWritable_of_le {n : Nat} (h : Nat.pow 10 Decimal.maxDigits ≤ n) :
    ¬(int n).IsWritable := by
  rw [IsWritable, Int.natAbs_natCast]
  exact Nat.not_lt.mpr h

end Value

namespace OptionsError

open Value

/-- The values that the message shows. -/
def shown : OptionsError → List Value
  | notMapping _ => []
  | unknown keys => keys
  | sigilNotAscii value => [value]
  | sigilReserved value => [value]
  | balancedNotBool value => [value]

/-- Holds of the plain texts of the keys, in the order of code points. -/
structure Lists (keys : List Value) (names : List String) : Prop where
  texts : (keys.map plain?).Perm (names.map some)
  sorted : names.Pairwise (· ≤ ·)

theorem mapM_eq_some_iff {α β : Type} {f : α → Option β} {as : List α} {bs : List β} :
    as.mapM f = some bs ↔ as.map f = bs.map some := by
  induction as generalizing bs with
  | nil => cases bs <;> simp
  | cons a as ih => cases bs <;> simp [List.mapM_cons, Option.bind_eq_some_iff, ih]

theorem isSome_mapM_iff {α β : Type} {f : α → Option β} {as : List α} :
    (as.mapM f).isSome = true ↔ ∀ a ∈ as, (f a).isSome = true := by
  induction as with
  | nil => simp
  | cons a as ih =>
    rw [List.mapM_cons, List.forall_mem_cons, ← ih]
    exact isSome_bind_bind _ _ _

/-- There is a message if all that it shows is written. -/
theorem isSome_message? (e : OptionsError) :
    e.message?.isSome = true ↔ ∀ value ∈ e.shown, value.IsWritable := by
  cases e with
  | notMapping value => simp [message?, shown]
  | unknown keys => simp [message?, shown, isSome_mapM_iff, isSome_plain?]
  | _ => simp [message?, shown, isSome_literal?]

theorem mergeSort_pairwise (names : List String) :
    (names.mergeSort fun a b => decide (a ≤ b)).Pairwise (· ≤ ·) := by
  have hTrans (a b c : String) (hab : decide (a ≤ b) = true) (hbc : decide (b ≤ c) = true) :
      decide (a ≤ c) = true :=
    decide_eq_true (String.le_trans (of_decide_eq_true hab) (of_decide_eq_true hbc))
  have hTotal (a b : String) : (decide (a ≤ b) || decide (b ≤ a)) = true := by
    rw [Bool.or_eq_true, decide_eq_true_iff, decide_eq_true_iff]
    exact String.le_total a b
  exact (List.pairwise_mergeSort hTrans hTotal names).imp of_decide_eq_true

/-- A list of names has one order. -/
theorem mergeSort_eq_iff {texts names : List String} :
    (texts.mergeSort fun a b => decide (a ≤ b)) = names ↔
      texts.Perm names ∧ names.Pairwise (· ≤ ·) := by
  have hPerm := List.mergeSort_perm texts fun a b => decide (a ≤ b)
  constructor
  · rintro rfl
    exact ⟨hPerm.symm, mergeSort_pairwise texts⟩
  · rintro ⟨hNames, hSorted⟩
    exact (hPerm.trans hNames).eq_of_pairwise (fun _ _ _ _ => String.le_antisymm)
      (mergeSort_pairwise texts) hSorted

variable {keys keys' : List Value} {names : List String} {message : String}

theorem Lists.exists_texts (h : Lists keys names) :
    ∃ texts : List String, keys.map plain? = texts.map some ∧ texts.Perm names := by
  have hSome : (keys.mapM plain?).isSome = true := by
    apply isSome_mapM_iff.mpr
    intro key hKey
    have hMem := h.texts.mem_iff.mp (List.mem_map_of_mem hKey)
    obtain ⟨name, -, hName⟩ := List.mem_map.mp hMem
    exact hName ▸ rfl
  obtain ⟨texts, hTexts⟩ := Option.isSome_iff_exists.mp hSome
  have hMap := mapM_eq_some_iff.mp hTexts
  have hPerm := h.texts
  rw [hMap, List.map_perm_map_iff fun _ _ => Option.some.inj] at hPerm
  exact ⟨texts, hMap, hPerm⟩

theorem message?_unknown_eq_some_iff :
    (unknown keys).message? = some message ↔
      ∃ names, Lists keys names ∧ message = "unknown option(s): " ++ ", ".intercalate names := by
  rw [message?, Option.map_eq_some_iff]
  simp only [mapM_eq_some_iff]
  constructor
  · rintro ⟨texts, hTexts, rfl⟩
    obtain ⟨hPerm, hSorted⟩ := mergeSort_eq_iff.mp (Eq.refl (texts.mergeSort _))
    exact ⟨_, ⟨hTexts ▸ hPerm.map some, hSorted⟩, rfl⟩
  · rintro ⟨names, h, rfl⟩
    obtain ⟨texts, hTexts, hPerm⟩ := h.exists_texts
    exact ⟨texts, hTexts, by rw [mergeSort_eq_iff.mpr ⟨hPerm, h.sorted⟩]⟩

theorem message?_unknown_of_perm (hPerm : keys.Perm keys') :
    (unknown keys).message? = (unknown keys').message? := by
  apply Option.ext
  intro message
  rw [message?_unknown_eq_some_iff, message?_unknown_eq_some_iff]
  have hTexts := hPerm.map plain?
  constructor
  · rintro ⟨names, h, hMessage⟩
    exact ⟨names, ⟨hTexts.symm.trans h.texts, h.sorted⟩, hMessage⟩
  · rintro ⟨names, h, hMessage⟩
    exact ⟨names, ⟨hTexts.trans h.texts, h.sorted⟩, hMessage⟩

end OptionsError

end TagTemplate
