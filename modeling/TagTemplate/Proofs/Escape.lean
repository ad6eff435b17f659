import Mathlib.Data.List.Basic
import TagTemplate.Delimited

/-!
# Escaped text

`escape` writes a backslash before each delimiter and `unescape` drops the backslashes that stand
right before one. The escaped texts are the runs that guard every delimiter, and on these the two
are inverse to each other.
-/

namespace TagTemplate

section

variable {α : Type} {a b : α} {front back : List α}

theorem getLast?_append_eq_some_iff :
    (front ++ back).getLast? = some a ↔
      back = [] ∧ front.getLast? = some a ∨ back.getLast? = some a := by
  cases back with
  | nil => simp
  | cons b back =>
    rw [List.getLast?_append_of_ne_nil front (List.cons_ne_nil b back)]
    simp

theorem getLast?_cons_eq_some_iff :
    (b :: back).getLast? = some a ↔ back = [] ∧ a = b ∨ back.getLast? = some a := by
  cases back with
  | nil => simp [eq_comm]
  | cons c back => simp

end

/-- Holds of the runs in which a backslash of the run stands right before each delimiter. -/
def Guarded (delimiter : Byte) (run : Bytes) : Prop :=
  ∀ front back, run = front ++ delimiter :: back → front.getLast? = some Byte.backslash

/-- Drops each backslash that stands right before a delimiter. -/
def unescape (delimiter : Byte) : Bytes → Bytes
  | [] => []
  | b :: rest =>
    if b = Byte.backslash ∧ rest.head? = some delimiter then unescape delimiter rest
    else b :: unescape delimiter rest

section

variable {delimiter : Byte}

@[simp] theorem escape_nil : escape delimiter [] = [] := rfl

@[simp] theorem escape_cons_self (bytes : Bytes) :
    escape delimiter (delimiter :: bytes) =
      Byte.backslash :: delimiter :: escape delimiter bytes := by
  simp [escape]

@[simp] theorem escape_cons_of_ne {b : Byte} (h : b ≠ delimiter) (bytes : Bytes) :
    escape delimiter (b :: bytes) = b :: escape delimiter bytes := by
  simp [escape, h]

theorem escape_eq_nil_iff (bytes : Bytes) : escape delimiter bytes = [] ↔ bytes = [] := by
  constructor
  · intro h
    cases bytes with
    | nil => rfl
    | cons b bytes =>
      by_cases hb : b = delimiter
      · rw [hb, escape_cons_self] at h
        cases h
      · rw [escape_cons_of_ne hb] at h
        cases h
  · rintro rfl
    rfl

theorem getLast?_escape (bytes : Bytes) : (escape delimiter bytes).getLast? = bytes.getLast? := by
  induction bytes with
  | nil => rfl
  | cons b bytes ih =>
    cases bytes with
    | nil =>
      by_cases hb : b = delimiter
      · rw [hb, escape_cons_self]
        rfl
      · rw [escape_cons_of_ne hb]
        rfl
    | cons c bytes =>
      have hTail : escape delimiter (c :: bytes) ≠ [] := by
        rw [ne_eq, escape_eq_nil_iff]
        exact List.cons_ne_nil c bytes
      rw [List.getLast?_cons_cons, ← ih]
      by_cases hb : b = delimiter
      · rw [hb, escape_cons_self, List.getLast?_cons_of_ne_nil (List.cons_ne_nil _ _),
          List.getLast?_cons_of_ne_nil hTail]
      · rw [escape_cons_of_ne hb, List.getLast?_cons_of_ne_nil hTail]

theorem head?_escape_ne (hDelimiter : delimiter ≠ Byte.backslash) (bytes : Bytes) :
    (escape delimiter bytes).head? ≠ some delimiter := by
  cases bytes with
  | nil => simp
  | cons b bytes =>
    by_cases hb : b = delimiter
    · rw [hb, escape_cons_self]
      simpa using Ne.symm hDelimiter
    · rw [escape_cons_of_ne hb]
      simpa using hb

/-- Escaping keeps the first byte, unless it is the delimiter. -/
theorem head?_escape {b : Byte} (hb : b ≠ delimiter) (hBackslash : b ≠ Byte.backslash)
    (bytes : Bytes) : (escape delimiter bytes).head? = some b ↔ bytes.head? = some b := by
  cases bytes with
  | nil => simp
  | cons c bytes =>
    by_cases hc : c = delimiter
    · rw [hc, escape_cons_self]
      simp [Ne.symm hBackslash, Ne.symm hb]
    · rw [escape_cons_of_ne hc]
      rfl

theorem length_le_length_escape (delimiter : Byte) (bytes : Bytes) :
    bytes.length ≤ (escape delimiter bytes).length := by
  induction bytes with
  | nil => exact Nat.le_refl _
  | cons b bytes ih =>
    by_cases hb : b = delimiter
    · rw [hb, escape_cons_self]
      simp only [List.length_cons]
      omega
    · rw [escape_cons_of_ne hb]
      simp only [List.length_cons]
      omega

theorem length_lt_length_escape {text : Bytes} (h : delimiter ∈ text) :
    text.length < (escape delimiter text).length := by
  obtain ⟨front, back, rfl⟩ := List.append_of_mem h
  have hFront := length_le_length_escape delimiter front
  have hBack := length_le_length_escape delimiter back
  simp only [escape, List.flatMap_append, List.flatMap_cons, if_true, List.length_append,
    List.length_cons, List.length_nil] at hFront hBack ⊢
  omega

theorem escape_of_notMem {text : Bytes} (h : delimiter ∉ text) : escape delimiter text = text := by
  induction text with
  | nil => rfl
  | cons b text ih =>
    rw [List.mem_cons, not_or] at h
    rw [escape_cons_of_ne (Ne.symm h.1), ih h.2]

theorem unescape_escape (hDelimiter : delimiter ≠ Byte.backslash) (bytes : Bytes) :
    unescape delimiter (escape delimiter bytes) = bytes := by
  induction bytes with
  | nil => rfl
  | cons b bytes ih =>
    have hHead := head?_escape_ne hDelimiter bytes
    by_cases hb : b = delimiter
    · rw [hb, escape_cons_self, unescape, if_pos ⟨rfl, rfl⟩, unescape,
        if_neg (fun h => hDelimiter h.1), ih]
    · rw [escape_cons_of_ne hb, unescape, if_neg (fun h => hHead h.2), ih]

theorem unescape_of_notMem (hDelimiter : delimiter ≠ Byte.backslash) {text : Bytes}
    (h : delimiter ∉ text) : unescape delimiter text = text := by
  have hText := unescape_escape hDelimiter text
  rwa [escape_of_notMem h] at hText

theorem guarded_escape (hDelimiter : delimiter ≠ Byte.backslash) (bytes : Bytes) :
    Guarded delimiter (escape delimiter bytes) := by
  induction bytes with
  | nil =>
    intro front back h
    cases front <;> cases h
  | cons b bytes ih =>
    intro front back h
    by_cases hb : b = delimiter
    · rw [hb, escape_cons_self] at h
      match front, h with
      | [], h => exact absurd (List.cons.inj h).1.symm hDelimiter
      | [c], h => rw [← (List.cons.inj h).1, List.getLast?_singleton]
      | c :: c' :: front, h =>
        have hLast := ih front back (List.cons.inj (List.cons.inj h).2).2
        have hFront : front ≠ [] := by
          rintro rfl
          cases hLast
        rw [List.getLast?_cons_of_ne_nil (List.cons_ne_nil _ _),
          List.getLast?_cons_of_ne_nil hFront, hLast]
    · rw [escape_cons_of_ne hb] at h
      match front, h with
      | [], h => exact absurd (List.cons.inj h).1 hb
      | c :: front, h =>
        have hLast := ih front back (List.cons.inj h).2
        have hFront : front ≠ [] := by
          rintro rfl
          cases hLast
        rw [List.getLast?_cons_of_ne_nil hFront, hLast]

/-- What follows a guarded pair, or an unguarded byte that is no delimiter, is guarded. -/
theorem Guarded.of_append (front : Bytes) {back : Bytes} (h : Guarded delimiter (front ++ back))
    (hFront : front.getLast? ≠ some Byte.backslash ∨ back.head? ≠ some delimiter) :
    Guarded delimiter back := by
  intro middle last hBack
  have hLast := h (front ++ middle) last (by rw [hBack, List.append_assoc])
  cases middle with
  | nil =>
    rw [List.append_nil] at hLast
    rcases hFront with hFront | hFront
    · exact absurd hLast hFront
    · exact absurd (by rw [hBack]; rfl) hFront
  | cons c middle => rwa [List.getLast?_append_of_ne_nil _ (List.cons_ne_nil c middle)] at hLast

theorem escape_unescape (hDelimiter : delimiter ≠ Byte.backslash) :
    ∀ run : Bytes, Guarded delimiter run → escape delimiter (unescape delimiter run) = run
  | [], _ => rfl
  | b :: rest, hRun => by
    have hb : b ≠ delimiter := by
      rintro rfl
      cases hRun [] rest rfl
    by_cases hHead : rest.head? = some delimiter
    · obtain ⟨tail, rfl⟩ : ∃ tail, rest = delimiter :: tail :=
        List.head?_eq_some_iff.mp hHead
      have hBackslash : b = Byte.backslash := by
        simpa using hRun [b] tail rfl
      have hTail : Guarded delimiter tail :=
        Guarded.of_append [b, delimiter] hRun (Or.inl (by simpa using hDelimiter))
      rw [unescape, if_pos ⟨hBackslash, hHead⟩, unescape, if_neg (fun h => hDelimiter h.1),
        escape_cons_self, escape_unescape hDelimiter tail hTail, hBackslash]
    · have hRest : Guarded delimiter rest :=
        Guarded.of_append [b] hRun (Or.inr hHead)
      rw [unescape, if_neg (fun h => hHead h.2), escape_cons_of_ne hb,
        escape_unescape hDelimiter rest hRest]

/-- The guarded runs are the escaped texts. -/
theorem eq_escape_iff (hDelimiter : delimiter ≠ Byte.backslash) {run text : Bytes} :
    run = escape delimiter text ↔ Guarded delimiter run ∧ text = unescape delimiter run := by
  constructor
  · rintro rfl
    exact ⟨guarded_escape hDelimiter text, (unescape_escape hDelimiter text).symm⟩
  · rintro ⟨hRun, rfl⟩
    exact (escape_unescape hDelimiter run hRun).symm

theorem Guarded.front {front back : Bytes} (h : Guarded delimiter (front ++ back)) :
    Guarded delimiter front := by
  rintro first rest rfl
  exact h first (rest ++ back) (by rw [List.append_assoc, List.cons_append])

theorem exists_of_escape_eq {b : Byte} (hb : b ≠ delimiter) (hBackslash : b ≠ Byte.backslash)
    {text front back : Bytes} (h : escape delimiter text = front ++ b :: back) :
    ∃ first rest, text = first ++ b :: rest ∧ front = escape delimiter first := by
  induction text generalizing front with
  | nil => exact absurd h (by simp)
  | cons c text ih =>
    by_cases hc : c = delimiter
    · rw [hc, escape_cons_self] at h
      match front, h with
      | [], h => exact absurd (List.cons.inj h).1.symm hBackslash
      | [_], h => exact absurd (List.cons.inj (List.cons.inj h).2).1.symm hb
      | d :: d' :: front, h =>
        simp only [List.cons_append, List.cons.injEq] at h
        obtain ⟨rfl, rfl, hTail⟩ := h
        obtain ⟨first, rest, rfl, rfl⟩ := ih hTail
        exact ⟨delimiter :: first, rest, by rw [hc, List.cons_append], (escape_cons_self first).symm⟩
    · rw [escape_cons_of_ne hc] at h
      cases front with
      | nil =>
        obtain ⟨rfl, -⟩ := List.cons.inj h
        exact ⟨[], text, rfl, rfl⟩
      | cons d front =>
        obtain ⟨rfl, hTail⟩ := List.cons.inj h
        obtain ⟨first, rest, rfl, rfl⟩ := ih hTail
        exact ⟨c :: first, rest, rfl, (escape_cons_of_ne hc first).symm⟩

/-- Escaping puts nothing between a byte and the backslash in front of it. -/
theorem Guarded.escape {b : Byte} (hb : b ≠ delimiter) (hBackslash : b ≠ Byte.backslash)
    {text : Bytes} (h : Guarded b text) : Guarded b (escape delimiter text) := by
  intro front back hSplit
  obtain ⟨first, rest, rfl, rfl⟩ := exists_of_escape_eq hb hBackslash hSplit
  rw [getLast?_escape]
  exact h first rest rfl

end

end TagTemplate
