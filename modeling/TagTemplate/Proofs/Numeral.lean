import Mathlib.Data.List.Induction
import Mathlib.Data.List.TakeWhile
import TagTemplate.Proofs.Tree
import TagTemplate.Template.Element

/-!
# Literals of numbers

A literal is a run of digits, or two such runs around a period of which the second may be empty.
These are the runs that are read as numbers, and every number below the bound on the length has a
literal without leading zeros.
-/

namespace TagTemplate

namespace Numeral

def tree : Numeral → Tree
  | int value => .int value
  | double value => .double value

@[simp] theorem tree_node (source : Source) (numeral : Numeral) :
    (numeral.node source).tree = numeral.tree := by
  cases numeral <;> rfl

/-- Holds of the runs of digits, the empty one included. -/
def Digits (run : Bytes) : Prop :=
  ∀ b ∈ run, b.isDigit = true

inductive Literal : Bytes → Numeral → Prop
  | int {run : Bytes} : run ≠ [] → Digits run → run.length ≤ Decimal.maxDigits →
      Literal run (.int (value run))
  | double {whole fraction : Bytes} : whole ≠ [] → Digits whole → Digits fraction →
      Literal (whole ++ Byte.period :: fraction)
        (.double (Binary64.ofDecimal ⟨value (whole ++ fraction), -(fraction.length : Int)⟩))

theorem Digits.period_notMem {run : Bytes} (h : Digits run) : Byte.period ∉ run := by
  intro hPeriod
  cases h Byte.period hPeriod

theorem Literal.head {run : Bytes} {numeral : Numeral} (h : Literal run numeral) :
    ∃ b rest, run = b :: rest ∧ b.isDigit = true := by
  cases h with
  | int hRun hDigits _ =>
    obtain ⟨b, rest, rfl⟩ := List.exists_cons_of_ne_nil hRun
    exact ⟨b, rest, rfl, hDigits b List.mem_cons_self⟩
  | double hWhole hDigits _ =>
    obtain ⟨b, rest, rfl⟩ := List.exists_cons_of_ne_nil hWhole
    exact ⟨b, _, rfl, hDigits b List.mem_cons_self⟩

theorem Literal.isDigit_or {run : Bytes} {numeral : Numeral} (h : Literal run numeral) :
    ∀ b ∈ run, (b.isDigit || b = Byte.period) = true := by
  intro b hb
  rw [Bool.or_eq_true, decide_eq_true_iff]
  cases h with
  | int _ hDigits _ => exact Or.inl (hDigits b hb)
  | double _ hWhole hFraction =>
    rcases List.mem_append.mp hb with hb | hb
    · exact Or.inl (hWhole b hb)
    · rcases List.mem_cons.mp hb with hb | hb
      · exact Or.inr hb
      · exact Or.inl (hFraction b hb)

theorem digits_of_period_notMem {run : Bytes}
    (hBytes : ∀ b ∈ run, (b.isDigit || b = Byte.period) = true) (hPeriod : Byte.period ∉ run) :
    Digits run := by
  intro b hb
  have hByte := hBytes b hb
  rw [Bool.or_eq_true, decide_eq_true_iff] at hByte
  refine hByte.resolve_right ?_
  rintro rfl
  exact hPeriod hb

theorem ofRun_int {run : Bytes} (hRun : run ≠ []) (hPeriod : Byte.period ∉ run)
    (hLength : run.length ≤ Decimal.maxDigits) : ofRun run = .ok (.int (value run)) := by
  have hBounds : ¬(run.length = 0 ∨ Decimal.maxDigits < run.length) := by
    have hPos := List.length_pos_iff.mpr hRun
    omega
  rw [ofRun, List.count_eq_zero.mpr hPeriod]
  exact if_neg hBounds

theorem ofRun_double {whole fraction : Bytes} (hWhole : Byte.period ∉ whole)
    (hFraction : Byte.period ∉ fraction) (hRun : whole ++ fraction ≠ []) :
    ofRun (whole ++ Byte.period :: fraction) =
      .ok (.double (Binary64.ofDecimal
        ⟨value (whole ++ fraction), -(fraction.length : Int)⟩)) := by
  have hCount : (whole ++ Byte.period :: fraction).count Byte.period = 1 := by
    rw [List.count_append, List.count_cons_self, List.count_eq_zero.mpr hWhole,
      List.count_eq_zero.mpr hFraction]
  have hLength : (whole ++ Byte.period :: fraction).length ≠ 1 := by
    have hPos := List.length_pos_iff.mpr hRun
    rw [List.length_append] at hPos ⊢
    rw [List.length_cons]
    omega
  have hBefore : (whole ++ Byte.period :: fraction).takeWhile (· ≠ Byte.period) = whole := by
    rw [List.takeWhile_append_of_pos, List.takeWhile_cons_of_neg (by simp), List.append_nil]
    intro b hb
    apply decide_eq_true
    rintro rfl
    exact hWhole hb
  have hAfter : (whole ++ Byte.period :: fraction).drop (whole.length + 1) = fraction := by
    rw [List.drop_append]
    simp
  rw [ofRun, hCount]
  dsimp only
  rw [if_neg hLength, hBefore, hAfter]
  rfl

/-- There are no other runs that are read as numbers. -/
theorem ofRun_ok_cases {run : Bytes} {numeral : Numeral} (h : ofRun run = .ok numeral) :
    (run ≠ [] ∧ Byte.period ∉ run ∧ run.length ≤ Decimal.maxDigits) ∨
      ∃ whole fraction, run = whole ++ Byte.period :: fraction ∧ Byte.period ∉ whole ∧
        Byte.period ∉ fraction ∧ whole ++ fraction ≠ [] := by
  rw [ofRun] at h
  split at h
  · rename_i hCount
    split at h
    · cases h
    · rename_i hBounds
      have hRun : run ≠ [] := fun hNil => hBounds (Or.inl (by rw [hNil]; rfl))
      exact Or.inl ⟨hRun, List.count_eq_zero.mp hCount, by omega⟩
  · rename_i hCount
    split at h
    · cases h
    · rename_i hLength
      obtain ⟨whole, fraction, rfl⟩ :=
        List.append_of_mem (List.count_pos_iff.mp (by omega : 0 < run.count Byte.period))
      rw [List.count_append, List.count_cons_self] at hCount
      refine Or.inr ⟨whole, fraction, rfl, List.count_eq_zero.mp (by omega),
        List.count_eq_zero.mp (by omega), fun hNil => hLength ?_⟩
      obtain ⟨rfl, rfl⟩ := List.append_eq_nil_iff.mp hNil
      rfl
  · cases h

theorem ofRun_of_literal {run : Bytes} {numeral : Numeral} (h : Literal run numeral) :
    ofRun run = .ok numeral := by
  cases h with
  | int hRun hDigits hLength => exact ofRun_int hRun hDigits.period_notMem hLength
  | double hWhole hDigits hFraction =>
    exact ofRun_double hDigits.period_notMem hFraction.period_notMem
      (List.append_ne_nil_of_left_ne_nil hWhole _)

/-- A run of digits and periods that starts with a digit is read exactly if it is a literal. -/
theorem ofRun_eq_ok_iff {run : Bytes} {numeral : Numeral}
    (hBytes : ∀ b ∈ run, (b.isDigit || b = Byte.period) = true)
    (hFirst : ∀ b, run.head? = some b → b.isDigit = true) :
    ofRun run = .ok numeral ↔ Literal run numeral := by
  refine ⟨fun h => ?_, ofRun_of_literal⟩
  suffices hLiteral : ∃ numeral', Literal run numeral' by
    obtain ⟨numeral', hLiteral⟩ := hLiteral
    rw [ofRun_of_literal hLiteral] at h
    exact Except.ok.inj h ▸ hLiteral
  rcases ofRun_ok_cases h with
    ⟨hRun, hPeriod, hLength⟩ | ⟨whole, fraction, rfl, hWhole, hFraction, -⟩
  · exact ⟨_, .int hRun (digits_of_period_notMem hBytes hPeriod) hLength⟩
  · have hNe : whole ≠ [] := by
      rintro rfl
      cases hFirst Byte.period rfl
    refine ⟨_, .double hNe (digits_of_period_notMem ?_ hWhole)
      (digits_of_period_notMem ?_ hFraction)⟩
    · exact fun b hb => hBytes b (List.mem_append_left _ hb)
    · exact fun b hb => hBytes b (List.mem_append_right whole (List.mem_cons_of_mem _ hb))

theorem value_concat (digits : Bytes) (d : Byte) :
    value (digits ++ [d]) = 10 * value digits + (d.toNat - 0x30) := by
  simp [value, Decimal.value]

theorem value_lt {digits : Bytes} (h : Digits digits) :
    value digits < Nat.pow 10 digits.length := by
  induction digits using List.reverseRecOn with
  | nil => exact Nat.one_pos
  | append_singleton digits d ih =>
    have hTail := ih fun b hb => h b (List.mem_append_left [d] hb)
    have hDigit := h d (List.mem_append_right digits (List.mem_singleton_self d))
    simp only [Byte.isDigit, Bool.and_eq_true, decide_eq_true_eq, UInt8.le_iff_toNat_le] at hDigit
    have hByte : d.toNat ≤ 57 := hDigit.2
    rw [value_concat, List.length_append, List.length_singleton]
    change _ < Nat.pow 10 digits.length * 10
    omega

theorem value_lt_of_length_le {digits : Bytes} {k : Nat} (h : Digits digits)
    (hLength : digits.length ≤ k) : value digits < Nat.pow 10 k :=
  (value_lt h).trans_le (Nat.pow_le_pow_right (by decide) hLength)

def decimal (n : Nat) : Bytes :=
  (Decimal.digitsOf n).map fun c => UInt8.ofNat c.toNat

theorem decimal_ne_nil (n : Nat) : decimal n ≠ [] := by
  simp [decimal, Decimal.digitsOf]

theorem toNat_ofNat_digit {c : Char} (h : c.isDigit = true) :
    (UInt8.ofNat c.toNat).toNat = c.toNat ∧ 48 ≤ c.toNat ∧ c.toNat ≤ 57 := by
  rw [Char.isDigit_iff_toNat] at h
  have hLow : 48 ≤ c.toNat := h.1
  have hHigh : c.toNat ≤ 57 := h.2
  exact ⟨UInt8.toNat_ofNat_of_lt' (Nat.lt_of_le_of_lt hHigh (by decide)), hLow, hHigh⟩

theorem digits_decimal (n : Nat) : Digits (decimal n) := by
  intro b hb
  obtain ⟨c, hc, rfl⟩ := List.mem_map.mp hb
  obtain ⟨hByte, hLow, hHigh⟩ :=
    toNat_ofNat_digit (Nat.isDigit_of_mem_toDigits (by decide) (by decide) hc)
  simp only [Byte.isDigit, Bool.and_eq_true, decide_eq_true_eq, UInt8.le_iff_toNat_le, hByte]
  exact ⟨hLow, hHigh⟩

theorem value_decimal (n : Nat) : value (decimal n) = n := by
  have hDigits : ((decimal n).map fun d => d.toNat - 0x30) =
      (Nat.toDigits 10 n).map fun c => c.toNat - '0'.toNat := by
    rw [decimal, List.map_map]
    refine List.map_congr_left fun c hc => ?_
    have hByte := toNat_ofNat_digit (Nat.isDigit_of_mem_toDigits (by decide) (by decide) hc)
    exact congrArg (· - 48) hByte.1
  rw [value, hDigits, Decimal.value, List.foldl_map, ← Nat.ofDigitChars_eq_foldl,
    Nat.ofDigitChars_toDigits (by decide) (by decide)]

theorem length_decimal_le_iff (n : Nat) {k : Nat} (hk : 0 < k) :
    (decimal n).length ≤ k ↔ n < Nat.pow 10 k := by
  rw [decimal, List.length_map, Decimal.digitsOf]
  exact Nat.length_toDigits_le_iff (by decide) hk

theorem literal_decimal {n : Nat} (h : n < Nat.pow 10 Decimal.maxDigits) :
    Literal (decimal n) (.int n) := by
  have hLiteral := Literal.int (decimal_ne_nil n) (digits_decimal n)
    ((length_decimal_le_iff n (by decide)).mpr h)
  rwa [value_decimal] at hLiteral

end Numeral

end TagTemplate
