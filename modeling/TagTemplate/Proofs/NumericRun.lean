import TagTemplate.Proofs.Failure
import TagTemplate.Proofs.Numeral
import TagTemplate.Proofs.Rounding

/-!
# Runs of digits and periods

A number is read in two steps. The longest run of digits and periods is taken first, whatever it
looks like, and then judged as a whole. The run is always taken: a failure leaves the cursor behind
it and names it.
-/

namespace TagTemplate

/-- Holds of the bytes that a number may be written with. -/
def Byte.isNumeric (b : Byte) : Bool :=
  b.isDigit || b = period

/-- The longest run of digits and periods at the cursor. -/
def Cursor.numericRun (c : Cursor) : Bytes :=
  c.rest.takeWhile Byte.isNumeric

theorem Cursor.isNumeric_of_mem {c : Cursor} : ∀ b ∈ c.numericRun, b.isNumeric = true :=
  fun _ hb => List.mem_takeWhile_imp hb

namespace Numeral

/-- A run denotes a number if it is digits, not too many, or digits around one period. The value
of the digits counts from the period, and a double is the nearest to it. -/
inductive Denotes : Bytes → Numeral → Prop
  | int {run : Bytes} : Digits run → 1 ≤ run.length → run.length ≤ Decimal.maxDigits →
      Denotes run (.int (value run))
  | double {whole fraction : Bytes} {m : Magnitude} : Digits whole → Digits fraction →
      whole ++ fraction ≠ [] →
      m.Nearest (value (whole ++ fraction)) (10 ^ fraction.length) →
      Denotes (whole ++ Byte.period :: fraction) (.double (.signed false m))

theorem nearest_ofDecimal_neg (n k : Nat) :
    (Magnitude.ofDecimal ⟨n, -(k : Int)⟩).Nearest n (10 ^ k) := by
  have hNearest := Magnitude.ofDecimal_nearest ⟨n, -(k : Int)⟩
  have hNoZeros : (-(k : Int)).toNat = 0 := by omega
  have hPlaces : (-(-(k : Int))).toNat = k := by omega
  dsimp only at hNearest
  rwa [hNoZeros, hPlaces, Nat.pow_zero, Nat.mul_one] at hNearest

theorem ofRun_eq_ok_iff_denotes {run : Bytes} {numeral : Numeral}
    (hBytes : ∀ b ∈ run, b.isNumeric = true) :
    ofRun run = .ok numeral ↔ Denotes run numeral := by
  constructor
  · intro h
    rcases ofRun_ok_cases h with
      ⟨hRun, hPeriod, hLength⟩ | ⟨whole, fraction, rfl, hWhole, hFraction, hRun⟩
    · obtain rfl := Except.ok.inj ((ofRun_int hRun hPeriod hLength).symm.trans h)
      exact .int (digits_of_period_notMem hBytes hPeriod) (List.length_pos_iff.mpr hRun) hLength
    · obtain rfl := Except.ok.inj ((ofRun_double hWhole hFraction hRun).symm.trans h)
      refine .double (digits_of_period_notMem ?_ hWhole) (digits_of_period_notMem ?_ hFraction)
        hRun (nearest_ofDecimal_neg _ _)
      · exact fun b hb => hBytes b (List.mem_append_left _ hb)
      · exact fun b hb => hBytes b (List.mem_append_right whole (List.mem_cons_of_mem _ hb))
  · intro h
    cases h with
    | int hDigits hPos hLength =>
      exact ofRun_int (List.length_pos_iff.mp hPos) hDigits.period_notMem hLength
    | double hWhole hFraction hRun hNearest =>
      rw [ofRun_double hWhole.period_notMem hFraction.period_notMem hRun, Binary64.ofDecimal,
        (nearest_ofDecimal_neg _ _).eq (Nat.pow_pos (by decide)) hNearest]

/-- The fault of a run names the run, and the type that its periods stand for. -/
theorem ofRun_error {run : Bytes} {fault : Fault} (h : ofRun run = .error fault) :
    fault = .invalidNumber run.ascii (if Byte.period ∈ run then "double" else "int") := by
  rw [ofRun] at h
  split at h
  · rename_i hCount
    rw [if_neg (List.count_eq_zero.mp hCount)]
    split at h
    · exact (Except.error.inj h).symm
    · cases h
  · rename_i hCount
    rw [if_pos (List.count_pos_iff.mp (by omega))]
    split at h
    · exact (Except.error.inj h).symm
    · cases h
  · rename_i hNone _
    rw [if_pos (List.count_pos_iff.mp (Nat.pos_of_ne_zero hNone))]
    exact (Except.error.inj h).symm

theorem value_zeros_append (z : Nat) (digits : Bytes) :
    value (List.replicate z 0x30 ++ digits) = value digits := by
  induction z with
  | zero => rfl
  | succ z ih => exact ih

theorem denotes_zeros_append {z n : Nat} (h : z + (decimal n).length ≤ Decimal.maxDigits) :
    Denotes (List.replicate z 0x30 ++ decimal n) (.int n) := by
  have hDigits : Digits (List.replicate z 0x30 ++ decimal n) := by
    intro b hb
    rcases List.mem_append.mp hb with hb | hb
    · rw [List.eq_of_mem_replicate hb]
      rfl
    · exact digits_decimal n b hb
  have hLength : (List.replicate z (0x30 : Byte) ++ decimal n).length =
      z + (decimal n).length := by
    rw [List.length_append, List.length_replicate]
  have hPos := List.length_pos_iff.mpr (decimal_ne_nil n)
  have hDenotes := Denotes.int hDigits (by omega) (by omega)
  rwa [value_zeros_append, value_decimal] at hDenotes

theorem Denotes.isNumeric {run : Bytes} {numeral : Numeral} (h : Denotes run numeral) :
    ∀ b ∈ run, b.isNumeric = true := by
  have hDigits {part : Bytes} (hPart : Digits part) : ∀ b ∈ part, b.isNumeric = true := by
    intro b hb
    rw [Byte.isNumeric, hPart b hb, Bool.true_or]
  cases h with
  | int h _ _ => exact hDigits h
  | double hWhole hFraction _ _ =>
    intro b hb
    rcases List.mem_append.mp hb with hb | hb
    · exact hDigits hWhole b hb
    · rcases List.mem_cons.mp hb with rfl | hb
      · rfl
      · exact hDigits hFraction b hb

end Numeral

namespace Template

open Scan

variable {c : Cursor}

theorem number_step (c : Cursor) :
    number c =
      ⟨(Numeral.ofRun c.numericRun).mapError .bare, c.skip c.numericRun.length, []⟩ := by
  have hRun : Gives (run Byte.isNumeric) c c.numericRun (c.skip c.numericRun.length) := ⟨rfl, rfl⟩
  refine (bind_of_gives hRun _).trans ?_
  cases Numeral.ofRun c.numericRun <;> rfl

theorem number_ok_iff {numeral : Numeral} :
    (number c).outcome = .ok numeral ↔ Numeral.Denotes c.numericRun numeral := by
  rw [← Numeral.ofRun_eq_ok_iff_denotes Cursor.isNumeric_of_mem, number_step]
  cases Numeral.ofRun c.numericRun <;> simp [Except.mapError]

theorem number_error_iff {failure : Failure} :
    (number c).outcome = .error failure ↔
      (∀ numeral, ¬Numeral.Denotes c.numericRun numeral) ∧
        failure = .bare (.invalidNumber c.numericRun.ascii
          (if Byte.period ∈ c.numericRun then "double" else "int")) := by
  simp only [← number_ok_iff, number_step]
  cases hRun : Numeral.ofRun c.numericRun with
  | ok numeral => simp [Except.mapError]
  | error fault =>
    rw [Numeral.ofRun_error hRun]
    simp [Except.mapError, eq_comm]

/-- The longest run of digits and periods is taken, whether it denotes a number or not, and a
number that leading zeros stand before is read as the same one. -/
theorem number_exact (c : Cursor) :
    c.Reads c.numericRun (number c).cursor ∧
      (∀ b, (number c).cursor.peek = some b → b.isNumeric = false) ∧
      (∀ numeral, (number c).outcome = .ok numeral ↔ Numeral.Denotes c.numericRun numeral) ∧
      (∀ failure, (number c).outcome = .error failure ↔
        (∀ numeral, ¬Numeral.Denotes c.numericRun numeral) ∧
          failure = .bare (.invalidNumber c.numericRun.ascii
            (if Byte.period ∈ c.numericRun then "double" else "int"))) ∧
      ∀ z n rest, c.rest = List.replicate z 0x30 ++ Numeral.decimal n ++ rest →
        (∀ b, rest.head? = some b → b.isNumeric = false) →
        z + (Numeral.decimal n).length ≤ Decimal.maxDigits →
        (number c).outcome = .ok (.int n) ∧ (number c).cursor.rest = rest := by
  obtain ⟨hRead, -, hNext⟩ :=
    gives_run_iff.mp (⟨rfl, rfl⟩ : Gives (run Byte.isNumeric) c c.numericRun _)
  have hCursor : (number c).cursor = c.skip c.numericRun.length :=
    congrArg Step.cursor (number_step c)
  rw [hCursor]
  refine ⟨hRead, hNext, fun _ => number_ok_iff, fun _ => number_error_iff, ?_⟩
  intro z n rest hRest hRestNext hLength
  obtain ⟨c', hRead', rfl⟩ := Cursor.exists_reads hRest
  have hDenotes := Numeral.denotes_zeros_append hLength
  have hRun : c.numericRun = List.replicate z 0x30 ++ Numeral.decimal n :=
    Except.ok.inj (gives_run_iff.mpr ⟨hRead', hDenotes.isNumeric, hRestNext⟩).1
  rw [number_ok_iff, hRun, hRead'.skip_eq]
  exact ⟨hDenotes, rfl⟩

/-- Two zeros before a seven, and a parenthesis behind it. -/
theorem number_exact_seven :
    (number (Cursor.start [0x30, 0x30, 0x37, 0x29])).outcome = .ok (.int 7) ∧
      (number (Cursor.start [0x30, 0x30, 0x37, 0x29])).cursor.rest = [0x29] := by
  have hNext (b : Byte) (hb : [0x29].head? = some b) : b.isNumeric = false := by
    obtain rfl := Option.some.inj hb
    rfl
  obtain ⟨-, -, -, -, hZeros⟩ := number_exact (Cursor.start [0x30, 0x30, 0x37, 0x29])
  exact hZeros 2 7 [0x29] (by with_unfolding_all rfl) hNext (by decide)

end Template

end TagTemplate
