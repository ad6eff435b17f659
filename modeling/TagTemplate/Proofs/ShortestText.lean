import Mathlib.Data.List.TakeDrop
import Mathlib.Data.List.TakeWhile
import TagTemplate.Number.Shortest
import TagTemplate.Proofs.Rounding

/-!
# Doubles are read back from their texts

The shortest decimal of a double rounds to it, and however a decimal is written, positionally or
with an exponent, the text denotes a decimal of the same value. So every double is read back from
its text, and no two have the same one.
-/

namespace TagTemplate

namespace Magnitude

variable {m : Magnitude} {numerator denominator numerator' denominator' : Nat}

/-- Only the value of a quotient counts. -/
theorem Nearest.congr (hPos : 0 < denominator) (hPos' : 0 < denominator')
    (hEq : numerator * denominator' = numerator' * denominator)
    (h : m.Nearest numerator denominator) : m.Nearest numerator' denominator' := by
  have hScale (n : Magnitude) : denominator * n.distance numerator' denominator' =
      denominator' * n.distance numerator denominator := by
    rw [distance, distance, ← Nat.dist_mul_left, ← Nat.dist_mul_left, ← Nat.mul_assoc,
      ← Nat.mul_assoc, ← Nat.mul_assoc, ← Nat.mul_assoc, Nat.mul_comm denominator numerator',
      Nat.mul_comm denominator' numerator, hEq, Nat.mul_comm denominator denominator']
  constructor
  · intro m'
    refine Nat.le_of_mul_le_mul_left ?_ hPos
    rw [hScale, hScale]
    exact Nat.mul_le_mul_left denominator' (h.le m')
  · intro m' hNe hDistance
    refine h.even m' hNe (Nat.eq_of_mul_eq_mul_left hPos' ?_)
    rw [← hScale, ← hScale, hDistance]

/-- Zeros at the end of the digits stand for a greater exponent. -/
theorem ofDecimal_mul_pow (n k : Nat) (e : Int) :
    ofDecimal ⟨n * 10 ^ k, e⟩ = ofDecimal ⟨n, e + k⟩ := by
  have hPos (j : Nat) : 0 < 10 ^ j := Nat.pow_pos (by decide)
  refine ((ofDecimal_nearest ⟨n * 10 ^ k, e⟩).congr (hPos _) (hPos (-(e + k)).toNat) ?_).eq
    (hPos _) (ofDecimal_nearest ⟨n, e + k⟩)
  have hExponents : k + e.toNat + (-(e + k)).toNat = (e + k).toNat + (-e).toNat := by omega
  dsimp only
  rw [Nat.mul_assoc, Nat.mul_assoc, Nat.mul_assoc, ← Nat.pow_add, ← Nat.pow_add, ← Nat.pow_add,
    ← hExponents, Nat.add_assoc]

theorem nearest_of_eq (hPos : 0 < denominator) (h : numerator * one = denominator * m.units) :
    m.Nearest numerator denominator := by
  have hZero : m.distance numerator denominator = 0 := Nat.dist_eq_zero h
  constructor
  · intro m'
    rw [hZero]
    exact Nat.zero_le _
  · intro m' hNe hDistance
    rw [hZero] at hDistance
    have hUnits := h.symm.trans (Nat.eq_of_dist_eq_zero hDistance)
    have hOrdinal := unitsAt_strictMono.injective (Nat.eq_of_mul_eq_mul_left hPos hUnits)
    exact absurd (eq_of_ordinal hOrdinal).symm hNe

/-- A whole number of units is a decimal with as many places as the unit has halvings. -/
theorem ofDecimal_units {k : Nat} (hOne : one = Nat.pow 2 k) (m : Magnitude) :
    ofDecimal ⟨m.units * Nat.pow 5 k, -(k : Int)⟩ = m := by
  have hPos : 0 < 10 ^ (-(-(k : Int))).toNat := Nat.pow_pos (by decide)
  refine (ofDecimal_nearest _).eq hPos (nearest_of_eq hPos ?_)
  have hNoZeros : (-(k : Int)).toNat = 0 := by omega
  have hPlaces : (-(-(k : Int))).toNat = k := by omega
  dsimp only
  rw [hNoZeros, hPlaces, Nat.pow_zero, Nat.mul_one, hOne, Nat.pow_eq, Nat.pow_eq, Nat.mul_assoc,
    ← Nat.mul_pow, Nat.mul_comm]

theorem ofDecimal_exact (m : Magnitude) : ofDecimal m.exact = m := by
  have hOne : one = Nat.pow 2 1074 := by
    unfold one
    exact Eq.refl _
  exact ofDecimal_units hOne m

theorem ofDecimal_of_neighbour? {e : Int} {d : Decimal} (h : m.neighbour? e = some d) :
    ofDecimal d = m := by
  obtain ⟨digits, -, hDigits⟩ := List.exists_of_findSome?_eq_some h
  dsimp only at hDigits
  split at hDigits
  · rename_i hRound
    rwa [← Option.some.inj hDigits]
  · cases hDigits

theorem ofDecimal_shortest (m : Magnitude) : ofDecimal m.shortest = m := by
  rw [shortest]
  cases h : (List.range 17).findSome? fun (n : Nat) => m.neighbour? (m.decimalExponent - n) with
  | none => exact ofDecimal_exact m
  | some d =>
    obtain ⟨n, -, hNeighbour⟩ := List.exists_of_findSome?_eq_some h
    exact ofDecimal_of_neighbour? hNeighbour

end Magnitude

namespace Decimal

section

variable {cs whole fraction rest : List Char}

theorem span_append {p : Char → Bool} (hFront : ∀ c ∈ cs, p c = true)
    (hRest : ∀ c ∈ rest.head?, p c = false) : (cs ++ rest).span p = (cs, rest) := by
  rw [List.span_eq_takeWhile_dropWhile, List.takeWhile_append_of_pos hFront,
    List.dropWhile_append_of_pos hFront]
  cases rest with
  | nil => simp
  | cons c rest => simp [hRest c rfl]

/-- Holds of the texts that are digits only. -/
def AreDigits (cs : List Char) : Prop :=
  ∀ c ∈ cs, c.isDigit = true

theorem areDigits_digitsOf (n : Nat) : AreDigits (digitsOf n) :=
  fun _ hc => Nat.isDigit_of_mem_toDigits (by decide) (by decide) hc

theorem AreDigits.bne_point (h : AreDigits cs) : ∀ c ∈ cs, (c != '.') = true := by
  intro c hc
  refine bne_iff_ne.mpr ?_
  rintro rfl
  exact absurd (h '.' hc) (by decide)

theorem areDigits_append (h : AreDigits whole) (h' : AreDigits fraction) :
    AreDigits (whole ++ fraction) :=
  List.forall_mem_append.mpr ⟨h, h'⟩

theorem areDigits_zeros (n : Nat) : AreDigits (DecimalFormat.zeros n) := by
  intro c hc
  rw [List.eq_of_mem_replicate hc]
  rfl

theorem digit?_of_isDigit {c : Char} (h : c.isDigit = true) :
    digit? c = some (c.toNat - '0'.toNat) ∧ c.toNat - '0'.toNat < 10 := by
  have hRange := Char.isDigit_iff_toNat.mp h
  have hZero : '0'.toNat = 48 := rfl
  have hNine : '9'.toNat = 57 := rfl
  refine ⟨if_pos ⟨?_, ?_⟩, by omega⟩
  · exact UInt32.le_iff_toNat_le.mpr hRange.1
  · exact UInt32.le_iff_toNat_le.mpr hRange.2

theorem mapM_digit? (h : AreDigits cs) :
    cs.mapM digit? = some (cs.map fun c => c.toNat - '0'.toNat) := by
  induction cs with
  | nil => rfl
  | cons c cs ih =>
    obtain ⟨hc, hcs⟩ := List.forall_mem_cons.mp h
    rw [List.mapM_cons, (digit?_of_isDigit hc).1, ih hcs]
    rfl

theorem natural?_of_areDigits (h : AreDigits cs) (hNonempty : cs ≠ []) :
    natural? 10 cs = some (Nat.ofDigitChars 10 cs 0) := by
  have hDigits : (cs.map fun c => c.toNat - '0'.toNat).any (10 ≤ ·) = false := by
    rw [List.any_map, List.any_eq_false]
    intro c hc
    have hLess := (digit?_of_isDigit (h c hc)).2
    simpa using hLess
  rw [natural?, mapM_digit? h, Option.bind_eq_bind, Option.bind_some, hDigits, Bool.or_false,
    List.isEmpty_map, List.isEmpty_eq_false_iff.mpr hNonempty, value, List.foldl_map]
  rfl

/-- A point moves the digits behind it down. -/
theorem plain?_point (hWhole : AreDigits whole) (hFraction : AreDigits fraction)
    (hNonempty : whole ++ fraction ≠ []) :
    plain? (whole ++ '.' :: fraction) =
      some ⟨Nat.ofDigitChars 10 (whole ++ fraction) 0, -(fraction.length : Int)⟩ := by
  have hPoint : (whole ++ '.' :: fraction).span (· != '.') = (whole, '.' :: fraction) :=
    span_append hWhole.bne_point (by simp)
  rw [plain?, hPoint]
  dsimp only
  rw [natural?_of_areDigits (areDigits_append hWhole hFraction) hNonempty]
  rfl

theorem plain?_digits (h : AreDigits cs) (hNonempty : cs ≠ []) :
    plain? cs = some ⟨Nat.ofDigitChars 10 cs 0, 0⟩ := by
  have hPoint : cs.span (· != '.') = (cs, []) := by
    simpa using @span_append cs [] _ h.bne_point (by simp)
  rw [plain?, hPoint]
  dsimp only
  rw [natural?_of_areDigits h hNonempty]
  rfl

/-- Holds of the texts that digits and points make up. -/
def ArePlain (cs : List Char) : Prop :=
  ∀ c ∈ cs, c.isDigit = true ∨ c = '.'

theorem AreDigits.arePlain (h : AreDigits cs) : ArePlain cs :=
  fun c hc => Or.inl (h c hc)

theorem arePlain_point (hWhole : AreDigits whole) (hFraction : AreDigits fraction) :
    ArePlain (whole ++ '.' :: fraction) :=
  List.forall_mem_append.mpr
    ⟨hWhole.arePlain, List.forall_mem_cons.mpr ⟨Or.inr rfl, hFraction.arePlain⟩⟩

theorem ArePlain.bne_exponent (h : ArePlain cs) :
    ∀ c ∈ cs, (c != 'e' && c != 'E') = true := by
  intro c hc
  rw [Bool.and_eq_true, bne_iff_ne, bne_iff_ne]
  constructor <;>
    · rintro rfl
      exact absurd (h _ hc) (by decide)

theorem read?_of_arePlain (h : ArePlain cs) : read? cs = plain? cs := by
  have hNone : cs.span (fun c => c != 'e' && c != 'E') = (cs, []) := by
    simpa using @span_append cs [] _ h.bne_exponent (by simp)
  rw [read?, hNone]

theorem read?_exponent (h : ArePlain cs) (exponent : List Char) :
    read? (cs ++ 'e' :: exponent) = (plain? cs).bind fun d =>
      (integer? exponent).map fun e => ⟨d.digits, d.exponent + e⟩ := by
  rw [read?, span_append h.bne_exponent (by simp)]
  dsimp only
  cases plain? cs with
  | none => rfl
  | some d => cases integer? exponent <;> rfl

theorem integer?_sign (h : AreDigits cs) (hNonempty : cs ≠ []) (e : Int)
    (hValue : Nat.ofDigitChars 10 cs 0 = e.natAbs) :
    integer? ((if e < 0 then '-' else '+') :: cs) = some e := by
  split
  · rw [integer?, natural?_of_areDigits h hNonempty, hValue]
    change some (-(e.natAbs : Int)) = some e
    congr 1
    omega
  · rw [integer?, natural?_of_areDigits h hNonempty, hValue]
    change some (e.natAbs : Int) = some e
    congr 1
    omega

end

end Decimal

namespace DecimalFormat

open Decimal

theorem areDigits_significant (n : Nat) : AreDigits (significant n) := by
  intro c hc
  have hSuffix := (List.dropWhile_suffix (· = '0')).subset (List.mem_reverse.mp hc)
  exact areDigits_digitsOf n c (List.mem_reverse.mp hSuffix)

/-- The digits of a number are its significant ones and zeros. -/
theorem digitsOf_eq_significant_append {n : Nat} (h : n ≠ 0) :
    ∃ k, digitsOf n = significant n ++ zeros k ∧ significant n ≠ [] := by
  have hSplit : digitsOf n = significant n ++
      ((digitsOf n).reverse.takeWhile (· = '0')).reverse := by
    rw [significant, ← List.reverse_append, List.takeWhile_append_dropWhile, List.reverse_reverse]
  have hZeros : ((digitsOf n).reverse.takeWhile (· = '0')).reverse =
      zeros ((digitsOf n).reverse.takeWhile (· = '0')).length := by
    rw [zeros, ← List.reverse_replicate]
    congr 1
    refine List.eq_replicate_of_mem fun c hc => ?_
    have hZero := List.mem_takeWhile_imp hc
    exact of_decide_eq_true hZero
  rw [hZeros] at hSplit
  refine ⟨_, hSplit, fun hNil => h ?_⟩
  rw [hNil, List.nil_append] at hSplit
  have hValue := @Nat.ofDigitChars_toDigits 10 n (by decide) (by decide)
  rw [← hValue, ← digitsOf, hSplit, zeros, Nat.ofDigitChars_replicate_zero, Nat.mul_zero]

theorem ofDigitChars_zeros_append (k : Nat) (cs : List Char) :
    Nat.ofDigitChars 10 (zeros k ++ cs) 0 = Nat.ofDigitChars 10 cs 0 := by
  rw [Nat.ofDigitChars_append, zeros, Nat.ofDigitChars_replicate_zero, Nat.mul_zero]

theorem ofDigitChars_append_zeros (k : Nat) (cs : List Char) :
    Nat.ofDigitChars 10 (cs ++ zeros k) 0 = Nat.ofDigitChars 10 cs 0 * 10 ^ k := by
  rw [Nat.ofDigitChars_append, zeros, Nat.ofDigitChars_replicate_zero, Nat.mul_comm]

section

variable {digits : List Char}

/-- A point is put behind the digit of exponent zero, perhaps behind some zeros. -/
theorem positional_eq (hDigits : AreDigits digits) (hNonempty : digits ≠ []) (first : Int) :
    ∃ whole fraction, ∃ j : Nat, positional digits first = whole ++ '.' :: fraction ∧ whole ≠ [] ∧
      AreDigits whole ∧ AreDigits fraction ∧
      Nat.ofDigitChars 10 (whole ++ fraction) 0 = Nat.ofDigitChars 10 digits 0 * 10 ^ j ∧
      j - (fraction.length : Int) = first + 1 - digits.length := by
  rw [positional]
  split
  · refine ⟨['0'], zeros (-first - 1).toNat ++ digits, 0, rfl, List.cons_ne_nil _ _,
      areDigits_zeros 1, areDigits_append (areDigits_zeros _) hDigits, ?_, ?_⟩
    · have hZero : ['0'] = zeros 1 := rfl
      rw [hZero, ofDigitChars_zeros_append, ofDigitChars_zeros_append, Nat.pow_zero, Nat.mul_one]
    · rw [List.length_append, zeros, List.length_replicate]
      omega
  · obtain ⟨n, hn⟩ : ∃ n, first.toNat + 1 = n := ⟨_, rfl⟩
    dsimp only
    rw [hn]
    split
    · rename_i hFraction
      rw [List.drop_eq_nil_iff] at hFraction
      refine ⟨digits ++ zeros (n - digits.length), ['0'], n - digits.length + 1, ?_,
        List.append_ne_nil_of_left_ne_nil hNonempty _,
        areDigits_append hDigits (areDigits_zeros _), areDigits_zeros 1, ?_, ?_⟩
      · rw [List.take_of_length_le hFraction]
      · have hZeros : zeros (n - digits.length) ++ ['0'] = zeros (n - digits.length + 1) :=
          List.replicate_succ'.symm
        rw [List.append_assoc, hZeros, ofDigitChars_append_zeros]
      · rw [List.length_singleton]
        omega
    · rename_i hFraction
      rw [List.drop_eq_nil_iff] at hFraction
      have hNone : n - digits.length = 0 := by omega
      refine ⟨digits.take n, digits.drop n, 0, ?_, ?_,
        fun c hc => hDigits c (List.mem_of_mem_take hc),
        fun c hc => hDigits c (List.mem_of_mem_drop hc), ?_, ?_⟩
      · rw [hNone, zeros, List.replicate_zero, List.append_nil]
      · rw [ne_eq, List.take_eq_nil_iff, not_or]
        exact ⟨by omega, hNonempty⟩
      · rw [List.take_append_drop, Nat.pow_zero, Nat.mul_one]
      · rw [List.length_drop]
        omega

theorem read?_positional (hDigits : AreDigits digits) (hNonempty : digits ≠ []) (first : Int) :
    ∃ d, read? (positional digits first) = some d ∧
      Magnitude.ofDecimal d =
        Magnitude.ofDecimal ⟨Nat.ofDigitChars 10 digits 0, first + 1 - digits.length⟩ := by
  obtain ⟨whole, fraction, j, hText, hWhole, hDigitsWhole, hFraction, hValue, hExponent⟩ :=
    positional_eq hDigits hNonempty first
  refine ⟨⟨Nat.ofDigitChars 10 digits 0 * 10 ^ j, -(fraction.length : Int)⟩, ?_, ?_⟩
  · rw [hText, read?_of_arePlain (arePlain_point hDigitsWhole hFraction),
      plain?_point hDigitsWhole hFraction (List.append_ne_nil_of_left_ne_nil hWhole _), hValue]
  · rw [Magnitude.ofDecimal_mul_pow, ← hExponent, Int.add_comm, Int.sub_eq_add_neg]

/-- All digits but the first stand behind a point. -/
theorem plain?_mantissa {c : Char} {cs : List Char} (h : AreDigits (c :: cs)) :
    ArePlain (c :: (if cs = [] then [] else '.' :: cs)) ∧
      plain? (c :: (if cs = [] then [] else '.' :: cs)) =
        some ⟨Nat.ofDigitChars 10 (c :: cs) 0, -(cs.length : Int)⟩ := by
  obtain ⟨hFirst, hOthers⟩ := List.forall_mem_cons.mp h
  have hDigit : AreDigits [c] := List.forall_mem_singleton.mpr hFirst
  split
  · rename_i hNil
    subst hNil
    exact ⟨hDigit.arePlain, plain?_digits hDigit (List.cons_ne_nil c [])⟩
  · exact ⟨arePlain_point hDigit hOthers, plain?_point hDigit hOthers (List.cons_ne_nil c cs)⟩

theorem scientific_eq (format : DecimalFormat) (hDigits : AreDigits digits)
    (hNonempty : digits ≠ []) (first : Int) :
    ∃ mantissa exponent, format.scientific digits first =
        mantissa ++ 'e' :: (if first < 0 then '-' else '+') :: exponent ∧
      (∃ c cs, mantissa = c :: cs ∧ c.isDigit = true) ∧ ArePlain mantissa ∧
      plain? mantissa = some ⟨Nat.ofDigitChars 10 digits 0, 1 - digits.length⟩ ∧
      exponent ≠ [] ∧ AreDigits exponent ∧ Nat.ofDigitChars 10 exponent 0 = first.natAbs := by
  obtain ⟨c, cs, rfl⟩ := List.exists_cons_of_ne_nil hNonempty
  obtain ⟨hPlain, hMantissa⟩ := plain?_mantissa hDigits
  refine ⟨c :: (if cs = [] then [] else '.' :: cs),
    zeros (format.exponentDigits - (digitsOf first.natAbs).length) ++ digitsOf first.natAbs, rfl,
    ⟨c, _, rfl, hDigits c List.mem_cons_self⟩, hPlain, ?_,
    List.append_ne_nil_of_right_ne_nil _ Nat.toDigits_ne_nil,
    areDigits_append (areDigits_zeros _) (areDigits_digitsOf _), ?_⟩
  · rw [hMantissa, List.length_cons]
    congr 2
    omega
  · rw [ofDigitChars_zeros_append]
    exact Nat.ofDigitChars_toDigits (by decide) (by decide)

theorem read?_scientific (format : DecimalFormat) (hDigits : AreDigits digits)
    (hNonempty : digits ≠ []) (first : Int) :
    read? (format.scientific digits first) =
      some ⟨Nat.ofDigitChars 10 digits 0, first + 1 - digits.length⟩ := by
  obtain ⟨mantissa, exponent, hText, -, hPlain, hMantissa, hExponent, hDigitsExponent, hValue⟩ :=
    scientific_eq format hDigits hNonempty first
  rw [hText, read?_exponent hPlain, hMantissa,
    integer?_sign hDigitsExponent hExponent first hValue, Option.bind_some, Option.map_some]
  dsimp only
  congr 2
  omega

/-- However a decimal is written, its text denotes a decimal of the same value. -/
theorem read?_write (format : DecimalFormat) {d : Decimal} (h : d.digits ≠ 0) :
    ∃ d', read? (format.write d) = some d' ∧
      Magnitude.ofDecimal d' = Magnitude.ofDecimal d := by
  obtain ⟨n, e⟩ := d
  obtain ⟨k, hSplit, hNonempty⟩ := @digitsOf_eq_significant_append n h
  have hDigits := areDigits_significant n
  have hValue : n = Nat.ofDigitChars 10 (significant n) 0 * 10 ^ k := by
    rw [← ofDigitChars_append_zeros, ← hSplit]
    exact (Nat.ofDigitChars_toDigits (by decide) (by decide)).symm
  have hExponent : e + Decimal.length n - 1 + 1 - (significant n).length = e + k := by
    rw [Decimal.length, hSplit, List.length_append, zeros, List.length_replicate]
    omega
  have hSame : Magnitude.ofDecimal ⟨Nat.ofDigitChars 10 (significant n) 0,
      e + Decimal.length n - 1 + 1 - (significant n).length⟩ = Magnitude.ofDecimal ⟨n, e⟩ := by
    rw [hExponent, ← Magnitude.ofDecimal_mul_pow, ← hValue]
  rw [write]
  dsimp only
  split
  · obtain ⟨d, hRead, hEq⟩ := read?_positional hDigits hNonempty (e + Decimal.length n - 1)
    exact ⟨d, hRead, hEq.trans hSame⟩
  · exact ⟨_, read?_scientific format hDigits hNonempty _, hSame⟩

/-- Holds of the texts that start with a digit, and that a point or an exponent tells from those of
whole numbers. -/
structure Marked (text : List Char) : Prop where
  head : ∃ c cs, text = c :: cs ∧ c.isDigit = true
  chars : ∀ c ∈ text, c.isDigit = true ∨ c ∈ ['.', 'e', '+', '-']
  mark : ∃ c ∈ text, c.isDigit = false

theorem marked_append {front back : List Char} {mark : Char} (hFront : ArePlain front)
    (hHead : ∃ c cs, front = c :: cs ∧ c.isDigit = true) (hMark : mark ∈ ['.', 'e'])
    (hBack : ∀ c ∈ back, c.isDigit = true ∨ c ∈ ['.', 'e', '+', '-']) :
    Marked (front ++ mark :: back) where
  head := by
    obtain ⟨c, cs, rfl, hDigit⟩ := hHead
    exact ⟨c, cs ++ mark :: back, rfl, hDigit⟩
  chars := by
    refine List.forall_mem_append.mpr ⟨fun c hc => (hFront c hc).imp_right ?_,
      List.forall_mem_cons.mpr ⟨Or.inr ?_, hBack⟩⟩
    · rintro rfl
      exact List.mem_cons_self
    · exact List.mem_append_left ['+', '-'] hMark
  mark := by
    refine ⟨mark, List.mem_append_right _ List.mem_cons_self, ?_⟩
    simp only [List.mem_cons, List.not_mem_nil, or_false] at hMark
    rcases hMark with rfl | rfl <;> rfl

theorem marked_write (format : DecimalFormat) {d : Decimal} (h : d.digits ≠ 0) :
    Marked (format.write d) := by
  obtain ⟨-, -, hNonempty⟩ := digitsOf_eq_significant_append h
  have hDigits := areDigits_significant d.digits
  rw [write]
  split
  · obtain ⟨whole, fraction, -, hText, hWhole, hDigitsWhole, hFraction, -⟩ :=
      positional_eq hDigits hNonempty (d.exponent + Decimal.length d.digits - 1)
    obtain ⟨c, cs, rfl⟩ := List.exists_cons_of_ne_nil hWhole
    rw [hText]
    exact marked_append hDigitsWhole.arePlain ⟨c, cs, rfl, hDigitsWhole c List.mem_cons_self⟩
      (by decide) fun c hc => Or.inl (hFraction c hc)
  · obtain ⟨mantissa, exponent, hText, hHead, hPlain, -, -, hDigitsExponent, -⟩ :=
      scientific_eq format hDigits hNonempty (d.exponent + Decimal.length d.digits - 1)
    rw [hText]
    refine marked_append hPlain hHead (by decide)
      (List.forall_mem_cons.mpr ⟨Or.inr ?_, fun c hc => Or.inl (hDigitsExponent c hc)⟩)
    split <;> decide

end

end DecimalFormat

namespace Binary64

variable {m : Magnitude}

/-- The first digit tells that a text is neither that of infinity nor that of no number. -/
theorem read?_of_digit {c : Char} {cs : List Char} (h : c.isDigit = true) (negative : Bool) :
    read? ((if negative then ['-'] else []) ++ c :: cs) =
      (Decimal.read? (c :: cs)).map fun d => signed negative (Magnitude.ofDecimal d) := by
  have hUnsigned : read?.unsigned? negative (c :: cs) =
      (Decimal.read? (c :: cs)).map fun d => signed negative (Magnitude.ofDecimal d) := by
    rw [read?.unsigned?.eq_def]
    split
    · rename_i hText
      obtain ⟨rfl, -⟩ := List.cons.inj hText
      cases h
    · rename_i hText
      obtain ⟨rfl, -⟩ := List.cons.inj hText
      cases h
    · rfl
  rw [← hUnsigned]
  cases negative with
  | true => rfl
  | false =>
    change read? (c :: cs) = _
    rw [read?.eq_def]
    split
    · rename_i hText
      obtain ⟨rfl, -⟩ := List.cons.inj hText
      cases h
    · rename_i hText
      obtain ⟨rfl, -⟩ := List.cons.inj hText
      cases h
    · rfl

theorem digits_shortest_ne_zero (h : m ≠ Magnitude.zero) : m.shortest.digits ≠ 0 := by
  intro hDigits
  have hRound := m.ofDecimal_shortest
  rw [Magnitude.ofDecimal, if_pos (Or.inl hDigits)] at hRound
  exact h hRound.symm

/-- Every double is read back from its text. -/
theorem read?_chars (x : Binary64) : read? x.chars = some x := by
  cases x with
  | nan => rfl
  | signed negative m =>
    rw [chars, chars.magnitude]
    by_cases hZero : m = Magnitude.zero
    · rw [if_pos hZero, hZero]
      cases negative <;> rfl
    · rw [if_neg hZero]
      by_cases hInfinity : m = Magnitude.infinity
      · rw [if_pos hInfinity, hInfinity]
        cases negative <;> rfl
      · have hDigits := digits_shortest_ne_zero hZero
        obtain ⟨d, hRead, hRound⟩ := DecimalFormat.read?_write format hDigits
        obtain ⟨c, cs, hText, hDigit⟩ := (DecimalFormat.marked_write format hDigits).head
        rw [if_neg hInfinity]
        rw [hText] at hRead ⊢
        rw [read?_of_digit hDigit, hRead, Option.map_some, hRound, m.ofDecimal_shortest]

theorem mem_chars (x : Binary64) :
    ∀ c ∈ x.chars, c.isDigit = true ∨ c ∈ ['.', 'e', '+', '-', 'i', 'n', 'f', 'a'] := by
  cases x with
  | nan => simp [chars]
  | signed negative m =>
    refine List.forall_mem_append.mpr ⟨by cases negative <;> simp, ?_⟩
    rw [chars.magnitude]
    split
    · simp
    · rename_i hZero
      split
      · simp
      · intro c hc
        have hMarked := DecimalFormat.marked_write format (digits_shortest_ne_zero hZero)
        exact (hMarked.chars c hc).imp_right (List.mem_append_left ['i', 'n', 'f', 'a'])

/-- A period, an exponent or a name shows that a text is not that of an integer. -/
theorem exists_mem_chars (x : Binary64) : ∃ c ∈ x.chars, c.isDigit = false := by
  cases x with
  | nan => exact ⟨'n', by decide, rfl⟩
  | signed negative m =>
    have hMagnitude : ∃ c ∈ chars.magnitude m, c.isDigit = false := by
      rw [chars.magnitude]
      split
      · exact ⟨'.', by decide, rfl⟩
      · rename_i hZero
        split
        · exact ⟨'i', by decide, rfl⟩
        · exact (DecimalFormat.marked_write format (digits_shortest_ne_zero hZero)).mark
    obtain ⟨c, hc, hDigit⟩ := hMagnitude
    exact ⟨c, List.mem_append_right _ hc, hDigit⟩

theorem chars_injective : Function.Injective chars := by
  intro x y h
  have hRead := congrArg read? h
  rw [read?_chars, read?_chars] at hRead
  exact Option.some.inj hRead

end Binary64

end TagTemplate
