import Mathlib.Data.Nat.Dist
import Mathlib.Order.Monotone.Basic
import Mathlib.Order.Nat
import TagTemplate.Number.Binary64

/-!
# Rounding to the nearest double

The magnitudes stand on a scale of whole numbers of units, where infinity has the place that would
come next if there were no bound. A quotient, and so a decimal, is read as the magnitude that is
nearest to it on this scale, or as the even one of two that are equally near. There is one such
magnitude.
-/

namespace TagTemplate

namespace Magnitude

/-- How many units a magnitude has by its place in the order. -/
def unitsAt (n : Nat) : Nat :=
  if n < binade then n
  else (binade + n % binade) * Nat.pow 2 (n / binade - 1)

theorem units_eq (m : Magnitude) : m.units = unitsAt m.ordinal := rfl

/-- How far the magnitude is from a quotient, times the denominator and in units. -/
def distance (m : Magnitude) (numerator denominator : Nat) : Nat :=
  Nat.dist (numerator * one) (denominator * m.units)

/-- Holds of the magnitude that is nearest to a quotient, an even one where two are. Infinity stands
for `2 ^ 1024` here, so it is nearest from the middle between this and the last finite one on. -/
structure Nearest (m : Magnitude) (numerator denominator : Nat) : Prop where
  le : ∀ m' : Magnitude, m.distance numerator denominator ≤ m'.distance numerator denominator
  even : ∀ m' : Magnitude, m' ≠ m →
    m'.distance numerator denominator = m.distance numerator denominator → m.ordinal % 2 = 0

theorem binade_pos : 0 < binade := by decide

/-! ### The scale -/

section

variable {e r n : Nat}

/-- Behind `e` binades, the steps of the scale have `2 ^ e` units. -/
theorem unitsAt_step (hr : r ≤ 2 * binade) (he : e = 0 ∨ binade ≤ r) :
    unitsAt (e * binade + r) = r * 2 ^ e := by
  rcases Nat.lt_or_ge r binade with hLess | hLe
  · obtain rfl := he.resolve_right hLess.not_ge
    rw [Nat.zero_mul, Nat.zero_add, unitsAt, if_pos hLess, Nat.pow_zero, Nat.mul_one]
  · obtain ⟨t, rfl⟩ := Nat.exists_eq_add_of_le hLe
    have hOutside : ¬e * binade + (binade + t) < binade := by omega
    rw [unitsAt, if_neg hOutside, Nat.pow_eq]
    rcases Nat.lt_or_ge t binade with hInside | hEnd
    · obtain ⟨hDiv, hMod⟩ := (Nat.div_mod_unique binade_pos).mpr
        ⟨(by rw [Nat.mul_add, Nat.mul_one, Nat.mul_comm binade e]; omega :
          t + binade * (e + 1) = e * binade + (binade + t)), hInside⟩
      rw [hDiv, hMod, Nat.add_sub_cancel]
    · obtain rfl : t = binade := by omega
      obtain ⟨hDiv, hMod⟩ := (Nat.div_mod_unique binade_pos).mpr
        ⟨(by rw [Nat.mul_add, Nat.mul_comm binade e]; omega :
          0 + binade * (e + 2) = e * binade + (binade + binade)), binade_pos⟩
      rw [hDiv, hMod, Nat.add_zero, show e + 2 - 1 = e + 1 from rfl, Nat.pow_succ,
        Nat.mul_comm (2 ^ e), ← Nat.mul_assoc, Nat.mul_two]

/-- Every place of the order is a step behind some binades. -/
theorem exists_step (n : Nat) :
    ∃ e r, n = e * binade + r ∧ r < 2 * binade ∧ (e = 0 ∨ binade ≤ r) := by
  rcases Nat.lt_or_ge n binade with hLess | hLe
  · exact ⟨0, n, by omega, by omega, Or.inl rfl⟩
  · have hSplit := Nat.div_add_mod' n binade
    have hInside := Nat.mod_lt n binade_pos
    have hDiv := Nat.div_pos hLe binade_pos
    obtain ⟨e, he⟩ := Nat.exists_eq_add_of_le' hDiv
    rw [he, Nat.add_mul, Nat.one_mul] at hSplit
    exact ⟨e, binade + n % binade, by omega, by omega, Or.inr (by omega)⟩

theorem unitsAt_strictMono : StrictMono unitsAt := by
  refine strictMono_nat_of_lt_succ fun n => ?_
  obtain ⟨e, r, rfl, hr, he⟩ := exists_step n
  rw [Nat.add_assoc, unitsAt_step hr.le he, unitsAt_step hr (by omega)]
  exact Nat.mul_lt_mul_of_pos_right r.lt_succ_self (Nat.two_pow_pos e)

/-- At the end of a binade the next step is a longer one. -/
theorem le_unitsAt_succ (hr : r ≤ 2 * binade) (he : e = 0 ∨ binade ≤ r) :
    (r + 1) * 2 ^ e ≤ unitsAt (e * binade + r + 1) := by
  rcases Nat.lt_or_eq_of_le hr with hLess | rfl
  · rw [Nat.add_assoc, unitsAt_step hLess (by omega)]
  · have hPlace : e * binade + 2 * binade + 1 = (e + 1) * binade + (binade + 1) := by
      rw [Nat.add_mul]
      omega
    have hBound : binade + 1 ≤ 2 * binade := by decide
    rw [hPlace, unitsAt_step hBound (Or.inr (Nat.le_add_right _ 1)), Nat.pow_succ,
      Nat.mul_comm (2 ^ e), ← Nat.mul_assoc]
    exact Nat.mul_le_mul_right _ (by omega)

end

/-! ### Neighbours -/

section

variable {m : Magnitude} {numerator denominator : Nat}

/-- Holds if the first number is less than the second, or equal to it where `n` is even. -/
def LtOrEven (n a b : Nat) : Prop :=
  a < b ∨ a = b ∧ n % 2 = 0

theorem mul_unitsAt_strictMono (hPos : 0 < denominator) :
    StrictMono fun n => denominator * unitsAt n :=
  fun _ _ h => Nat.mul_lt_mul_of_pos_left (unitsAt_strictMono h) hPos

theorem eq_of_ordinal {m m' : Magnitude} (h : m.ordinal = m'.ordinal) : m = m' := by
  cases m
  cases m'
  cases h
  rfl

/-- The nearest magnitude is the one whose middles with its two neighbours have the quotient
between them. -/
theorem nearest_of_neighbours (hPos : 0 < denominator)
    (hAbove : m.ordinal < infinity.ordinal → LtOrEven m.ordinal (2 * (numerator * one))
      (denominator * (unitsAt m.ordinal + unitsAt (m.ordinal + 1))))
    (hBelow : ∀ n, n + 1 = m.ordinal → LtOrEven m.ordinal
      (denominator * (unitsAt n + unitsAt m.ordinal)) (2 * (numerator * one))) :
    m.Nearest numerator denominator := by
  have hScale := mul_unitsAt_strictMono hPos
  have hOthers (m' : Magnitude) (h : m' ≠ m) :
      LtOrEven m.ordinal (m.distance numerator denominator)
        (m'.distance numerator denominator) := by
    simp only [distance, units_eq, Nat.dist, LtOrEven, Nat.mul_add] at *
    rcases Nat.lt_or_gt_of_ne (mt eq_of_ordinal h) with hLess | hGreater
    · obtain ⟨n, hn⟩ : ∃ n, n + 1 = m.ordinal := ⟨m.ordinal - 1, by omega⟩
      have hNear := hBelow n hn
      have hFar : denominator * unitsAt m'.ordinal ≤ denominator * unitsAt n :=
        hScale.monotone (by omega)
      have hStep : denominator * unitsAt n < denominator * unitsAt m.ordinal :=
        hScale (by omega)
      omega
    · have hNear := hAbove (hGreater.trans_le m'.bounded)
      have hFar : denominator * unitsAt (m.ordinal + 1) ≤ denominator * unitsAt m'.ordinal :=
        hScale.monotone hGreater
      have hStep : denominator * unitsAt m.ordinal < denominator * unitsAt (m.ordinal + 1) :=
        hScale m.ordinal.lt_succ_self
      omega
  constructor
  · intro m'
    by_cases h : m' = m
    · rw [h]
    · exact (hOthers m' h).elim le_of_lt fun hEq => hEq.1.le
  · intro m' h hEq
    exact (hOthers m' h).elim (fun hLess => absurd hEq hLess.ne') fun hEven => hEven.2

/-- Two nearest magnitudes would both be even, and the one between them would be nearer. -/
theorem Nearest.not_lt {m' : Magnitude} (hPos : 0 < denominator)
    (h : m.Nearest numerator denominator) (h' : m'.Nearest numerator denominator) :
    ¬m.ordinal < m'.ordinal := by
  intro hLess
  have hNe : m ≠ m' := fun hEq => hLess.ne (congrArg ordinal hEq)
  have hEq := Nat.le_antisymm (h.le m') (h'.le m)
  have hEven := h.even m' hNe.symm hEq.symm
  have hEven' := h'.even m hNe hEq
  have hBetween : m.ordinal + 1 < m'.ordinal := by omega
  have hNearer := h.le ⟨m.ordinal + 1, (hBetween.trans_le m'.bounded).le⟩
  have hScale := mul_unitsAt_strictMono hPos
  have hLow : denominator * unitsAt m.ordinal < denominator * unitsAt (m.ordinal + 1) :=
    hScale m.ordinal.lt_succ_self
  have hHigh : denominator * unitsAt (m.ordinal + 1) < denominator * unitsAt m'.ordinal :=
    hScale hBetween
  simp only [distance, units_eq, Nat.dist] at hEq hNearer
  omega

theorem Nearest.eq {m' : Magnitude} (hPos : 0 < denominator)
    (h : m.Nearest numerator denominator) (h' : m'.Nearest numerator denominator) : m = m' := by
  have hLe := Nat.le_of_not_lt (h.not_lt hPos h')
  have hGe := Nat.le_of_not_lt (h'.not_lt hPos h)
  exact eq_of_ordinal (Nat.le_antisymm hGe hLe)

end

/-! ### Quotients -/

section

variable {numerator denominator : Nat}

theorem roundQuotient_eq_or (numerator denominator : Nat) :
    roundQuotient numerator denominator = numerator / denominator ∨
      roundQuotient numerator denominator = numerator / denominator + 1 := by
  dsimp only [roundQuotient]
  split
  · exact Or.inl rfl
  · split
    · exact Or.inr rfl
    · omega

/-- The quotient is between the middles of the rounded one with its two neighbours. -/
theorem roundQuotient_ltOrEven (hPos : 0 < denominator) :
    LtOrEven (roundQuotient numerator denominator) (2 * numerator)
        (denominator * (2 * roundQuotient numerator denominator + 1)) ∧
      LtOrEven (roundQuotient numerator denominator)
        (denominator * (2 * roundQuotient numerator denominator))
        (2 * numerator + denominator) := by
  have hSplit := Nat.div_add_mod numerator denominator
  have hMod := Nat.mod_lt numerator hPos
  rw [LtOrEven, LtOrEven, Nat.mul_add, Nat.mul_left_comm, Nat.mul_one]
  dsimp only [roundQuotient]
  split
  · omega
  · split
    · rw [Nat.mul_add]
      omega
    · rcases Nat.mod_two_eq_zero_or_one (numerator / denominator) with hEven | hOdd
      · rw [hEven, Nat.add_zero]
        omega
      · rw [hOdd, Nat.mul_add]
        omega

/-- The shift leaves at most 53 bits of a number, and no fewer if there were any to leave off. -/
theorem shift_bounds (q : Nat) :
    q / 2 ^ (q.log2 - 52) < 2 * binade ∧
      (q.log2 - 52 = 0 ∨ binade ≤ q / 2 ^ (q.log2 - 52)) := by
  obtain ⟨e, he⟩ : ∃ e, q.log2 - 52 = e := ⟨_, rfl⟩
  have hBinade : binade = 2 ^ 52 := rfl
  have hPos := Nat.two_pow_pos e
  rw [he, Nat.div_lt_iff_lt_mul hPos, Nat.le_div_iff_mul_le hPos, hBinade, ← Nat.pow_add,
    ← Nat.pow_succ', ← Nat.pow_add]
  constructor
  · exact Nat.lt_log2_self.trans_le (Nat.pow_le_pow_right Nat.two_pos (by omega))
  · rcases Nat.eq_zero_or_pos e with hZero | hLong
    · exact Or.inl hZero
    · have hNumber : q ≠ 0 := by
        rintro rfl
        rw [Nat.log2_zero] at he
        omega
      have hLog : 52 + e = q.log2 := by omega
      exact Or.inr (hLog ▸ Nat.log2_self_le hNumber)

/-- The place of the order that a quotient is rounded to, if there is no bound. -/
def ordinalOf (numerator denominator : Nat) : Nat :=
  let scaled := numerator * one
  let shift := Nat.log2 (scaled / denominator) - 52
  shift * binade + roundQuotient scaled (denominator * Nat.pow 2 shift)

theorem ordinal_ofQuotient (numerator denominator : Nat) :
    (ofQuotient numerator denominator).ordinal =
      min (ordinalOf numerator denominator) infinity.ordinal := rfl

theorem ordinalOf_eq (numerator denominator : Nat) :
    ∃ e, (numerator * one / (denominator * 2 ^ e) < 2 * binade ∧
        (e = 0 ∨ binade ≤ numerator * one / (denominator * 2 ^ e))) ∧
      ordinalOf numerator denominator =
        e * binade + roundQuotient (numerator * one) (denominator * 2 ^ e) := by
  refine ⟨Nat.log2 (numerator * one / denominator) - 52, ?_, rfl⟩
  rw [← Nat.div_div_eq_div_mul]
  exact shift_bounds _

theorem binades_add_mod_two (e r : Nat) : (e * binade + r) % 2 = r % 2 := by
  rw [binade]
  omega

theorem ordinalOf_above (hPos : 0 < denominator) :
    LtOrEven (ordinalOf numerator denominator) (2 * (numerator * one))
      (denominator * (unitsAt (ordinalOf numerator denominator) +
        unitsAt (ordinalOf numerator denominator + 1))) := by
  obtain ⟨e, ⟨hHigh, hLow⟩, hPlace⟩ := ordinalOf_eq numerator denominator
  obtain ⟨hNear, -⟩ := @roundQuotient_ltOrEven (numerator * one) (denominator * 2 ^ e)
    (Nat.mul_pos hPos (Nat.two_pow_pos e))
  have hFloor := roundQuotient_eq_or (numerator * one) (denominator * 2 ^ e)
  rw [hPlace]
  generalize roundQuotient (numerator * one) (denominator * 2 ^ e) = r at hNear hFloor ⊢
  have hStep : denominator * 2 ^ e * (2 * r + 1) ≤
      denominator * (unitsAt (e * binade + r) + unitsAt (e * binade + r + 1)) :=
    calc denominator * 2 ^ e * (2 * r + 1)
        = denominator * (r * 2 ^ e + (r + 1) * 2 ^ e) := by
          rw [Nat.mul_assoc, ← Nat.add_mul, Nat.mul_comm (2 ^ e)]
          congr 2
          omega
      _ ≤ _ := by
          rw [unitsAt_step (by omega : r ≤ 2 * binade) (by omega)]
          exact Nat.mul_le_mul_left _
            (Nat.add_le_add_left (le_unitsAt_succ (by omega) (by omega)) _)
  rw [LtOrEven, binades_add_mod_two]
  rw [LtOrEven] at hNear
  omega

/-- When the quotient is rounded up, the place before is the next lower step of the same length;
otherwise it does not matter how long that step is. -/
theorem ordinalOf_below (hPos : 0 < denominator) {n : Nat}
    (h : n + 1 = ordinalOf numerator denominator) :
    LtOrEven (ordinalOf numerator denominator)
      (denominator * (unitsAt n + unitsAt (ordinalOf numerator denominator)))
      (2 * (numerator * one)) := by
  obtain ⟨e, ⟨hHigh, hLow⟩, hPlace⟩ := ordinalOf_eq numerator denominator
  obtain ⟨-, hNear⟩ := @roundQuotient_ltOrEven (numerator * one) (denominator * 2 ^ e)
    (Nat.mul_pos hPos (Nat.two_pow_pos e))
  have hStep : denominator * unitsAt n <
      denominator * unitsAt (ordinalOf numerator denominator) :=
    mul_unitsAt_strictMono hPos (by omega)
  rcases roundQuotient_eq_or (numerator * one) (denominator * 2 ^ e) with hDown | hUp
  · have hUnits := unitsAt_step hHigh.le hLow
    have hFloor := Nat.mul_div_le (numerator * one) (denominator * 2 ^ e)
    rw [hDown] at hPlace
    rw [Nat.mul_assoc, Nat.mul_comm (2 ^ e), ← hUnits, ← hPlace] at hFloor
    rw [LtOrEven, Nat.mul_add]
    omega
  · rw [hUp] at hPlace hNear
    obtain rfl : n = e * binade + numerator * one / (denominator * 2 ^ e) := by omega
    generalize numerator * one / (denominator * 2 ^ e) = floor at *
    have hMiddle : denominator * (unitsAt (e * binade + floor) +
        unitsAt (e * binade + (floor + 1))) = denominator * 2 ^ e * (2 * floor + 1) := by
      rw [unitsAt_step hHigh.le hLow, unitsAt_step hHigh (by omega), ← Nat.add_mul,
        Nat.mul_assoc, Nat.mul_comm (2 ^ e)]
      congr 2
      omega
    rw [hPlace, hMiddle, LtOrEven, binades_add_mod_two]
    rw [LtOrEven, Nat.mul_add 2, Nat.mul_add] at hNear
    rw [Nat.mul_add]
    omega

/-- Infinity is nearest to what is not below its place. -/
theorem infinity_nearest (hPos : 0 < denominator)
    (h : denominator * infinity.units ≤ numerator * one) :
    infinity.Nearest numerator denominator := by
  refine nearest_of_neighbours hPos (fun hLess => absurd hLess (Nat.lt_irrefl _)) fun n hn => ?_
  have hScale : denominator * unitsAt n < denominator * unitsAt infinity.ordinal :=
    mul_unitsAt_strictMono hPos (by omega)
  rw [units_eq] at h
  rw [LtOrEven, Nat.mul_add]
  omega

theorem ofQuotient_nearest (hPos : 0 < denominator) :
    (ofQuotient numerator denominator).Nearest numerator denominator := by
  rcases Nat.lt_or_ge infinity.ordinal (ordinalOf numerator denominator) with hBeyond | hInside
  · have hInfinity : ofQuotient numerator denominator = infinity :=
      eq_of_ordinal ((ordinal_ofQuotient ..).trans (Nat.min_eq_right hBeyond.le))
    obtain ⟨n, hn⟩ : ∃ n, n + 1 = ordinalOf numerator denominator :=
      ⟨ordinalOf numerator denominator - 1, by omega⟩
    have hNear := ordinalOf_below hPos hn
    have hLast : denominator * unitsAt infinity.ordinal ≤ denominator * unitsAt n :=
      (mul_unitsAt_strictMono hPos).monotone (by omega : infinity.ordinal ≤ n)
    have hStep : denominator * unitsAt n <
        denominator * unitsAt (ordinalOf numerator denominator) :=
      mul_unitsAt_strictMono hPos (by omega)
    rw [hInfinity]
    refine infinity_nearest hPos ?_
    rw [LtOrEven, Nat.mul_add] at hNear
    rw [units_eq]
    omega
  · have hOrdinal :
        (ofQuotient numerator denominator).ordinal = ordinalOf numerator denominator :=
      (ordinal_ofQuotient ..).trans (Nat.min_eq_left hInside)
    refine nearest_of_neighbours hPos (fun _ => ?_) fun n hn => ?_
    · rw [hOrdinal]
      exact ordinalOf_above hPos
    · rw [hOrdinal] at hn ⊢
      exact ordinalOf_below hPos hn

/-- Zero is nearest to what is not above half a unit. -/
theorem zero_nearest (hPos : 0 < denominator) (h : 2 * (numerator * one) ≤ denominator) :
    zero.Nearest numerator denominator := by
  refine nearest_of_neighbours hPos (fun _ => ?_) fun n hn => absurd hn n.succ_ne_zero
  have hOrdinal : zero.ordinal = 0 := rfl
  have hZero : unitsAt 0 = 0 := rfl
  have hUnit : unitsAt 1 = 1 := rfl
  rw [hOrdinal, hZero, hUnit, LtOrEven]
  omega

end

/-! ### Decimals -/

theorem lt_pow_length (n : Nat) : n < 10 ^ Decimal.length n := by
  have hPos : 0 < Decimal.length n := List.length_pos_iff.mpr Nat.toDigits_ne_nil
  exact (Nat.length_toDigits_le_iff (by decide) hPos).mp (Nat.le_refl _)

theorem pow_length_le {n : Nat} (h : n ≠ 0) : 10 ^ (Decimal.length n - 1) ≤ n := by
  rcases Nat.eq_zero_or_pos (Decimal.length n - 1) with hShort | hLong
  · rw [hShort]
    exact Nat.pos_of_ne_zero h
  · refine Nat.le_of_not_lt fun hLess => ?_
    have hLength := (Nat.length_toDigits_le_iff (by decide) hLong).mpr hLess
    change Decimal.length n ≤ _ at hLength
    omega

theorem two_mul_one_le {k : Nat} (h : 401 ≤ k) : 2 * one ≤ 10 ^ k :=
  calc 2 * one ≤ 10 ^ 401 := by decide +kernel
    _ ≤ 10 ^ k := Nat.pow_le_pow_right (by decide) h

theorem infinity_units_le {k : Nat} (h : 400 ≤ k) : infinity.units ≤ 10 ^ k * one :=
  calc infinity.units ≤ 10 ^ 400 * one := by decide +kernel
    _ ≤ 10 ^ k * one := Nat.mul_le_mul_right _ (Nat.pow_le_pow_right (by decide) h)

/-- A decimal is read as the nearest double, also where its length alone decides. -/
theorem ofDecimal_nearest (d : Decimal) :
    (ofDecimal d).Nearest (d.digits * 10 ^ d.exponent.toNat) (10 ^ (-d.exponent).toNat) := by
  obtain ⟨digits, exponent⟩ := d
  have hPos : 0 < 10 ^ (-exponent).toNat := Nat.pow_pos (by decide)
  dsimp only [ofDecimal]
  split
  · rename_i hSmall
    refine zero_nearest hPos ?_
    rcases hSmall with rfl | hPlaces
    · omega
    · have hExponent : exponent.toNat = 0 := by omega
      obtain ⟨k, hk⟩ := Nat.exists_eq_add_of_le
        (by omega : Decimal.length digits ≤ (-exponent).toNat)
      calc 2 * (digits * 10 ^ exponent.toNat * one)
          = digits * (2 * one) := by
            rw [hExponent, Nat.pow_zero, Nat.mul_one, Nat.mul_left_comm]
        _ ≤ 10 ^ Decimal.length digits * 10 ^ k :=
            Nat.mul_le_mul (lt_pow_length digits).le (two_mul_one_le (by omega))
        _ = 10 ^ (-exponent).toNat := by rw [hk, Nat.pow_add]
  · rename_i hSmall
    split
    · refine infinity_nearest hPos ?_
      have hDigits : digits ≠ 0 := fun hZero => hSmall (Or.inl hZero)
      obtain ⟨k, hk⟩ := Nat.exists_eq_add_of_le
        (by omega : (-exponent).toNat ≤ Decimal.length digits - 1 + exponent.toNat)
      calc 10 ^ (-exponent).toNat * infinity.units
          ≤ 10 ^ (-exponent).toNat * (10 ^ k * one) :=
            Nat.mul_le_mul_left _ (infinity_units_le (by omega))
        _ = 10 ^ (Decimal.length digits - 1) * 10 ^ exponent.toNat * one := by
            rw [← Nat.mul_assoc, ← Nat.pow_add, ← hk, Nat.pow_add]
        _ ≤ digits * 10 ^ exponent.toNat * one :=
            Nat.mul_le_mul_right _ (Nat.mul_le_mul_right _ (pow_length_le hDigits))
    · exact ofQuotient_nearest hPos

end Magnitude

end TagTemplate
