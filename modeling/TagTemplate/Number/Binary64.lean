import TagTemplate.Number.Decimal

/-!
# Double-precision numbers

The nonnegative doubles, infinity included, are counted from zero in their order. Every finite
one is a whole number of units, the unit being the least positive double, `2 ^ -1074`. A quotient
of naturals is read as the nearest double, a tie going to the even one, and so is a decimal.
-/

namespace TagTemplate

/-- A nonnegative double, by its place in the order. -/
structure Magnitude where
  ordinal : Nat
  bounded : ordinal ≤ 0x7FF0000000000000
  deriving DecidableEq

namespace Magnitude

def zero : Magnitude := ⟨0, by decide⟩

def infinity : Magnitude := ⟨0x7FF0000000000000, by decide⟩

/-- The magnitude at a place of the order; beyond infinity there is none but infinity. -/
def ofOrdinal (n : Nat) : Magnitude :=
  ⟨min n 0x7FF0000000000000, Nat.min_le_right _ _⟩

/-- How many doubles a binade has. -/
def binade : Nat := 0x10000000000000

/-- How many units the number one has. -/
def one : Nat := Nat.pow 2 1074

/-- How many units a finite magnitude has. -/
def units (m : Magnitude) : Nat :=
  if m.ordinal < binade then m.ordinal
  else (binade + m.ordinal % binade) * Nat.pow 2 (m.ordinal / binade - 1)

/-- The quotient rounded to a whole number, a half to the even neighbour. -/
def roundQuotient (numerator denominator : Nat) : Nat :=
  let floor := numerator / denominator
  let twice := 2 * (numerator % denominator)
  if twice < denominator then floor
  else if denominator < twice then floor + 1
  else floor + floor % 2

/-- The magnitude nearest to a quotient. A binade keeps 53 significant bits, and the ordinal of
its first member counts the doubles of the binades before it. -/
def ofQuotient (numerator denominator : Nat) : Magnitude :=
  let scaled := numerator * one
  let shift := Nat.log2 (scaled / denominator) - 52
  ofOrdinal (shift * binade + roundQuotient scaled (denominator * Nat.pow 2 shift))

/-- The magnitude nearest to a decimal. What has more than 400 digits before the point is
infinite, and what has more than 400 zeros behind it is zero. -/
def ofDecimal (d : Decimal) : Magnitude :=
  let places := d.exponent + Decimal.length d.digits
  if d.digits = 0 ∨ places < -400 then zero
  else if 400 < places then infinity
  else ofQuotient (d.digits * Nat.pow 10 d.exponent.toNat) (Nat.pow 10 (-d.exponent).toNat)

end Magnitude

inductive Binary64
  | nan
  | signed (negative : Bool) (magnitude : Magnitude)
  deriving DecidableEq

namespace Binary64

def ofDecimal (d : Decimal) : Binary64 :=
  signed false (Magnitude.ofDecimal d)

/-- Equality of numbers: the two zeros are equal, and nothing equals what is not a number. -/
def sameNumber : Binary64 → Binary64 → Bool
  | signed s m, signed t n => m = n && (s == t || m.ordinal == 0)
  | _, _ => false

/-- The double that a text denotes: a decimal or `inf`, with a sign or without, or `nan`. -/
def read? : List Char → Option Binary64
  | '-' :: text => unsigned? true text
  | '+' :: text => unsigned? false text
  | text => unsigned? false text
where
  unsigned? (negative : Bool) : List Char → Option Binary64
    | ['i', 'n', 'f'] => some (signed negative Magnitude.infinity)
    | ['n', 'a', 'n'] => some nan
    | text => (Decimal.read? text).map fun d => signed negative (Magnitude.ofDecimal d)

/-- The whole number that a finite double is, if it is one. -/
def integer? : Binary64 → Option Int
  | nan => none
  | signed negative m =>
    if m = Magnitude.infinity ∨ m.units % Magnitude.one ≠ 0 then none
    else
      let n : Int := (m.units / Magnitude.one : Nat)
      some (if negative then -n else n)

end Binary64

end TagTemplate
