/-!
# Decimal numbers as text

A `Decimal` stands for `digits * 10 ^ exponent`. Its written forms are a run of digits with at
most one period and at least one digit, and the same followed by `e` and an exponent.
-/

namespace TagTemplate

structure Decimal where
  digits : Nat
  exponent : Int
  deriving DecidableEq

namespace Decimal

/-- The most digits that a whole number may have to be read from its text or to be written. -/
def maxDigits : Nat := 4300

/-- The number that a run of digits denotes in the given base. -/
def value (base : Nat) (digits : List Nat) : Nat :=
  digits.foldl (fun n d => base * n + d) 0

/-- The value of a digit of base sixteen or less. -/
def digit? (c : Char) : Option Nat :=
  if '0' ≤ c ∧ c ≤ '9' then some (c.toNat - '0'.toNat)
  else if 'a' ≤ c ∧ c ≤ 'f' then some (c.toNat - 'a'.toNat + 10)
  else if 'A' ≤ c ∧ c ≤ 'F' then some (c.toNat - 'A'.toNat + 10)
  else none

def natural? (base : Nat) (text : List Char) : Option Nat := do
  let digits ← text.mapM digit?
  if digits.isEmpty || digits.any (base ≤ ·) then none
  else some (value base digits)

/-- The whole number of an optional sign and decimal digits. -/
def integer? : List Char → Option Int
  | '-' :: text => (natural? 10 text).map (fun n => -(n : Int))
  | '+' :: text => (natural? 10 text).map Int.ofNat
  | text => (natural? 10 text).map Int.ofNat

/-- Digits with at most one period. -/
def plain? (text : List Char) : Option Decimal :=
  match text.span (· != '.') with
  | (whole, []) => (natural? 10 whole).map fun n => ⟨n, 0⟩
  | (whole, _ :: fraction) =>
    (natural? 10 (whole ++ fraction)).map fun n => ⟨n, -(fraction.length : Int)⟩

/-- Digits with at most one period, then perhaps an exponent. -/
def read? (text : List Char) : Option Decimal :=
  match text.span (fun c => c != 'e' && c != 'E') with
  | (mantissa, []) => plain? mantissa
  | (mantissa, _ :: exponent) => do
    let d ← plain? mantissa
    let e ← integer? exponent
    return ⟨d.digits, d.exponent + e⟩

/-- The decimal digits of a number, the most significant first. -/
def digitsOf (n : Nat) : List Char :=
  Nat.toDigits 10 n

def length (n : Nat) : Nat :=
  (digitsOf n).length

end Decimal

end TagTemplate
