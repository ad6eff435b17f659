import TagTemplate.Number.Binary64

/-!
# The shortest text of a double

Of the decimals that read back as a given double, `shortest` has the fewest digits, and among
those it is the nearest to the double. `Binary64.text` writes these digits positionally while the
exponent of the first lies between -4 and 15, and with an `e` otherwise.
-/

namespace TagTemplate

namespace Magnitude

/-- The exponent of the first decimal digit of a positive finite magnitude. -/
def decimalExponent (m : Magnitude) : Int :=
  if one ≤ m.units then (Decimal.length (m.units / one) : Int) - 1
  else
    let places := Decimal.length (one / m.units) - 1
    if m.units * Nat.pow 10 places = one then -(places : Int) else -(places : Int) - 1

/-- The multiple of `10 ^ exponent` next to the magnitude that reads back as it: of two such
neighbours the nearer, and of two equally near the even one. -/
def neighbour? (m : Magnitude) (exponent : Int) : Option Decimal :=
  let numerator := m.units * Nat.pow 10 (-exponent).toNat
  let denominator := one * Nat.pow 10 exponent.toNat
  let below := numerator / denominator
  let nearest := roundQuotient numerator denominator
  let other := if nearest = below then below + 1 else below
  [nearest, other].findSome? fun digits =>
    let d : Decimal := ⟨digits, exponent⟩
    if ofDecimal d = m then some d else none

/-- All digits of a finite magnitude. -/
def exact (m : Magnitude) : Decimal :=
  ⟨m.units * Nat.pow 5 1074, -1074⟩

/-- The decimal with the fewest digits that reads back. -/
def shortest (m : Magnitude) : Decimal :=
  let first := m.decimalExponent
  ((List.range 17).findSome? fun (n : Nat) => m.neighbour? (first - n)).getD m.exact

end Magnitude

/-- How a decimal is written: positionally for the exponents of the first digit from
`leastPositional` to `greatestPositional`, with at least one digit behind the point, and
otherwise with an exponent of at least `exponentDigits` digits behind its sign. -/
structure DecimalFormat where
  leastPositional : Int
  greatestPositional : Int
  exponentDigits : Nat

namespace DecimalFormat

/-- The digits of a number without the zeros at its end. -/
def significant (n : Nat) : List Char :=
  ((Decimal.digitsOf n).reverse.dropWhile (· = '0')).reverse

def zeros (n : Nat) : List Char :=
  List.replicate n '0'

/-- The digits with a point behind the digit of exponent zero, `first` being the exponent of the
first digit. -/
def positional (digits : List Char) (first : Int) : List Char :=
  if first < 0 then '0' :: '.' :: zeros (-first - 1).toNat ++ digits
  else
    let whole := first.toNat + 1
    let fraction := digits.drop whole
    digits.take whole ++ zeros (whole - digits.length) ++
      '.' :: (if fraction = [] then ['0'] else fraction)

def scientific (format : DecimalFormat) (digits : List Char) (first : Int) : List Char :=
  let exponent := Decimal.digitsOf first.natAbs
  let fraction := digits.drop 1
  digits.take 1 ++ (if fraction = [] then [] else '.' :: fraction) ++
    'e' :: (if first < 0 then '-' else '+') ::
      (zeros (format.exponentDigits - exponent.length) ++ exponent)

def write (format : DecimalFormat) (d : Decimal) : List Char :=
  let first := d.exponent + Decimal.length d.digits - 1
  let digits := significant d.digits
  if format.leastPositional ≤ first ∧ first ≤ format.greatestPositional then
    positional digits first
  else format.scientific digits first

end DecimalFormat

namespace Binary64

/-- Exponents from -4 to 15 are positional, others have at least two digits. -/
def format : DecimalFormat := ⟨-4, 15, 2⟩

def chars : Binary64 → List Char
  | nan => ['n', 'a', 'n']
  | signed negative m => (if negative then ['-'] else []) ++ magnitude m
where
  magnitude (m : Magnitude) : List Char :=
    if m = Magnitude.zero then ['0', '.', '0']
    else if m = Magnitude.infinity then ['i', 'n', 'f']
    else format.write m.shortest

def text (x : Binary64) : String :=
  String.ofList x.chars

end Binary64

end TagTemplate
