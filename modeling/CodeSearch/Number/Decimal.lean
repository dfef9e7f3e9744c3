import CodeSearch.Number.Single

/-!
# Decimal numerals

A decimal numeral stands for a number exactly: a sign, digits, and a power of ten.
It is read into a single by one rounding. The shortest numeral of a single is the
one with the fewest digits that reads back as it, and of those the nearest.
-/
namespace CodeSearch

/-- The number `digits * 10 ^ exponent` with a sign. -/
structure Decimal where
  negative : Bool
  digits : Nat
  exponent : Int
  deriving DecidableEq, Repr, Inhabited

namespace Decimal

def countDigits (n : Nat) : Nat :=
  (Nat.toDigits 10 n).length

/-- One more than the power of ten of the first digit. -/
def size (d : Decimal) : Int :=
  countDigits d.digits + d.exponent

/-- The numerator and the denominator of the number without its sign. -/
def ratio (d : Decimal) : Nat × Nat :=
  if 0 ≤ d.exponent then (d.digits * Nat.pow 10 d.exponent.toNat, 1)
  else (d.digits, Nat.pow 10 (-d.exponent).toNat)

/-- The least number that rounds to an infinity of 64 bits. -/
def doubleLimit : Nat := Nat.pow 2 1024 - Nat.pow 2 970

/-- The number does not round to an infinity of 64 bits. -/
def fitsDouble (d : Decimal) : Bool :=
  if d.digits = 0 || d.size ≤ 0 then true
  else if 400 < d.size then false
  else
    let r := d.ratio
    r.1 < doubleLimit * r.2

def toSingle (d : Decimal) : Single :=
  if d.digits = 0 || d.size < -60 then .ofMagnitude d.negative 0
  else if 60 < d.size then .ofMagnitude d.negative Single.infinite
  else
    let r := d.ratio
    .ofRatio d.negative r.1 r.2

/-- The exact numeral of a finite single. -/
def exact (x : Single) : Decimal :=
  let d := x.decode
  if 0 ≤ d.2 then ⟨x.negative, d.1 * Nat.pow 2 d.2.toNat, 0⟩
  else ⟨x.negative, d.1 * Nat.pow 5 (-d.2).toNat, d.2⟩

/-- The power of ten of the first digit of a finite single that is not zero. -/
def leading (x : Single) : Int :=
  (exact x).size - 1

/-- The numerals with `count` digits on both sides of a finite single, the nearer one
first. -/
def neighbours (x : Single) (count : Nat) : List Decimal :=
  let unit : Int := leading x + 1 - count
  let r := x.ratio
  let scaled := if 0 ≤ unit then (r.1, r.2 * Nat.pow 10 unit.toNat)
    else (r.1 * Nat.pow 10 (-unit).toNat, r.2)
  let low := scaled.1 / scaled.2
  let rest := scaled.1 % scaled.2
  let lower : Decimal := ⟨x.negative, low, unit⟩
  let upper : Decimal := ⟨x.negative, low + 1, unit⟩
  if 2 * rest ≤ scaled.2 then [lower, upper] else [upper, lower]

/-- The shortest numeral of a finite single. Nine digits are always enough; the exact
numeral stands behind them. -/
def shortest (x : Single) : Decimal :=
  if x.isZero then ⟨x.negative, 0, 0⟩
  else
    (((List.range' 1 9).flatMap (neighbours x)).find? fun d => d.toSingle = x).getD (exact x)

end Decimal

end CodeSearch
