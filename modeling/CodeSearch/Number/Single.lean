/-!
# Numbers of 32 bits

A single is a binary floating-point number of 32 bits, kept as its bits so that the
sign of a NaN is part of it. Arithmetic rounds to nearest; an operation without a
numeric result gives the NaN with the sign bit set, and a NaN operand is passed on
as it is, the left one first. Two orders matter: the numeric comparison, under which
a NaN is neither below nor above anything, and the total order, in which `-0` is
below `0` and the NaNs lie outside the infinities.
-/
namespace CodeSearch

structure Single where
  bits : UInt32
  deriving DecidableEq, Repr, Inhabited

namespace Single

def signBit : Nat := 0x80000000

/-- The value of the bit that stands in front of the stored part of a mantissa. -/
def leadingBit : Nat := 0x800000

/-- The bits without the sign. -/
def magnitude (x : Single) : Nat :=
  x.bits.toNat % signBit

/-- The sign bit is set. -/
def negative (x : Single) : Bool :=
  signBit ≤ x.bits.toNat

theorem negative_iff {x : Single} : x.negative = true ↔ signBit ≤ x.bits.toNat := by
  simp [negative]

/-- The magnitude of the infinities. -/
def infinite : Nat := 0x7F800000

def isNaN (x : Single) : Bool :=
  infinite < x.magnitude

/-- Neither infinite nor a NaN. -/
def isFinite (x : Single) : Bool :=
  x.magnitude < infinite

/-- The NaN of operations without a numeric result. -/
def undefined : Single := ⟨0xFFC00000⟩

def zero : Single := ⟨0⟩

/-- Zero with the sign bit set: the sum of nothing. -/
def negativeZero : Single := ⟨0x80000000⟩

def ofMagnitude (negative : Bool) (magnitude : Nat) : Single :=
  ⟨((if negative then signBit else 0) + magnitude).toUInt32⟩

def toFloat (x : Single) : Float32 :=
  Float32.ofBits x.bits

/-- The result of an operation on numbers. -/
def ofResult (r : Float32) : Single :=
  if r.isNaN then undefined else ⟨r.toBits⟩

/-- An operation that passes NaN operands on, the left one first. -/
def lift (op : Float32 → Float32 → Float32) (x y : Single) : Single :=
  if x.isNaN then x else if y.isNaN then y else ofResult (op x.toFloat y.toFloat)

instance : Add Single := ⟨lift (· + ·)⟩
instance : Mul Single := ⟨lift (· * ·)⟩
instance : Div Single := ⟨lift (· / ·)⟩

def sqrt (x : Single) : Single :=
  if x.isNaN then x else ofResult x.toFloat.sqrt

def sum (xs : List Single) : Single :=
  xs.foldl (· + ·) negativeZero

/-- The place of a number in the total order. -/
def rank (x : Single) : Int :=
  if x.negative then -(x.magnitude : Int) - 1 else x.magnitude

/-- The place of a number in the numeric order, in which both zeros are one. -/
def level (x : Single) : Int :=
  if x.negative then -(x.magnitude : Int) else x.magnitude

/-- The numeric comparison. -/
def below (x y : Single) : Bool :=
  !x.isNaN && !y.isNaN && x.level < y.level

/-- Either of the two zeros. -/
def isZero (x : Single) : Bool :=
  x.magnitude == 0

theorem rank_inj {x y : Single} : x.rank = y.rank ↔ x = y := by
  refine ⟨fun h => ?_, fun h => h ▸ rfl⟩
  have hx := x.bits.toNat_lt
  have hy := y.bits.toNat_lt
  cases x with | mk x => cases y with | mk y =>
  congr 1
  apply UInt32.toNat_inj.1
  change x.toNat < 4294967296 at hx
  change y.toNat < 4294967296 at hy
  simp only [rank, negative_iff, magnitude, signBit] at h
  split at h <;> split at h <;> omega

/-- The floor and the remainder of a quotient rounded to nearest, a half to the even side. -/
def roundQuotient (num den : Nat) : Nat :=
  let q := num / den
  let r := num % den
  if den < 2 * r || (2 * r == den && q % 2 == 1) then q + 1 else q

/-- The exponent of the highest power of two that is not above a positive quotient. -/
def floorLog (num den : Nat) : Int :=
  let e : Int := (num.log2 : Int) - den.log2
  let reached := if 0 ≤ e then den * Nat.pow 2 e.toNat ≤ num else den ≤ num * Nat.pow 2 (-e).toNat
  if reached then e else e - 1

/-- The number nearest to a quotient, a half going to the even side. -/
def ofRatio (negative : Bool) (num den : Nat) : Single :=
  if num = 0 then ofMagnitude negative 0
  else
    let unit : Int := max (floorLog num den - 23) (-149)
    let m :=
      if 0 ≤ unit then roundQuotient num (den * Nat.pow 2 unit.toNat)
      else roundQuotient (num * Nat.pow 2 (-unit).toNat) den
    ofMagnitude negative (min infinite ((unit + 149).toNat * leadingBit + m))

/-- The number nearest to a natural number. -/
def ofNat (n : Nat) : Single :=
  ofRatio false n 1

/-- The mantissa and the exponent to two of a finite number without its sign. -/
def decode (x : Single) : Nat × Int :=
  let e : Nat := x.magnitude / leadingBit
  let m : Nat := x.magnitude % leadingBit
  if e = 0 then (m, -149) else (m + leadingBit, (e : Int) - 150)

/-- The numerator and the denominator of a finite number without its sign. -/
def ratio (x : Single) : Nat × Nat :=
  let d := x.decode
  if 0 ≤ d.2 then (d.1 * Nat.pow 2 d.2.toNat, 1) else (d.1, Nat.pow 2 (-d.2).toNat)

end Single

end CodeSearch
