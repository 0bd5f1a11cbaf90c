/-!
# Binary64 numbers in exact arithmetic

A number with a fraction or an exponent is held as the bits of a binary64
value.  Rounding to such a value is done on natural numbers alone, so the result
does not depend on machine arithmetic.
-/

namespace EventSchema

/-- A finite binary64 number, by its bits. -/
structure Double where
  bits : UInt64
  deriving DecidableEq

/-- A decimal number `digits * 10 ^ exponent` with no sign. -/
structure Decimal where
  digits : Nat
  exponent : Int
  deriving DecidableEq

/-- How many decimal digits a number has; zero has none. -/
def decimalLength (n : Nat) : Nat :=
  if n = 0 then 0 else (Nat.toDigits 10 n).length

/-- `num / den` rounded to the nearest natural number, a half to the even one. -/
def roundQuotient (num den : Nat) : Nat :=
  let floor := num / den
  let twice := 2 * (num % den)
  if twice < den then floor
  else if twice > den then floor + 1
  else if floor % 2 = 0 then floor
  else floor + 1

/-- A power as a fraction: the base to the exponent is the first part over the second. -/
def powerFraction (base : Nat) (exponent : Int) : Nat × Nat :=
  if exponent ≥ 0 then (Nat.pow base exponent.toNat, 1) else (1, Nat.pow base (-exponent).toNat)

namespace Double

/-- Whether the sign bit is set. -/
def isNegative (x : Double) : Bool :=
  x.bits.toNat / Nat.pow 2 63 = 1

/-- The value is `significand * 2 ^ scale`, the sign left out. -/
def significand (x : Double) : Nat :=
  let fraction := x.bits.toNat % Nat.pow 2 52
  if x.bits.toNat / Nat.pow 2 52 % Nat.pow 2 11 = 0 then fraction else fraction + Nat.pow 2 52

/-- The power of two that goes with `significand`; subnormals share the least one. -/
def scale (x : Double) : Int :=
  let stored : Nat := x.bits.toNat / Nat.pow 2 52 % Nat.pow 2 11
  if stored = 0 then -1074 else Int.ofNat stored - 1075

/-- Zero with the given sign. -/
def zero (negative : Bool) : Double :=
  ⟨if negative then 0x8000000000000000 else 0⟩

/-- Numeric equality: the bits agree, or both values are a zero. -/
def equal (x y : Double) : Bool :=
  x.bits == y.bits || (x.significand == 0 && y.significand == 0)

/-- `num / den` with the power of two `2 ^ q` taken out, as a fraction. -/
def scaledFraction (num den : Nat) (q : Int) : Nat × Nat :=
  let (up, down) := powerFraction 2 q
  (num * down, den * up)

/-- The binary64 value nearest to `num / den`, ties to even; `none` past the largest one. -/
def ofFraction (negative : Bool) (num den : Nat) : Option Double :=
  let difference : Int := (Nat.log2 num : Int) - Nat.log2 den - 53
  let guess := if difference < -1074 then -1074 else difference
  let (n, d) := scaledFraction num den guess
  let q := if n / d ≥ Nat.pow 2 53 then guess + 1 else guess
  let (n, d) := scaledFraction num den q
  let rounded := roundQuotient n d
  let (m, q) := if rounded = Nat.pow 2 53 then (Nat.pow 2 52, q + 1) else (rounded, q)
  if q > 971 then none
  else
    let sign := if negative then Nat.pow 2 63 else 0
    let hidden := Nat.pow 2 52
    let magnitude := if m < hidden then m else (q + 1075).toNat * hidden + (m - hidden)
    some ⟨UInt64.ofNat (sign + magnitude)⟩

/-- The magnitude of a number, as a fraction. -/
def fraction (x : Double) : Nat × Nat :=
  let (up, down) := powerFraction 2 x.scale
  (x.significand * up, down)

/-- A number times a positive one, rounded. -/
def times (x y : Double) : Option Double :=
  ofFraction x.isNegative (x.fraction.1 * y.fraction.1) (x.fraction.2 * y.fraction.2)

/-- A number divided by a positive one, rounded. -/
def dividedBy (x y : Double) : Option Double :=
  ofFraction x.isNegative (x.fraction.1 * y.fraction.2) (x.fraction.2 * y.fraction.1)

/-- The greatest power of ten in the range of binary64. -/
def greatestPower : Nat := 308

/-- A power of ten up to the greatest one, rounded. -/
def power (exponent : Nat) : Option Double :=
  ofFraction false (Nat.pow 10 exponent) 1

/-- A number divided by a power of ten, in steps of the greatest one as long as it is not zero. -/
def overPower (x : Double) (exponent : Nat) : Option Double :=
  if exponent ≤ greatestPower then (power exponent).bind x.dividedBy
  else if x.significand = 0 then some x
  else ((power greatestPower).bind x.dividedBy).bind fun next =>
    next.overPower (exponent - greatestPower)
termination_by exponent
decreasing_by simp_all [greatestPower]; omega

/-- The number that a decimal is read as; `none` when it is out of range.  The digits are rounded
first, and rounded again for the power of ten, so that the last bit can differ from the value
nearest to the decimal. -/
def ofDecimal (negative : Bool) (x : Decimal) : Option Double := do
  let digits ← ofFraction negative x.digits 1
  if x.exponent < 0 then digits.overPower (-x.exponent).toNat
  else if x.exponent ≤ greatestPower then (power x.exponent.toNat).bind digits.times
  else if x.digits = 0 then some digits
  else none

end Double

end EventSchema
