import EventSchema.Json.Double

/-!
# The shortest text of a binary64 number

A number is written with the fewest digits of a decimal that rounds to it.  The
digits are found by testing, on each decimal grid from coarse to fine, the two
points next to the number against the interval of reals that round to it.
-/

namespace EventSchema

namespace Double

/-- A positive fraction `num / den`, with the bounds of the decimals that round to it. -/
structure Interval where
  num : Nat
  low : Nat
  high : Nat
  den : Nat
  closed : Bool

/-- The numbers that round to `x`, scaled so that all bounds are whole over one denominator. -/
def interval (x : Double) : Interval :=
  let m := x.significand
  let below := if m = Nat.pow 2 52 ∧ x.scale > -1074 then 1 else 2
  let (up, down) := powerFraction 2 (x.scale - 2)
  ⟨4 * m * up, (4 * m - below) * up, (4 * m + 2) * up, down, m % 2 = 0⟩

/-- Whether `digits * 10 ^ exponent` lies in the interval. -/
def Interval.holds (i : Interval) (digits : Nat) (exponent : Int) : Bool :=
  let (up, down) := powerFraction 10 exponent
  let value := digits * up * i.den
  if i.closed then i.low * down ≤ value && value ≤ i.high * down
  else i.low * down < value && value < i.high * down

/-- The point of the grid `10 ^ exponent` in the interval that is nearest to its number, a tie
going to the even point. -/
def Interval.nearest (i : Interval) (exponent : Int) : Option Nat :=
  let (up, down) := powerFraction 10 exponent
  let num := i.num * down
  let den := i.den * up
  let floor := num / den
  match i.holds floor exponent, i.holds (floor + 1) exponent with
  | true, true => some (roundQuotient num den)
  | true, false => some floor
  | false, true => some (floor + 1)
  | false, false => none

/-- Drops trailing zeros from the digits, into the exponent. -/
def dropZeros (digits : Nat) (exponent : Int) : Nat → Decimal
  | 0 => ⟨digits, exponent⟩
  | fuel + 1 =>
    if digits % 10 = 0 then dropZeros (digits / 10) (exponent + 1) fuel else ⟨digits, exponent⟩

/-- How many digits the number has before the point; for one below a tenth, less than zero by the
zeros that follow the point. -/
def Interval.pointPlace (i : Interval) : Int :=
  decimalLength (i.num * Nat.pow 10 400 / i.den) - 400

/-- The decimal with the fewest digits that rounds to `x`, and among those the nearest;
the sign is left out.  Seventeen digits always suffice. -/
def shortest (x : Double) : Decimal :=
  if x.significand = 0 then ⟨0, 0⟩
  else
    let i := x.interval
    let grids := (List.range 17).map fun n => i.pointPlace - Int.ofNat n - 1
    let found := grids.findSome? fun exponent => (i.nearest exponent).map fun d => (d, exponent)
    match found with
    | some (digits, exponent) => dropZeros digits exponent 20
    | none => ⟨i.num, 0⟩

end Double

/-- The layout of a number's text. -/
structure NumberLayout where
  /-- Decimal points from this many places left of the first digit on are written out. -/
  leastPoint : Int
  /-- Decimal points up to this many places right of the first digit are written out. -/
  greatestPoint : Int

/-- Values from `1e-5` up to below `1e16` are written without an exponent. -/
def NumberLayout.plain : NumberLayout := ⟨-5, 16⟩

/-- Digits and exponent as text: positional inside the layout's range and always with a point
there, otherwise with one digit before the point and a signed exponent. -/
def Decimal.text (layout : NumberLayout) (x : Decimal) : String :=
  let digits := toString x.digits
  let length : Int := digits.length
  let point := length + x.exponent
  if 0 ≤ x.exponent ∧ point ≤ layout.greatestPoint then
    digits ++ "".pushn '0' x.exponent.toNat ++ ".0"
  else if 0 < point ∧ point ≤ layout.greatestPoint then
    String.ofList (digits.toList.take point.toNat) ++ "."
      ++ String.ofList (digits.toList.drop point.toNat)
  else if layout.leastPoint < point ∧ point ≤ 0 then
    "0." ++ "".pushn '0' (-point).toNat ++ digits
  else
    let tail := String.ofList (digits.toList.drop 1)
    let power := point - 1
    String.ofList (digits.toList.take 1) ++ (if tail.isEmpty then "" else "." ++ tail)
      ++ "e" ++ (if power < 0 then "-" else "+") ++ toString power.natAbs

/-- The text of the shortest decimal that rounds to the number. -/
def Double.text (x : Double) : String :=
  (if x.isNegative then "-" else "") ++ x.shortest.text .plain

end EventSchema
