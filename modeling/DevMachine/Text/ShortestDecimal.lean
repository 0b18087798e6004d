/-!
# The shortest decimal of a double

A finite double stands for the interval of reals that round to it, whose ends
belong to it exactly when its significand is even.  For one digit, two digits
and so on up to seventeen, the two neighbours of the double on that decimal
grid are tried; the first grid with a neighbour inside the interval gives the
digits, and of two such neighbours the nearer one, or the even one when both are
equally near.  All of it is arithmetic on natural numbers.
-/

namespace DevMachine.Text

/-- A positive number `digits · 10 ^ exponent`. -/
structure Decimal where
  digits : Nat
  exponent : Int
  deriving DecidableEq, Repr

/-- A positive rational number between two others of the same denominator. -/
structure Interval where
  low : Nat
  value : Nat
  high : Nat
  unit : Nat
  closed : Bool

/-- The reals that round to the positive double with these bits. -/
def Interval.ofBits (bits : Nat) : Interval :=
  let field : Nat := bits / 0x10000000000000 % 0x800
  let fraction : Nat := bits % 0x10000000000000
  let significand := if field = 0 then fraction else fraction + 0x10000000000000
  let exponent : Int := ((if field = 0 then 1 else field : Nat) : Int) - 1077
  let below := if fraction = 0 ∧ 1 < field then 1 else 2
  let scale := Nat.pow 2 exponent.toNat
  { low := (4 * significand - below) * scale
    value := 4 * significand * scale
    high := (4 * significand + 2) * scale
    unit := Nat.pow 2 (-exponent).toNat
    closed := significand % 2 = 0 }

/-- How many times a number below the unit has to be multiplied by ten to
reach it, searched for up to `fuel`. -/
def leadingZeros (unit : Nat) : (fuel : Nat) → Nat → Nat
  | 0, _ => 0
  | fuel + 1, value =>
    if unit ≤ value * 10 then 0 else leadingZeros unit fuel (value * 10) + 1

/-- The place of the decimal point relative to the first digit: the number
lies from `10 ^ (p - 1)` up to, and not including, `10 ^ p`. -/
def Interval.pointPlace (i : Interval) : Int :=
  if i.unit ≤ i.value then ((Nat.toDigits 10 (i.value / i.unit)).length : Int)
  else -(leadingZeros i.unit 400 i.value : Int)

def Interval.contains (i : Interval) (low value high : Nat) : Bool :=
  if i.closed then low ≤ value && value ≤ high else low < value && value < high

/-- The point of the grid `10 ^ exponent` that stands for the interval. -/
def Interval.onGrid (i : Interval) (exponent : Int) : Option Decimal :=
  let up := Nat.pow 10 (-exponent).toNat
  let step := i.unit * Nat.pow 10 exponent.toNat
  let value := i.value * up
  let floor := value / step
  let inside (n : Nat) := 0 < n && i.contains (i.low * up) (n * step) (i.high * up)
  match inside floor, inside (floor + 1) with
  | true, true =>
    let middle := (2 * floor + 1) * step
    if 2 * value < middle ∨ (2 * value = middle ∧ floor % 2 = 0) then some ⟨floor, exponent⟩
    else some ⟨floor + 1, exponent⟩
  | true, false => some ⟨floor, exponent⟩
  | false, true => some ⟨floor + 1, exponent⟩
  | false, false => none

/-- Moves trailing zeros from the digits into the exponent. -/
def Decimal.trimmed (fuel : Nat) (d : Decimal) : Decimal :=
  match fuel with
  | 0 => d
  | fuel + 1 =>
    if 0 < d.digits ∧ d.digits % 10 = 0 then
      Decimal.trimmed fuel ⟨d.digits / 10, d.exponent + 1⟩
    else d

/-- The shortest decimal that rounds to the positive finite double. -/
def shortestDecimal (x : Float) : Decimal :=
  let i := Interval.ofBits x.toBits.toNat
  let place := i.pointPlace
  let found := (List.range 17).findSome? fun n => i.onGrid (place - (n + 1 : Nat))
  (found.getD ⟨0, 0⟩).trimmed 20

end DevMachine.Text
