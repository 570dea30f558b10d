import GuardedFlow.Real.Binary

/-!
# Shortest decimals

The decimal that stands for a binary number is the one with the fewest digits among those that read
back as that number, and the nearest of these. The numbers that read back form an interval around
the value; `shortest` looks for a point of a decimal grid in it, on one grid after another from the
coarsest on. On each grid only the two neighbours of the value can be candidates, and a point that
two neighbouring grids share is found on the coarser one, so the digits never end in a zero.
-/

namespace GuardedFlow

/-- The number `digits * 10 ^ exponent`. -/
structure Decimal where
  digits : Nat
  exponent : Int
  deriving DecidableEq, Inhabited

/-- A positive number and the interval of reals that round to it, in units of `2 ^ exponent`. -/
structure RoundingInterval where
  lower : Nat
  value : Nat
  upper : Nat
  exponent : Int
  /-- Whether the end points belong to the interval. -/
  closed : Bool

namespace RoundingInterval

/-- The interval of `significand * 2 ^ exponent`. Half a unit of the last place lies on either side,
but only a quarter below a power of two that is not among the smallest numbers. The end points round
to the even neighbour. -/
def ofFinite (format : FloatFormat) (significand : Nat) (exponent : Int) : RoundingInterval :=
  let narrow := significand = Nat.pow 2 format.fractionBits ∧ format.leastExponent < exponent
  { lower := 4 * significand - (if narrow then 1 else 2)
    value := 4 * significand
    upper := 4 * significand + 2
    exponent := exponent - 2
    closed := significand % 2 = 0 }

/-- Whether `point` lies in the interval, everything being counted in units in which the unit of the
interval is `scale`. -/
def contains (interval : RoundingInterval) (scale point : Nat) : Bool :=
  if interval.closed then
    interval.lower * scale ≤ point && point ≤ interval.upper * scale
  else
    interval.lower * scale < point && point < interval.upper * scale

/-- The point of the grid of multiples of `10 ^ place` that lies in the interval and is nearest to
the value, the greater of two that are equally near. -/
def pick (interval : RoundingInterval) (place : Int) : Option Nat :=
  let scale := Nat.pow 2 interval.exponent.toNat * Nat.pow 10 (-place).toNat
  let unit := Nat.pow 10 place.toNat * Nat.pow 2 (-interval.exponent).toNat
  let value := interval.value * scale
  let below := value / unit
  let down := interval.contains scale (below * unit)
  let up := interval.contains scale ((below + 1) * unit)
  if up && (!down || (below + 1) * unit - value ≤ value - below * unit) then some (below + 1)
  else if down then some below
  else none

/-- Search the grids from `10 ^ place` downwards. -/
def search (interval : RoundingInterval) : Nat → Int → Option Decimal
  | 0, _ => none
  | steps + 1, place =>
    match interval.pick place with
    | some digits => some ⟨digits, place⟩
    | none => search interval steps (place - 1)

/-- A place above every decimal digit of the value. -/
def topPlace (interval : RoundingInterval) : Int :=
  (interval.exponent + interval.value.log2 + 1) * 30103 / 100000 + 2

end RoundingInterval

/-- The shortest decimal of the positive number `significand * 2 ^ exponent`. A format with `f`
fraction bits needs at most `f / 3 + 2` digits, and the search starts within four places of the
first one. -/
def FloatFormat.shortest (format : FloatFormat) (significand : Nat) (exponent : Int) : Decimal :=
  let interval := RoundingInterval.ofFinite format significand exponent
  (interval.search (format.fractionBits / 3 + 6) interval.topPlace).getD ⟨significand, 0⟩

end GuardedFlow
