import GuardedFlow.Real.Shortest

/-!
# The text of floating-point numbers

`RealLayout` collects the decisions that turn a shortest decimal into text: where positional notation
begins and ends, and how the values without digits are spelled. `RealLayout.standard` is the layout
of every real constant that the library prints.
-/

namespace GuardedFlow

/-- How real numbers are written. -/
structure RealLayout where
  /-- The least power of ten of a leading digit that is written positionally. -/
  positionalFrom : Int
  /-- The least power of ten of a leading digit that is written with an exponent again. -/
  positionalBelow : Int
  /-- What separates the digits from the exponent. -/
  exponentMark : String
  /-- The text of positive infinity. -/
  infinity : String
  /-- The text of every NaN. -/
  nan : String

namespace RealLayout

/-- Numbers from a ten-thousandth up to ten to the sixteenth are positional and keep a fraction
digit; the exponent of all others has neither plus sign nor padding. -/
def standard : RealLayout where
  positionalFrom := -4
  positionalBelow := 16
  exponentMark := "e"
  infinity := "inf"
  nan := "NaN"

/-- A row of zeros. -/
def zeros (count : Int) : String :=
  String.ofList (List.replicate count.toNat '0')

/-- Positional notation with at least one digit on either side of the point. -/
def positional (decimal : Decimal) : String :=
  let digits := (toString decimal.digits).toList
  let whole := digits.length + decimal.exponent
  if 0 ≤ decimal.exponent then
    String.ofList digits ++ zeros decimal.exponent ++ ".0"
  else if 0 < whole then
    String.ofList (digits.take whole.toNat) ++ "." ++ String.ofList (digits.drop whole.toNat)
  else
    "0." ++ zeros (-whole) ++ String.ofList digits

/-- One digit before the point, and the power of ten of that digit behind the mark. -/
def scientific (layout : RealLayout) (decimal : Decimal) : String :=
  let digits := (toString decimal.digits).toList
  let fraction := if digits.length = 1 then "" else "." ++ String.ofList (digits.drop 1)
  String.ofList (digits.take 1) ++ fraction ++ layout.exponentMark ++
    toString (decimal.exponent + (digits.length - 1 : Nat))

/-- The text of a positive decimal. -/
def magnitude (layout : RealLayout) (decimal : Decimal) : String :=
  let leading := decimal.exponent + ((toString decimal.digits).length - 1 : Nat)
  if layout.positionalFrom ≤ leading ∧ leading < layout.positionalBelow then
    positional decimal
  else
    layout.scientific decimal

/-- The text of a datum of the given format; zero keeps its sign and a NaN has none. -/
def render (layout : RealLayout) (format : FloatFormat) : FloatDatum → String
  | .nan => layout.nan
  | .infinite negative => sign negative ++ layout.infinity
  | .finite negative 0 _ => sign negative ++ positional ⟨0, 0⟩
  | .finite negative significand exponent =>
    sign negative ++ layout.magnitude (format.shortest significand exponent)
where
  /-- The sign of a number. -/
  sign (negative : Bool) : String := if negative then "-" else ""

end RealLayout

/-- The text of a single-precision number. -/
def Binary32.text (x : Binary32) : String :=
  RealLayout.standard.render .single x.datum

/-- The text of a double-precision number. -/
def Binary64.text (x : Binary64) : String :=
  RealLayout.standard.render .double x.datum

end GuardedFlow
