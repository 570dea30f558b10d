/-!
# Binary floating-point numbers

Floating-point constants are kept as their bit patterns, so that no digit is lost between reading
and printing. `FloatFormat.decode` says which number a pattern stands for; `Binary32.widen` carries
a single-precision number into double precision without rounding, and `Binary64.equal` is the
numeric comparison, in which the two zeros are equal and a NaN is equal to nothing.
-/

namespace GuardedFlow

/-- The widths of the two lower fields of a binary interchange format. -/
structure FloatFormat where
  exponentBits : Nat
  fractionBits : Nat

namespace FloatFormat

/-- Single precision. -/
def single : FloatFormat := ⟨8, 23⟩

/-- Double precision. -/
def double : FloatFormat := ⟨11, 52⟩

/-- The greatest exponent field, which marks infinities and NaNs. -/
def topExponent (format : FloatFormat) : Nat :=
  Nat.pow 2 format.exponentBits - 1

/-- What is subtracted from an exponent field. -/
def bias (format : FloatFormat) : Nat :=
  Nat.pow 2 (format.exponentBits - 1) - 1

/-- The exponent of the last place of the smallest numbers. -/
def leastExponent (format : FloatFormat) : Int :=
  1 - (format.bias : Int) - format.fractionBits

end FloatFormat

/-- What a bit pattern stands for. -/
inductive FloatDatum where
  | nan
  | infinite (negative : Bool)
  /-- The number `significand * 2 ^ exponent`, with its sign. -/
  | finite (negative : Bool) (significand : Nat) (exponent : Int)
  deriving DecidableEq, Inhabited

namespace FloatFormat

/-- The datum of a bit pattern of the given format. -/
def decode (format : FloatFormat) (bits : Nat) : FloatDatum :=
  let fraction := bits % Nat.pow 2 format.fractionBits
  let rest := bits / Nat.pow 2 format.fractionBits
  let exponent := rest % Nat.pow 2 format.exponentBits
  let negative := rest / Nat.pow 2 format.exponentBits % 2 == 1
  if exponent = format.topExponent then
    if fraction = 0 then .infinite negative else .nan
  else if exponent = 0 then
    .finite negative fraction format.leastExponent
  else
    .finite negative (Nat.pow 2 format.fractionBits + fraction)
      (format.leastExponent + (exponent - 1 : Nat))

/-- A bit pattern from its three fields. -/
def pack (format : FloatFormat) (negative : Bool) (exponent fraction : Nat) : Nat :=
  (negative.toNat * Nat.pow 2 format.exponentBits + exponent) * Nat.pow 2 format.fractionBits +
    fraction

end FloatFormat

/-- A single-precision number, by its bit pattern. -/
structure Binary32 where
  bits : UInt32
  deriving DecidableEq, Inhabited

/-- A double-precision number, by its bit pattern. -/
structure Binary64 where
  bits : UInt64
  deriving DecidableEq, Inhabited

namespace Binary32

/-- The datum of a single-precision number. -/
def datum (x : Binary32) : FloatDatum :=
  FloatFormat.single.decode x.bits.toNat

/-- Positive zero. -/
def zero : Binary32 := ⟨0⟩

/-- The double-precision number of the same value; every NaN goes to one NaN. -/
def widen (x : Binary32) : Binary64 :=
  let format := FloatFormat.double
  let bits :=
    match x.datum with
    | .nan => format.pack false format.topExponent (Nat.pow 2 (format.fractionBits - 1))
    | .infinite negative => format.pack negative format.topExponent 0
    | .finite negative significand exponent =>
      if significand = 0 then format.pack negative 0 0
      else
        let top := significand.log2
        format.pack negative (exponent + top + format.bias).toNat
          ((significand - Nat.pow 2 top) * Nat.pow 2 (format.fractionBits - top))
  ⟨UInt64.ofNat bits⟩

end Binary32

namespace Binary64

/-- The datum of a double-precision number. -/
def datum (x : Binary64) : FloatDatum :=
  FloatFormat.double.decode x.bits.toNat

/-- Positive zero. -/
def zero : Binary64 := ⟨0⟩

/-- Numeric equality: the zeros are equal, and a NaN is equal to nothing, itself included. -/
def equal (x y : Binary64) : Bool :=
  match x.datum, y.datum with
  | .nan, _ | _, .nan => false
  | .finite _ 0 _, .finite _ 0 _ => true
  | _, _ => x.bits == y.bits

end Binary64

end GuardedFlow
