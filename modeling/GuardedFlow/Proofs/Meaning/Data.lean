import Mathlib.Algebra.Field.Rat
import Mathlib.Algebra.Order.Ring.Unbundled.Rat
import Mathlib.Logic.Function.Basic
import Mathlib.Tactic.NormNum
import Mathlib.Tactic.Ring
import GuardedFlow.Lowering.Call

/-!
# What constants denote

Operands and expressions have constants of their own: operands have integers and floating-point numbers of
two widths, expressions have those of one width. What both kinds of constants denote is said here in terms
that depend on neither: an integer is a mathematical integer, and a floating-point number is a sign and an
exact magnitude. Lowering a constant keeps what it denotes (`Lower.denoted_literal`); in particular,
widening a floating-point number is exact.
-/

namespace GuardedFlow

/-- What a floating-point number denotes. -/
inductive Quantity where
  /-- A number by its sign, which zero has as well, and its magnitude. -/
  | number (negative : Bool) (magnitude : ℚ)
  | infinity (negative : Bool)
  /-- Not a number; the bit pattern is one of double precision. -/
  | nan (pattern : Nat)

/-- What a constant denotes. -/
inductive Datum where
  | integer (value : Int)
  | real (value : Quantity)
  | truth (value : Bool)
  | null
  | text (value : String)
  | type (ty : Ty)

/-- The quantity of a datum, with the pattern to take if it is not a number. -/
def FloatDatum.quantity (pattern : Nat) : FloatDatum → Quantity
  | .nan => .nan pattern
  | .infinite negative => .infinity negative
  | .finite negative significand exponent => .number negative (significand * 2 ^ exponent)

/-- What a single-precision number denotes; all its NaNs denote the quiet one without payload. -/
def Binary32.quantity (x : Binary32) : Quantity :=
  x.datum.quantity 0x7FF8000000000000

/-- What a double-precision number denotes; its NaNs are told apart by their patterns. -/
def Binary64.quantity (x : Binary64) : Quantity :=
  x.datum.quantity x.bits.toNat

/-- What a constant of an operand denotes. -/
def Const.denoted : Const → Datum
  | .int value => .integer value.toInt
  | .long value => .integer value.toInt
  | .float value => .real value.quantity
  | .double value => .real value.quantity
  | .bool value => .truth value
  | .null => .null
  | .str value => .text value
  | .type ty => .type ty

/-- What a constant of an expression denotes. -/
def Literal.denoted : Literal → Datum
  | .int value => .integer value.toInt
  | .real value => .real value.quantity
  | .bool value => .truth value
  | .null => .null
  | .str value => .text value
  | .type ty => .type ty

namespace FloatFormat

variable (format : FloatFormat)

/-- The significand of a number with an exponent field and a fraction field. -/
def significand (exponent fraction : Nat) : Nat :=
  if exponent = 0 then fraction else 2 ^ format.fractionBits + fraction

/-- A packed pattern is decoded by its fields. -/
theorem decode_pack (negative : Bool) {exponent fraction : Nat} (he : exponent < 2 ^ format.exponentBits)
    (hf : fraction < 2 ^ format.fractionBits) :
    format.decode (format.pack negative exponent fraction) =
      if exponent = format.topExponent then if fraction = 0 then .infinite negative else .nan
      else .finite negative (format.significand exponent fraction)
        (format.leastExponent + (exponent - 1 : Nat)) := by
  have hfraction : format.pack negative exponent fraction % 2 ^ format.fractionBits = fraction := by
    rw [pack, Nat.mul_comm]
    exact (Nat.mul_add_mod ..).trans (Nat.mod_eq_of_lt hf)
  have hrest : format.pack negative exponent fraction / 2 ^ format.fractionBits =
      negative.toNat * 2 ^ format.exponentBits + exponent := by
    rw [pack, Nat.mul_comm]
    exact (Nat.mul_add_div (Nat.two_pow_pos _) ..).trans (by rw [Nat.div_eq_of_lt hf]; rfl)
  have hexponent : (negative.toNat * 2 ^ format.exponentBits + exponent) % 2 ^ format.exponentBits =
      exponent := by
    rw [Nat.mul_comm, Nat.mul_add_mod, Nat.mod_eq_of_lt he]
  have hsign : (negative.toNat * 2 ^ format.exponentBits + exponent) / 2 ^ format.exponentBits =
      negative.toNat := by
    rw [Nat.mul_comm, Nat.mul_add_div (Nat.two_pow_pos _), Nat.div_eq_of_lt he, Nat.add_zero]
  have hnegative : (negative.toNat % 2 == 1) = negative := by cases negative <;> rfl
  simp only [decode, Nat.pow_eq, hfraction, hrest, hexponent, hsign, hnegative, significand]
  split_ifs <;> simp_all

/-- Every pattern is packed from its fields. -/
theorem exists_pack {bits : Nat} (h : bits < 2 ^ (1 + format.exponentBits + format.fractionBits)) :
    ∃ negative, ∃ exponent < 2 ^ format.exponentBits, ∃ fraction < 2 ^ format.fractionBits,
      bits = format.pack negative exponent fraction := by
  have hrest : bits / 2 ^ format.fractionBits / 2 ^ format.exponentBits < 2 := by
    rw [Nat.div_div_eq_div_mul, ← Nat.pow_add]
    exact Nat.div_lt_of_lt_mul (by rw [← Nat.pow_succ]; convert h using 2; omega)
  refine ⟨bits / 2 ^ format.fractionBits / 2 ^ format.exponentBits == 1,
    bits / 2 ^ format.fractionBits % 2 ^ format.exponentBits, Nat.mod_lt _ (Nat.two_pow_pos _),
    bits % 2 ^ format.fractionBits, Nat.mod_lt _ (Nat.two_pow_pos _), ?_⟩
  have hsign : (bits / 2 ^ format.fractionBits / 2 ^ format.exponentBits == 1).toNat =
      bits / 2 ^ format.fractionBits / 2 ^ format.exponentBits := by
    generalize bits / 2 ^ format.fractionBits / 2 ^ format.exponentBits = n at hrest
    match n, hrest with
    | 0, _ | 1, _ => rfl
  rw [pack, hsign, Nat.pow_eq, Nat.pow_eq, Nat.div_add_mod', Nat.div_add_mod']

end FloatFormat


/-- Numbers of single precision have their fields in range. -/
theorem Binary32.exists_fields (x : Binary32) : ∃ negative, ∃ exponent < 256, ∃ fraction < 2 ^ 23,
    x.bits.toNat = FloatFormat.single.pack negative exponent fraction :=
  FloatFormat.single.exists_pack x.bits.toNat_lt

/-- Numbers of double precision have their fields in range. -/
theorem Binary64.exists_fields (x : Binary64) : ∃ negative, ∃ exponent < 2048, ∃ fraction < 2 ^ 52,
    x.bits.toNat = FloatFormat.double.pack negative exponent fraction :=
  FloatFormat.double.exists_pack x.bits.toNat_lt

/-- Fields in range make a pattern of double precision. -/
theorem FloatFormat.pack_double_lt (negative : Bool) {exponent fraction : Nat} (he : exponent < 2048)
    (hf : fraction < 2 ^ 52) : FloatFormat.double.pack negative exponent fraction < 2 ^ 64 := by
  simp only [pack, double]
  cases negative <;> simp <;> omega

/-- The double-precision number with the given fields. -/
theorem Binary64.datum_pack (negative : Bool) {exponent fraction : Nat} (he : exponent < 2048)
    (hf : fraction < 2 ^ 52) :
    (⟨UInt64.ofNat (FloatFormat.double.pack negative exponent fraction)⟩ : Binary64).datum =
      if exponent = 2047 then if fraction = 0 then .infinite negative else .nan
      else .finite negative (FloatFormat.double.significand exponent fraction)
        (-1074 + (exponent - 1 : Nat)) := by
  rw [datum, UInt64.toNat_ofNat_of_lt' (FloatFormat.pack_double_lt negative he hf)]
  exact FloatFormat.double.decode_pack negative he hf

/-- The significand and the exponent of a single-precision number are in range. -/
theorem Binary32.datum_finite {x : Binary32} {negative : Bool} {significand : Nat} {exponent : Int}
    (h : x.datum = .finite negative significand exponent) :
    significand < 2 ^ 24 ∧ -149 ≤ exponent ∧ exponent ≤ 104 := by
  obtain ⟨sign, field, hfield, fraction, hfraction, hbits⟩ := x.exists_fields
  rw [datum, hbits, FloatFormat.single.decode_pack sign hfield hfraction] at h
  change (if field = 255 then _ else FloatDatum.finite sign _ (-149 + _)) = _ at h
  split_ifs at h with htop
  obtain ⟨-, rfl, rfl⟩ := FloatDatum.finite.inj h
  refine ⟨?_, by omega, by omega⟩
  simp only [FloatFormat.significand, FloatFormat.single]
  split <;> omega

/-- A number other than zero has the same magnitude with its leading place as the unit of the significand
of double precision. -/
theorem normalize_magnitude {significand : Nat} (hpos : significand ≠ 0) (hlt : significand < 2 ^ 24)
    (exponent : Int) :
    ((2 ^ 52 + (significand - 2 ^ significand.log2) * 2 ^ (52 - significand.log2) : Nat) : ℚ) *
      2 ^ (exponent + significand.log2 - 52) = significand * 2 ^ exponent := by
  have htop : significand.log2 < 24 := (Nat.log2_lt hpos).mpr hlt
  have hle : 2 ^ significand.log2 ≤ significand := Nat.log2_self_le hpos
  generalize significand.log2 = top at htop hle
  have hsplit : 2 ^ 52 + (significand - 2 ^ top) * 2 ^ (52 - top) = significand * 2 ^ (52 - top) := by
    have hunit : (2 : Nat) ^ top * 2 ^ (52 - top) = 2 ^ 52 := by
      rw [← Nat.pow_add]
      congr 1
      omega
    rw [Nat.sub_mul, hunit]
    have := Nat.mul_le_mul_right (2 ^ (52 - top)) hle
    omega
  have hexponent : exponent + top - 52 = exponent - (52 - top : Nat) := by omega
  rw [hsplit, hexponent, zpow_sub₀ two_ne_zero, zpow_natCast, Nat.cast_mul, Nat.cast_pow,
    Nat.cast_ofNat, mul_assoc, mul_div_cancel₀ _ (by positivity)]

/-- A number of single precision other than zero is widened by normalizing its significand. -/
theorem Binary32.datum_widen {x : Binary32} {negative : Bool} {significand : Nat} {exponent : Int}
    (h : x.datum = .finite negative significand exponent) (hpos : significand ≠ 0) :
    x.widen.datum = .finite negative
      (2 ^ 52 + (significand - 2 ^ significand.log2) * 2 ^ (52 - significand.log2))
      (exponent + significand.log2 - 52) := by
  obtain ⟨hlt, hleast, hgreatest⟩ := datum_finite h
  have htop : significand.log2 < 24 := (Nat.log2_lt hpos).mpr hlt
  have hbelow : significand < 2 ^ (significand.log2 + 1) := Nat.lt_log2_self
  have hfraction : (significand - 2 ^ significand.log2) * 2 ^ (52 - significand.log2) < 2 ^ 52 :=
    calc (significand - 2 ^ significand.log2) * 2 ^ (52 - significand.log2)
        < 2 ^ significand.log2 * 2 ^ (52 - significand.log2) :=
          Nat.mul_lt_mul_of_pos_right (by omega) (Nat.two_pow_pos _)
      _ = 2 ^ 52 := by rw [← Nat.pow_add, Nat.add_sub_cancel' (by omega)]
  have hbias : FloatFormat.double.bias = 1023 := rfl
  simp only [widen, h, hpos, if_false, hbias]
  refine (Binary64.datum_pack negative (by omega) hfraction).trans ?_
  rw [if_neg (by omega), FloatFormat.significand, if_neg (by omega)]
  congr 1
  omega

/-- Widening is exact. -/
theorem Binary32.quantity_widen (x : Binary32) : x.widen.quantity = x.quantity := by
  cases hx : x.datum with
  | nan =>
    have hwiden : x.widen = ⟨0x7FF8000000000000⟩ := by
      simp only [widen, hx]
      rfl
    rw [hwiden, quantity, hx]
    rfl
  | infinite negative =>
    have hdatum : x.widen.datum = .infinite negative := by
      simp only [widen, hx]
      exact Binary64.datum_pack negative (by decide) (by decide)
    rw [Binary64.quantity, quantity, hdatum, hx]
    rfl
  | finite negative significand exponent =>
    by_cases hzero : significand = 0
    · have hdatum : x.widen.datum = .finite negative 0 (-1074) := by
        simp only [widen, hx, hzero]
        exact Binary64.datum_pack negative (by decide) (by decide)
      rw [Binary64.quantity, quantity, hdatum, hx, hzero]
      simp [FloatDatum.quantity]
    · rw [Binary64.quantity, quantity, datum_widen hx hzero, hx, FloatDatum.quantity,
        normalize_magnitude hzero (datum_finite hx).1]
      rfl

/-- Lowering a constant keeps what it denotes. -/
theorem Lower.denoted_literal (c : Const) : (Lower.literal c).denoted = c.denoted := by
  cases c with
  | int value => exact congrArg Datum.integer (Int32.toInt_toInt64 value)
  | float value => exact congrArg Datum.real value.quantity_widen
  | long | double | bool | null | str | type => rfl

/-- A significand is determined, along with its exponent, if its leading place or its exponent is. -/
theorem significand_unique {m m' a a' : Nat} (hm : m < 2 ^ 53) (hm' : m' < 2 ^ 53)
    (h : 2 ^ 52 ≤ m ∨ a = 0) (h' : 2 ^ 52 ≤ m' ∨ a' = 0) (heq : m * 2 ^ a = m' * 2 ^ a') :
    m = m' ∧ a = a' := by
  wlog hle : a ≤ a' generalizing m m' a a'
  · exact (this hm' hm h' h heq.symm (Nat.le_of_not_le hle)).imp Eq.symm Eq.symm
  obtain ⟨d, rfl⟩ := Nat.exists_eq_add_of_le hle
  have hscaled : m = m' * 2 ^ d := by
    rw [Nat.pow_add, Nat.mul_left_comm, Nat.mul_comm] at heq
    exact Nat.eq_of_mul_eq_mul_left (Nat.two_pow_pos a) heq
  cases d with
  | zero => simpa using hscaled
  | succ d =>
    have hdouble : m' * 2 ≤ m' * 2 ^ (d + 1) :=
      Nat.mul_le_mul_left m' (Nat.le_self_pow (Nat.succ_ne_zero d) 2)
    omega

/-- The significand of double precision has 53 places. -/
theorem FloatFormat.significand_lt (exponent : Nat) {fraction : Nat} (h : fraction < 2 ^ 52) :
    double.significand exponent fraction < 2 ^ 53 := by
  simp only [significand, double]
  split <;> omega

/-- The leading place of a significand is occupied unless the exponent is the least one. -/
theorem FloatFormat.significand_normal (exponent fraction : Nat) :
    2 ^ 52 ≤ double.significand exponent fraction ∨ exponent - 1 = 0 := by
  simp only [significand, double]
  split <;> omega

/-- The fields of a number of double precision are determined by its magnitude. -/
theorem FloatFormat.fields_unique {exponent exponent' fraction fraction' : Nat}
    (hf : fraction < 2 ^ 52) (hf' : fraction' < 2 ^ 52)
    (h : (double.significand exponent fraction : ℚ) * 2 ^ (-1074 + (exponent - 1 : Nat) : Int) =
      double.significand exponent' fraction' * 2 ^ (-1074 + (exponent' - 1 : Nat) : Int)) :
    exponent = exponent' ∧ fraction = fraction' := by
  have hscaled : double.significand exponent fraction * 2 ^ (exponent - 1) =
      double.significand exponent' fraction' * 2 ^ (exponent' - 1) := by
    have hunit : (2 : ℚ) ^ (-1074 : Int) ≠ 0 := zpow_ne_zero _ two_ne_zero
    rw [zpow_add₀ two_ne_zero, zpow_add₀ two_ne_zero, zpow_natCast, zpow_natCast, mul_left_comm,
      mul_left_comm (double.significand exponent' fraction' : ℚ)] at h
    exact_mod_cast mul_left_cancel₀ hunit h
  obtain ⟨hsame, hexponent⟩ := significand_unique (significand_lt exponent hf) (significand_lt exponent' hf')
    (significand_normal exponent fraction) (significand_normal exponent' fraction') hscaled
  simp only [significand, double] at hsame
  split_ifs at hsame <;> omega

/-- Numbers of double precision that differ denote different quantities. -/
theorem Binary64.quantity_injective : Function.Injective Binary64.quantity := by
  intro x y h
  obtain ⟨s, e, he, f, hf, hx⟩ := x.exists_fields
  obtain ⟨s', e', he', f', hf', hy⟩ := y.exists_fields
  suffices hbits : x.bits.toNat = y.bits.toNat by
    cases x; cases y
    exact congrArg _ (UInt64.toNat_inj.mp hbits)
  rw [quantity, quantity, datum, datum, hx, hy, FloatFormat.double.decode_pack s he hf,
    FloatFormat.double.decode_pack s' he' hf'] at h
  rw [hx, hy]
  have htop : FloatFormat.double.topExponent = 2047 := rfl
  have hleast : FloatFormat.double.leastExponent = -1074 := rfl
  rw [htop, hleast] at h
  split_ifs at h <;> simp only [FloatDatum.quantity, Quantity.nan.injEq, Quantity.infinity.injEq,
    Quantity.number.injEq, reduceCtorEq] at h
  · grind
  · exact h
  · obtain ⟨rfl, h⟩ := h
    obtain ⟨rfl, rfl⟩ := FloatFormat.fields_unique hf hf' h
    rfl

/-- Constants of expressions that differ denote different data. -/
theorem Literal.denoted_injective : Function.Injective Literal.denoted := by
  intro a b h
  cases a <;> cases b <;>
    simp only [denoted, Datum.integer.injEq, Datum.real.injEq, Datum.truth.injEq, Datum.text.injEq,
      Datum.type.injEq, reduceCtorEq] at h
  · exact congrArg _ (Int64.toInt_inj.mp h)
  · exact congrArg _ (Binary64.quantity_injective h)
  all_goals simp [h]

/-- So every choice of values for the constants of expressions comes from values of data. -/
theorem Literal.exists_datum {U : Type} (value : Literal → U) :
    ∃ datum : Datum → U, ∀ constant : Literal, datum constant.denoted = value constant :=
  ⟨Function.extend denoted value fun _ => value .null, denoted_injective.extend_apply _ _⟩

end GuardedFlow
