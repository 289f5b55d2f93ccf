import Mathlib.Algebra.Group.Nat.Defs
import TripArchive.Number.Double

/-!
# Doubles that are read are finite

A double is too large only if its exponent is. Rounding a number of so many bits raises its exponent
by at most twice as many (`below_roundWithAccuracy`), so an integer of sixty-four bits stays finite.
A decimal never becomes NaN, since the powers of ten are numbers above zero, and those that become
an infinity are refused.
-/

namespace TripArchive.Double

open Float.Model (UnpackedFloat Format totalExponent)
open Float.Model.UnpackedFloat

variable {size mantissa : Nat} {top exponent : Int} {sign : Sign} {accuracy : Accuracy}
  {u : UnpackedFloat}

/-- Whether a float in parts is a number of at most so many bits with an exponent up to `top`. -/
inductive Below (size : Nat) (top : Int) : UnpackedFloat → Prop
  | zero (sign : Sign) : Below size top (.zero sign)
  | finite (sign : Sign) {mantissa : Nat} {exponent : Int} (hmantissa : mantissa < 2 ^ size)
      (hexponent : exponent ≤ top) (hpos : 0 < mantissa) :
      Below size top (.finite sign mantissa exponent hpos)

/-- A bounded float is finite. -/
theorem Below.isFinite (h : Below size top u) : u.isFinite = true := by
  cases h with
  | zero _ => rfl
  | finite _ _ _ _ => rfl

/-- A bounded float is a number. -/
theorem Below.isNaN (h : Below size top u) : u.isNaN = false := by
  cases h with
  | zero _ => rfl
  | finite _ _ _ _ => rfl

/-- The bound of an exponent may be raised. -/
theorem Below.mono (h : Below size top u) {above : Int} (hle : top ≤ above) :
    Below size above u := by
  cases h with
  | zero sign => exact .zero sign
  | finite sign hmantissa hexponent hpos =>
    exact .finite sign hmantissa (Int.le_trans hexponent hle) hpos

/-- Shifting to the right lowers a mantissa. -/
theorem mantissa_shiftRight_le (extended : ExtendedMantissa) (n : Nat) :
    (extended >>> n).mantissa ≤ extended.mantissa := by
  show (n.repeat ExtendedMantissa.shiftRightOne extended).mantissa ≤ _
  induction n with
  | zero => exact Nat.le_refl _
  | succ n ih => exact Nat.le_trans (Nat.div_le_self _ 2) ih

/-- Rounding adds at most one. -/
theorem roundedMantissa_le (extended : ExtendedMantissa) :
    extended.roundedMantissa ≤ extended.mantissa + 1 := by
  obtain ⟨mantissa, round, sticky⟩ := extended
  cases round with
  | false =>
    cases sticky with
    | false => exact Nat.le_succ _
    | true => exact Nat.le_succ _
  | true =>
    cases sticky with
    | false =>
      show mantissa + mantissa % 2 ≤ mantissa + 1
      omega
    | true => exact Nat.le_refl _

/-- Shifting to the exponent that a mantissa should have lowers the mantissa, and raises the
exponent by no more bits than it has. -/
theorem shiftToTargetExponent_le (accuracy : Accuracy) (hmantissa : mantissa < 2 ^ size)
    (hexponent : exponent ≤ top) (htop : 0 ≤ top) :
    (shiftToTargetExponent .binary64 mantissa exponent accuracy).1.mantissa ≤ mantissa ∧
      (shiftToTargetExponent .binary64 mantissa exponent accuracy).2 ≤ top + size := by
  have hlog : mantissa.log2 ≤ size := by
    by_cases hzero : mantissa = 0
    · rw [hzero]
      exact Nat.zero_le _
    · exact Nat.le_of_lt ((Nat.log2_lt hzero).mpr hmantissa)
  have hsame : (ExtendedMantissa.ofMantissaAndAccuracy mantissa accuracy).mantissa = mantissa := by
    cases accuracy with
    | exact => rfl
    | inexact order => cases order <;> rfl
  have hbits : (Format.binary64.mantissaBits : Int) = 53 := rfl
  have hmin : Format.binary64.minExponent = -1074 := rfl
  unfold shiftToTargetExponent shiftToExponent
  dsimp only
  constructor
  · exact Nat.le_trans (mantissa_shiftRight_le _ _) (Nat.le_of_eq hsame)
  · unfold Format.targetExponent totalExponent
    rw [hbits, hmin]
    omega

/-- A rounded number is bounded. -/
theorem below_roundWithAccuracy (hmantissa : mantissa < 2 ^ size) (hexponent : exponent ≤ top)
    (htop : 0 ≤ top) :
    Below (size + 1) (top + 2 * size + 1)
      (roundWithAccuracy .binary64 sign mantissa exponent accuracy) := by
  obtain ⟨hfirst, hfirstTop⟩ :=
    shiftToTargetExponent_le accuracy hmantissa hexponent htop
  unfold roundWithAccuracy
  dsimp only
  generalize shiftToTargetExponent .binary64 mantissa exponent accuracy = first at hfirst hfirstTop
  have hrounded : first.1.roundedMantissa < 2 ^ (size + 1) := by
    have hle := roundedMantissa_le first.1
    omega
  obtain ⟨hsecond, hsecondTop⟩ :=
    shiftToTargetExponent_le .exact hrounded hfirstTop (by omega)
  by_cases hzero : (shiftToTargetExponent .binary64 first.1.roundedMantissa first.2
      .exact).1.mantissa = 0
  · rw [dif_pos hzero]
    exact .zero sign
  · rw [dif_neg hzero]
    exact .finite sign (Nat.lt_of_le_of_lt hsecond hrounded) (by omega) _

/-- Exponents are kept with 1023 added. -/
theorem exponentBias_eq : Format.binary64.exponentBias = 1023 := rfl

/-- Bits with an exponent below the last one are a number. -/
theorem below_unpack {b : BitVec Format.binary64.numBits} {e : Nat}
    (he : (unpackExponent b).toNat = e) (hlast : e < 2047) (hle : (e : Int) ≤ top + 1075)
    (htop : 0 ≤ top) : Below 53 top (unpack .binary64 b) := by
  have hexponent : ¬ unpackExponent b = -1#11 := by
    intro heq
    have hall : (-1#11 : BitVec 11).toNat = 2047 := by decide
    rw [heq] at he
    omega
  have hmantissa : (unpackMantissa b).toNat < 2 ^ 52 := (unpackMantissa b).isLt
  unfold unpack
  dsimp only
  rw [if_neg hexponent]
  by_cases hzero : unpackExponent b = 0#11
  · rw [if_pos hzero]
    by_cases hfraction : unpackMantissa b = 0#52
    · rw [dif_pos hfraction]
      exact .zero _
    · rw [dif_neg hfraction]
      refine .finite _ (Nat.lt_trans hmantissa (by decide)) ?_ _
      rw [hzero]
      show (0 : Int) - (1023 + 52) + 1 ≤ top
      omega
  · rw [if_neg hzero]
    refine .finite _ (1#1 ++ unpackMantissa b).isLt ?_ _
    rw [he]
    show (e : Int) - (1023 + 52) ≤ top
    omega

/-- A bounded float stays one when it is packed. -/
theorem below_unpack_pack (h : Below size top u) (htop : 0 ≤ top) (hmax : top ≤ 971) :
    Below 53 top (Float.Model.pack u).unpack := by
  show Below 53 top (unpack .binary64 (pack .binary64 u))
  have hzero (sign : Sign) (mantissa : BitVec 52) :
      Below 53 top (unpack .binary64 (packComponents .binary64 sign 0#11 mantissa)) := by
    refine below_unpack (congrArg BitVec.toNat unpackExponent_packComponents) ?_ ?_ htop
    · decide
    · show (0 : Int) ≤ top + 1075
      omega
  cases h with
  | zero sign => exact hzero sign _
  | @finite sign mantissa exponent _ hexponent hpos =>
    have hbiased : (BitVec.ofNat 11 (exponent + 1023 + 52).toNat).toNat =
        (exponent + 1023 + 52).toNat := by
      rw [BitVec.toNat_ofNat, Nat.mod_eq_of_lt (by omega)]
    have hroom : ¬ 2 ^ 11 ≤ (exponent + (1023 : Nat) + (52 : Nat)).toNat + 1 := by omega
    unfold pack
    dsimp only
    rw [exponentBias_eq, if_neg hroom]
    split
    · refine below_unpack ((congrArg BitVec.toNat unpackExponent_packComponents).trans hbiased)
        ?_ ?_ htop
      · omega
      · omega
    · exact hzero sign _

/-- A product is bounded. -/
theorem below_mul {m₁ m₂ : Nat} {e₁ e₂ : Int} {s₁ s₂ : Sign} {h₁ : 0 < m₁} {h₂ : 0 < m₂}
    (hproduct : m₁ * m₂ < 2 ^ size) (hsum : e₁ + e₂ ≤ top) (htop : 0 ≤ top) :
    Below (size + 1) (top + 2 * size + 1)
      (mul .binary64 (.finite s₁ m₁ e₁ h₁) (.finite s₂ m₂ e₂ h₂)) :=
  below_roundWithAccuracy hproduct hsum htop

/-- Times one a bounded float is bounded. -/
theorem below_mul_one (h : Below 53 top u) (htop : 0 ≤ top) :
    Below 107 (top + 213) (mul .binary64 u (.finite .positive (2 ^ 52) (-52) (by decide))) := by
  cases h with
  | zero _ => exact .zero _
  | @finite sign mantissa exponent hmantissa hexponent hpos =>
    have hproduct : mantissa * 2 ^ 52 < 2 ^ 106 := by omega
    have hsum : exponent + -52 ≤ top := by omega
    exact (below_mul hproduct hsum htop).mono (by omega)

/-- An integer of sixty-four bits is a bounded float. -/
theorem below_ofUInt64 (n : UInt64) : Below 118 235 (UnpackedFloat.ofUInt64 .binary64 n) := by
  show Below 118 235 (UnpackedFloat.normalize .binary64 (n.toNat : Int) 0 .positive)
  unfold UnpackedFloat.normalize
  split
  · next hneg =>
    have hlt := Int.compare_eq_lt.mp hneg
    omega
  · exact .zero _
  · have hlt : n.toNat < 2 ^ 64 := n.toNat_lt
    rw [Int.toNat_natCast]
    generalize n.toNat = n at hlt
    unfold UnpackedFloat.round UnpackedFloat.decreaseExponent
    dsimp only
    have htarget : -52 ≤ Format.binary64.targetExponent (totalExponent n 0) := by
      unfold Format.targetExponent totalExponent
      show -52 ≤ max ((n.log2 : Int) + 1 + 0 - 53) (-1074)
      omega
    generalize Format.binary64.targetExponent (totalExponent n 0) = target at htarget
    have hshift : n <<< (0 - target).toNat < 2 ^ 117 := by
      rw [Nat.shiftLeft_eq]
      have hpow : 2 ^ (0 - target).toNat ≤ 2 ^ 52 := Nat.pow_le_pow_right (by decide) (by omega)
      calc n * 2 ^ (0 - target).toNat ≤ n * 2 ^ 52 := Nat.mul_le_mul_left n hpow
        _ < 2 ^ 117 := by omega
    have hexponent : 0 - ((0 - target).toNat : Int) ≤ 0 := by omega
    exact (below_roundWithAccuracy hshift hexponent (Int.le_refl 0)).mono (by decide)

/-- A decimal without an exponent is a bounded float if it has sixty-four bits. -/
theorem below_ofScientific {n : Nat} (h : n < 2 ^ 64) :
    Below 118 235 (UnpackedFloat.ofScientific .binary64 n 0) := by
  unfold UnpackedFloat.ofScientific
  by_cases hzero : n = 0
  · rw [dif_pos hzero]
    exact .zero _
  · rw [dif_neg hzero]
    have hlarge : ¬ (0 : Int) > 2 ^ Format.binary64.exponentBits := by decide
    have hsmall : ¬ (0 : Int) < -((2 ^ Format.binary64.exponentBits : Int) + n.log2) := by
      show ¬ (0 : Int) < -((2048 : Int) + n.log2)
      omega
    rw [if_neg hlarge, if_neg hsmall, if_pos (Int.le_refl 0)]
    have hproduct : n <<< Format.binary64.mantissaBits * 10 ^ (0 : Int).toNat < 2 ^ 117 := by
      rw [Nat.shiftLeft_eq]
      show n * 2 ^ 53 * 1 < 2 ^ 117
      omega
    have hsum : -(Format.binary64.mantissaBits : Int) + 0 ≤ 0 := by decide
    exact (below_mul hproduct hsum (Int.le_refl 0)).mono (by decide)

/-- The first power of ten is one. -/
theorem unpack_one : Float.exactlyRepresentablePowersOfTen[0].toModel.unpack =
    .finite .positive (2 ^ 52) (-52) (by decide) := rfl

/-- A number of sixty-four bits stands for a finite double. -/
theorem isFinite_ofNat {n : Nat} (h : n < 2 ^ 64) : (Float.ofNat n).isFinite = true := by
  show (Float.ofScientific n false 0).toModel.unpack.isFinite = true
  unfold Float.ofScientific
  split
  · have hpacked := below_unpack_pack (below_ofUInt64 n.toUInt64) (by decide) (by decide)
    have hproduct := below_unpack_pack (below_mul_one hpacked (by decide)) (by decide) (by decide)
    rw [← unpack_one] at hproduct
    exact hproduct.isFinite
  · exact (below_unpack_pack (below_ofScientific h) (by decide) (by decide)).isFinite

/-- The opposite of a bounded float is bounded. -/
theorem Below.neg (h : Below size top u) : Below size top u.neg := by
  cases h with
  | zero sign => exact .zero _
  | finite sign hmantissa hexponent hpos => exact .finite _ hmantissa hexponent hpos

/-- Bits without the last exponent are a bounded float. -/
theorem below_of_unpackExponent_ne {b : BitVec Format.binary64.numBits}
    (h : unpackExponent b ≠ -1#11) : Below 53 971 (unpack .binary64 b) := by
  have hlt : (unpackExponent b).toNat < 2048 := (unpackExponent b).isLt
  have hne : (unpackExponent b).toNat ≠ 2047 := fun heq =>
    h (BitVec.eq_of_toNat_eq (heq.trans (by decide)))
  exact below_unpack rfl (by omega) (by omega) (by decide)

/-- A finite double has an exponent below the last one. -/
theorem below_of_isFinite {b : BitVec Format.binary64.numBits}
    (h : (unpack .binary64 b).isFinite = true) : Below 53 971 (unpack .binary64 b) := by
  refine below_of_unpackExponent_ne fun hlast => ?_
  unfold unpack at h
  dsimp only at h
  rw [if_pos hlast] at h
  by_cases hfraction : unpackMantissa b = 0#52
  · rw [if_pos hfraction] at h
    cases h
  · rw [if_neg hfraction] at h
    cases h

/-- The opposite of a finite double is finite. -/
theorem isFinite_neg {x : Float} (h : x.isFinite = true) : (-x).isFinite = true :=
  (below_unpack_pack (below_of_isFinite h).neg (by decide) (by decide)).isFinite

/-- Bits are NaN only with the last exponent and a fraction. -/
theorem isNaN_unpack {b : BitVec Format.binary64.numBits}
    (h : unpackExponent b = -1#11 → unpackMantissa b = 0#52) :
    (unpack .binary64 b).isNaN = false := by
  by_cases hlast : unpackExponent b = -1#11
  · unfold unpack
    dsimp only
    rw [if_pos hlast, if_pos (h hlast)]
    rfl
  · exact (below_of_unpackExponent_ne hlast).isNaN

/-- Packing does not make a float NaN. -/
theorem isNaN_unpack_pack (h : u.isNaN = false) :
    (Float.Model.pack u).unpack.isNaN = false := by
  show (unpack .binary64 (pack .binary64 u)).isNaN = false
  have hinfinity (sign : Sign) :
      (unpack .binary64 (packedInfinity .binary64 sign)).isNaN = false :=
    isNaN_unpack fun _ => unpackMantissa_packComponents
  have hbelow (sign : Sign) (exponent : BitVec 11) (mantissa : BitVec 52)
      (hlast : exponent ≠ -1#11) :
      (unpack .binary64 (packComponents .binary64 sign exponent mantissa)).isNaN = false :=
    isNaN_unpack fun heq => absurd (unpackExponent_packComponents.symm.trans heq) hlast
  cases u with
  | zero sign => exact hbelow sign _ _ (by decide)
  | infinity sign => exact hinfinity sign
  | notANumber => cases h
  | finite sign mantissa exponent hpos =>
    unfold pack
    dsimp only
    generalize (exponent + (Format.binary64.exponentBias : Nat) + (52 : Nat)).toNat = biased
    split
    · exact hinfinity sign
    · next hroom =>
      split
      · refine hbelow sign _ _ fun heq => ?_
        have hvalue := congrArg BitVec.toNat heq
        have hall : (-1#11 : BitVec 11).toNat = 2047 := by decide
        rw [hall, BitVec.toNat_ofNat] at hvalue
        omega
      · exact hbelow sign _ _ (by decide)

/-- A rounded number is a number. -/
theorem isNaN_roundWithAccuracy :
    (roundWithAccuracy .binary64 sign mantissa exponent accuracy).isNaN = false :=
  (below_roundWithAccuracy Nat.lt_two_pow_self (Int.le_max_left exponent 0)
    (Int.le_max_right exponent 0)).isNaN

/-- Whether a float in parts is a number other than zero. -/
def IsProper : UnpackedFloat → Bool
  | .finite .. => true
  | _ => false

/-- Times or by a number other than zero, a float that is not NaN does not become it. -/
theorem isNaN_mul_div {v : UnpackedFloat} (h : u.isNaN = false) (hv : IsProper v = true) :
    (mul .binary64 u v).isNaN = false ∧ (div .binary64 u v).isNaN = false := by
  cases v with
  | finite sign mantissa exponent hpos =>
    cases u with
    | zero _ => exact ⟨rfl, rfl⟩
    | infinity _ => exact ⟨rfl, rfl⟩
    | notANumber => cases h
    | finite _ _ _ _ => exact ⟨isNaN_roundWithAccuracy, isNaN_roundWithAccuracy⟩
  | zero _ => cases hv
  | infinity _ => cases hv
  | notANumber => cases hv

/-- The powers of ten are numbers above zero. -/
theorem isProper_powersOfTen (i : Fin 23) :
    IsProper (Float.exactlyRepresentablePowersOfTen[i]).toModel.unpack = true := by
  revert i
  decide +kernel

/-- A decimal in parts is not NaN. -/
theorem isNaN_unpackedOfScientific (mantissa : Nat) (exponent : Int) :
    (UnpackedFloat.ofScientific .binary64 mantissa exponent).isNaN = false := by
  unfold UnpackedFloat.ofScientific
  by_cases hzero : mantissa = 0
  · rw [dif_pos hzero]
    rfl
  · rw [dif_neg hzero]
    by_cases hlarge : exponent > 2 ^ Format.binary64.exponentBits
    · rw [if_pos hlarge]
      rfl
    · rw [if_neg hlarge]
      by_cases hsmall : exponent < -((2 ^ Format.binary64.exponentBits : Int) + mantissa.log2)
      · rw [if_pos hsmall]
        rfl
      · rw [if_neg hsmall]
        by_cases hwhole : 0 ≤ exponent
        · rw [if_pos hwhole]
          exact isNaN_roundWithAccuracy
        · rw [if_neg hwhole]
          exact isNaN_roundWithAccuracy

/-- A decimal does not stand for NaN. -/
theorem isNaN_ofScientific (mantissa : Nat) (small : Bool) (exponent : Nat) :
    (Float.ofScientific mantissa small exponent).isNaN = false := by
  show (Float.ofScientific mantissa small exponent).toModel.unpack.isNaN = false
  unfold Float.ofScientific
  split
  · next hfast =>
    have hproper := isProper_powersOfTen ⟨exponent, by omega⟩
    have hnumber := isNaN_unpack_pack (below_ofUInt64 mantissa.toUInt64).isNaN
    obtain ⟨hmul, hdiv⟩ := isNaN_mul_div hnumber hproper
    cases small with
    | true => exact isNaN_unpack_pack hdiv
    | false => exact isNaN_unpack_pack hmul
  · exact isNaN_unpack_pack (isNaN_unpackedOfScientific _ _)

/-- A double that is neither NaN nor an infinity is finite. -/
theorem isFinite_of_not {x : Float} (hnumber : x.isNaN = false) (hbounded : x.isInf = false) :
    x.isFinite = true := by
  unfold Float.isNaN Float.Model.isNaN at hnumber
  unfold Float.isInf Float.Model.isInf at hbounded
  unfold Float.isFinite Float.Model.isFinite
  cases hx : x.toModel.unpack with
  | zero _ => rfl
  | finite _ _ _ _ => rfl
  | infinity _ =>
    rw [hx] at hbounded
    cases hbounded
  | notANumber =>
    rw [hx] at hnumber
    cases hnumber

/-- A decimal that is read stands for a finite double. -/
theorem isFinite_of_ofDecimal? {negative : Bool} {mantissa : Nat} {exponent : Int} {x : Float}
    (h : ofDecimal? negative mantissa exponent = some x) : x.isFinite = true := by
  unfold ofDecimal? at h
  dsimp only at h
  split at h
  · cases h
    cases negative with
    | true => decide +kernel
    | false => decide +kernel
  · split at h
    · cases h
    · split at h
      · cases h
      · next hbounded =>
        cases h
        have hfinite := isFinite_of_not (isNaN_ofScientific mantissa (exponent < 0) exponent.natAbs)
          (Bool.eq_false_iff.mpr hbounded)
        cases negative with
        | true => exact isFinite_neg hfinite
        | false => exact hfinite

/-- An integer of sixty-four bits, with a sign or without, stands for a finite double. -/
theorem isFinite_ofInt {n : Int} (hlow : minInt64 ≤ n) (hhigh : n ≤ maxNat64) :
    (ofInt n).isFinite = true := by
  have hsize : n.natAbs < 2 ^ 64 := by
    unfold minInt64 at hlow
    unfold maxNat64 at hhigh
    omega
  unfold ofInt
  split
  · exact isFinite_neg (isFinite_ofNat hsize)
  · exact isFinite_ofNat hsize

end TripArchive.Double
