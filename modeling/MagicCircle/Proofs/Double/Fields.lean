import MagicCircle.Decimal.Binary64
import MagicCircle.Proofs.Double.Operations
import Mathlib

/-!
# The fields of a double

A double is what its unpacked form is packed to (`ofModel_pack_unpack`), so doubles with one unpacked
form are equal. The sign, mantissa and exponent of a finite double are those that its bits are taken
apart into (`ofFloat_of_unpack`).
-/

namespace MagicCircle.Double

open Decimal (Binary64)
open Float.Model Float.Model.UnpackedFloat

section Fields

variable {b : BitVec Format.binary64.numBits}

theorem toNat_unpackMantissa : (unpackMantissa b).toNat = b.toNat % 2 ^ 52 := by
  change (b.extractLsb 51 0).toNat = _
  rw [BitVec.extractLsb_toNat, Nat.shiftRight_zero]

theorem toNat_unpackExponent : (unpackExponent b).toNat = b.toNat / 2 ^ 52 % 2 ^ 11 := by
  change (b.extractLsb 62 52).toNat = _
  rw [BitVec.extractLsb_toNat, Nat.shiftRight_eq_div_pow]

theorem toNat_unpackSign : (unpackSign b).toNat = b.toNat / 2 ^ 63 := by
  have hlt : b.toNat < 2 ^ 64 := b.isLt
  change (b.extractLsb 63 63).toNat = _
  rw [BitVec.extractLsb_toNat, Nat.shiftRight_eq_div_pow]
  omega

end Fields

variable {x : Float}

/-- A double is what its unpacked form is packed to. -/
theorem ofModel_pack_unpack : Float.ofModel (Float.Model.pack x.toModel.unpack) = x :=
  Float.ofBits_toBits x

theorem ofBitVec_beq_negative (s : BitVec 1) :
    (Sign.ofBitVec s == .negative) = decide (s.toNat = 1) := by
  unfold Sign.ofBitVec
  split_ifs with h
  · rw [h]
    rfl
  · have hlt := s.isLt
    have hne : s.toNat ≠ 0 := fun h' => h (BitVec.eq_of_toNat_eq h')
    rw [decide_eq_true (by omega)]
    rfl

/-- Taking the bits of a double apart gives its fields. -/
theorem ofFloat_eq_fields (x : Float) :
    let b : BitVec Format.binary64.numBits := x.toModel.toBits.toBitVec
    let negative := Sign.ofBitVec (unpackSign b) == .negative
    let e := (unpackExponent b).toNat
    let m := (unpackMantissa b).toNat
    Binary64.ofFloat x =
      if e = 2047 then if m = 0 then .infinite negative else .nan
      else if e = 0 then .finite negative m Binary64.leastExponent
      else .finite negative (Binary64.leastNormal + m)
        (Binary64.leastExponent + ((e - 1 : Nat) : Int)) := by
  dsimp only
  rw [toNat_unpackExponent, toNat_unpackMantissa, ofBitVec_beq_negative, toNat_unpackSign]
  rfl

/-- The parts that the bits of a finite double are taken apart into are those of its unpacked form. -/
theorem ofFloat_of_unpack {s : Sign} {m : Nat} {e : Int} {hp : 0 < m}
    (h : x.toModel.unpack = .finite s m e hp) :
    Binary64.ofFloat x = .finite (s == .negative) m e := by
  rw [ofFloat_eq_fields]
  let b : BitVec Format.binary64.numBits := x.toModel.toBits.toBitVec
  change UnpackedFloat.unpack Format.binary64 b = _ at h
  by_cases hmost : unpackExponent b = -1#_
  · unfold UnpackedFloat.unpack at h
    dsimp only at h
    rw [if_pos hmost] at h
    split at h <;> cases h
  have hlt : (unpackExponent b).toNat ≠ 2047 := fun h => hmost (BitVec.eq_of_toNat_eq h)
  dsimp only
  rw [if_neg hlt]
  by_cases hleast : unpackExponent b = 0#_
  · have hzero : (unpackExponent b).toNat = 0 := by rw [hleast]; rfl
    rw [if_pos hzero]
    rcases Nat.eq_zero_or_pos (unpackMantissa b).toNat with hm | hpos
    · unfold UnpackedFloat.unpack at h
      dsimp only at h
      rw [if_neg hmost, if_pos hleast, dif_pos (BitVec.eq_of_toNat_eq hm)] at h
      cases h
    · rw [unpack_subnormal hleast hpos] at h
      cases h
      rfl
  · have hpos : (unpackExponent b).toNat ≠ 0 := fun h => hleast (BitVec.eq_of_toNat_eq h)
    rw [if_neg hpos]
    rw [unpack_normal hmost hleast (by omega)] at h
    cases h
    have hexponent : Binary64.leastExponent + (((unpackExponent b).toNat - 1 : Nat) : Int) =
        (unpackExponent b).toNat - 1075 := by
      unfold Binary64.leastExponent
      omega
    rw [hexponent]
    rfl

theorem ofFloat_of_zero {s : Sign} (h : x.toModel.unpack = .zero s) :
    Binary64.ofFloat x = .finite (s == .negative) 0 Binary64.leastExponent := by
  rw [ofFloat_eq_fields]
  let b : BitVec Format.binary64.numBits := x.toModel.toBits.toBitVec
  change UnpackedFloat.unpack Format.binary64 b = _ at h
  unfold UnpackedFloat.unpack at h
  dsimp only at h ⊢
  split_ifs at h with hmost hm hleast hm
  · cases h
    rw [hleast, hm]
    rfl

end MagicCircle.Double
