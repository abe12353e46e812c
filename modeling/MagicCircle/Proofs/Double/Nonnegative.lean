import Mathlib
import MagicCircle.Proofs.Double.Operations

/-!
# Doubles that are not below zero

The sum of two doubles that are not below zero is not below zero (`nonneg_add`), also when it is
infinite. None of them is a NaN (`not_isNaN_of_nonneg`), so each equals itself.
-/

namespace MagicCircle.Double

open Float.Model Float.Model.UnpackedFloat

/-- The number is zero or greater. -/
def Nonneg (u : UnpackedFloat) : Prop := UnpackedFloat.le (.zero .positive) u = true

theorem nonneg_iff_unpack {x : Float} : 0 ≤ x ↔ Nonneg x.toModel.unpack := by
  have hzero : (0 : Float).toModel.unpack = .zero .positive := rfl
  rw [le_iff_unpack, hzero]
  rfl

theorem Nonneg.cases {u : UnpackedFloat} (h : Nonneg u) :
    u = .infinity .positive ∨ (∃ s, u = .zero s) ∨ ∃ m e hp, u = .finite .positive m e hp := by
  rcases u with (_ | _) | _ | s | ⟨_ | _, m, e, hp⟩
  case infinity.positive => exact .inl rfl
  case zero => exact .inr (.inl ⟨s, rfl⟩)
  case finite.positive => exact .inr (.inr ⟨m, e, hp, rfl⟩)
  all_goals cases h

theorem nonneg_finiteOrZero (m : Nat) (e : Int) : Nonneg (finiteOrZero .positive m e) := by
  unfold finiteOrZero
  split <;> rfl

theorem nonneg_unpack {b : BitVec Format.binary64.numBits}
    (hsign : Sign.ofBitVec (unpackSign b) = .positive) (hmost : unpackExponent b ≠ -1#11) :
    Nonneg (UnpackedFloat.unpack Format.binary64 b) := by
  unfold UnpackedFloat.unpack
  dsimp only
  rw [if_neg hmost, hsign]
  split_ifs <;> rfl

theorem Nonneg.unpack_pack {u : UnpackedFloat} (h : Nonneg u) :
    Nonneg (UnpackedFloat.unpack Format.binary64 (UnpackedFloat.pack Format.binary64 u)) := by
  obtain rfl | ⟨s, rfl⟩ | ⟨m, e, hp, rfl⟩ := h.cases
  · rfl
  · rcases s with _ | _ <;> rfl
  · unfold UnpackedFloat.pack
    dsimp only
    split_ifs with hlarge hnormal
    · rfl
    · refine nonneg_unpack (ofBitVec_unpackSign ..) fun hmost => ?_
      rw [unpackExponent_packComponents] at hmost
      -- All bits of the exponent are set only in what stands for infinity.
      have hfull := congrArg BitVec.toNat hmost
      change _ % 2 ^ 11 = 2 ^ 11 - 1 at hfull
      change ¬ 2 ^ 11 ≤ _ + 1 at hlarge
      omega
    · refine nonneg_unpack (ofBitVec_unpackSign ..) ?_
      rw [unpackExponent_packComponents]
      decide

theorem apply_positive_add (m n : Nat) :
    Sign.positive.apply m + Sign.positive.apply n = Sign.positive.apply (m + n : Nat) := by
  simp only [Sign.apply]
  omega

theorem decreaseExponent_pos {m : Nat} {e t : Int} (hm : 0 < m) : 0 < (decreaseExponent m e t).1 := by
  unfold decreaseExponent
  dsimp only
  rw [Nat.shiftLeft_eq]
  positivity

theorem Nonneg.add {u v : UnpackedFloat} (hu : Nonneg u) (hv : Nonneg v) :
    Nonneg (UnpackedFloat.add Format.binary64 u v) := by
  obtain rfl | ⟨s, rfl⟩ | ⟨m, e, hp, rfl⟩ := hu.cases <;>
    obtain rfl | ⟨s', rfl⟩ | ⟨m', e', hp', rfl⟩ := hv.cases
  case inr.inl.inr.inl => rcases s with _ | _ <;> rcases s' with _ | _ <;> rfl
  case inr.inr.inr.inr =>
    have hm := decreaseExponent_pos hp (t := min e e') (e := e)
    unfold UnpackedFloat.add
    dsimp only
    rw [apply_positive_add, normalize_apply _ (by omega)]
    -- Rounding keeps the sign.
    exact nonneg_finiteOrZero _ _
  all_goals rfl

theorem nonneg_add {x y : Float} (hx : 0 ≤ x) (hy : 0 ≤ y) : 0 ≤ x + y := by
  rw [nonneg_iff_unpack] at hx hy ⊢
  exact (hx.add hy).unpack_pack

theorem not_isNaN_of_nonneg {x : Float} (hx : 0 ≤ x) : x.isNaN = false := by
  change x.toModel.unpack.isNaN = false
  obtain h | ⟨s, h⟩ | ⟨m, e, hp, h⟩ := (nonneg_iff_unpack.1 hx).cases <;> rw [h] <;> rfl

theorem beq_self_of_nonneg {x : Float} (hx : 0 ≤ x) : (x == x) = true := by
  have hnan := not_isNaN_of_nonneg hx
  rw [Float.isNaN_eq_decide_eq_nan, decide_eq_false_iff_not] at hnan
  exact Float.beq_self_iff.2 hnan

theorem unpack_infinity_negative :
    (Float.ofBits 0xfff0000000000000).toModel.unpack = .infinity .negative := rfl

theorem negative_infinity_lt {x : Float} (hx : 0 ≤ x) : Float.ofBits 0xfff0000000000000 < x := by
  rw [lt_iff_unpack, unpack_infinity_negative]
  obtain h | ⟨s, h⟩ | ⟨m, e, hp, h⟩ := (nonneg_iff_unpack.1 hx).cases <;> rw [h] <;> rfl

theorem not_lt_negative_infinity (x : Float) : ¬ x < Float.ofBits 0xfff0000000000000 := by
  rw [lt_iff_unpack, unpack_infinity_negative]
  rcases x.toModel.unpack with (_ | _) | _ | s | ⟨_ | _, m, e, hp⟩ <;> exact Bool.false_ne_true

end MagicCircle.Double
