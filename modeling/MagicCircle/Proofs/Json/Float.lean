import MagicCircle.Glyph.Codec

/-!
# Finite doubles are written as numbers

Only doubles that are not finite are written as `null` (`Value.hasNull_ofFloat`).
-/

namespace MagicCircle.Json

open Decimal (Binary64)
open Float.Model

theorem ofFloat_of_finite {x : Float} (h : x.isFinite = true) :
    ∃ negative m e, Binary64.ofFloat x = .finite negative m e := by
  change (UnpackedFloat.unpack Format.binary64 x.toBits.toBitVec).isFinite = true at h
  have hexp : x.toBits.toNat / Nat.pow 2 52 % Nat.pow 2 11 ≠ 2047 := by
    intro hmost
    have hones : @UnpackedFloat.unpackExponent Format.binary64 x.toBits.toBitVec = -1#11 := by
      apply BitVec.eq_of_toNat_eq
      change (x.toBits.toBitVec.extractLsb 62 52).toNat = _
      rw [BitVec.extractLsb_toNat, Nat.shiftRight_eq_div_pow]
      exact hmost
    unfold UnpackedFloat.unpack at h
    dsimp only at h
    rw [if_pos hones] at h
    split at h <;> cases h
  unfold Binary64.ofFloat Binary64.ofBits
  dsimp only
  rw [if_neg hexp]
  split <;> exact ⟨_, _, _, rfl⟩

namespace Value

theorem hasNull_ofFloat {x : Float} (h : x.isFinite = true) : (ofFloat x).hasNull = false := by
  obtain ⟨negative, m, e, hx⟩ := ofFloat_of_finite h
  unfold ofFloat Decimal.Style.numeral?
  rw [hx]
  rfl

theorem hasNull_ofMembers {members : List (String × Value)}
    (h : ∀ m ∈ members, m.2.hasNull = false) : (ofMembers members).hasNull = false := by
  rw [ofMembers, hasNull]
  induction members with
  | nil => rfl
  | cons m ms ih =>
    rw [List.map_cons, membersHaveNull, h m (.head _), ih fun m hm => h m (.tail _ hm)]
    rfl

theorem hasNull_array {vs : List Value} (h : ∀ v ∈ vs, v.hasNull = false) :
    (array vs).hasNull = false := by
  rw [hasNull]
  induction vs with
  | nil => rfl
  | cons v vs ih =>
    rw [itemsHaveNull, h v (.head _), ih fun v hv => h v (.tail _ hv)]
    rfl

theorem hasNull_point {p : Point Float} (hx : p.x.isFinite = true) (hy : p.y.isFinite = true) :
    p.toJson.hasNull = false := by
  refine hasNull_ofMembers ?_
  simp [hasNull_ofFloat hx, hasNull_ofFloat hy]

end Value

end MagicCircle.Json
