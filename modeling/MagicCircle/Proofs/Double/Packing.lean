import MagicCircle.Double.Basic
import Mathlib.Tactic.SplitIfs

/-!
# Packing and unpacking

Among the numbers in the unpacked form, those of canonical mantissa and exponent are the ones that
packing keeps (`unpack_pack`), and a double is unpacked to one of them (`canonical_of_unpack`).
-/

namespace MagicCircle.Double

open Float.Model Float.Model.UnpackedFloat

theorem ofBitVec_unpackSign (s : Sign) (e : BitVec 11) (m : BitVec 52) :
    Sign.ofBitVec (unpackSign (packComponents Format.binary64 s e m)) = s := by
  unfold unpackSign packComponents BitVec.extractLsb
  rw [BitVec.extractLsb'_append_eq_of_le (by decide), BitVec.extractLsb'_append_eq_of_le (by decide)]
  rcases s with _ | _ <;> rfl

theorem finite_congr {s s' : Sign} {m m' : Nat} {e e' : Int} {hp : 0 < m} {hp' : 0 < m'}
    (hs : s = s') (hm : m = m') (he : e = e') :
    UnpackedFloat.finite s m e hp = .finite s' m' e' hp' := by
  subst hs hm he
  rfl

theorem toNat_implicit (m : BitVec 52) : (1#1 ++ m).toNat = 2 ^ 52 + m.toNat := by
  rw [BitVec.toNat_append, ← Nat.shiftLeft_add_eq_or_of_lt m.isLt]
  rfl

theorem exponentBias_eq : (Format.binary64.exponentBias : Int) = 1023 := rfl

section Fields

variable {b : BitVec Format.binary64.numBits}

/-- A number with a leading one that is not stored. -/
theorem unpack_normal (hmost : unpackExponent b ≠ -1#11)
    (hleast : unpackExponent b ≠ 0#11)
    (hp : 0 < 2 ^ 52 + (unpackMantissa b).toNat) :
    UnpackedFloat.unpack Format.binary64 b = .finite (Sign.ofBitVec (unpackSign b))
      (2 ^ 52 + (unpackMantissa b).toNat)
      ((unpackExponent b).toNat - 1075) hp := by
  have hbias := exponentBias_eq
  unfold UnpackedFloat.unpack
  dsimp only
  rw [if_neg hmost, if_neg hleast]
  exact finite_congr rfl (toNat_implicit _) (by omega)

/-- A number with the least exponent. -/
theorem unpack_subnormal (hleast : unpackExponent b = 0#11)
    (hp : 0 < (unpackMantissa b).toNat) :
    UnpackedFloat.unpack Format.binary64 b = .finite (Sign.ofBitVec (unpackSign b))
      (unpackMantissa b).toNat (-1074) hp := by
  have hmost : unpackExponent b ≠ -1#11 := by
    rw [hleast]
    decide
  have hne : unpackMantissa b ≠ 0#52 := fun h => by
    rw [h] at hp
    exact absurd hp (by decide)
  unfold UnpackedFloat.unpack
  dsimp only
  rw [if_neg hmost, if_pos hleast, dif_neg hne]
  exact finite_congr rfl rfl (by rw [hleast]; rfl)

/-- What a double is unpacked to is packed to it again. -/
theorem canonical_of_unpack {s : Sign} {m : Nat} {e : Int} {hp : 0 < m}
    (h : UnpackedFloat.unpack Format.binary64 b = .finite s m e hp) : Canonical m e := by
  have hfield : (unpackMantissa b).toNat < 2 ^ 52 := BitVec.isLt _
  have hexp : (unpackExponent b).toNat < 2 ^ 11 := BitVec.isLt _
  by_cases hmost : unpackExponent b = -1#_
  · unfold UnpackedFloat.unpack at h
    dsimp only at h
    rw [if_pos hmost] at h
    by_cases hzero : unpackMantissa b = 0#_
    · rw [if_pos hzero] at h
      cases h
    · rw [if_neg hzero] at h
      cases h
  by_cases hleast : unpackExponent b = 0#_
  · rcases Nat.eq_zero_or_pos (unpackMantissa b).toNat with hzero | hpos
    · unfold UnpackedFloat.unpack at h
      dsimp only at h
      rw [if_neg hmost, if_pos hleast, dif_pos (BitVec.eq_of_toNat_eq hzero)] at h
      cases h
    · rw [unpack_subnormal hleast hpos] at h
      cases h
      exact ⟨hp, by omega, .inr rfl, le_rfl, by omega⟩
  · rw [unpack_normal hmost hleast (by omega)] at h
    cases h
    have hlt : (unpackExponent b).toNat ≠ 2047 := fun h => hmost (BitVec.eq_of_toNat_eq h)
    have hpos : (unpackExponent b).toNat ≠ 0 := fun h => hleast (BitVec.eq_of_toNat_eq h)
    exact ⟨hp, by omega, .inl (by omega), by omega, by omega⟩

end Fields

theorem mantissaBits_eq {m : Nat} (hp : 0 < m) (hlt : m < 2 ^ 53) :
    m.log2 + 1 = Format.binary64.mantissaBits ↔ 2 ^ 52 ≤ m := by
  have hlog := (Nat.log2_lt hp.ne').2 hlt
  have hbits : Format.binary64.mantissaBits = 53 := rfl
  rw [hbits, ← Nat.le_log2 hp.ne']
  omega

theorem pack_normal (s : Sign) {m : Nat} {e : Int} (hp : 0 < m) (hlt : m < 2 ^ 53)
    (hm : 2 ^ 52 ≤ m) (hleast : -1074 ≤ e) (hmost : e ≤ 971) :
    pack Format.binary64 (.finite s m e hp) =
      packComponents Format.binary64 s (BitVec.ofNat 11 (e + 1075).toNat) (BitVec.ofNat 52 m) := by
  have hbias : (e + Format.binary64.exponentBias + (52 : Nat)).toNat = (e + 1075).toNat := by
    have := exponentBias_eq
    omega
  have hfits : ¬ 2 ^ 11 ≤ (e + 1075).toNat + 1 := by omega
  unfold UnpackedFloat.pack
  simp only [hbias, if_neg hfits, mantissaBits_eq hp hlt, if_pos hm]

theorem pack_subnormal (s : Sign) {m : Nat} (hp : 0 < m) (hm : m < 2 ^ 52) :
    pack Format.binary64 (.finite s m (-1074) hp) =
      packComponents Format.binary64 s 0#11 (BitVec.ofNat 52 m) := by
  have hlt : m < 2 ^ 53 := by omega
  unfold UnpackedFloat.pack
  simp only [mantissaBits_eq hp hlt, if_neg hm.not_ge]
  rfl

theorem unpack_pack (s : Sign) {m : Nat} {e : Int} (h : Canonical m e) (hp : 0 < m) :
    unpack Format.binary64 (pack Format.binary64 (.finite s m e hp)) = .finite s m e hp := by
  obtain ⟨-, hlt, hnormal, hleast, hmost⟩ := h
  have hfield : (BitVec.ofNat 52 m).toNat = m % 2 ^ 52 := BitVec.toNat_ofNat ..
  by_cases hm : 2 ^ 52 ≤ m
  · have hexp : (BitVec.ofNat 11 (e + 1075).toNat).toNat = (e + 1075).toNat := by
      rw [BitVec.toNat_ofNat, Nat.mod_eq_of_lt (by omega)]
    have hne {k : BitVec 11} (hk : k.toNat = 0 ∨ k.toNat = 2047) :
        BitVec.ofNat 11 (e + 1075).toNat ≠ k := fun h => by
      rw [h] at hexp
      omega
    rw [pack_normal s hp hlt hm hleast hmost, unpack_normal]
    case hmost => exact unpackExponent_packComponents ▸ hne (.inr rfl)
    case hleast => exact unpackExponent_packComponents ▸ hne (.inl rfl)
    case hp => omega
    refine finite_congr (ofBitVec_unpackSign ..) ?_ ?_
    · rw [unpackMantissa_packComponents, hfield]
      omega
    · rw [unpackExponent_packComponents, hexp]
      omega
  · obtain rfl := hnormal.resolve_left hm
    have hmantissa : (BitVec.ofNat 52 m).toNat = m := by omega
    rw [pack_subnormal s hp (by omega), unpack_subnormal unpackExponent_packComponents (by
      rwa [unpackMantissa_packComponents, hmantissa])]
    exact finite_congr (ofBitVec_unpackSign ..)
      (by rw [unpackMantissa_packComponents, hmantissa]) rfl

end MagicCircle.Double
