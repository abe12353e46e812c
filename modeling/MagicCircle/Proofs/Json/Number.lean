import MagicCircle.Json.Number
import MagicCircle.Proofs.Decimal.Fraction
import MagicCircle.Proofs.Double.Quotient

/-!
# How fractions are read

The digits of a fraction all fit into the word that they are gathered in (`significand_eq`), so it is
read as the word divided by a power of ten, or by two of them (`float?_isFraction`).
-/

namespace MagicCircle.Json

open Decimal (Numeral ofDigits ofDigits_append)
open Double

/-- Digits that fit into the word are all gathered. -/
theorem gather_eq : ∀ (ds : List Nat) {word : Nat},
    word * 10 ^ ds.length + ofDigits ds ≤ greatestWord →
      gather word ds = (word * 10 ^ ds.length + ofDigits ds, [])
  | [], word, _ => Prod.ext (Nat.mul_one word).symm rfl
  | d :: ds, word, h => by
    have hvalue : word * 10 ^ (d :: ds).length + ofDigits (d :: ds) =
        (word * 10 + d) * 10 ^ ds.length + ofDigits ds := by
      rw [Decimal.ofDigits_cons, List.length_cons]
      ring
    rw [hvalue] at h ⊢
    have hle : word * 10 + d ≤ (word * 10 + d) * 10 ^ ds.length :=
      Nat.le_mul_of_pos_right _ (Nat.pow_pos (by decide))
    rw [gather, if_neg (by omega)]
    exact gather_eq ds h

theorem significand_eq {n : Numeral} (h : n.scaled.1 ≤ greatestWord) :
    significand n = (n.scaled.1, -(n.fraction.length : Int)) := by
  unfold Numeral.scaled at h ⊢
  dsimp only at h ⊢
  rw [ofDigits_append] at h ⊢
  have hwhole : ofDigits n.whole ≤ ofDigits n.whole * 10 ^ n.fraction.length :=
    Nat.le_mul_of_pos_right _ (Nat.pow_pos (by decide))
  unfold significand
  rw [gather_eq n.whole (by rw [Nat.zero_mul]; omega), Nat.zero_mul, Nat.zero_add]
  dsimp only
  rw [gather_eq n.fraction h]
  simp

theorem rescale?_near {x : Float} {j : Nat} (hj : 0 < j) (hj' : j ≤ 308) :
    rescale? x (-j) = some (x / powerOfTen j) := by
  rw [rescale?, if_pos (by unfold greatestPower; omega), if_neg (by omega), Int.natAbs_neg,
    Int.natAbs_natCast]

theorem rescale?_far {x : Float} {j : Nat} (hj : 308 < j) (hj' : j ≤ 616) (hx : (x == 0) = false) :
    rescale? x (-j) = some (x / powerOfTen 308 / powerOfTen (j - 308)) := by
  have hrest : -(j : Int) + greatestPower = -((j - 308 : Nat) : Int) := by
    unfold greatestPower
    omega
  rw [rescale?, if_neg (by unfold greatestPower; omega), hx, if_neg Bool.false_ne_true,
    if_neg (by omega), hrest, rescale?_near (by omega) (by omega)]
  rfl

theorem rounds_ofNat {w : Nat} (hw : 0 < w) : Rounds (Float.ofNat w) w := by
  have h := rounds_ofScientific hw (Nat.zero_le 308)
  rwa [pow_zero, mul_one] at h

theorem beq_zero {x : Float} (hx : x.isFinite = true) (hpos : 0 < Double.value x) :
    (x == 0) = false := by
  obtain ⟨m, e, hp, hu, -, -⟩ := positive_cases hx hpos
  change x.toModel.unpack.beq (0 : Float).toModel.unpack = false
  rw [hu]
  rfl

/-! ## Dividing by powers of ten -/

theorem rounds_powerOfTen {k : Nat} (hk : k ≤ 308) : Rounds (powerOfTen k) (10 ^ k) := by
  have h := rounds_ofScientific one_pos hk
  rwa [Nat.cast_one, one_mul] at h

theorem pow_le_greatest {k : Nat} (hk : k ≤ 308) : (10 : ℚ) ^ k ≤ greatest := by
  exact_mod_cast natCast_le_greatest hk le_rfl

theorem one_le_pow_ten (k : Nat) : (1 : ℚ) ≤ 10 ^ k := one_le_pow₀ (by norm_num)

theorem one_le_powerOfTen {k : Nat} (hk : k ≤ 308) : 1 ≤ Double.value (powerOfTen k) :=
  (rounds_powerOfTen hk).one_le (one_le_pow_ten k) (pow_le_greatest hk)

section Division

variable {x : Float} {k : Nat} (hx : x.isFinite = true) (hpos : 0 < Double.value x) (hk : k ≤ 308)

include hx hpos hk

theorem rounds_div_powerOfTen :
    Rounds (x / powerOfTen k) (Double.value x / Double.value (powerOfTen k)) :=
  rounds_div hx ((rounds_powerOfTen hk).isFinite (pow_le_greatest hk)) hpos
    (one_pos.trans_le (one_le_powerOfTen hk))

omit hx in
theorem div_powerOfTen_le (hmost : Double.value x ≤ greatest) :
    Double.value x / Double.value (powerOfTen k) ≤ greatest :=
  (div_le_self hpos.le (one_le_powerOfTen hk)).trans hmost

theorem div_powerOfTen_error (hmost : Double.value x ≤ greatest) {u c s : ℚ} (hu : 0 ≤ u)
    (hc : 0 ≤ c) (hc' : c ≤ 8) (hs : 0 ≤ s)
    (herror : |Double.value x - u| ≤ u * (c / 2 ^ 53) + s) :
    |Double.value (x / powerOfTen k) - u / 10 ^ k| ≤
      u / 10 ^ k * ((c + 9 / 4) / 2 ^ 53) + (9 / 8 * (s / 10 ^ k) + tiny / 2) :=
  (rounds_div_powerOfTen hx hpos hk).quotient_error (div_powerOfTen_le hpos hk hmost) hu
    (by positivity) hc hc' hs
    ((rounds_powerOfTen hk).relative_error (one_le_pow_ten k) (pow_le_greatest hk)) herror

end Division

/-! ## Fractions -/

/-- The word divided by the power of ten, in one or in two steps. -/
def quotient (w j : Nat) : Float :=
  if j ≤ 308 then Float.ofNat w / powerOfTen j
  else Float.ofNat w / powerOfTen 308 / powerOfTen (j - 308)

section Quotient

variable {w j : Nat} (hw : 0 < w) (hw' : w ≤ 10 ^ 17)

include hw hw'

/-- The word as a double. -/
theorem ofNat_spec : (Float.ofNat w).isFinite = true ∧ 1 ≤ Double.value (Float.ofNat w) ∧
    Double.value (Float.ofNat w) ≤ greatest ∧
    |Double.value (Float.ofNat w) - w| ≤ w * (9 / 8 / 2 ^ 53) := by
  have hone : (1 : ℚ) ≤ w := by exact_mod_cast hw
  have hmost := natCast_le_greatest (by decide) hw'
  have hround := rounds_ofNat hw
  exact ⟨hround.isFinite hmost, hround.one_le hone hmost,
    hround.value_le representable_greatest hmost le_rfl, hround.relative_error hone hmost⟩

/-- The word divided by one power of ten. -/
theorem division_spec {k : Nat} (hk : k ≤ 308) : let x := Float.ofNat w / powerOfTen k
    x.isFinite = true ∧ 0 < Double.value x ∧ Double.value x ≤ greatest ∧
      |Double.value x - w / 10 ^ k| ≤ w / 10 ^ k * (27 / 8 / 2 ^ 53) + tiny / 2 := by
  obtain ⟨hfinite, hone, hmost, herror⟩ := ofNat_spec hw hw'
  have hpos := one_pos.trans_le hone
  have hround := rounds_div_powerOfTen hfinite hpos hk
  have hle := div_powerOfTen_le hpos hk hmost
  have htiny : tiny ≤ Double.value (Float.ofNat w) / Double.value (powerOfTen k) := by
    have hpower := (rounds_powerOfTen hk).value_le representable_greatest (pow_le_greatest hk) le_rfl
    rw [le_div_iff₀ (one_pos.trans_le (one_le_powerOfTen hk))]
    calc tiny * Double.value (powerOfTen k) ≤ 2 ^ (-1074 : Int) * 2 ^ (1024 : Int) :=
          mul_le_mul_of_nonneg_left (hpower.trans greatest_lt.le) (zpow_two_pos (-1074)).le
      _ = 2 ^ (-50 : Int) := by
          rw [← zpow_add₀ two_ne_zero]
          rfl
      _ ≤ 1 := zpow_le_one_of_nonpos₀ one_le_two (by decide)
      _ ≤ Double.value (Float.ofNat w) := hone
  refine ⟨hround.isFinite hle, ?_, hround.value_le representable_greatest hle le_rfl, ?_⟩
  · exact (zpow_two_pos (-1074)).trans_le (hround.le_value representable_tiny htiny hle)
  · have hquotient := div_powerOfTen_error hfinite hpos hk hmost (u := w) (c := 9 / 8) (s := 0)
      w.cast_nonneg (by norm_num) (by norm_num) le_rfl (by linarith)
    rw [zero_div] at hquotient
    refine hquotient.trans_eq ?_
    norm_num

/-- The word divided by the power of ten is near the fraction. -/
theorem quotient_spec (hj : j ≤ 340) :
    (quotient w j).isFinite = true ∧ 0 ≤ Double.value (quotient w j) ∧
      |Double.value (quotient w j) - w / 10 ^ j| ≤
        w / 10 ^ j * (45 / 8 / 2 ^ 53) + 5 / 8 * tiny := by
  have htiny : 0 < tiny := zpow_two_pos (-1074)
  have hvalue : (0 : ℚ) ≤ w / 10 ^ j := by positivity
  unfold quotient
  split_ifs with hnear
  · obtain ⟨hfinite, hpos, -, herror⟩ := division_spec hw hw' hnear
    exact ⟨hfinite, hpos.le, herror.trans (by linarith)⟩
  · obtain ⟨hfinite, hpos, hmost, herror⟩ := division_spec hw hw' (le_refl 308)
    have hk : j - 308 ≤ 308 := by omega
    have hround := rounds_div_powerOfTen hfinite hpos hk
    have hle := div_powerOfTen_le hpos hk hmost
    have hquotient := div_powerOfTen_error hfinite hpos hk hmost (by positivity) (by norm_num)
      (by norm_num) (half_pos htiny).le herror
    have hpow : (10 : ℚ) ^ 308 * 10 ^ (j - 308) = 10 ^ j := by
      rw [← pow_add, Nat.add_sub_cancel' (by omega)]
    rw [div_div, hpow] at hquotient
    have hzero : Representable 0 := by exact_mod_cast representable_nat (Nat.zero_le _)
    refine ⟨hround.isFinite hle, hround.le_value hzero (div_nonneg hpos.le ?_) hle, ?_⟩
    · exact zero_le_one.trans (one_le_powerOfTen hk)
    · have hstep : tiny / 2 / 10 ^ (j - 308) ≤ tiny / 2 / 10 := by
        refine div_le_div_of_nonneg_left (half_pos htiny).le (by norm_num) ?_
        exact le_self_pow₀ (by norm_num) (by omega)
      refine hquotient.trans ?_
      linarith

/-- A power of ten that is a double leaves one rounding for the division. -/
theorem rounds_quotient (hj : j ≤ 22) :
    Rounds (quotient w j) (Double.value (Float.ofNat w) / 10 ^ j) := by
  obtain ⟨hfinite, hone, -, -⟩ := ofNat_spec hw hw'
  have hk : j ≤ 308 := by omega
  have hround := rounds_div_powerOfTen hfinite (one_pos.trans_le hone) hk
  rw [(rounds_powerOfTen hk).value_eq (representable_ten_pow hj) (pow_le_greatest hk)] at hround
  rwa [quotient, if_pos hk]

/-- A fraction that is not greater than one does not get greater than one. -/
theorem quotient_le_one (hj : j ≤ 22) (hle : w ≤ 10 ^ j) : Double.value (quotient w j) ≤ 1 := by
  have hrep : Representable 1 := by exact_mod_cast representable_nat (n := 1) (by decide)
  have hword : Double.value (Float.ofNat w) ≤ 10 ^ j :=
    (rounds_ofNat hw).value_le (representable_ten_pow hj) (by exact_mod_cast hle)
      (pow_le_greatest (by omega))
  have hone : (1 : ℚ) ≤ greatest := (one_le_pow_ten 0).trans (pow_le_greatest (by omega))
  exact (rounds_quotient hw hw' hj).value_le hrep (div_le_one_of_le₀ hword (by positivity)) hone

end Quotient

theorem float?_isFraction {n : Numeral} {w j : Nat} (h : n.IsFraction w j) :
    float? n = some (quotient w j) := by
  have hscaled := h.scaled
  have hword : n.scaled.1 ≤ greatestWord := by
    rw [hscaled]
    exact h.le_word.trans (by decide)
  have hexponent := congrArg Prod.snd hscaled
  have hsum : -(n.fraction.length : Int) + n.exponent.getD 0 = -j := by
    unfold Numeral.scaled at hexponent
    dsimp only at hexponent
    omega
  have hle := h.exponent
  have hplaces := h.places_le
  have hgreatest : greatestExponent = 2147483647 := rfl
  have hrange : max (-greatestExponent - 1) (min greatestExponent (-(j : Int))) = -j := by omega
  unfold float? magnitude?
  rw [significand_eq hword, hscaled, h.unsigned]
  dsimp only
  rw [if_neg (by omega), if_neg (by omega), hsum, hrange]
  by_cases hnear : j ≤ 308
  · rw [rescale?_near h.places_pos hnear, quotient, if_pos hnear]
    rfl
  · obtain ⟨hfinite, hone, -, -⟩ := ofNat_spec h.pos h.le_word
    have hzero := beq_zero hfinite (one_pos.trans_le hone)
    rw [rescale?_far (by omega) (by omega) hzero, quotient, if_neg hnear]
    rfl

end MagicCircle.Json
