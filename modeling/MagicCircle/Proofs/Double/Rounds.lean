import MagicCircle.Proofs.Double.Fields
import MagicCircle.Proofs.Double.Nearest

/-!
# Correctly rounded results

Products and quotients are the exact ones, rounded (`rounds_mul`, `rounds_div`), and so are whole
numbers and powers of ten (`rounds_ofScientific`). A rounded number is within half a unit in the last
place (`Rounds.error`), it is exact if a double stands for it (`Rounds.value_eq`), and it is the double
that the number reads as (`Rounds.eq`).
-/

namespace MagicCircle.Double

open Float.Model Float.Model.UnpackedFloat

namespace Rounds

variable {x y : Float} {z v : ℚ}

theorem spec (h : Rounds x z) (hz : z ≤ greatest) :
    ∃ r t, Nearest z r t ∧ x.isFinite = true ∧ value x = r * 2 ^ t ∧
      x.toModel.unpack = rounded .positive r t := by
  obtain ⟨r, t, hnearest, rfl⟩ := h
  obtain ⟨hunpack, hfinite, hvalue⟩ := hnearest.rounded_spec (s := .positive) hz
  change (Float.Model.pack (rounded .positive r t)).unpack = _ at hunpack
  refine ⟨r, t, hnearest, ?_, ?_, hunpack⟩
  · change (Float.Model.pack (rounded .positive r t)).unpack.isFinite = true
    rw [hunpack, hfinite]
  · change ofUnpacked (Float.Model.pack (rounded .positive r t)).unpack = _
    rw [hunpack, hvalue]
    rfl

theorem isFinite (h : Rounds x z) (hz : z ≤ greatest) : x.isFinite = true := by
  obtain ⟨r, t, -, hfinite, -, -⟩ := h.spec hz
  exact hfinite

theorem error (h : Rounds x z) (hz : z ≤ greatest) : |value x - z| ≤ z / 2 ^ 53 + tiny / 2 := by
  obtain ⟨r, t, hnearest, -, hvalue, -⟩ := h.spec hz
  rw [hvalue]
  exact hnearest.error

theorem value_le (h : Rounds x z) (hv : Representable v) (hz : z ≤ v) (hv' : v ≤ greatest) :
    value x ≤ v := by
  obtain ⟨r, t, hnearest, -, hvalue, -⟩ := h.spec (hz.trans hv')
  rw [hvalue]
  exact hnearest.le_of_le hv hz

theorem le_value (h : Rounds x z) (hv : Representable v) (hz : v ≤ z) (hz' : z ≤ greatest) :
    v ≤ value x := by
  obtain ⟨r, t, hnearest, -, hvalue, -⟩ := h.spec hz'
  rw [hvalue]
  exact hnearest.le_of_ge hv hz

theorem value_eq (h : Rounds x z) (hz : Representable z) (hz' : z ≤ greatest) : value x = z :=
  le_antisymm (h.value_le hz le_rfl hz') (h.le_value hz le_rfl hz')

/-- The rounded number is the double that the number reads as. -/
theorem eq {m : Nat} {q : Int} {hp : 0 < m} (h : Rounds x z)
    (hy : y.toModel.unpack = .finite .positive m q hp) (hz : ReadsAs z m q) : x = y := by
  obtain ⟨r, t, hnearest, rfl⟩ := h
  rw [hnearest.rounded_eq hz (canonical_of_unpack hy), ← hy, ofModel_pack_unpack]

end Rounds

/-! ## Operations -/

theorem rounds_roundWithAccuracy {m : Nat} {e : Int} {acc : Accuracy} {z : ℚ}
    (hbits : 52 ≤ m.log2 ∨ e ≤ -1074) (hz : Says acc m (z / 2 ^ e)) :
    Rounds (.ofModel (Float.Model.pack (roundWithAccuracy Format.binary64 .positive m e acc))) z := by
  obtain ⟨r, t, hnearest, hround⟩ := nearest_roundWithAccuracy (s := .positive) hbits hz
  exact ⟨r, t, hnearest, by rw [hround]⟩

theorem says_exact (m : Nat) (e : Int) : Says .exact m (m * 2 ^ e / 2 ^ e) :=
  mul_div_cancel_right₀ _ (zpow_two_pos e).ne'

/-- What the remainder of a division says of the quotient. -/
theorem says_accuracyOfFraction (n : Nat) {m : Nat} (hm : 0 < m) :
    Says (accuracyOfFraction (n % m) m) (n / m) ((n : ℚ) / m) := by
  have hpos : (0 : ℚ) < m := by exact_mod_cast hm
  have hquot : (n : ℚ) / m = (n / m : Nat) + (n % m : Nat) / m := by
    have hsplit : (n : ℚ) = m * (n / m : Nat) + (n % m : Nat) := by
      exact_mod_cast (Nat.div_add_mod n m).symm
    rw [div_eq_iff hpos.ne', add_mul, div_mul_cancel₀ _ hpos.ne', mul_comm _ (m : ℚ), ← hsplit]
  have hlt : ((n % m : Nat) : ℚ) / m < 1 := by
    rw [div_lt_one hpos]
    exact_mod_cast Nat.mod_lt n hm
  rw [hquot]
  generalize n % m = rem at hlt ⊢
  unfold accuracyOfFraction
  split_ifs with hzero
  · rw [hzero, Nat.cast_zero, zero_div, add_zero]
    rfl
  · have hrem : (0 : ℚ) < rem / m := div_pos (by exact_mod_cast Nat.pos_of_ne_zero hzero) hpos
    rcases lt_trichotomy (2 * rem) m with hhalf | hhalf | hhalf
    · rw [Nat.compare_eq_lt.2 hhalf]
      have hcast : (2 * rem : ℚ) < m := by exact_mod_cast hhalf
      have : (rem : ℚ) / m < 1 / 2 := by
        rw [div_lt_div_iff₀ hpos two_pos]
        linarith
      exact ⟨by linarith, by linarith⟩
    · rw [Nat.compare_eq_eq.2 hhalf]
      have hcast : (2 * rem : ℚ) = m := by exact_mod_cast hhalf
      have : (rem : ℚ) / m = 1 / 2 := by
        rw [div_eq_div_iff hpos.ne' two_ne_zero]
        linarith
      exact by rw [this]; rfl
    · rw [Nat.compare_eq_gt.2 hhalf]
      have hcast : (m : ℚ) < 2 * rem := by exact_mod_cast hhalf
      have : 1 / 2 < (rem : ℚ) / m := by
        rw [div_lt_div_iff₀ two_pos hpos]
        linarith
      exact ⟨by linarith, by linarith⟩

theorem rounds_mul {x y : Float} (hx : x.isFinite = true) (hy : y.isFinite = true)
    (hx' : 0 < value x) (hy' : 0 < value y) : Rounds (x * y) (value x * value y) := by
  obtain ⟨m, e, hp, hu, hc, hv⟩ := positive_cases hx hx'
  obtain ⟨m', e', hp', hu', hc', hv'⟩ := positive_cases hy hy'
  have hprod : value x * value y = ((m * m' : Nat) : ℚ) * 2 ^ (e + e') := by
    rw [hv, hv', zpow_add₀ two_ne_zero]
    push_cast
    ring
  change Rounds (.ofModel (Float.Model.pack
    (UnpackedFloat.mul Format.binary64 x.toModel.unpack y.toModel.unpack))) _
  rw [hprod, hu, hu']
  exact rounds_roundWithAccuracy (hc.full_product hc') (says_exact (m * m') (e + e'))

theorem rounds_div {x y : Float} (hx : x.isFinite = true) (hy : y.isFinite = true)
    (hx' : 0 < value x) (hy' : 0 < value y) : Rounds (x / y) (value x / value y) := by
  obtain ⟨m, e, hp, hu, hc, hv⟩ := positive_cases hx hx'
  obtain ⟨m', e', hp', hu', hc', hv'⟩ := positive_cases hy hy'
  obtain ⟨n, t, hcore, hscale, hbits⟩ := divCore_eq e e' hp hp'
  change Rounds (.ofModel (Float.Model.pack
    (UnpackedFloat.div Format.binary64 x.toModel.unpack y.toModel.unpack))) _
  rw [hu, hu', hv, hv']
  unfold UnpackedFloat.div
  dsimp only
  rw [hcore, hscale]
  refine rounds_roundWithAccuracy hbits ?_
  rw [mul_div_cancel_right₀ _ (zpow_two_pos t).ne']
  exact says_accuracyOfFraction n hp'

/-! ## Whole numbers and powers of ten -/

theorem representable_nat {n : Nat} (hn : n ≤ 2 ^ 53) : Representable n := by
  obtain hlt | rfl := hn.lt_or_eq
  · exact ⟨n, 0, hlt, by decide, by rw [zpow_zero, mul_one]⟩
  · exact ⟨2 ^ 52, 1, by decide, by decide, by norm_num⟩

theorem natCast_le_greatest {n k : Nat} (hk : k ≤ 308) (hn : n ≤ 10 ^ k) : (n : ℚ) ≤ greatest := by
  have hle : ∀ k : Fin 309, 10 ^ k.val ≤ 9007199254740991 * 2 ^ 971 := by decide +kernel
  refine (Nat.cast_le.2 (hn.trans (hle ⟨k, by omega⟩))).trans_eq ?_
  have hmantissa : (2 : ℚ) ^ 53 - 1 = (9007199254740991 : Nat) := by norm_num
  rw [Nat.cast_mul, Nat.cast_pow, greatest, hmantissa]
  rfl

theorem rounds_toFloat {n : UInt64} (hn : 0 < n.toNat) : Rounds n.toFloat n.toNat := by
  have hround : n.toFloat =
      .ofModel (Float.Model.pack (UnpackedFloat.round Format.binary64 .positive n.toNat 0)) :=
    congrArg (fun u => Float.ofModel (Float.Model.pack u))
      (normalize_apply .positive hn.ne' 0 .positive)
  rw [hround]
  unfold UnpackedFloat.round decreaseExponent
  dsimp only
  rw [targetExponent_totalExponent]
  generalize hk : ((0 : Int) - max ((n.toNat.log2 : Int) + 0 - 52) (-1074)).toNat = k
  refine rounds_roundWithAccuracy ?_ ?_
  · rw [log2_shiftLeft hn.ne']
    omega
  · have hvalue := shiftLeft_mul_zpow n.toNat k 0
    rw [zpow_zero, mul_one] at hvalue
    rw [← hvalue]
    exact says_exact (n.toNat <<< k) (0 - k)

theorem representable_value {x : Float} (hx : x.isFinite = true) (hpos : 0 < value x) :
    Representable (value x) := by
  obtain ⟨m, e, -, -, hc, hv⟩ := positive_cases hx hpos
  exact ⟨m, e, hc.lt, hc.least_le, hv⟩

/-- The powers of ten in the table are exact. -/
theorem exactlyRepresentablePowersOfTen_spec : ∀ k : Fin 23,
    (Float.exactlyRepresentablePowersOfTen[k]).isFinite = true ∧
      value (Float.exactlyRepresentablePowersOfTen[k]) = 10 ^ k.val := by
  decide +kernel

theorem representable_ten_pow {k : Nat} (hk : k ≤ 22) : Representable (10 ^ k) := by
  obtain ⟨hfinite, hvalue⟩ := exactlyRepresentablePowersOfTen_spec ⟨k, by omega⟩
  have hrep := representable_value hfinite (by rw [hvalue]; positivity)
  rwa [hvalue] at hrep

theorem word_le_greatest {n : Nat} (hn : n < 2 ^ 64) : (n : ℚ) ≤ greatest :=
  natCast_le_greatest (k := 20) (by decide) (hn.le.trans (by decide))

/-- A whole number is widened by 53 bits, multiplied by the power of ten and rounded once. -/
theorem unpacked_ofScientific_eq {m k : Nat} (hm : 0 < m) (hk : k ≤ 308) :
    UnpackedFloat.ofScientific Format.binary64 m k =
      roundWithAccuracy Format.binary64 .positive (m <<< 53 * 10 ^ k) (-53) .exact := by
  have hmost : Format.binary64.exponentBits = 11 := rfl
  unfold UnpackedFloat.ofScientific
  rw [dif_neg hm.ne', if_neg (by rw [hmost]; omega), if_neg (by rw [hmost]; omega),
    if_pos (by omega)]
  rfl

theorem rounds_model_ofScientific {m k : Nat} (hm : 0 < m) (hk : k ≤ 308) :
    Rounds (.ofModel (Float.Model.ofScientific m k)) (m * 10 ^ k) := by
  have hvalue : (m : ℚ) * (10 : ℚ) ^ k = ((m <<< 53 * 10 ^ k : Nat) : ℚ) * 2 ^ (0 - (53 : Nat) : Int) := by
    rw [Nat.cast_mul, mul_right_comm, shiftLeft_mul_zpow, zpow_zero, mul_one]
    push_cast
    rfl
  have hbits : 2 ^ 52 ≤ m <<< 53 * 10 ^ k := by
    rw [Nat.shiftLeft_eq]
    calc 2 ^ 52 ≤ m * 2 ^ 53 := by omega
      _ ≤ m * 2 ^ 53 * 10 ^ k := Nat.le_mul_of_pos_right _ (Nat.pow_pos (by decide))
  unfold Float.Model.ofScientific
  rw [unpacked_ofScientific_eq hm hk, hvalue]
  exact rounds_roundWithAccuracy (.inl ((Nat.le_log2 (by omega)).2 hbits)) (says_exact _ _)

/-- A whole number times a power of ten is read with one rounding. -/
theorem rounds_ofScientific {m k : Nat} (hm : 0 < m) (hk : k ≤ 308) :
    Rounds (Float.ofScientific m false k) (m * 10 ^ k) := by
  by_cases hfast : m < 2 ^ 53 ∧ k ≤ 22
  · obtain ⟨hlt, hk'⟩ := hfast
    have hword : m.toUInt64.toNat = m := Nat.mod_eq_of_lt (hlt.trans (by decide))
    have hround := rounds_toFloat (n := m.toUInt64) (by rwa [hword])
    rw [hword] at hround
    have hgreatest := word_le_greatest (hlt.trans (by decide))
    have hvalue := hround.value_eq (representable_nat hlt.le) hgreatest
    obtain ⟨hfinite, hpower⟩ := exactlyRepresentablePowersOfTen_spec ⟨k, by omega⟩
    have hmul := rounds_mul (hround.isFinite hgreatest) hfinite
      (by rw [hvalue]; exact_mod_cast hm) (by rw [hpower]; positivity)
    rw [hvalue, hpower] at hmul
    rw [Float.ofScientific, dif_pos ⟨hlt, hk'⟩]
    exact hmul
  · rw [Float.ofScientific, dif_neg hfast]
    exact rounds_model_ofScientific hm hk

/-- One is the only double that stands for one. -/
theorem eq_one {x : Float} (hx : x.isFinite = true) (hvalue : value x = 1) : x = 1 := by
  obtain ⟨m, q, hp, hu, -, hv⟩ := positive_cases hx (by rw [hvalue]; exact one_pos)
  have hone : Rounds 1 ((1 : Nat) * 10 ^ 0) := rounds_ofScientific one_pos (Nat.zero_le _)
  have hreads := ReadsAs.self m q
  rw [← hv, hvalue] at hreads
  rw [Nat.cast_one, pow_zero, one_mul] at hone
  exact (hone.eq hu hreads).symm

end MagicCircle.Double
