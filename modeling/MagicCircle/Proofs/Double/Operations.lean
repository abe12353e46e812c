import MagicCircle.Proofs.Double.Rounding

/-!
# Operations on doubles

The result of each operation is near that of the exact one (`near_add`, `near_sub`, `near_mul`,
`near_div`), as long as that is not huge; changing the sign is exact (`near_neg`). Doubles compare
like the numbers they stand for (`zero_lt_iff`, `le_of_value_le`).
-/

namespace MagicCircle.Double

open Float.Model Float.Model.UnpackedFloat

theorem Fits.near {u : UnpackedFloat} {z : ℚ} (h : Fits u z) :
    Near (.ofModel (Float.Model.pack u)) z := by
  have hu : (Float.Model.pack u).unpack = u := h.unpack_pack
  refine ⟨?_, ?_⟩
  · change (Float.Model.pack u).unpack.isFinite = true
    rw [hu, h.finite]
  · change |ofUnpacked (Float.Model.pack u).unpack - z| ≤ _
    rw [hu]
    exact h.error

theorem fits_exact {u : UnpackedFloat}
    (hu : UnpackedFloat.unpack Format.binary64 (UnpackedFloat.pack Format.binary64 u) = u)
    (hfinite : u.isFinite = true) : Fits u (ofUnpacked u) := by
  refine ⟨hu, hfinite, ?_⟩
  rw [sub_self, abs_zero]
  exact add_nonneg (by positivity) (zpow_two_pos (-1074)).le

/-- A finite double is zero or has a mantissa. -/
theorem finite_cases {x : Float} (h : x.isFinite = true) :
    (∃ s, x.toModel.unpack = .zero s ∧ value x = 0) ∨
      ∃ s m e hp, x.toModel.unpack = .finite s m e hp ∧ Canonical m e ∧
        value x = s.apply 1 * (m * 2 ^ e) := by
  change x.toModel.unpack.isFinite = true at h
  unfold value
  rcases hx : x.toModel.unpack with s | _ | s | ⟨s, m, e, hp⟩ <;> rw [hx] at h
  · cases h
  · cases h
  · exact .inl ⟨s, rfl, rfl⟩
  · refine .inr ⟨s, m, e, hp, rfl, canonical_of_unpack hx, ?_⟩
    rw [ofUnpacked_finite, apply_mul, mul_assoc]

theorem fits_toModel {x : Float} (h : x.isFinite = true) : Fits x.toModel.unpack (value x) := by
  refine fits_exact ?_ h
  obtain ⟨s, hx, -⟩ | ⟨s, m, e, hp, hx, hc, -⟩ := finite_cases h <;> rw [hx]
  · exact (fits_zero s).unpack_pack
  · exact unpack_pack s hc hp

theorem decreaseExponent_fst (m : Nat) {e t : Int} (h : t ≤ e) :
    ((decreaseExponent m e t).1 : ℚ) * 2 ^ t = m * 2 ^ e := by
  have hk := shiftLeft_mul_zpow m (e - t).toNat e
  have ht : e - ((e - t).toNat : Int) = t := by omega
  rwa [ht] at hk

theorem apply_neg (s : Sign) (n : Int) : (-s).apply n = -s.apply n := by
  rcases s with _ | _
  · exact (Int.neg_neg n).symm
  · rfl

theorem unpack_neg {x : Float} (hx : x.isFinite = true) :
    (-x).toModel.unpack = x.toModel.unpack.neg := by
  change (Float.Model.pack x.toModel.unpack.neg).unpack = _
  obtain ⟨s, hu, -⟩ | ⟨s, m, e, hp, hu, hc, -⟩ := finite_cases hx <;> rw [hu]
  · exact (fits_zero (-s)).unpack_pack
  · exact unpack_pack (-s) hc hp

theorem near_neg {x : Float} (hx : x.isFinite = true) :
    (-x).isFinite = true ∧ value (-x) = -value x := by
  change (-x).toModel.unpack.isFinite = true ∧ ofUnpacked (-x).toModel.unpack = _
  rw [unpack_neg hx]
  obtain ⟨s, hu, hv⟩ | ⟨s, m, e, hp, hu, hc, hv⟩ := finite_cases hx <;> rw [hu, hv]
  · exact ⟨rfl, neg_zero.symm⟩
  · refine ⟨rfl, (ofUnpacked_finite (-s) m e hp).trans ?_⟩
    rw [apply_mul, apply_neg, Int.cast_neg]
    ring

theorem near_add {x y : Float} (hx : x.isFinite = true) (hy : y.isFinite = true)
    (hz : |value x + value y| ≤ huge) : Near (x + y) (value x + value y) := by
  refine Fits.near (u := UnpackedFloat.add Format.binary64 x.toModel.unpack y.toModel.unpack) ?_
  obtain ⟨s, hu, hv⟩ | ⟨s, m, e, hp, hu, hc, hv⟩ := finite_cases hx
  · obtain ⟨s', hu', hv'⟩ | ⟨s', m', e', hp', hu', hc', hv'⟩ := finite_cases hy
    · rw [hu, hu', hv, hv', add_zero]
      rcases s with _ | _ <;> rcases s' with _ | _ <;> exact fits_zero _
    · have hy' := fits_toModel hy
      rw [hv, zero_add, hu]
      rw [hu'] at hy' ⊢
      exact hy'
  · obtain ⟨s', hu', hv'⟩ | ⟨s', m', e', hp', hu', hc', hv'⟩ := finite_cases hy
    · have hx' := fits_toModel hx
      rw [hv', add_zero, hu']
      rw [hu] at hx' ⊢
      exact hx'
    · have hsum : value x + value y =
          ((s.apply (decreaseExponent m e (min e e')).1 +
            s'.apply (decreaseExponent m' e' (min e e')).1 : Int) : ℚ) * 2 ^ min e e' := by
        rw [hv, hv', Int.cast_add, apply_mul, apply_mul, add_mul, mul_assoc, mul_assoc,
          decreaseExponent_fst m (min_le_left ..), decreaseExponent_fst m' (min_le_right ..)]
      rw [hsum] at hz ⊢
      rw [hu, hu']
      exact fits_normalize .positive hz

theorem unpacked_sub_eq_add_neg (u v : UnpackedFloat) :
    UnpackedFloat.sub Format.binary64 u v = UnpackedFloat.add Format.binary64 u v.neg := by
  rcases u with _ | _ | _ | ⟨s, m, e, _⟩ <;> rcases v with _ | _ | _ | ⟨s', m', e', _⟩
  case finite.finite =>
    refine congrArg (UnpackedFloat.normalize Format.binary64 · (min e e') .positive) ?_
    rw [apply_neg, Int.sub_eq_add_neg]
  all_goals rfl

theorem near_sub {x y : Float} (hx : x.isFinite = true) (hy : y.isFinite = true)
    (hz : |value x - value y| ≤ huge) : Near (x - y) (value x - value y) := by
  have hsub : x - y = x + -y := by
    change Float.ofModel (Float.Model.pack (UnpackedFloat.sub _ _ _)) =
      .ofModel (Float.Model.pack (UnpackedFloat.add _ _ (-y).toModel.unpack))
    rw [unpack_neg hy, unpacked_sub_eq_add_neg]
  obtain ⟨hneg, hvalue⟩ := near_neg hy
  have hvalues : value x - value y = value x + value (-y) := by rw [hvalue, ← sub_eq_add_neg]
  rw [hvalues] at hz ⊢
  rw [hsub]
  exact near_add hx hneg hz

theorem apply_mul_sign (s s' : Sign) :
    (((s * s').apply 1 : Int) : ℚ) = s.apply 1 * s'.apply 1 := by
  have hsign : (s * s').apply 1 = s.apply 1 * s'.apply 1 := by
    rcases s with _ | _ <;> rcases s' with _ | _ <;> rfl
  rw [hsign, Int.cast_mul]

theorem apply_div_sign (s s' : Sign) :
    (((s / s').apply 1 : Int) : ℚ) = s.apply 1 / s'.apply 1 := by
  have hsign : (s / s').apply 1 * s'.apply 1 = s.apply 1 := by
    rcases s with _ | _ <;> rcases s' with _ | _ <;> rfl
  have hne : ((s'.apply 1 : Int) : ℚ) ≠ 0 := by
    rw [← abs_pos, abs_apply_one]
    exact one_pos
  rw [eq_div_iff hne, ← hsign, Int.cast_mul]

/-- A product of mantissas has all bits, unless its exponent is below the least. -/
theorem Canonical.full_product {m m' : Nat} {e e' : Int} (h : Canonical m e) (h' : Canonical m' e') :
    52 ≤ (m * m').log2 ∨ e + e' ≤ -1074 := by
  rw [Nat.le_log2 (Nat.mul_pos h.pos h'.pos).ne']
  rcases h.normal_or_least with hm | he
  · exact .inl (hm.trans (Nat.le_mul_of_pos_right m h'.pos))
  rcases h'.normal_or_least with hm' | he'
  · exact .inl (hm'.trans (Nat.le_mul_of_pos_left m' h.pos))
  · exact .inr (by omega)

theorem near_mul {x y : Float} (hx : x.isFinite = true) (hy : y.isFinite = true)
    (hz : |value x * value y| ≤ huge) : Near (x * y) (value x * value y) := by
  refine Fits.near (u := UnpackedFloat.mul Format.binary64 x.toModel.unpack y.toModel.unpack) ?_
  obtain ⟨s, hu, hv⟩ | ⟨s, m, e, hp, hu, hc, hv⟩ := finite_cases hx
  · obtain ⟨s', hu', hv'⟩ | ⟨s', m', e', hp', hu', hc', hv'⟩ := finite_cases hy <;>
      rw [hu, hu', hv, zero_mul] <;> exact fits_zero _
  · obtain ⟨s', hu', hv'⟩ | ⟨s', m', e', hp', hu', hc', hv'⟩ := finite_cases hy
    · rw [hu, hu', hv', mul_zero]
      exact fits_zero _
    · have hprod : value x * value y =
          (s * s').apply 1 * (((m * m' : Nat) : ℚ) * 2 ^ (e + e')) := by
        rw [hv, hv', apply_mul_sign, zpow_add₀ two_ne_zero]
        push_cast
        ring
      rw [hprod, abs_apply_mul _ (mul_nonneg (Nat.cast_nonneg _) (zpow_two_pos _).le)] at hz
      rw [hprod, hu, hu']
      refine fits_roundWithAccuracy (hc.full_product hc') le_rfl ?_ hz
      exact mul_le_mul_of_nonneg_right (by linarith) (zpow_two_pos _).le

/-- A dividend with 53 bits more than the divisor leaves a quotient with all bits. -/
theorem full_quotient {m m' : Nat} (hp' : 0 < m') (hm : m ≠ 0) (hbits : m'.log2 + 53 ≤ m.log2) :
    2 ^ 52 ≤ m / m' := by
  rw [Nat.le_div_iff_mul_le hp']
  calc 2 ^ 52 * m' ≤ 2 ^ 52 * 2 ^ (m'.log2 + 1) := Nat.mul_le_mul_left _ Nat.lt_log2_self.le
    _ = 2 ^ (52 + (m'.log2 + 1)) := (Nat.pow_add ..).symm
    _ = 2 ^ (m'.log2 + 53) := congrArg (2 ^ ·) (by omega)
    _ ≤ m := (Nat.le_log2 hm).1 hbits

/-- A quotient of mantissas, cut off, with the exponent that the division takes. Unless the exponent
is the least, it has all bits. -/
theorem divCore_eq {m m' : Nat} (e e' : Int) (hp : 0 < m) (hp' : 0 < m') :
    ∃ (n : Nat) (t : Int),
      divCore Format.binary64 m e m' e' = (n / m', t, accuracyOfFraction (n % m') m') ∧
      m * 2 ^ e / (m' * 2 ^ e') = (n : ℚ) / m' * 2 ^ t ∧ (52 ≤ (n / m').log2 ∨ t ≤ -1074) := by
  unfold divCore
  dsimp only
  rw [targetExponent_eq, totalExponent, totalExponent]
  generalize ht : min (e - e') (max ((m.log2 : Int) + 1 + e - (m'.log2 + 1 + e') - 53) (-1074)) = t
  generalize hk : (e - e' - t).toNat = k
  refine ⟨m <<< k, t, rfl, ?_, ?_⟩
  · have hexp : e = t + k + e' := by omega
    have he : (2 : ℚ) ^ e = 2 ^ t * 2 ^ k * 2 ^ e' := by
      rw [← two_zpow_add, ← zpow_add₀ two_ne_zero, ← hexp]
    have hne : (m' : ℚ) ≠ 0 := by exact_mod_cast hp'.ne'
    rw [he, Nat.shiftLeft_eq, div_mul_eq_mul_div, div_eq_div_iff (by positivity) hne]
    push_cast
    ring
  · by_cases hleast : t ≤ -1074
    · exact .inr hleast
    have hbits : m'.log2 + 53 ≤ (m <<< k).log2 := by
      rw [log2_shiftLeft hp.ne']
      omega
    have hshift : (m <<< k) ≠ 0 := by
      rw [Nat.shiftLeft_eq]
      positivity
    have hquot := full_quotient hp' hshift hbits
    exact .inl ((Nat.le_log2 (by omega)).2 hquot)

theorem fits_div {s : Sign} {m m' : Nat} {e e' : Int} (hp : 0 < m) (hp' : 0 < m')
    (hz : m * 2 ^ e / (m' * 2 ^ e') ≤ huge) :
    let q := divCore Format.binary64 m e m' e'
    Fits (roundWithAccuracy Format.binary64 s q.1 q.2.1 q.2.2)
      (s.apply 1 * (m * 2 ^ e / (m' * 2 ^ e'))) := by
  obtain ⟨n, t, hcore, hscale, hbits⟩ := divCore_eq e e' hp hp'
  rw [hscale] at hz ⊢
  rw [hcore]
  have hpos : (0 : ℚ) < m' := by exact_mod_cast hp'
  refine fits_roundWithAccuracy hbits ?_ ?_ hz
  · exact mul_le_mul_of_nonneg_right Nat.cast_div_le (zpow_two_pos t).le
  · refine mul_le_mul_of_nonneg_right ?_ (zpow_two_pos t).le
    rw [div_le_iff₀ hpos]
    have hlt : n ≤ (n / m' + 1) * m' := by
      rw [Nat.add_mul, Nat.one_mul]
      exact (Nat.lt_div_mul_add hp').le
    exact_mod_cast hlt

theorem near_div {x y : Float} (hx : x.isFinite = true) (hy : y.isFinite = true)
    (hne : value y ≠ 0) (hz : |value x / value y| ≤ huge) :
    Near (x / y) (value x / value y) := by
  refine Fits.near (u := UnpackedFloat.div Format.binary64 x.toModel.unpack y.toModel.unpack) ?_
  obtain ⟨s', hu', hv'⟩ | ⟨s', m', e', hp', hu', hc', hv'⟩ := finite_cases hy
  · exact absurd hv' hne
  obtain ⟨s, hu, hv⟩ | ⟨s, m, e, hp, hu, hc, hv⟩ := finite_cases hx
  · rw [hu, hu', hv, zero_div]
    exact fits_zero _
  · have hquot : value x / value y = (s / s').apply 1 * (m * 2 ^ e / (m' * 2 ^ e')) := by
      rw [hv, hv', apply_div_sign, mul_div_mul_comm]
    have hnonneg : 0 ≤ m * (2 : ℚ) ^ e / (m' * 2 ^ e') := by positivity
    rw [hquot, abs_apply_mul _ hnonneg] at hz
    rw [hquot, hu, hu']
    exact fits_div hp hp' hz

/-! ## Comparisons -/

theorem lt_iff_unpack {x y : Float} :
    x < y ↔ x.toModel.unpack.lt y.toModel.unpack = true := by
  change decide (x.toModel < y.toModel) = true ↔ _
  exact decide_eq_true_iff

theorem le_iff_unpack {x y : Float} :
    x ≤ y ↔ x.toModel.unpack.le y.toModel.unpack = true := by
  change decide (x.toModel ≤ y.toModel) = true ↔ _
  exact decide_eq_true_iff

/-- A finite double is greater than zero exactly if what it stands for is. -/
theorem zero_lt_iff {x : Float} (h : x.isFinite = true) : 0 < x ↔ 0 < value x := by
  have hzero : (0 : Float).toModel.unpack = .zero .positive := rfl
  rw [lt_iff_unpack, hzero]
  obtain ⟨s, hu, hv⟩ | ⟨s, m, e, hp, hu, hc, hv⟩ := finite_cases h <;> rw [hu, hv]
  · exact iff_of_false Bool.false_ne_true (lt_irrefl 0)
  · have hpos : 0 < m * (2 : ℚ) ^ e := mul_pos (Nat.cast_pos.2 hp) (zpow_two_pos e)
    rcases s with _ | _
    · exact iff_of_false Bool.false_ne_true (by simpa [Sign.apply] using hpos.le)
    · exact iff_of_true rfl (by simpa [Sign.apply] using hpos)

theorem positive_cases {x : Float} (hx : x.isFinite = true) (hpos : 0 < value x) :
    ∃ m e hp, x.toModel.unpack = .finite .positive m e hp ∧ Canonical m e ∧ value x = m * 2 ^ e := by
  obtain ⟨s, hu, hv⟩ | ⟨s, m, e, hp, hu, hc, hv⟩ := finite_cases hx
  · rw [hv] at hpos
    exact absurd hpos (lt_irrefl 0)
  rcases s with _ | _
  · have hneg : value x ≤ 0 := by
      rw [hv]
      simpa [Sign.apply] using mul_nonneg m.cast_nonneg (zpow_two_pos e).le
    exact absurd hpos hneg.not_gt
  · exact ⟨m, e, hp, hu, hc, by simpa [Sign.apply] using hv⟩

/-- Of two canonical numbers, the one with the greater exponent is greater. -/
theorem Canonical.mul_zpow_lt {m m' : Nat} {e e' : Int} (h : Canonical m e) (h' : Canonical m' e')
    (hlt : e < e') : m * (2 : ℚ) ^ e < m' * 2 ^ e' := by
  have hleast := h.least_le
  have hm' : 2 ^ 52 ≤ m' := h'.normal_or_least.resolve_right (by omega)
  have hexp : (2 : ℚ) ^ (e + (1 : Nat)) ≤ 2 ^ e' := zpow_le_zpow_right₀ one_le_two (by omega)
  rw [two_zpow_add, pow_one] at hexp
  have hlow : (m : ℚ) < 2 ^ 53 := by exact_mod_cast h.lt
  have hhigh : (2 : ℚ) ^ 52 ≤ m' := by exact_mod_cast hm'
  calc m * (2 : ℚ) ^ e < 2 ^ 53 * 2 ^ e := mul_lt_mul_of_pos_right hlow (zpow_two_pos e)
    _ = 2 ^ 52 * (2 ^ e * 2) := by ring
    _ ≤ m' * 2 ^ e' := mul_le_mul hhigh hexp (by positivity) m'.cast_nonneg

theorem le_of_value_le {x y : Float} (hx : x.isFinite = true) (hy : y.isFinite = true)
    (hpos : 0 < value x) (h : value x ≤ value y) : x ≤ y := by
  obtain ⟨m, e, hp, hu, hc, hv⟩ := positive_cases hx hpos
  obtain ⟨m', e', hp', hu', hc', hv'⟩ := positive_cases hy (hpos.trans_le h)
  rw [hv, hv'] at h
  rw [le_iff_unpack, hu, hu']
  change ((compare e e').then (compare m m')).isLE = true
  rcases lt_trichotomy e e' with hlt | rfl | hlt
  · rw [Int.compare_eq_lt.2 hlt]
    rfl
  · have hm : m ≤ m' := by exact_mod_cast le_of_mul_le_mul_right h (zpow_two_pos e)
    rw [Int.compare_eq_eq.2 rfl]
    exact Nat.isLE_compare.2 hm
  · exact absurd h (hc'.mul_zpow_lt hc hlt).not_ge

end MagicCircle.Double
