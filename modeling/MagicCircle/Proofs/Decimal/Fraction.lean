import MagicCircle.Decimal.Fraction
import MagicCircle.Proofs.Decimal.Digits
import MagicCircle.Proofs.Decimal.Shortest

/-!
# Doubles up to one are written as fractions

In either style the digits and the power of ten of a numeral are those of the decimal that it is
written for (`scaled_numeral`). So a positive double up to one is written as a fraction that reads back
as it (`exists_isFraction`).
-/

namespace MagicCircle.Decimal

variable (style : Style) {negative : Bool} {ds : List Nat} {top : Int}

theorem scaled_numeral (htop : top < 0) (hds : ds ≠ []) :
    (style.numeral negative ds top).scaled = (ofDigits ds, top + 1 - ds.length) := by
  have hlength : 0 < ds.length := List.length_pos_iff.2 hds
  unfold Style.numeral Numeral.scaled
  split_ifs
  · dsimp only
    rw [List.singleton_append, ofDigits_cons, ofDigits_append, ofDigits_replicate_zero,
      List.length_append, List.length_replicate]
    refine Prod.ext (by simp) ?_
    simp only [Option.getD_none]
    omega
  · dsimp only
    rw [List.take_append_drop, List.length_drop]
    refine Prod.ext rfl ?_
    simp only [Option.getD_some]
    omega

theorem legible_numeral (htop : top < 0) (hds : ds ≠ []) (hlt : ∀ d ∈ ds, d < 10)
    (hhead : ds.head? ≠ some 0) : (style.numeral negative ds top).Legible := by
  unfold Style.numeral
  split_ifs
  · refine ⟨?_, ?_, nofun, fun _ => rfl⟩
    · simp
    · intro d hd
      obtain hd | hd := List.mem_append.1 hd
      · rw [(List.mem_replicate.1 hd).2]
        decide
      · exact hlt d hd
  · obtain ⟨d, ds, rfl⟩ := List.exists_cons_of_ne_nil hds
    refine ⟨fun e he => hlt e (List.mem_of_mem_take he), fun e he => hlt e (List.mem_of_mem_drop he),
      nofun, fun h => absurd h hhead⟩

theorem exponent_numeral (htop : top < 0) : (style.numeral negative ds top).exponent.getD 0 ≤ 0 := by
  unfold Style.numeral
  split_ifs
  · exact le_rfl
  · exact htop.le

theorem negative_numeral : (style.numeral negative ds top).negative = negative := by
  unfold Style.numeral
  split_ifs <;> rfl

theorem ten_pow_div (w j : Nat) : (w : ℚ) * 10 ^ (-(j : Int)) = w / 10 ^ j := by
  rw [zpow_neg, zpow_natCast, div_eq_mul_inv]

/-- The first digit of a decimal below one stands for a negative power of ten. -/
theorem top_neg {d : Nat} {k : Int} (hd : 0 < d) (hone : d * (10 : ℚ) ^ k < 1) :
    k + (digits d).length - 1 < 0 := by
  have hfirst : (10 : ℚ) ^ ((digits d).length - 1) ≤ d := by
    rw [length_digits]
    exact_mod_cast pow_le_of_pos hd
  have hlength : 0 < (digits d).length := by
    rw [length_digits]
    exact Nat.length_toDigits_pos
  have hexp : k + (digits d).length - 1 = k + ((digits d).length - 1 : Nat) := by omega
  have hlt : (10 : ℚ) ^ (k + (digits d).length - 1) < 10 ^ (0 : Int) := by
    rw [hexp, Shortest.ten_zpow_add, zpow_zero, mul_comm]
    exact (mul_le_mul_of_nonneg_right hfirst (Shortest.zpow_ten_pos k).le).trans_lt hone
  exact (zpow_lt_zpow_iff_right₀ (by norm_num)).1 hlt

/-- A decimal below one is written as a fraction. -/
theorem isFraction_numeral {d : Nat} {k : Int} (hd : 0 < d) (hd' : d ≤ 10 ^ 17) (hk : -340 ≤ k)
    (hone : d * (10 : ℚ) ^ k < 1) :
    ∃ w j, (style.numeral false (dropFinalZeros (digits d)) (k + (digits d).length - 1)).IsFraction w j ∧
      (w : ℚ) / 10 ^ j = d * 10 ^ k := by
  have htop := top_neg hd hone
  obtain ⟨r, hr⟩ := dropFinalZeros_spec (digits d)
  have hlt (e) (he : e ∈ dropFinalZeros (digits d)) : e < 10 :=
    digits_lt (n := d) (by rw [hr]; exact List.mem_append_left _ he)
  have hhead := head?_digits_ne_zero hd
  have hlength := congrArg List.length hr
  have hvalue := ofDigits_digits d
  rw [hr, ofDigits_append, ofDigits_replicate_zero, List.length_replicate, Nat.add_zero] at hvalue
  generalize dropFinalZeros (digits d) = ds at *
  rw [List.length_append, List.length_replicate] at hlength
  generalize hw : ofDigits ds = w at hvalue
  have hpos : 0 < w := Nat.pos_of_ne_zero (by rintro rfl; omega)
  have hne : ds ≠ [] := by
    rintro rfl
    exact hpos.ne hw
  have hfirst : ds.head? ≠ some 0 := by
    obtain ⟨e, es, rfl⟩ := List.exists_cons_of_ne_nil hne
    rw [hr] at hhead
    exact hhead
  have hscaled : (w : ℚ) * 10 ^ (k + r) = d * 10 ^ k := by
    rw [Shortest.ten_zpow_add, ← hvalue]
    push_cast
    ring
  have hplaces : k + r < 0 := by
    by_contra hge
    have hw' : (1 : ℚ) ≤ w := by exact_mod_cast hpos
    have hpow : (1 : ℚ) ≤ 10 ^ (k + r) := one_le_zpow₀ (by norm_num) (not_lt.1 hge)
    exact (hscaled ▸ hone).not_ge (one_le_mul_of_one_le_of_one_le hw' hpow)
  obtain ⟨j, hj⟩ : ∃ j : Nat, k + r = -j := ⟨(-(k + r)).toNat, by omega⟩
  have hfraction : (w : ℚ) / 10 ^ j = d * 10 ^ k := by rw [← ten_pow_div, ← hj, hscaled]
  refine ⟨w, j, ⟨legible_numeral style htop hne hlt hfirst, negative_numeral style, ?_,
    exponent_numeral style htop, hpos, ?_, ?_, by omega, by omega⟩, hfraction⟩
  · rw [scaled_numeral style htop hne, hw]
    exact Prod.ext rfl (by omega)
  · exact (Nat.le_mul_of_pos_right w (Nat.pow_pos (by decide))).trans (hvalue.trans_le hd')
  · have hle : (w : ℚ) ≤ 10 ^ j := by
      rw [← div_le_one (by positivity), hfraction]
      exact hone.le
    exact_mod_cast hle

end MagicCircle.Decimal
