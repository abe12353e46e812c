import MagicCircle.Decimal.Shortest
import MagicCircle.Proofs.Decimal.Digits
import MagicCircle.Proofs.Double.Nearest

/-!
# The shortest decimal reads back

The comparisons of the search are those of the numbers themselves (`decimal_le_binary`). A decimal
that it finds reads back as the double (`readsAs_of_readsBack`), and it finds one with at most
seventeen digits (`decimalOf_spec`), since the grid of the seventeenth digit is finer than the doubles
are (`exists_onGrid`).
-/

namespace MagicCircle.Decimal.Shortest

open Double (Canonical ReadsAs marginBelow zpow_two_pos)

/-! ## Comparisons -/

/-- What both sides of a comparison are multiplied by to be whole. -/
def scale (k p : Int) : ℚ := 2 ^ (-p).toNat * 10 ^ (-k).toNat

theorem scale_pos (k p : Int) : 0 < scale k p := by
  unfold scale
  positivity

theorem zpow_mul_pow_toNat {a : ℚ} (ha : a ≠ 0) (k : Int) :
    a ^ k * a ^ (-k).toNat = a ^ k.toNat := by
  rw [← zpow_natCast, ← zpow_natCast, ← zpow_add₀ ha]
  exact congrArg (a ^ ·) (by omega)

theorem zpow_ten_pos (k : Int) : (0 : ℚ) < 10 ^ k := zpow_pos (by norm_num) k

theorem ten_zpow_add (k : Int) (n : Nat) : (10 : ℚ) ^ (k + n) = 10 ^ k * 10 ^ n := by
  rw [zpow_add₀ (by norm_num), zpow_natCast]

variable {k p : Int} {d x : Nat}

theorem decimal_eq (k p : Int) (d : Nat) : (decimal k p d : ℚ) = d * 10 ^ k * scale k p := by
  have hcast : (decimal k p d : ℚ) = d * 10 ^ k.toNat * 2 ^ (-p).toNat := by
    exact_mod_cast rfl
  rw [hcast, ← zpow_mul_pow_toNat (by norm_num) k, scale]
  ring

theorem binary_eq (k p : Int) (x : Nat) : (binary k p x : ℚ) = x * 2 ^ p * scale k p := by
  have hcast : (binary k p x : ℚ) = x * 2 ^ p.toNat * 10 ^ (-k).toNat := by
    exact_mod_cast rfl
  rw [hcast, ← zpow_mul_pow_toNat (by norm_num) p, scale]
  ring

theorem decimal_le_binary : decimal k p d ≤ binary k p x ↔ (d : ℚ) * 10 ^ k ≤ x * 2 ^ p := by
  rw [← @Nat.cast_le ℚ, decimal_eq, binary_eq, mul_le_mul_iff_left₀ (scale_pos k p)]

theorem binary_le_decimal : binary k p x ≤ decimal k p d ↔ (x : ℚ) * 2 ^ p ≤ d * 10 ^ k := by
  rw [← @Nat.cast_le ℚ, decimal_eq, binary_eq, mul_le_mul_iff_left₀ (scale_pos k p)]

theorem decimal_lt_binary : decimal k p d < binary k p x ↔ (d : ℚ) * 10 ^ k < x * 2 ^ p := by
  rw [← not_le, binary_le_decimal, not_le]

theorem binary_lt_decimal : binary k p x < decimal k p d ↔ (x : ℚ) * 2 ^ p < d * 10 ^ k := by
  rw [← not_le, decimal_le_binary, not_le]

/-- The quotient is the last multiple of the power of ten that is not above the number. -/
theorem floor_spec (k p : Int) (x : Nat) :
    ((binary k p x / decimal k p 1 : Nat) : ℚ) * 10 ^ k ≤ x * 2 ^ p ∧
      (x : ℚ) * 2 ^ p < (binary k p x / decimal k p 1 + 1 : Nat) * 10 ^ k := by
  have hunit (d : Nat) : decimal k p d = d * decimal k p 1 := by
    unfold decimal
    rw [Nat.one_mul, Nat.mul_assoc]
  have hpos : 0 < decimal k p 1 := by
    rw [← @Nat.cast_pos ℚ, decimal_eq, Nat.cast_one, one_mul]
    exact mul_pos (zpow_ten_pos k) (scale_pos k p)
  rw [← decimal_le_binary, ← binary_lt_decimal, hunit (binary k p x / decimal k p 1),
    hunit (binary k p x / decimal k p 1 + 1), Nat.add_mul, Nat.one_mul]
  exact ⟨Nat.div_mul_le_self .., Nat.lt_div_mul_add hpos⟩

/-! ## Reading back -/

variable {m : Nat} {q : Int}

theorem quarter_mul (q : Int) : (2 : ℚ) ^ (q - 2) = 2 ^ q / 4 := by
  rw [zpow_sub₀ two_ne_zero]
  norm_num

theorem readsBack_iff (hp : 0 < m) : readsBack m q k d = true ↔
    if m % 2 = 0 then
      (m - marginBelow m q) * 2 ^ q ≤ d * (10 : ℚ) ^ k ∧ d * (10 : ℚ) ^ k ≤ (m + 1 / 2) * 2 ^ q
    else
      (m - marginBelow m q) * 2 ^ q < d * (10 : ℚ) ^ k ∧ d * (10 : ℚ) ^ k < (m + 1 / 2) * 2 ^ q := by
  have hbelow : ((if m = Binary64.leastNormal ∧ Binary64.leastExponent < q then 4 * m - 1
      else 4 * m - 2 : Nat) : ℚ) * 2 ^ (q - 2) = (m - marginBelow m q) * 2 ^ q := by
    unfold marginBelow Binary64.leastNormal Binary64.leastExponent
    change ((if m = 2 ^ 52 ∧ -1074 < q then 4 * m - 1 else 4 * m - 2 : Nat) : ℚ) * _ = _
    rw [quarter_mul]
    split_ifs
    · rw [Nat.cast_sub (by omega)]
      push_cast
      ring
    · rw [Nat.cast_sub (by omega)]
      push_cast
      ring
  have habove : ((4 * m + 2 : Nat) : ℚ) * 2 ^ (q - 2) = (m + 1 / 2) * 2 ^ q := by
    rw [quarter_mul]
    push_cast
    ring
  rw [← hbelow, ← habove]
  unfold readsBack
  split_ifs <;>
    simp only [Bool.and_eq_true, decide_eq_true_eq, binary_le_decimal, decimal_le_binary,
      binary_lt_decimal, decimal_lt_binary]

theorem readsAs_of_readsBack (hp : 0 < m) (h : readsBack m q k d = true) :
    ReadsAs (d * 10 ^ k) m q := by
  rw [readsBack_iff hp] at h
  split_ifs at h with hm
  · exact ⟨h.1, h.2, fun _ => hm⟩
  · refine ⟨h.1.le, h.2.le, ?_⟩
    rintro (heq | heq)
    · exact absurd heq h.1.ne'
    · exact absurd heq h.2.ne

theorem readsBack_of_lt (hp : 0 < m) (hlow : (m - marginBelow m q) * 2 ^ q < d * (10 : ℚ) ^ k)
    (hhigh : d * (10 : ℚ) ^ k < (m + 1 / 2) * 2 ^ q) : readsBack m q k d = true := by
  rw [readsBack_iff hp]
  split_ifs
  · exact ⟨hlow.le, hhigh.le⟩
  · exact ⟨hlow, hhigh⟩

/-! ## The search -/

variable {tie : Tie}

/-- The search on a grid looks at two neighbours, and fails only if neither reads back. -/
theorem onGrid?_cases (tie : Tie) (m : Nat) (q k : Int) :
    let d := binary k q m / decimal k q 1
    onGrid? tie m q k = none ∧ readsBack m q k d = false ∧ readsBack m q k (d + 1) = false ∨
      onGrid? tie m q k = some d ∧ readsBack m q k d = true ∨
      onGrid? tie m q k = some (d + 1) ∧ readsBack m q k (d + 1) = true := by
  unfold onGrid?
  dsimp only
  generalize binary k q m / decimal k q 1 = d
  rcases readsBack m q k d <;> rcases readsBack m q k (d + 1) <;> simp only [and_self, true_or, or_true,
    and_true]
  rcases tie <;> split_ifs <;> simp

theorem onGrid?_spec (h : onGrid? tie m q k = some d) :
    readsBack m q k d = true ∧ d ≤ binary k q m / decimal k q 1 + 1 := by
  obtain ⟨hd, -, -⟩ | ⟨hd, hback⟩ | ⟨hd, hback⟩ := onGrid?_cases tie m q k <;> rw [h] at hd <;> cases hd
  · exact ⟨hback, Nat.le_succ _⟩
  · exact ⟨hback, le_rfl⟩

theorem onGrid?_isSome (h : readsBack m q k (binary k q m / decimal k q 1) = true ∨
    readsBack m q k (binary k q m / decimal k q 1 + 1) = true) :
    (onGrid? tie m q k).isSome = true := by
  obtain ⟨-, hd, hd'⟩ | ⟨hd, -⟩ | ⟨hd, -⟩ := onGrid?_cases tie m q k
  · rw [hd, hd'] at h
    simp at h
  · rw [hd]
    rfl
  · rw [hd]
    rfl

/-- One of the two neighbours on a grid finer than the doubles reads back. -/
theorem exists_onGrid (hc : Canonical m q) (hfine : (10 : ℚ) ^ k < 2 ^ q)
    (hleast : m = 2 ^ 52 → (10 : ℚ) ^ k < 2 ^ q / 2) : (onGrid? tie m q k).isSome = true := by
  obtain ⟨hlow, hhigh⟩ := floor_spec k q m
  refine onGrid?_isSome ?_
  generalize binary k q m / decimal k q 1 = d at hlow hhigh ⊢
  push_cast at hhigh
  have hunit := zpow_two_pos q
  have hgrid := zpow_ten_pos k
  by_cases hm : m = 2 ^ 52
  · have hstep := hleast hm
    have hmargin : 0 ≤ marginBelow m q * 2 ^ q := by
      refine mul_nonneg ?_ hunit.le
      unfold marginBelow
      split_ifs <;> norm_num
    refine .inr (readsBack_of_lt hc.pos ?_ ?_) <;> push_cast <;> linarith
  · have hmargin : marginBelow m q = 1 / 2 := by
      unfold marginBelow
      rw [if_neg (fun h => hm h.1)]
    by_cases hnear : m * (2 : ℚ) ^ q - d * 10 ^ k < 2 ^ q / 2
    · refine .inl (readsBack_of_lt hc.pos (hmargin ▸ ?_) ?_) <;> linarith
    · refine .inr (readsBack_of_lt hc.pos (hmargin ▸ ?_) ?_) <;> push_cast <;> linarith

/-- The magnitude is the power of ten of the first digit. -/
theorem magnitude_spec (hlow : (10 : ℚ) ^ (-400 : Int) ≤ m * 2 ^ q) :
    (10 : ℚ) ^ magnitude m q ≤ m * 2 ^ q ∧ m * 2 ^ q < (10 : ℚ) ^ (magnitude m q + 1) := by
  obtain ⟨hfloor, hceil⟩ := floor_spec (-400) q m
  unfold magnitude
  dsimp only
  generalize binary (-400) q m / decimal (-400) q 1 = n at hfloor hceil ⊢
  have hpos : 0 < n := by
    have hlt := hlow.trans_lt hceil
    rw [lt_mul_iff_one_lt_left (zpow_ten_pos _)] at hlt
    have : 1 < n + 1 := by exact_mod_cast hlt
    omega
  have hlength := Nat.length_toDigits_pos (b := 10) (n := n)
  have hfirst := pow_le_of_pos hpos
  have hlast := lt_pow_length n
  generalize (Nat.toDigits 10 n).length = l at hlength hfirst hlast ⊢
  have hunit := zpow_ten_pos (-400)
  obtain ⟨l, rfl⟩ : ∃ k, l = k + 1 := ⟨l - 1, by omega⟩
  rw [Nat.add_sub_cancel] at hfirst
  have hfirst' : (10 : ℚ) ^ l ≤ n := by exact_mod_cast hfirst
  have hlast' : (n + 1 : Nat) ≤ (10 : ℚ) ^ (l + 1) := by exact_mod_cast hlast
  have hexp : ((l + 1 : Nat) : Int) - 1 - 400 = -400 + l := by omega
  rw [hexp, add_assoc]
  refine ⟨?_, ?_⟩
  · calc (10 : ℚ) ^ (-400 + l : Int) = 10 ^ l * 10 ^ (-400 : Int) := by
          rw [ten_zpow_add, mul_comm]
      _ ≤ n * 10 ^ (-400 : Int) := mul_le_mul_of_nonneg_right hfirst' hunit.le
      _ ≤ m * 2 ^ q := hfloor
  · calc m * 2 ^ q < (n + 1 : Nat) * (10 : ℚ) ^ (-400 : Int) := hceil
      _ ≤ 10 ^ (l + 1) * 10 ^ (-400 : Int) := mul_le_mul_of_nonneg_right hlast' hunit.le
      _ = 10 ^ (-400 + (l + 1) : Int) := by
          rw [mul_comm, ← ten_zpow_add]
          rfl

/-- Seventeen digits are enough: the grid of the last of them is finer than the doubles are. -/
theorem seventeenth_isSome (hc : Canonical m q) {top : Int}
    (htop : (10 : ℚ) ^ top ≤ m * 2 ^ q) : (onGrid? tie m q (top - 16)).isSome = true := by
  have hsplit : (10 : ℚ) ^ top = 10 ^ (top - 16) * 10 ^ 16 := by
    rw [← ten_zpow_add]
    exact congrArg _ (by omega)
  rw [hsplit] at htop
  have hunit := zpow_two_pos q
  refine exists_onGrid hc ?_ ?_
  · have hm : (m : ℚ) < 2 ^ 53 := by exact_mod_cast hc.lt
    have hlt := htop.trans_lt (mul_lt_mul_of_pos_right hm hunit)
    norm_num at hlt
    linarith
  · rintro rfl
    push_cast at htop
    norm_num at htop
    linarith

/-- No double but zero is below the magnitudes that are told apart. -/
theorem zpow_ten_lt (hc : Canonical m q) : (10 : ℚ) ^ (-324 : Int) < m * 2 ^ q := by
  have hm : (1 : ℚ) ≤ m := by exact_mod_cast hc.pos
  have hpow : 2 ^ 1074 < 10 ^ 324 := by decide +kernel
  calc (10 : ℚ) ^ (-324 : Int) < 2 ^ (-1074 : Int) := by
        rw [zpow_neg, zpow_neg]
        exact inv_strictAnti₀ (zpow_two_pos 1074) (by exact_mod_cast hpow)
    _ ≤ 2 ^ q := zpow_le_zpow_right₀ one_le_two hc.least_le
    _ ≤ m * 2 ^ q := le_mul_of_one_le_left (zpow_two_pos q).le hm

/-- The shortest decimal has at most eighteen digits and reads back as the double. -/
theorem decimalOf_spec (tie : Tie) (hc : Canonical m q) :
    ∃ d k, decimalOf tie m q = (d, k) ∧ ReadsAs (d * 10 ^ k) m q ∧ d ≤ 10 ^ 17 ∧ -340 ≤ k := by
  have hleast := zpow_ten_lt hc
  have hlow : (10 : ℚ) ^ (-400 : Int) ≤ m * 2 ^ q :=
    (zpow_le_zpow_right₀ (by norm_num) (by decide)).trans hleast.le
  obtain ⟨hfirst, hlast⟩ := magnitude_spec hlow
  have htop : -324 < magnitude m q + 1 :=
    (zpow_lt_zpow_iff_right₀ (by norm_num)).1 (hleast.trans hlast)
  unfold decimalOf
  dsimp only
  generalize magnitude m q = top at hfirst hlast htop ⊢
  have hsome : (((List.range 17).map fun n : Nat => top - (n : Int)).findSome? fun k =>
      (onGrid? tie m q k).map (·, k)).isSome = true := by
    rw [List.findSome?_isSome_iff]
    refine ⟨top - 16, List.mem_map.2 ⟨16, by simp, rfl⟩, ?_⟩
    rw [Option.isSome_map]
    exact seventeenth_isSome hc hfirst
  obtain ⟨⟨d, k⟩, hfound⟩ := Option.isSome_iff_exists.1 hsome
  rw [hfound]
  obtain ⟨k', hmem, hk'⟩ := List.exists_of_findSome?_eq_some hfound
  obtain ⟨n, hn, rfl⟩ := List.mem_map.1 hmem
  obtain ⟨d', hd, heq⟩ := Option.map_eq_some_iff.1 hk'
  cases heq
  obtain ⟨hback, hle⟩ := onGrid?_spec hd
  have hn' := List.mem_range.1 hn
  refine ⟨d, top - n, rfl, readsAs_of_readsBack hc.pos hback, hle.trans ?_, by omega⟩
  obtain ⟨hfloor, -⟩ := floor_spec (top - n) q m
  have hlt := hfloor.trans_lt hlast
  have hexp : top + 1 = top - n + (n + 1 : Nat) := by omega
  rw [hexp, ten_zpow_add, mul_comm] at hlt
  have hdigits := lt_of_mul_lt_mul_left hlt (zpow_ten_pos _).le
  have hpow : 10 ^ (n + 1) ≤ 10 ^ 17 := Nat.pow_le_pow_right (by decide) hn'
  exact (Nat.succ_le_of_lt (by exact_mod_cast hdigits)).trans hpow

end MagicCircle.Decimal.Shortest
