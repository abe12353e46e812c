import MagicCircle.Decimal.Shortest
import Mathlib.Algebra.Order.Ring.Nat
import Mathlib.Data.List.TakeWhile
import Mathlib.Tactic.Ring

/-!
# Decimal digits

A number has as many digits as the powers of ten around it say (`pow_le_of_pos`, `lt_pow_length`), and
its digits read as the number (`ofDigits_digits`), also without the zeros that they end in
(`dropFinalZeros_spec`).
-/

namespace MagicCircle.Decimal

theorem lt_pow_length (n : Nat) : n < 10 ^ (Nat.toDigits 10 n).length :=
  (Nat.length_toDigits_le_iff (by decide) Nat.length_toDigits_pos).1 le_rfl

theorem pow_le_of_pos {n : Nat} (hn : 0 < n) : 10 ^ ((Nat.toDigits 10 n).length - 1) ≤ n := by
  rcases Nat.eq_zero_or_pos ((Nat.toDigits 10 n).length - 1) with hzero | hpos
  · rw [hzero]
    exact hn
  · have hlength := Nat.length_toDigits_pos (b := 10) (n := n)
    rw [← not_lt, ← Nat.length_toDigits_le_iff (by decide) hpos]
    omega

/-! ## Reading digits -/

theorem foldl_digits (ds : List Nat) : ∀ n : Nat,
    ds.foldl (fun n d => n * 10 + d) n = n * 10 ^ ds.length + ofDigits ds := by
  induction ds with
  | nil => exact fun n => (Nat.mul_one n).symm
  | cons d ds ih =>
    intro n
    rw [ofDigits, List.foldl_cons, List.foldl_cons, ih, ih, List.length_cons]
    ring

theorem ofDigits_cons (d : Nat) (ds : List Nat) :
    ofDigits (d :: ds) = d * 10 ^ ds.length + ofDigits ds := by
  rw [ofDigits, List.foldl_cons, foldl_digits, Nat.zero_mul, Nat.zero_add]

theorem ofDigits_append (ds es : List Nat) :
    ofDigits (ds ++ es) = ofDigits ds * 10 ^ es.length + ofDigits es := by
  rw [ofDigits, List.foldl_append, foldl_digits es]
  rfl

theorem ofDigits_replicate_zero (k : Nat) : ofDigits (List.replicate k 0) = 0 := by
  induction k with
  | zero => rfl
  | succ k ih =>
    rw [List.replicate_succ', ofDigits_append, ih]
    rfl

theorem ofDigits_lt {ds : List Nat} (h : ∀ d ∈ ds, d < 10) : ofDigits ds < 10 ^ ds.length := by
  induction ds with
  | nil => exact Nat.one_pos
  | cons d ds ih =>
    have hd := h d (.head _)
    have hds := ih fun e he => h e (.tail _ he)
    rw [ofDigits_cons, List.length_cons, Nat.pow_succ]
    have hmul : d * 10 ^ ds.length ≤ 9 * 10 ^ ds.length := Nat.mul_le_mul_right _ (by omega)
    omega

/-! ## The digits of a number -/

theorem ofDigits_digits (n : Nat) : ofDigits (digits n) = n := by
  have hread := Nat.ofDigitChars_ten_toDigits (n := n)
  rw [Nat.ofDigitChars_eq_foldl] at hread
  unfold ofDigits digits
  rw [List.foldl_map]
  simp only [Nat.mul_comm 10] at hread
  exact hread

theorem length_digits (n : Nat) : (digits n).length = (Nat.toDigits 10 n).length := List.length_map _

theorem digits_lt {n d : Nat} (h : d ∈ digits n) : d < 10 := by
  obtain ⟨c, hc, rfl⟩ := List.mem_map.1 h
  have hdigit := Nat.isDigit_of_mem_toDigits (by decide) (by decide) hc
  simp only [Char.isDigit, Bool.and_eq_true, decide_eq_true_eq, UInt32.le_iff_toNat_le] at hdigit
  change c.toNat - 48 < 10
  have hmost : c.toNat ≤ 57 := hdigit.2
  omega

/-- The first digit of a number that is not zero is not zero. -/
theorem head?_digits_ne_zero {n : Nat} (hn : 0 < n) : (digits n).head? ≠ some 0 := by
  intro h
  obtain ⟨ds, hds⟩ : ∃ ds, digits n = 0 :: ds := by
    rcases hcase : digits n with _ | ⟨d, ds⟩ <;> rw [hcase] at h <;> simp_all
  have hlt : ofDigits ds < 10 ^ ds.length :=
    ofDigits_lt fun d hd => digits_lt (n := n) (by rw [hds]; exact .tail _ hd)
  have hvalue : ofDigits ds = n := by
    rw [← ofDigits_digits n, hds, ofDigits_cons, Nat.zero_mul, Nat.zero_add]
  have hfirst := pow_le_of_pos hn
  rw [← length_digits, hds, List.length_cons, Nat.add_sub_cancel] at hfirst
  omega

theorem dropFinalZeros_spec (ds : List Nat) :
    ∃ k, ds = dropFinalZeros ds ++ List.replicate k 0 := by
  refine ⟨(ds.reverse.takeWhile (· == 0)).length, ?_⟩
  have hzeros : ds.reverse.takeWhile (· == 0) =
      List.replicate (ds.reverse.takeWhile (· == 0)).length 0 :=
    List.eq_replicate_of_mem fun d hd => by simpa using List.mem_takeWhile_imp hd
  have hsplit := congrArg List.reverse (List.takeWhile_append_dropWhile (p := (· == 0)) (l := ds.reverse))
  rw [List.reverse_append, List.reverse_reverse, hzeros, List.reverse_replicate] at hsplit
  exact hsplit.symm

end MagicCircle.Decimal
