import MagicCircle.Glyph.Recovery
import MagicCircle.Proofs.Double.Unit
import MagicCircle.Proofs.Json.Number

/-!
# Doubles that come back from their numerals

A positive double up to one is written as a fraction that reads as it (`exists_isFraction`), and what
is read for the fraction is near it, or the same (`recovered_quotient`). Zeros keep their sign.
-/

namespace MagicCircle.Double

open Decimal (Numeral)
open Json (float? powerOfTen quotient style)
open Float.Model Float.Model.UnpackedFloat

variable {x : Float} {n : Numeral} {w j m : Nat} {q : Int}

/-- A positive double up to one is written as a fraction that reads as it. -/
theorem exists_isFraction (hx : InUnit x) (hpos : 0 < value x) :
    ∃ n w j m q hp, style.numeral? x = some n ∧ n.IsFraction w j ∧
      x.toModel.unpack = .finite .positive m q hp ∧ ReadsAs ((w : ℚ) / 10 ^ j) m q := by
  obtain hlt | hone := hx.le_one.lt_or_eq
  · obtain ⟨m, q, hp, hu, hc, hv⟩ := positive_cases hx.finite hpos
    obtain ⟨d, k, hdecimal, hreads, hd, hk⟩ := Decimal.Shortest.decimalOf_spec style.tie hc
    rw [hv] at hlt
    have hd' : 0 < d := by
      have hz := pos_of_mul_pos_left (hreads.pos hp) (Decimal.Shortest.zpow_ten_pos k).le
      exact_mod_cast hz
    obtain ⟨w, j, hfraction, hvalue⟩ :=
      Decimal.isFraction_numeral style hd' hd hk (hreads.lt_one hp hlt)
    rw [← hvalue] at hreads
    refine ⟨_, w, j, m, q, hp, ?_, hfraction, hu, hreads⟩
    unfold Decimal.Style.numeral? Decimal.Style.ofFinite
    rw [ofFloat_of_unpack hu]
    dsimp only
    rw [if_neg hp.ne', hdecimal]
    rfl
  · obtain rfl := eq_one hx.finite hone
    have hreads := ReadsAs.self (2 ^ 52) (-52)
    refine ⟨⟨false, [1], [0], none⟩, 10, 1, 2 ^ 52, -52, by decide, ?_, ?_, rfl, ?_⟩
    · decide +kernel
    · exact ⟨⟨by simp, by simp, nofun, by simp⟩, rfl, rfl, le_rfl, by decide, by decide, by decide,
        by decide, by decide⟩
    · norm_num at hreads ⊢
      exact hreads

/-- The error of reading a fraction, against the double that the fraction was written for. -/
theorem quotient_near {v z y : ℚ} (hread : |y - z| ≤ z * (45 / 8 / 2 ^ 53) + 5 / 8 * tiny)
    (hwrite : |z - v| ≤ v / 2 ^ 53 + tiny / 2) (hv : 0 ≤ v) :
    |y - v| ≤ v / 2 ^ 50 + 2 * tiny := by
  have htiny : 0 < tiny := zpow_two_pos (-1074)
  have htotal : |y - v| ≤ |y - z| + |z - v| := abs_sub_le ..
  have hz := (abs_le.1 hwrite).2
  norm_num at *
  linarith

/-- From a half on, a fraction has no more places than there are exact powers of ten. -/
theorem places_le {v : ℚ} (h : n.IsFraction w j) (hhalf : 1 / 2 < v)
    (hwrite : |(w : ℚ) / 10 ^ j - v| ≤ v / 2 ^ 53 + tiny / 2) : j ≤ 22 := by
  have htiny := tiny_le
  have hlow := (abs_le.1 hwrite).1
  have hquarter : 1 / 4 ≤ (w : ℚ) / 10 ^ j := by
    norm_num at htiny hlow ⊢
    linarith
  have hword : (w : ℚ) ≤ 10 ^ 17 := by exact_mod_cast h.le_word
  rw [le_div_iff₀ (by positivity)] at hquarter
  have hlt : (10 : ℚ) ^ j < 10 ^ 18 := by
    have hfour : (4 : ℚ) * 10 ^ 17 < 10 ^ 18 := by norm_num
    linarith
  have := (pow_lt_pow_iff_right₀ (by norm_num)).1 hlt
  omega

/-- What is read for the fraction that a double is written as. -/
theorem recovered_quotient {hp : 0 < m} (hx : InUnit x)
    (hu : x.toModel.unpack = .finite .positive m q hp) (hn : style.numeral? x = some n)
    (h : n.IsFraction w j) (hz : ReadsAs ((w : ℚ) / 10 ^ j) m q) : Recovered x (quotient w j) := by
  have hvalue : value x = m * 2 ^ q := by
    rw [value, hu]
    rfl
  have hwrite := hz.error (canonical_of_unpack hu)
  rw [← hvalue] at hwrite
  obtain ⟨hfinite, hnonneg, hread⟩ := Json.quotient_spec h.pos h.le_word h.places_le
  have hnear := quotient_near hread hwrite hx.nonneg
  refine ⟨⟨hfinite, hnonneg, ?_⟩, hnear, ?_⟩
  · by_cases hhalf : value x ≤ 1 / 2
    · have htiny := tiny_le
      have hhigh := (abs_le.1 hnear).2
      norm_num at htiny hhigh
      linarith
    · have hplaces := places_le h (not_le.1 hhalf) hwrite
      exact Json.quotient_le_one h.pos h.le_word hplaces h.le_one
  · intro n' hn' hshort
    obtain rfl : n = n' := Option.some.inj (hn.symm.trans hn')
    have hdigits := hshort.digits
    have hplaces := hshort.places
    rw [h.scaled] at hdigits hplaces
    have hround := Json.rounds_quotient h.pos h.le_word (j := j) (by omega)
    have hword := (Json.rounds_ofNat h.pos).value_eq (representable_nat hdigits)
      (natCast_le_greatest (by decide) h.le_word)
    rw [hword] at hround
    exact hround.eq hu hz

/-! ## Zero -/

/-- A zero keeps its sign. -/
theorem float?_zero (s : Sign) :
    float? ⟨s == .negative, [0], [0], none⟩ = some (.ofModel (Float.Model.pack (.zero s))) := by
  have hmagnitude (b : Bool) : Json.magnitude? ⟨b, [0], [0], none⟩ =
      some (Float.ofNat 0 / powerOfTen 1) := Json.rescale?_near one_pos (by decide)
  rw [float?, hmagnitude]
  rcases s with _ | _ <;> rfl

theorem exists_recovered_zero {s : Sign} (hx : InUnit x) (hu : x.toModel.unpack = .zero s) :
    ∃ n y, style.numeral? x = some n ∧ n.Legible ∧ float? n = some y ∧ Recovered x y := by
  have hzero : x = .ofModel (Float.Model.pack (.zero s)) := by rw [← hu, ofModel_pack_unpack]
  refine ⟨⟨s == .negative, [0], [0], none⟩, x, ?_, ⟨by simp, by simp, nofun, fun _ => rfl⟩, ?_, hx, ?_,
    fun _ _ _ => rfl⟩
  · unfold Decimal.Style.numeral? Decimal.Style.ofFinite
    rw [ofFloat_of_zero hu]
    rfl
  · rw [float?_zero, ← hzero]
  · rw [sub_self, abs_zero]
    have htiny := zpow_two_pos (-1074)
    exact add_nonneg (div_nonneg hx.nonneg (by positivity)) (mul_nonneg zero_le_two htiny.le)

/-- Every double from zero to one is written as a numeral that is read as what it may come back as. -/
theorem exists_recovered (hx : InUnit x) :
    ∃ n y, style.numeral? x = some n ∧ n.Legible ∧ float? n = some y ∧ Recovered x y := by
  obtain ⟨s, hu, -⟩ | hpos := zero_or_pos hx.finite hx.nonneg
  · exact exists_recovered_zero hx hu
  · obtain ⟨n, w, j, m, q, hp, hn, h, hu, hz⟩ := exists_isFraction hx hpos
    exact ⟨n, quotient w j, hn, h.legible, Json.float?_isFraction h, recovered_quotient hx hu hn h hz⟩

end MagicCircle.Double
