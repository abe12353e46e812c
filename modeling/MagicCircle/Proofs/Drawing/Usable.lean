import MagicCircle.Canvas.Log
import MagicCircle.Proofs.Double.Frame
import MagicCircle.Proofs.Drawing.FirstFailure
import MagicCircle.Proofs.Json.Float

/-!
# Drawings of a moderate side are usable

`Diagram.renderWith_usable`: on a blank canvas, and unless the side is too large or too small for the
diagram, everything that is logged can be drawn, be the drawing complete or not.

What goes along the diagram is that the frame is settled (`Frame.Settled`) and the side in range.
`Draw.Adds` carries it from step to step: a settled frame is what each step needs and, unless it
fails, what it leaves.
-/

namespace MagicCircle

open Double
open Json (Value)
open Scalar (num)

variable {α σ β γ : Type} {ok : Op α → Prop}

/-- What was added to the log is of a certain kind. -/
def Canvas.Grows (ok : Op α → Prop) (c c' : Canvas α) : Prop :=
  ∃ ops, c'.ops.toList = c.ops.toList ++ ops ∧ ∀ op ∈ ops, ok op

namespace Canvas.Grows

variable {c c' c'' : Canvas α}

theorem refl (c : Canvas α) : c.Grows ok c := ⟨[], (List.append_nil _).symm, nofun⟩

theorem trans (h : c.Grows ok c') (h' : c'.Grows ok c'') : c.Grows ok c'' := by
  obtain ⟨ops, hops, hok⟩ := h
  obtain ⟨ops', hops', hok'⟩ := h'
  refine ⟨ops ++ ops', by rw [hops', hops, List.append_assoc], fun op hop => ?_⟩
  rcases List.mem_append.1 hop with hop | hop
  · exact hok op hop
  · exact hok' op hop

theorem record (c : Canvas α) {op : Op α} (h : ok op) : c.Grows ok (c.record op) :=
  ⟨[op], Array.toList_push, fun _ hop => List.mem_singleton.1 hop ▸ h⟩

theorem restore (c : Canvas α) (h : ok .restore) : c.Grows ok c.restore := by
  rcases c with ⟨_, _, _ | _, _, _⟩ <;> exact record _ h

theorem forall_of_empty (h : c.Grows ok c') (hc : c.ops = #[]) : ∀ op ∈ c'.ops.toList, ok op := by
  obtain ⟨ops, hops, hok⟩ := h
  rw [hops, hc]
  exact hok

end Canvas.Grows

namespace Draw

/-- From a frame of the first kind, the step adds entries of a certain kind, whether it fails or not.
If it does not, it leaves a frame of the second kind. -/
def Adds (ok : Op α → Prop) (m : Draw α σ β) (before after : Frame α → Prop) : Prop :=
  ∀ (c : Canvas α) (s : σ), before c.frame →
    c.Grows ok (m.exec c s).2.1 ∧ ∀ b, (m.exec c s).1 = .ok b → after (m.exec c s).2.1.frame

namespace Adds

variable {P Q R : Frame α → Prop}

theorem anywhere {m : Draw α σ β} (hm : m.Adds ok P Q) : m.Adds ok P fun _ => True :=
  fun c s hc => ⟨(hm c s hc).1, fun _ _ => trivial⟩

theorem bind {m : Draw α σ β} {f : β → Draw α σ γ} (hm : m.Adds ok P Q)
    (hf : ∀ b, (f b).Adds ok Q R) : (m >>= f).Adds ok P R := by
  intro c s hc
  obtain ⟨hgrows, hframe⟩ := hm c s hc
  rcases hr : m.exec c s with ⟨e | b, c', s'⟩ <;> rw [hr] at hgrows hframe
  · rw [exec_bind_error hr]
    exact ⟨hgrows, nofun⟩
  · rw [exec_bind_ok hr]
    obtain ⟨hgrows', hframe'⟩ := hf b c' s' (hframe b rfl)
    exact ⟨hgrows.trans hgrows', hframe'⟩

theorem onCanvas {f : Canvas α → Canvas α}
    (h : ∀ c : Canvas α, P c.frame → c.Grows ok (f c) ∧ Q (f c).frame) :
    (Draw.onCanvas f : Draw α σ Unit).Adds ok P Q :=
  fun c _ hc => ⟨(h c hc).1, fun _ _ => (h c hc).2⟩

theorem stroke {fail : Rejection → DrawError α} {k : Canvas α → Mark α}
    (h : ∀ c : Canvas α, P c.frame → ok (.mark (k c))) :
    (Draw.stroke fail k : Draw α σ Unit).Adds ok P P := by
  intro c s hc
  rw [exec_stroke]
  unfold Canvas.stroke
  split_ifs
  · exact ⟨.record c (h c hc), fun _ _ => hc⟩
  · exact ⟨.refl c, nofun⟩

theorem lookup (source : Source σ) (name : String) :
    (Draw.lookup source name : Draw α σ Glyph).Adds ok P P := by
  intro c s hc
  rw [exec_lookup]
  rcases source name s with ⟨_ | _, t⟩ <;> exact ⟨.refl c, fun _ _ => hc⟩

/-- The step's own frame is left, whatever became of it. -/
theorem inOwnFrame {m : Draw α σ Unit} (hkeeps : m.Keeps) (hsave : ok .save)
    (hrestore : ok .restore) (h : m.Adds ok P Q) : (Draw.inOwnFrame m).Adds ok P P := by
  intro c s hc
  refine ⟨?_, fun _ _ => ?_⟩
  · rw [exec_inOwnFrame]
    exact ((Canvas.Grows.record c hsave).trans (h c.save s hc).1).trans (.restore _ hrestore)
  · rwa [(hkeeps.exec_inOwnFrame c s).2]

end Adds

end Draw

/-! ## Sides in range -/

theorem Op.mem_numbers_of_mem_lengths (op : Op α) {x : α} (h : x ∈ op.lengths) :
    x ∈ op.numbers := by
  rcases op with _ | _ | _ | _ | ⟨_ | _ | _ | _ | _⟩ <;>
    simp_all [Op.lengths, Mark.lengths, Op.numbers, Mark.numbers]

/-- Only a number that is not finite would be written as `null`. -/
theorem Op.hasNull_toJson {op : Op Float} (h : ∀ x ∈ op.numbers, x.isFinite = true) :
    op.toJson.hasNull = false := by
  have htext (s : String) : (Value.ofText s).hasNull = false := rfl
  have hnat (n : Nat) : (Value.ofNat n).hasNull = false := rfl
  rcases op with _ | _ | _ | _ | ⟨_ | _ | _ | points | _⟩ <;> refine Value.hasNull_ofMembers ?_
  case polygon =>
    have hpoints : (Value.array (points.map Point.toJson)).hasNull = false := by
      refine Value.hasNull_array fun v hv => ?_
      obtain ⟨p, hp, rfl⟩ := List.mem_map.1 hv
      have hnumbers (x : Float) (hx : x ∈ p.numbers) : x.isFinite = true :=
        h x (List.mem_flatMap.2 ⟨p, hp, hx⟩)
      exact Value.hasNull_point (hnumbers _ (.head _)) (hnumbers _ (.tail _ (.head _)))
    simp [htext, hpoints]
  all_goals
    simp_all [numbers, Mark.numbers, Point.numbers, Value.hasNull_ofFloat, Value.hasNull_point]

namespace Op.Measured

variable {side root : Float}

theorem mono {op : Op Float} (h : op.Measured side) (hroot : value side ≤ value root) :
    op.Measured root :=
  ⟨h.finite, h.pos, fun x hx => (h.le x hx).trans hroot⟩

theorem usable {op : Op Float} (h : op.Measured side) (hside : side.isFinite = true) :
    op.Usable side := by
  refine ⟨h.finite, fun x hx => ?_⟩
  have hfinite := h.finite x (op.mem_numbers_of_mem_lengths hx)
  exact ⟨(zero_lt_iff hfinite).2 (h.pos x hx), le_of_value_le hfinite hside (h.pos x hx) (h.le x hx)⟩

/-- A move has no lengths. -/
theorem of_finite {op : Op Float} (hlengths : op.lengths = [])
    (h : ∀ x ∈ op.numbers, x.isFinite = true) : op.Measured side := by
  refine ⟨h, ?_, ?_⟩ <;> rw [hlengths] <;> exact nofun

end Op.Measured

namespace Diagram.InRange

variable {d e : Diagram} {side : Float}

theorem moderate (h : d.InRange side) : Moderate side := by
  refine ⟨h.finite, le_trans ?_ h.least, h.most⟩
  exact le_mul_of_one_le_left (zpow_two_pos _).le (one_le_pow₀ (by norm_num))

/-- A region is no smaller than a quarter of the shape around it, which has that much more room. -/
theorem region (h : d.InRange side) (hheight : e.height + 1 ≤ d.height) {r : Region Float}
    (hr : r.Bounded (value side)) : e.InRange r.size := by
  have hpos := h.moderate.pos
  have hlow := hr.size.low
  have hhigh := hr.size.high
  refine ⟨hr.size.finite, ?_, ?_⟩
  · have hpow : (4 : ℚ) ^ (e.height + 1) ≤ 4 ^ d.height := pow_le_pow_right₀ (by norm_num) hheight
    have hleast := mul_le_mul_of_nonneg_right hpow (zpow_two_pos (-500)).le
    rw [pow_succ] at hleast
    linarith [h.least]
  · linarith [h.most]

theorem height_le (h : d.InRange side) : d.height ≤ 500 := by
  have hpow : (2 : ℚ) ^ ((2 * d.height : Nat) + (-500) : Int) ≤ 2 ^ (500 : Int) := by
    rw [zpow_add₀ two_ne_zero, zpow_natCast, pow_mul, show (2 : ℚ) ^ 2 = 4 by norm_num]
    exact h.least.trans h.most
  have hexp := (zpow_le_zpow_iff_right₀ (one_lt_two : (1 : ℚ) < 2)).1 hpow
  omega

end Diagram.InRange

/-! ## Frames of a diagram -/

section Frames

variable {t : Trigonometry} {root side : Float} {n : Nat} {c : Canvas Float}

theorem Triangle.angle_finite (shape : Triangle) :
    ∀ x ∈ [shape.angle, -shape.angle], (x : Float).isFinite = true := by
  rcases shape <;> simp only [List.mem_cons, List.not_mem_nil, or_false, forall_eq_or_imp,
    forall_eq] <;> decide

theorem translate_settles (hroot : Moderate root) (hn : n ≤ 4096) {x y : Float}
    (hx : Band (value root) (-2) 2 x) (hy : Band (value root) (-2) 2 y)
    (hc : c.frame.Settled (value root) n) :
    c.Grows (Op.Measured root) (c.translate x y) ∧
      (c.translate x y).frame.Settled (value root) (n + 1) := by
  have hop : Op.Measured root (.translate x y) :=
    .of_finite rfl (by simpa [Op.numbers] using ⟨hx.finite, hy.finite⟩)
  exact ⟨.record c hop, hc.translate hroot.scale hn hx hy⟩

theorem rotate_settles (ht : t.Sound) (hroot : Moderate root) (hn : n ≤ 4096) (shape : Triangle)
    {angle : Float} (hangle : angle ∈ [shape.angle, -shape.angle])
    (hc : c.frame.Settled (value root) n) :
    letI := t.scalar
    c.Grows (Op.Measured root) (c.rotate angle) ∧
      (c.rotate angle).frame.Settled (value root) (n + 1) := by
  have hop : Op.Measured root (.rotate angle) :=
    .of_finite rfl (by simpa [Op.numbers] using shape.angle_finite angle hangle)
  exact ⟨.record c hop, hc.rotate ht hroot.scale hn shape hangle⟩

theorem rotateAboutCentre_settles (ht : t.Sound) (hroot : Moderate root) (hside : Moderate side)
    (hle : value side ≤ value root) (hn : n + 3 ≤ 4096) (shape : Triangle) {angle : Float}
    (hangle : angle ∈ [shape.angle, -shape.angle]) (hc : c.frame.Settled (value root) n) :
    letI := t.scalar
    c.Grows (Op.Measured root) (c.rotateAboutCentre side angle) ∧
      (c.rotateAboutCentre side angle).frame.Settled (value root) (n + 3) := by
  have hhalf : Band (value side) (-2) 2 (side / num 2) :=
    (band_half hside).mono hside.scale (by norm_num) (by norm_num)
  have hneg : Band (value side) (-2) 2 (-(side / num 2)) := by simpa using hhalf.neg
  have hcentre := hhalf.widen two_pos.le hle
  have hback := hneg.widen two_pos.le hle
  obtain ⟨hgrows, hframe⟩ := translate_settles hroot (by omega) hcentre hcentre hc
  obtain ⟨hgrows', hframe'⟩ := rotate_settles ht hroot (by omega) shape hangle hframe
  obtain ⟨hgrows'', hframe''⟩ := translate_settles hroot (by omega) hback hback hframe'
  exact ⟨(hgrows.trans hgrows').trans hgrows'', hframe''⟩

theorem enter_settles (ht : t.Sound) (hroot : Moderate root) (hside : Moderate side)
    (hle : value side ≤ value root) (hn : n + 3 ≤ 4096) (shape : Shape)
    (hc : c.frame.Settled (value root) n) :
    letI := t.scalar
    c.Grows (Op.Measured root) (shape.enter side c) ∧
      (shape.enter side c).frame.Settled (value root) (n + 3) := by
  rcases shape with _ | _ | shape
  · have hhalf : Band (value side) (-2) 2 (side / num 2) :=
      (band_half hside).mono hside.scale (by norm_num) (by norm_num)
    have hcentre := hhalf.widen two_pos.le hle
    obtain ⟨hgrows, hframe⟩ := translate_settles hroot (by omega) hcentre hcentre hc
    exact ⟨hgrows, hframe.mono hroot.scale (by omega)⟩
  · exact ⟨.refl c, hc.mono hroot.scale (by omega)⟩
  · exact rotateAboutCentre_settles ht hroot hside hle hn shape (.head _) hc

theorem enterRegion_settles (ht : t.Sound) (hroot : Moderate root) {region : Region Float}
    (hregion : region.Bounded (value side)) (hsize : Moderate region.size)
    (hle : value side ≤ value root) (hn : n + 4 ≤ 4096) (shape : Shape)
    (hc : c.frame.Settled (value root) n) :
    letI := t.scalar
    c.Grows (Op.Measured root) (shape.enterRegion region c) ∧
      (shape.enterRegion region c).frame.Settled (value root) (n + 4) := by
  obtain ⟨hgrows, hframe⟩ := translate_settles hroot (by omega)
    (hregion.corner.x.widen two_pos.le hle) (hregion.corner.y.widen two_pos.le hle) hc
  rcases shape with _ | _ | shape
  · exact ⟨hgrows, hframe.mono hroot.scale (by omega)⟩
  · exact ⟨hgrows, hframe.mono hroot.scale (by omega)⟩
  · have hregionle : value region.size ≤ value root := by linarith [hregion.size.high]
    obtain ⟨hgrows', hframe'⟩ := rotateAboutCentre_settles ht hroot hsize hregionle (by omega) shape
      (.tail _ (.head _)) hframe
    exact ⟨hgrows.trans hgrows', hframe'⟩

end Frames

namespace Diagram

open Draw (Adds)

section Components

variable {t : Trigonometry} {root side : Float} {n : Nat}

theorem drawRune_adds (ht : t.Sound) (hroot : Moderate root) (hside : Moderate side)
    (hle : value side ≤ value root) (hn : n ≤ 4096) (source : Source σ) (name : String) :
    letI := t.scalar
    (drawRune source name side).Adds (Op.Measured root) (Frame.Settled (value root) n)
      (Frame.Settled (value root) n) := by
  refine (Adds.lookup source name).bind fun g => Adds.stroke fun c hc => ?_
  have hplace := hc.place_finite hroot.scale hn
  have hangle := ht.atan2_finite hc.y.finite hc.x.finite
  refine ⟨fun x hx => ?_, fun x hx => ?_, fun x hx => ?_⟩
  · obtain rfl | hx := List.mem_cons.1 hx
    · exact hside.finite
    obtain hx | hx := List.mem_append.1 hx
    · exact hplace x hx
    · rwa [List.mem_singleton.1 hx]
  · rw [List.mem_singleton.1 hx]
    exact hside.pos
  · rwa [List.mem_singleton.1 hx]

theorem region_adds (ht : t.Sound) (hroot : Moderate root) {region : Region Float}
    (hregion : region.Bounded (value side)) (hsize : Moderate region.size)
    (hle : value side ≤ value root) (hn : n + 4 ≤ 4096) (shape : Shape) {m : Draw Float σ Unit}
    (hkeeps : m.Keeps) {P : Frame Float → Prop}
    (h : m.Adds (Op.Measured root) (Frame.Settled (value root) (n + 4)) P) :
    letI := t.scalar
    (Draw.inOwnFrame do Draw.onCanvas (shape.enterRegion region); m).Adds (Op.Measured root)
      (Frame.Settled (value root) n) (Frame.Settled (value root) n) := by
  have hmove : Op.Measured root .save ∧ Op.Measured root .restore :=
    ⟨.of_finite rfl nofun, .of_finite rfl nofun⟩
  have henter : (Draw.onCanvas (@Shape.enterRegion Float t.scalar shape region) :
      Draw Float σ Unit).Keeps := .onCanvas (@Canvas.Extends.enterRegion _ t.scalar shape region)
  refine Adds.inOwnFrame (Q := P) (henter.bind fun _ => hkeeps) hmove.1 hmove.2 ?_
  refine (Adds.onCanvas fun c hc => ?_).bind fun _ => h
  exact enterRegion_settles ht hroot hregion hsize hle hn shape hc

end Components

theorem draw_adds {t : Trigonometry} (ht : t.Sound) {root : Float} (hroot : Moderate root)
    (source : Source σ) : ∀ (d : Diagram) {side : Float} {n : Nat}, d.InRange side →
      value side ≤ value root → n + 7 * d.height ≤ 4096 →
        letI := t.scalar
        (d.draw source side).Adds (Op.Measured root) (Frame.Settled (value root) n) fun _ => True
  | rune name, side, n, h, hle, hn =>
    (drawRune_adds ht hroot h.moderate hle (by omega) source name).anywhere
  | solo shape inner, side, n, h, hle, hn => by
    have hside := h.moderate
    have hregion := solo_bounded hside shape
    have hinner : inner.InRange _ := h.region le_rfl hregion
    have hsize : value (shape.solo side).region.size ≤ value root := by
      linarith [hregion.size.high]
    rw [height] at hn
    refine (Adds.onCanvas fun c => enter_settles ht hroot hside hle (by omega) shape).bind fun _ => ?_
    refine (Adds.stroke fun c _ => (border_measured hside shape).mono hle).bind fun _ => ?_
    have hdraw := draw_adds ht hroot source inner (n := n + 7) hinner hsize (by omega)
    exact (region_adds ht hroot hregion hinner.moderate hle (by omega) shape
      (@draw_keeps _ _ t.scalar source inner _) hdraw).anywhere
  | pair shape first second, side, n, h, hle, hn => by
    have hside := h.moderate
    obtain ⟨hregion, hregion'⟩ := pair_bounded hside shape
    have hfirst : first.InRange _ := h.region (Nat.succ_le_succ (Nat.le_max_left ..)) hregion
    have hsecond : second.InRange _ := h.region (Nat.succ_le_succ (Nat.le_max_right ..)) hregion'
    have hsize : value (shape.pair side).first.size ≤ value root := by
      linarith [hregion.size.high]
    have hsize' : value (shape.pair side).second.size ≤ value root := by
      linarith [hregion'.size.high]
    have hborder : Op.Measured side (.mark (shape.pair side).border.mark) := by
      rw [Shape.border_pair]
      exact border_measured hside shape
    rw [height] at hn
    refine (Adds.onCanvas fun c => enter_settles ht hroot hside hle (by omega) shape).bind fun _ => ?_
    refine (Adds.stroke fun c _ => hborder.mono hle).bind fun _ => ?_
    refine (Adds.stroke fun c _ => (divider_measured hside shape).mono hle).bind fun _ => ?_
    have hdraw := draw_adds ht hroot source first (n := n + 7) hfirst hsize (by omega)
    have hdraw' := draw_adds ht hroot source second (n := n + 7) hsecond hsize' (by omega)
    refine (region_adds ht hroot hregion hfirst.moderate hle (by omega) shape
      (@draw_keeps _ _ t.scalar source first _) hdraw).bind fun _ => ?_
    exact (region_adds ht hroot hregion' hsecond.moderate hle (by omega) shape
      (@draw_keeps _ _ t.scalar source second _) hdraw').anywhere

theorem render_adds {t : Trigonometry} (ht : t.Sound) (source : Source σ) {d : Diagram}
    {side : Float} (h : d.InRange side) :
    letI := t.scalar
    (d.render source side).Adds (Op.Measured side) (Frame.Settled (value side) 0) fun _ => True := by
  have hmove : Op.Measured side .save ∧ Op.Measured side .restore :=
    ⟨.of_finite rfl nofun, .of_finite rfl nofun⟩
  have hheight := h.height_le
  have hdraw := draw_adds ht h.moderate source d (n := 0) h le_rfl (by omega)
  unfold render
  split_ifs
  · exact (Adds.inOwnFrame (@draw_keeps _ _ t.scalar source d side) hmove.1 hmove.2 hdraw).anywhere
  · exact fun c _ _ => ⟨.refl c, nofun⟩

/-- Whatever the functions for angles, as long as they are sound, and whether the drawing is complete
or not: a side in the range of the diagram can be drawn, and so can all that is logged for it. No entry
has a `null` where it is written. -/
theorem renderWith_usable {t : Trigonometry} (ht : t.Sound) (source : Source σ) {d : Diagram}
    {side : Float} (h : d.InRange side) (limit : Option Nat) (s : σ) :
    Scalar.usable side = true ∧ ∀ op ∈ (d.renderWith t source side limit s).2.1.ops.toList,
      op.Usable side ∧ op.toJson.hasNull = false := by
  have hpos := (zero_lt_iff h.finite).2 h.moderate.pos
  refine ⟨Bool.and_eq_true_iff.2 ⟨h.finite, decide_eq_true hpos⟩, fun op hop => ?_⟩
  have hgrows := render_adds ht source h (@Canvas.blank Float t.scalar limit) s (.identity _)
  have hop := hgrows.1.forall_of_empty rfl op hop
  exact ⟨hop.usable h.finite, op.hasNull_toJson hop.finite⟩

/-- A target around two runes, with a side of 100. -/
theorem renderWith_usable_pair :
    let d : Diagram := .pair (.triangle .target) (.rune "sun") (.rune "moon")
    let source : Source Unit := .ofGlyphs fun _ => ⟨[]⟩
    Trigonometry.quarterTurns.Sound ∧ d.InRange 100 ∧
      ∀ op ∈ (d.renderWith .quarterTurns source 100 none ()).2.1.ops.toList, op.Usable 100 := by
  intro d source
  have ht : Trigonometry.quarterTurns.Sound := by
    refine ⟨fun shape => ?_, fun shape => ?_, fun shape => ?_, fun _ _ => ?_⟩
    case refine_4 => exact (by decide : (0 : Float).isFinite = true)
    all_goals
      rcases shape <;> simp only [List.mem_cons, List.not_mem_nil, or_false, forall_eq_or_imp,
        forall_eq] <;> decide +kernel
  have hd : d.InRange 100 := ⟨by decide, by decide +kernel, by decide +kernel⟩
  exact ⟨ht, hd, fun op hop => ((renderWith_usable ht source hd none ()).2 op hop).1⟩

/-- Out of range, a side may be accepted and yet its square be infinite, and so is then the corner of
a region. -/
theorem renderOn_overflows :
    let d : Diagram := .pair (.triangle .target) (.rune "sun") (.rune "moon")
    let side : Float := .ofBits 0x6570000000000000
    let drawn := d.renderOn (Source.ofGlyphs fun _ => ⟨[]⟩) side (.blank none) ()
    Scalar.usable side = true ∧ drawn.1 = .ok () ∧
      ∃ op ∈ drawn.2.1.ops.toList, ∃ x ∈ op.numbers, x.isFinite = false := by
  intro d side drawn
  let plan := (Shape.triangle .target).pair side
  have hu : Scalar.usable side = true := by decide
  have hdrawn : drawn = _ := (renderOn_eq_perform hu).trans (perform_script d side _ (.blank none))
  rw [hdrawn, Action.foldl_apply_ops]
  refine ⟨hu, rfl, .translate plan.first.corner.x plan.first.corner.y, ?_, _, .head _, ?_⟩
  · exact List.mem_of_getElem? (i := 7) rfl
  · decide +kernel

end Diagram

end MagicCircle
