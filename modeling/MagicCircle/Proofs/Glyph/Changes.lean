import MagicCircle.Glyph.Changes
import MagicCircle.Proofs.Glyph.Drawable
import MagicCircle.Proofs.Glyph.History

/-!
# Only drawable glyphs come out of a folder

`Folder.found_are_drawable`: whatever is written to the files meanwhile, a glyph that a store over a
folder gives for a name can be drawn, and some look-up of that name has read it from the name's file.

That every glyph found was read at some look-up (`Source.Read`) is kept by each look-up, with a cache
and without.
-/

namespace MagicCircle

open Files (Entry)

variable {σ : Type} {source : Source σ} {calls : List (Call σ)} {past : List Response}

namespace Source

namespace Read

theorem nil (source : Source σ) : source.Read [] [] := ⟨rfl, nofun⟩

theorem length_eq (h : source.Read calls past) : past.length = calls.length := by
  have hlen := congrArg List.length h.names
  rwa [List.length_map, List.length_map] at hlen

/-- A response keeps the property if its glyph comes from the source now or from an earlier
response. -/
theorem concat (h : source.Read calls past) {c : Call σ} {r : Response} (hname : r.name = c.name)
    (hnew : ∀ g, r.answer = .ok g → (r.asked = 1 ∧ (source c.name c.state).1 = .ok g) ∨
      ∃ p ∈ past, p.name = r.name ∧ p.answer = .ok g) : source.Read (calls ++ [c]) (past ++ [r]) := by
  have hlen := h.length_eq
  have hearlier {i : Nat} {q : Response} {g : Glyph} (hq : past[i]? = some q) (hg : q.answer = .ok g) :
      ∃ j ≤ i, ∃ c' p, (calls ++ [c])[j]? = some c' ∧ (past ++ [r])[j]? = some p ∧
        c'.name = q.name ∧ p.asked = 1 ∧ (source c'.name c'.state).1 = .ok g := by
    obtain ⟨j, hj, c', p, hc', hp, hrest⟩ := h.found i q g hq hg
    obtain ⟨hlt, -⟩ := List.getElem?_eq_some_iff.1 hc'
    obtain ⟨hlt', -⟩ := List.getElem?_eq_some_iff.1 hp
    exact ⟨j, hj, c', p, (List.getElem?_append_left hlt).trans hc',
      (List.getElem?_append_left hlt').trans hp, hrest⟩
  refine ⟨by rw [List.map_append, List.map_append, h.names, List.map_singleton, hname]; rfl, ?_⟩
  intro i q g hq hg
  rcases Nat.lt_trichotomy i past.length with hlt | rfl | hlt
  · rw [List.getElem?_append_left hlt] at hq
    exact hearlier hq hg
  · rw [List.getElem?_concat_length] at hq
    cases hq
    obtain ⟨hasked, hsource⟩ | ⟨p, hp, hpname, hpg⟩ := hnew g hg
    · refine ⟨_, le_rfl, c, r, ?_, List.getElem?_concat_length, hname.symm, hasked, hsource⟩
      rw [hlen, List.getElem?_concat_length]
    · obtain ⟨k, hk⟩ := List.getElem?_of_mem hp
      obtain ⟨j, hj, hrest⟩ := hearlier hk hpg
      rw [hpname] at hrest
      exact ⟨j, hj.trans (List.getElem?_eq_some_iff.1 hk).1.le, hrest⟩
  · rw [List.getElem?_eq_none (by rw [List.length_append]; exact hlt)] at hq
    cases hq

end Read

/-- Without a cache, every look-up asks the source. -/
theorem read_uncached (source : Source σ) (calls : List (Call σ)) :
    source.Read calls (source.counted.uncached.responses () calls).1 := by
  induction calls using List.reverseRecOn with
  | nil => exact .nil source
  | append_singleton calls c ih =>
    rw [responses_append]
    exact ih.concat rfl fun g hg => .inl ⟨rfl, hg⟩

theorem read_cached (source : Source σ) (calls : List (Call σ)) :
    source.Read calls (source.counted.cached.responses {} calls).1 := by
  induction calls using List.reverseRecOn with
  | nil => exact .nil source
  | append_singleton calls c ih =>
    have hpast := Table.Remembers.nil.responses source calls
    rw [List.nil_append] at hpast
    rw [responses_append]
    change source.Read _ (_ ++ [(source.counted.cached.respond _ c).1])
    rw [hpast.respond_eq source c]
    rcases hfound : firstFound? (source.counted.cached.responses {} calls).1 c.name with _ | g'
    · exact ih.concat rfl fun g hg => .inl ⟨rfl, hg⟩
    · refine ih.concat rfl fun g hg => .inr ?_
      cases hg
      obtain ⟨earlier, first, later, hsplit, hfirst, -⟩ := firstFound?_eq_some_iff.1 hfound
      exact ⟨first, by rw [hsplit]; simp, hfirst⟩

theorem read_slotted (source : Source σ) (calls : List (Call σ)) :
    source.Read calls (source.counted.slotted.responses {} calls).1 := by
  obtain ⟨-, hcached⟩ := responses_slotted source.counted calls Slots.sound_empty
  have h := read_cached source calls
  have hempty : ({} : Slots).table = {} := rfl
  rw [hempty] at hcached
  rwa [hcached] at h

end Source

namespace Folder

variable {decoder : Glyph.Decoder} {here : List String} {folder name : String} {tree : Entry}
  {g : Glyph}

theorem sourceWith_eq_ok_iff : (sourceWith decoder here folder name tree).1 = .ok g ↔
    Spells here decoder folder tree name g ∧ g.Drawable := by
  have hspells : Spells here decoder folder tree name g ↔ ∃ text,
      Files.asText (tree.read here (path folder name)) = .ok text ∧ decoder text = .ok g.strokes := by
    simp only [Files.asText_eq_ok_iff]
    constructor
    · rintro ⟨bytes, text, hread, htext, hg⟩
      exact ⟨text, ⟨bytes, hread, htext⟩, hg⟩
    · rintro ⟨text, ⟨bytes, hread, htext⟩, hg⟩
      exact ⟨bytes, text, hread, htext, hg⟩
  rw [hspells]
  change glyph decoder name (tree.read here (path folder name)) = .ok g ↔ _
  unfold glyph
  rcases Files.asText (tree.read here (path folder name)) with cause | text
  · rcases cause <;> simp
  · dsimp only
    rw [Glyph.decodeWith_eq_ok_iff]
    simp

/-- Whatever is written to the files of a folder and removed, between look-ups in a store over the
folder, with a cache or without, and whatever decoder reads the files: a glyph that is found can be
drawn, and at that look-up or an earlier one of its name, which asked the folder, the file of that name
spelled it. As for texts, one that spells strokes is refused exactly if they cannot be drawn, for what
is wrong with them, and one that does not is refused for the decoder's reason. -/
theorem found_are_drawable (decoder : Glyph.Decoder) (here : List String) (folder : String)
    (tree : Entry) (steps : List Step) :
    let source := sourceWith decoder here folder
    let calls := lookUps here tree steps
    (∀ past ∈ [(source.counted.uncached.responses () calls).1,
        (source.counted.cached.responses {} calls).1, (source.counted.slotted.responses {} calls).1],
      past.map Response.name = calls.map Call.name ∧
        ∀ (i : Nat) (r : Response) (g : Glyph), past[i]? = some r → r.answer = .ok g →
          g.Drawable ∧ ∃ j ≤ i, ∃ c p, calls[j]? = some c ∧ past[j]? = some p ∧
            c.name = r.name ∧ p.asked = 1 ∧ Spells here decoder folder c.state r.name g) ∧
    (∀ name text (g : Glyph), decoder text = .ok g.strokes →
      (∀ g', Glyph.decodeWith decoder name text = .ok g' ↔ g' = g ∧ g.Drawable) ∧
      ((∃ e, Glyph.decodeWith decoder name text = .error e) ↔ ¬ g.Drawable) ∧
      ∀ e, Glyph.decodeWith decoder name text = .error e ↔
        ∃ flaw, Glyph.Flawed g.strokes flaw ∧ e = .malformed name flaw) ∧
    (∀ name text reason, decoder text = .error reason →
      Glyph.decodeWith decoder name text = .error (.malformed name (.undecodable reason))) ∧
    Flaw.noStrokes.text = "no strokes" ∧ Flaw.emptyStroke.text = "empty stroke" ∧
      Flaw.outsideUnitSquare.text = "point outside the unit square" := by
  intro source calls
  refine ⟨fun past hpast => ?_, fun name text g hg => ?_, fun name text reason hreason => ?_,
    rfl, rfl, rfl⟩
  · have hread : source.Read calls past := by
      simp only [List.mem_cons, List.not_mem_nil, or_false] at hpast
      obtain rfl | rfl | rfl := hpast
      · exact source.read_uncached calls
      · exact source.read_cached calls
      · exact source.read_slotted calls
    refine ⟨hread.names, fun i r g hr hg => ?_⟩
    obtain ⟨j, hj, c, p, hc, hp, hname, hasked, hsource⟩ := hread.found i r g hr hg
    obtain ⟨hspells, hdrawable⟩ := sourceWith_eq_ok_iff.1 hsource
    exact ⟨hdrawable, j, hj, c, p, hc, hp, hname, hasked, hname ▸ hspells⟩
  · unfold Glyph.decodeWith
    rw [hg]
    refine ⟨fun g' => Glyph.validate_eq_ok_iff, ?_, fun e => Glyph.validate_eq_error_iff⟩
    dsimp only
    rw [← Glyph.flaw?_eq_none_iff]
    unfold Glyph.validate
    rcases g.flaw? with _ | flaw <;> simp
  · rw [Glyph.decodeWith, hreason]

/-- The file of `a` spells a dot in a corner, and is gone when `a` is looked up once more. With a cache,
the dot is found again all the same. -/
theorem found_are_drawable_kept :
    let text := "[[[[0,1]]]]"
    let dot : Glyph := ⟨[[⟨0, 1⟩]]⟩
    let steps := [Step.write "g/a.json" text.toUTF8, .resolve "a", .remove "g/a.json", .resolve "a"]
    let calls := lookUps [] (.folder []) steps
    let past := ((Folder.source [] "g").counted.slotted.responses {} calls).1
    past[1]? = some ⟨"a", .ok dot, 0⟩ ∧ dot.Drawable ∧ ∃ j ≤ 1, ∃ c p, calls[j]? = some c ∧
      past[j]? = some p ∧ c.name = "a" ∧ p.asked = 1 ∧ Spells [] Glyph.json "g" c.state "a" dot := by
  intro text dot steps calls past
  have hjson : Json.read? text.toList = some (.array [.array [.array [.array
      [.number ⟨false, [0], [], none⟩, .number ⟨false, [1], [], none⟩]]]]) := by cbv
  have hzero : Json.float? ⟨false, [0], [], none⟩ = some 0 := by
    have h : Json.rescale? (Float.ofNat 0) 0 = some 0 := by
      rw [Json.rescale?]
      decide +kernel
    exact congrArg (Option.map _) h
  have hone : Json.float? ⟨false, [1], [], none⟩ = some 1 := by
    have h : Json.rescale? (Float.ofNat 1) 0 = some 1 := by
      rw [Json.rescale?]
      decide +kernel
    exact congrArg (Option.map _) h
  have hdecoder : Glyph.json text = .ok dot.strokes := by
    unfold Glyph.json
    rw [hjson]
    simp [Glyph.strokes?, Glyph.fields?, Glyph.stroke?, Glyph.point?, Glyph.float?, hzero, hone, dot]
  have hutf8 : String.fromUTF8? text.toUTF8 = some text := by
    simp only [String.fromUTF8?, Option.dite_none_right_eq_some]
    exact ⟨text.isValidUTF8, rfl⟩
  let tree : Entry := .folder [("g", .folder [("a.json", .file text.toUTF8)])]
  have hspells : Spells [] Glyph.json "g" tree "a" dot :=
    ⟨text.toUTF8, text, rfl, hutf8, hdecoder⟩
  have hdrawable : dot.Drawable := Glyph.flaw?_eq_none_iff.1 (by decide +kernel)
  have hsource : Folder.source [] "g" "a" tree = (.ok dot, tree) :=
    Prod.ext (sourceWith_eq_ok_iff.2 ⟨hspells, hdrawable⟩) rfl
  have hfirst : (Folder.source [] "g").counted.slotted.respond {} ⟨"a", tree⟩ =
      (⟨"a", .ok dot, 1⟩, ⟨[("a", 0)], [some dot]⟩) := by
    unfold Source.respond Source.slotted Source.counted
    simp only [hsource]
    rfl
  have hpast : past = [⟨"a", .ok dot, 1⟩, ⟨"a", .ok dot, 0⟩] := by
    change ((Folder.source [] "g").counted.slotted.responses {} (⟨"a", tree⟩ :: _)).1 = _
    rw [Source.responses, hfirst]
    rfl
  have hsecond : past[1]? = some ⟨"a", .ok dot, 0⟩ := by rw [hpast]; rfl
  have hfound := (found_are_drawable Glyph.json [] "g" (.folder []) steps).1 past
    (by simp [past, calls, Folder.source])
  exact ⟨hsecond, hfound.2 1 _ dot hsecond rfl⟩

end Folder

end MagicCircle
