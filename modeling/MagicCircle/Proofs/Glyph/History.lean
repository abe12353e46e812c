import MagicCircle.Glyph.History
import MagicCircle.Proofs.Glyph.Slots
import Mathlib.Data.Finset.Card

/-!
# What a cache remembers

`Source.slotted_keeps_first_found`: whatever happens to the source meanwhile, a look-up asks it
unless an earlier look-up of the same name has found a glyph, and then the glyph found first is the
answer. The names with a slot are those for which a glyph has been found.

`Table.Remembers` is the invariant: the table has, for each name, the glyph found first. It is shown
of the table, where failures leave no trace, and holds of the slots by `Source.slotted_eq`.
-/

namespace MagicCircle

variable {σ κ : Type} {past : List Response} {name : String} {g : Glyph}

/-! ## The past -/

theorem Response.found?_eq_some_iff {r : Response} :
    r.found? name = some g ↔ r.name = name ∧ r.answer = .ok g := by
  unfold found?
  rcases r with ⟨n, e | g', asked⟩ <;> split <;> simp_all [Except.toOption]

theorem Response.found?_eq_none_iff {r : Response} :
    r.found? name = none ↔ (r.name = name → ∃ e, r.answer = .error e) := by
  unfold found?
  rcases r with ⟨n, e | g', asked⟩ <;> split <;> simp_all [Except.toOption]

theorem firstFound?_append (past more : List Response) (name : String) :
    firstFound? (past ++ more) name = (firstFound? past name).or (firstFound? more name) :=
  List.findSome?_append

theorem firstFound?_eq_none_iff : firstFound? past name = none ↔
    ∀ p ∈ past, p.name = name → ∃ e, p.answer = .error e := by
  unfold firstFound?
  simp only [List.findSome?_eq_none_iff, Response.found?_eq_none_iff]

theorem firstFound?_eq_some_iff : firstFound? past name = some g ↔
    ∃ earlier first later, past = earlier ++ first :: later ∧
      (first.name = name ∧ first.answer = .ok g) ∧
        ∀ p ∈ earlier, p.name = name → ∃ e, p.answer = .error e := by
  unfold firstFound?
  simp only [List.findSome?_eq_some_iff, Response.found?_eq_some_iff, Response.found?_eq_none_iff]

theorem mem_foundNames : name ∈ foundNames past ↔
    ∃ p ∈ past, p.name = name ∧ ∃ g, p.answer = .ok g := by
  unfold foundNames
  rw [List.mem_filterMap]
  refine exists_congr fun p => and_congr_right fun _ => ?_
  rcases p with ⟨n, e | g', asked⟩ <;> simp [Except.toOption]

theorem mem_foundNames_iff_firstFound? :
    name ∈ foundNames past ↔ firstFound? past name ≠ none := by
  rw [mem_foundNames, ne_eq, firstFound?_eq_none_iff]
  push Not
  refine exists_congr fun p => and_congr_right fun _ => and_congr_right fun _ => ?_
  rcases p.answer with e | g <;> simp

/-! ## The table -/

namespace Source

/-- A look-up in a table in front of a source asks the source if the table has no glyph. -/
theorem respond_cached (source : Source σ) (t : Table) (c : Call σ) :
    source.counted.cached.respond t c =
      match t.get? c.name, (source c.name c.state).1 with
      | some g, _ => (⟨c.name, .ok g, 0⟩, t)
      | none, .ok g => (⟨c.name, .ok g, 1⟩, t.insert c.name g)
      | none, .error e => (⟨c.name, .error e, 1⟩, t) := by
  unfold respond
  rw [cached_eq]
  unfold counted
  rcases t.get? c.name with _ | g
  · rcases source c.name c.state with ⟨e | g, s⟩ <;> rfl
  · rfl

theorem responses_append (store : Source (κ × Nat × σ)) (calls' : List (Call σ)) :
    ∀ (calls : List (Call σ)) (cache : κ), store.responses cache (calls ++ calls') =
      ((store.responses cache calls).1 ++ (store.responses (store.responses cache calls).2 calls').1,
        (store.responses (store.responses cache calls).2 calls').2)
  | [], _ => rfl
  | c :: calls, cache => by
    simp only [List.cons_append, responses, responses_append store calls' calls]

end Source

/-- The table has, for each name, the glyph that was found first. -/
structure Table.Remembers (t : Table) (past : List Response) : Prop where
  names : (t.entries.map Prod.fst).Nodup
  get?_eq : ∀ name, t.get? name = firstFound? past name

namespace Table

variable {t : Table}

theorem get?_insert (h : t.get? name = none) (g : Glyph) (asked : Nat) (n : String) :
    (t.insert name g).get? n = (t.get? n).or (Response.found? n ⟨name, .ok g, asked⟩) := by
  rw [get?_insert_of_none h]
  unfold Response.found?
  by_cases hn : n = name
  · subst hn
    simp [h, Except.toOption]
  · rw [if_neg hn, if_neg (Ne.symm hn), Option.or_none]

namespace Remembers

theorem nil : ({} : Table).Remembers [] := ⟨.nil, fun _ => rfl⟩

theorem concat {t' : Table} {r : Response} (h : t.Remembers past)
    (names : (t'.entries.map Prod.fst).Nodup)
    (get?_eq : ∀ n, t'.get? n = (t.get? n).or (r.found? n)) : t'.Remembers (past ++ [r]) := by
  refine ⟨names, fun n => ?_⟩
  rw [get?_eq, h.get?_eq, firstFound?_append]
  simp [firstFound?]

theorem respond (h : t.Remembers past) (source : Source σ) (c : Call σ) :
    (source.counted.cached.respond t c).2.Remembers
      (past ++ [(source.counted.cached.respond t c).1]) := by
  rw [Source.respond_cached]
  rcases hc : t.get? c.name with _ | g
  · rcases (source c.name c.state).1 with e | g
    · refine h.concat h.names fun n => ?_
      have hnone : Response.found? n ⟨c.name, .error e, 1⟩ = none :=
        Response.found?_eq_none_iff.2 fun _ => ⟨e, rfl⟩
      rw [hnone, Option.or_none]
    · refine h.concat ?_ (get?_insert hc g 1)
      dsimp only
      rw [entries_insert hc]
      exact List.nodup_cons.2 ⟨get?_eq_none_iff.1 hc, h.names⟩
  · refine h.concat h.names fun n => ?_
    rcases hn : t.get? n with _ | g'
    · have hne : c.name ≠ n := by
        rintro rfl
        rw [hc] at hn
        cases hn
      have hnone : Response.found? n ⟨c.name, .ok g, 0⟩ = none :=
        Response.found?_eq_none_iff.2 fun hname => absurd hname hne
      rw [hnone]
      rfl
    · rfl

/-- The answer is the glyph found first, or else the one that the source gives now. -/
theorem respond_eq (h : t.Remembers past) (source : Source σ) (c : Call σ) :
    (source.counted.cached.respond t c).1 =
      match firstFound? past c.name with
      | some g => ⟨c.name, .ok g, 0⟩
      | none => ⟨c.name, (source c.name c.state).1, 1⟩ := by
  rw [Source.respond_cached, h.get?_eq]
  rcases firstFound? past c.name with _ | g
  · rcases (source c.name c.state).1 with e | g <;> rfl
  · rfl

theorem responses (source : Source σ) : ∀ (calls : List (Call σ)) {past : List Response}
    {t : Table}, t.Remembers past → (source.counted.cached.responses t calls).2.Remembers
      (past ++ (source.counted.cached.responses t calls).1)
  | [], past, _, h => by
    rw [Source.responses, List.append_nil]
    exact h
  | c :: calls, past, t, h => by
    have hrest := responses source calls (h.respond source c)
    rw [List.append_assoc] at hrest
    exact hrest

end Remembers

end Table

/-! ## The slots -/

namespace Source

open Slots

variable {k : Slots}

theorem respond_slotted (source : Source (Nat × σ)) (h : k.Sound) (c : Call σ) :
    (source.slotted.respond k c).2.Sound ∧ source.cached.respond k.table c =
      ((source.slotted.respond k c).1, (source.slotted.respond k c).2.table) := by
  obtain ⟨hsound, hcached⟩ := source.slotted_eq h c.name (0, c.state)
  refine ⟨hsound, ?_⟩
  unfold respond
  rw [hcached]

theorem responses_slotted (source : Source (Nat × σ)) : ∀ (calls : List (Call σ)) {k : Slots},
    k.Sound → (source.slotted.responses k calls).2.Sound ∧
      source.cached.responses k.table calls =
        ((source.slotted.responses k calls).1, (source.slotted.responses k calls).2.table)
  | [], _, h => ⟨h, rfl⟩
  | c :: calls, k, h => by
    obtain ⟨hsound, hcached⟩ := respond_slotted source h c
    obtain ⟨hlast, hrest⟩ := responses_slotted source calls hsound
    refine ⟨hlast, ?_⟩
    simp only [responses, hcached, hrest]

/-- A look-up asks the source exactly if all look-ups of its name have failed so far, and then has
the answer that the source gives at that moment; else its answer is the glyph found first, whatever
the source would answer. The names with a slot are those found so far, and no slot is empty. The
table in front of the source, without slots, makes no difference to any of this. -/
theorem slotted_keeps_first_found (source : Source σ) (before : List (Call σ)) (c : Call σ) :
    let store := source.counted.slotted
    let past := (store.responses {} before).1
    let k := (store.responses {} before).2
    let r := (store.respond k c).1
    let k' := (store.respond k c).2
    (r.asked = 1 ↔ ∀ p ∈ past, p.name = c.name → ∃ e, p.answer = .error e) ∧
      (r.asked = 1 → r.answer = (source c.name c.state).1) ∧
      (r.asked ≠ 1 → r.asked = 0 ∧ ∃ g, r.answer = .ok g ∧ ∃ earlier first later,
        past = earlier ++ first :: later ∧ (first.name = c.name ∧ first.answer = .ok g) ∧
          ∀ p ∈ earlier, p.name = c.name → ∃ e, p.answer = .error e) ∧
      (∀ e, r.answer = .error e → k'.slotOf = k.slotOf) ∧
      (k'.slotOf.map Prod.fst).Nodup ∧
      (∀ name, name ∈ k'.slotOf.map Prod.fst ↔
        ∃ p ∈ past ++ [r], p.name = name ∧ ∃ g, p.answer = .ok g) ∧
      (∀ p ∈ k'.slotOf, ∃ g, k'.glyph? p.2 = some g) ∧
      k'.count = (foundNames (past ++ [r])).toFinset.card ∧
      source.counted.cached.responses {} (before ++ [c]) = (past ++ [r], k'.table) ∧
      k'.table.size = k'.count := by
  intro store past k r k'
  obtain ⟨hk, hbefore⟩ := responses_slotted source.counted before Slots.sound_empty
  obtain ⟨hk', hnow⟩ := respond_slotted source.counted hk c
  change k.Sound at hk
  change k'.Sound at hk'
  change source.counted.cached.responses {} before = (past, k.table) at hbefore
  change source.counted.cached.respond k.table c = (r, k'.table) at hnow
  have hpast : k.table.Remembers past := by
    have h := Table.Remembers.nil.responses source before
    rwa [hbefore] at h
  have hafter : k'.table.Remembers (past ++ [r]) := by
    have h := hpast.respond source c
    rwa [hnow] at h
  have hanswer := hpast.respond_eq source c
  rw [hnow] at hanswer
  change r = _ at hanswer
  have hnames : ∀ name, name ∈ k'.slotOf.map Prod.fst ↔ name ∈ foundNames (past ++ [r]) := by
    intro name
    rw [mem_foundNames_iff_firstFound?, ← hafter.get?_eq, ne_eq, Table.get?_eq_none_iff, not_not,
      hk'.names_table]
  have hcount : k'.count = (foundNames (past ++ [r])).toFinset.card := by
    have hset : (k'.slotOf.map Prod.fst).toFinset = (foundNames (past ++ [r])).toFinset := by
      ext name
      rw [List.mem_toFinset, List.mem_toFinset, hnames]
    rw [← hset, List.toFinset_card_of_nodup hk'.names, List.length_map, hk'.count_eq]
  have hsize : k'.table.size = k'.count := by
    rw [hk'.count_eq, Table.size, ← List.length_map, hk'.names_table, List.length_map]
  refine ⟨?_, ?_, ?_, fun e he => slotOf_slotted_of_error hk he, hk'.names,
    fun name => (hnames name).trans mem_foundNames, hk'.filled, hcount, ?_, hsize⟩
  · rw [← firstFound?_eq_none_iff, hanswer]
    rcases firstFound? past c.name with _ | g <;> simp
  · intro hr
    rw [hanswer] at hr ⊢
    rcases hf : firstFound? past c.name with _ | g
    · rfl
    · rw [hf] at hr
      cases hr
  · intro hr
    rw [hanswer] at hr ⊢
    rcases hf : firstFound? past c.name with _ | g
    · rw [hf] at hr
      exact absurd rfl hr
    · exact ⟨rfl, g, rfl, firstFound?_eq_some_iff.1 hf⟩
  · rw [responses_append, hbefore]
    simp only [responses, hnow]

end Source

end MagicCircle
