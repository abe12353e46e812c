import MagicCircle.Glyph.Slots
import Mathlib.Data.List.Basic

/-!
# Slots and the table of their glyphs

As long as no two callers are at work at once, every slot in the cache has a glyph, and no two names
share one (`Slots.Sound`). Then the cache of slots answers as the table of its glyphs does, and
leaves the slots of that table (`Source.slotted_eq`).
-/

namespace MagicCircle

variable {σ : Type} {source : Source σ} {k : Slots} {name : String} {slot : Nat} {g : Glyph}

namespace Table

variable {t : Table}

theorem get?_eq_none_iff : t.get? name = none ↔ name ∉ t.entries.map Prod.fst := by
  rw [get?, List.lookup_eq_none_iff, List.mem_map]
  constructor
  · rintro h ⟨p, hp, rfl⟩
    simpa using h p hp
  · intro h p hp
    have hne : name ≠ p.1 := fun hn => h ⟨p, hp, hn.symm⟩
    simpa using hne

/-- A name that was not in the table comes first in it. -/
theorem entries_insert (h : t.get? name = none) (g : Glyph) :
    (t.insert name g).entries = (name, g) :: t.entries := by
  rw [insert, List.filter_eq_self.2]
  intro p hp
  have hne : p.1 ≠ name := fun hn => get?_eq_none_iff.1 h (hn ▸ List.mem_map_of_mem hp)
  simpa using hne

theorem get?_insert_of_none (h : t.get? name = none) (g : Glyph) (n : String) :
    (t.insert name g).get? n = if n = name then some g else t.get? n := by
  rw [get?, entries_insert h, List.lookup_cons]
  by_cases hn : n = name
  · simp [hn]
  · rw [if_neg hn, beq_false_of_ne hn, get?]

end Table

theorem Source.cached_eq (source : Source σ) (name : String) (t : Table) (s : σ) :
    source.cached name (t, s) =
      match t.get? name, source name s with
      | some g, _ => (.ok g, t, s)
      | none, (.ok g, s') => (.ok g, t.insert name g, s')
      | none, (.error e, s') => (.error e, t, s') := by
  unfold cached
  rcases t.get? name with _ | g
  · rcases source name s with ⟨e | g, s'⟩ <;> rfl
  · rfl

section Filled

variable {glyph? : Nat → Option Glyph}

theorem map_fst_filled : ∀ names : List (String × Nat), (∀ p ∈ names, ∃ g, glyph? p.2 = some g) →
    (names.filterMap fun p => (glyph? p.2).map fun g => (p.1, g)).map Prod.fst =
      names.map Prod.fst
  | [], _ => rfl
  | p :: names, h => by
    obtain ⟨g, hg⟩ := h p List.mem_cons_self
    have ih := map_fst_filled names fun q hq => h q (List.mem_cons_of_mem _ hq)
    rw [List.filterMap_cons, hg, Option.map_some, List.map_cons, List.map_cons, ih]

theorem lookup_filled (name : String) :
    ∀ names : List (String × Nat), (∀ p ∈ names, ∃ g, glyph? p.2 = some g) →
      (names.filterMap fun p => (glyph? p.2).map fun g => (p.1, g)).lookup name =
        (names.lookup name).bind glyph?
  | [], _ => rfl
  | p :: names, h => by
    obtain ⟨g, hg⟩ := h p List.mem_cons_self
    have ih := lookup_filled name names fun q hq => h q (List.mem_cons_of_mem _ hq)
    rw [List.filterMap_cons, hg, Option.map_some, List.lookup_cons, List.lookup_cons]
    cases name == p.1
    · exact ih
    · exact hg.symm

end Filled

namespace Slots

/-- The slots between two look-ups. -/
structure Sound (k : Slots) : Prop where
  names : (k.slotOf.map Prod.fst).Nodup
  slots : (k.slotOf.map Prod.snd).Nodup
  filled : ∀ p ∈ k.slotOf, ∃ g, k.glyph? p.2 = some g

theorem sound_empty : ({} : Slots).Sound := ⟨.nil, .nil, nofun⟩

theorem lt_of_glyph? (h : k.glyph? slot = some g) : slot < k.content.length := by
  rw [glyph?, Option.join_eq_some_iff, List.getElem?_eq_some_iff] at h
  exact h.1

/-- A new slot leaves the others as they are. -/
theorem glyph?_append {names : List (String × Nat)} (h : k.glyph? slot = some g)
    (x : Option Glyph) : (mk names (k.content ++ [x])).glyph? slot = some g := by
  have hlt := lt_of_glyph? h
  rw [glyph?] at h ⊢
  rw [List.getElem?_append_left hlt, h]

theorem glyph?_last (names : List (String × Nat)) (x : Option Glyph) :
    (mk names (k.content ++ [x])).glyph? k.content.length = x := by
  rw [glyph?, List.getElem?_concat_length]
  rfl

theorem claim_of_slot (h : k.slotOf.lookup name = some slot) : k.claim name = (slot, k) := by
  rw [claim, h]

section NoSlot

variable (h : k.slotOf.lookup name = none)
include h

theorem claim_of_no_slot : k.claim name =
    (k.content.length, ⟨(name, k.content.length) :: k.slotOf, k.content ++ [none]⟩) := by
  rw [claim, h]

theorem glyph?_claim : (k.claim name).2.glyph? (k.claim name).1 = none := by
  rw [claim_of_no_slot h]
  exact glyph?_last _ none

theorem claim_fill (g : Glyph) : (k.claim name).2.fill (k.claim name).1 g =
    ⟨(name, k.content.length) :: k.slotOf, k.content ++ [some g]⟩ := by
  rw [claim_of_no_slot h, fill]
  simp

theorem claim_evict : (k.claim name).2.evict name (k.claim name).1 =
    ⟨k.slotOf, k.content ++ [none]⟩ := by
  have hnot : ∀ p ∈ k.slotOf, p.1 ≠ name := by
    rintro p hp rfl
    simpa using List.lookup_eq_none_iff.1 h p hp
  have hfilter : k.slotOf.filter (fun p => p.1 ≠ name) = k.slotOf := by
    rw [List.filter_eq_self]
    intro p hp
    simpa using hnot p hp
  have hempty := glyph?_last (k := k) ((name, k.content.length) :: k.slotOf) none
  rw [claim_of_no_slot h]
  unfold evict
  rw [if_pos ⟨by simp, by rw [hempty]; rfl⟩, List.filter_cons_of_neg (by simp), hfilter]

end NoSlot

namespace Sound

variable (h : k.Sound)
include h

theorem glyph?_of_lookup (hslot : k.slotOf.lookup name = some slot) :
    ∃ g, k.glyph? slot = some g := by
  obtain ⟨l, l', hl, -⟩ := List.lookup_eq_some_iff.1 hslot
  exact h.filled (name, slot) (by rw [hl]; simp)

theorem count_eq : k.count = k.slotOf.length := by
  rw [count, List.countP_eq_length]
  intro p hp
  obtain ⟨g, hg⟩ := h.filled p hp
  rw [hg]
  rfl

theorem names_table : k.table.entries.map Prod.fst = k.slotOf.map Prod.fst :=
  map_fst_filled k.slotOf h.filled

theorem get?_table (name : String) :
    k.table.get? name = (k.slotOf.lookup name).bind k.glyph? :=
  lookup_filled name k.slotOf h.filled

/-- A slot that belongs to no name makes no difference. -/
theorem append (x : Option Glyph) : (Slots.mk k.slotOf (k.content ++ [x])).Sound :=
  ⟨h.names, h.slots, fun p hp =>
    let ⟨g, hg⟩ := h.filled p hp
    ⟨g, glyph?_append hg x⟩⟩

theorem table_append (x : Option Glyph) :
    (Slots.mk k.slotOf (k.content ++ [x])).table = k.table := by
  unfold table
  congr 1
  refine List.filterMap_congr fun p hp => ?_
  obtain ⟨g, hg⟩ := h.filled p hp
  rw [glyph?_append hg x, hg]

theorem get?_eq_none (hname : k.slotOf.lookup name = none) : k.table.get? name = none := by
  rw [h.get?_table, hname]
  rfl

theorem table_cons (hname : k.slotOf.lookup name = none) (g : Glyph) :
    (Slots.mk ((name, k.content.length) :: k.slotOf) (k.content ++ [some g])).table =
      k.table.insert name g := by
  have hlast := glyph?_last (k := k) ((name, k.content.length) :: k.slotOf) (some g)
  have hcons : (Slots.mk ((name, k.content.length) :: k.slotOf) (k.content ++ [some g])).table =
      ⟨(name, g) :: (Slots.mk k.slotOf (k.content ++ [some g])).table.entries⟩ := by
    unfold table
    rw [List.filterMap_cons, hlast]
    rfl
  rw [hcons, h.table_append, ← Table.entries_insert (h.get?_eq_none hname) g]

theorem cons (hname : k.slotOf.lookup name = none) (g : Glyph) :
    (Slots.mk ((name, k.content.length) :: k.slotOf) (k.content ++ [some g])).Sound where
  names := by
    refine List.nodup_cons.2 ⟨?_, h.names⟩
    rw [← h.names_table]
    exact Table.get?_eq_none_iff.1 (by rw [h.get?_table, hname]; rfl)
  slots := by
    refine List.nodup_cons.2 ⟨fun hmem => ?_, h.slots⟩
    obtain ⟨p, hp, hslot⟩ := List.mem_map.1 hmem
    obtain ⟨g, hg⟩ := h.filled p hp
    have hlt := lt_of_glyph? hg
    omega
  filled := by
    intro p hp
    rcases List.mem_cons.1 hp with rfl | hp
    · exact ⟨g, glyph?_last _ _⟩
    · obtain ⟨g', hg'⟩ := h.filled p hp
      exact ⟨g', glyph?_append hg' _⟩

end Sound

end Slots

open Slots

/-- The cache of slots answers as the table of its glyphs does, and stays sound. -/
theorem Source.slotted_eq (source : Source σ) (h : k.Sound) (name : String) (s : σ) :
    (source.slotted name (k, s)).2.1.Sound ∧
      source.cached name (k.table, s) = ((source.slotted name (k, s)).1,
        (source.slotted name (k, s)).2.1.table, (source.slotted name (k, s)).2.2) := by
  unfold slotted cached
  rcases hslot : k.slotOf.lookup name with _ | slot
  · simp only [glyph?_claim hslot, h.get?_eq_none hslot]
    rcases source name s with ⟨e | g, t⟩
    · simp only [claim_evict hslot, h.table_append]
      exact ⟨h.append none, trivial⟩
    · simp only [claim_fill hslot, h.table_cons hslot]
      exact ⟨h.cons hslot g, trivial⟩
  · obtain ⟨g, hg⟩ := h.glyph?_of_lookup hslot
    have hsome : k.table.get? name = some g := by
      rw [h.get?_table, hslot]
      exact hg
    simp only [claim_of_slot hslot, hg, hsome]
    exact ⟨h, trivial⟩

theorem Source.slotOf_slotted_of_error {s : σ} {e : GlyphError} (h : k.Sound)
    (he : (source.slotted name (k, s)).1 = .error e) :
    (source.slotted name (k, s)).2.1.slotOf = k.slotOf := by
  unfold slotted at he ⊢
  rcases hslot : k.slotOf.lookup name with _ | slot
  · simp only [glyph?_claim hslot] at he ⊢
    rcases hs : source name s with ⟨e' | g, t⟩
    · simp only [claim_evict hslot]
    · simp only [hs] at he
      cases he
  · obtain ⟨g, hg⟩ := h.glyph?_of_lookup hslot
    simp only [claim_of_slot hslot, hg] at he
    cases he

end MagicCircle
