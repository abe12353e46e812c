import MagicCircle.Diagram.Node
import MagicCircle.Proofs.Diagram.Complexity
import MagicCircle.Proofs.Double.Nonnegative

/-!
# Formed nodes

The nodes that can be formed are the diagrams, with their complexities and those of all that is in
them (`formed_iff`). So what a formed node keeps follows from the diagram, in any arithmetic in which
a complexity is above the place that the search for the greatest one starts from. That is so over the
extended reals (`sound_stored`), and in doubles as well: there, no complexity is below zero
(`complexity_nonneg`).
-/

namespace MagicCircle.Node

variable {α : Type} [Gauge α]

theorem complexity_stored (d : Diagram) : (d.stored : Node α).complexity = d.complexity := by
  cases d <;> rfl

theorem exists_of_inside_stored {node : Node α} {d : Diagram} (h : node.Inside d.stored) :
    ∃ e : Diagram, e.stored = node := by
  generalize hm : (d.stored : Node α) = m at h
  induction h generalizing d with
  | self => exact ⟨d, hm⟩
  | component hpart h ih =>
    rcases d with _ | ⟨_, d⟩ | ⟨_, d, e⟩ <;> cases hm
    · obtain rfl := List.mem_singleton.1 hpart
      exact ih rfl
    · obtain rfl | rfl := List.mem_pair.1 hpart <;> exact ih rfl

theorem path_stored : ∀ d : Diagram, (d.stored : Node α).Path d.height
  | .rune name => .rune name
  | .solo _ d => .group List.mem_cons_self (path_stored d)
  | .pair _ d e => by
    rcases le_total e.height d.height with h | h
    · rw [Diagram.height, max_eq_left h]
      exact .group List.mem_cons_self (path_stored d)
    · rw [Diagram.height, max_eq_right h]
      exact .group (List.mem_cons_of_mem _ List.mem_cons_self) (path_stored e)

theorem Path.le_height {n : ℕ} {d : Diagram} (h : (d.stored : Node α).Path n) : n ≤ d.height := by
  generalize hm : (d.stored : Node α) = m at h
  induction h generalizing d with
  | rune => exact Nat.zero_le _
  | group hpart h ih =>
    rcases d with _ | ⟨_, d⟩ | ⟨_, d, e⟩ <;> cases hm
    · obtain rfl := List.mem_singleton.1 hpart
      exact Nat.succ_le_succ (ih rfl)
    · obtain rfl | rfl := List.mem_pair.1 hpart
      · exact Nat.succ_le_succ (le_max_of_le_left (ih rfl))
      · exact Nat.succ_le_succ (le_max_of_le_right (ih rfl))

theorem exists_of_mem_components {d : Diagram} {part : Node α} (h : part ∈ (d.stored).components) :
    ∃ e : Diagram, e.stored = part ∧ e.height < d.height := by
  rcases d with _ | ⟨_, d⟩ | ⟨_, d, e⟩
  · cases h
  · obtain rfl := List.mem_singleton.1 h
    exact ⟨d, rfl, Nat.lt_succ_self _⟩
  · obtain rfl | rfl := List.mem_pair.1 h
    · exact ⟨d, rfl, Nat.lt_succ_of_le (le_max_left ..)⟩
    · exact ⟨e, rfl, Nat.lt_succ_of_le (le_max_right ..)⟩

theorem beq_stored [BEq α] (h : ∀ d : Diagram, ((d.complexity : α) == d.complexity) = true) :
    ∀ d : Diagram, beq (d.stored : Node α) d.stored = true
  | .rune name => by simp [Diagram.stored, beq]
  | .solo _ d => by simp [Diagram.stored, beq, beqAll, beq_stored h d, h]
  | .pair _ d e => by simp [Diagram.stored, beq, beqAll, beq_stored h d, beq_stored h e, h]

/-! ### Forming groups -/

section Forming

variable [Bot α]

theorem form_eq_error_iff {shape : Shape} {nodes : List (Node α)} {e : StructureError} :
    form shape nodes = .error e ↔
      nodes = [] ∧ e = .noComponents shape ∨
        3 ≤ nodes.length ∧ e = .tooManyComponents shape nodes.length := by
  rw [@eq_comm _ e, @eq_comm _ e]
  rcases nodes with _ | ⟨_, _ | ⟨_, _ | ⟨_, nodes⟩⟩⟩ <;> simp [form]

/-- Nodes that diagrams are kept as form a node if the diagrams form a group. -/
theorem form_stored (hbot : ∀ d : Diagram, max ⊥ (d.complexity : α) = d.complexity) (shape : Shape)
    (ds : List Diagram) :
    form shape (ds.map Diagram.stored) =
      (Diagram.group shape ds).map (Diagram.stored (α := α)) := by
  rcases ds with _ | ⟨d, _ | ⟨e, _ | ⟨_, ds⟩⟩⟩ <;>
    simp [form, Diagram.group, Except.map, Diagram.stored, Diagram.complexity, complexity_stored,
      hbot]

theorem formed_stored (hbot : ∀ d : Diagram, max ⊥ (d.complexity : α) = d.complexity) :
    ∀ d : Diagram, (d.stored : Node α).Formed
  | .rune name => .rune name
  | .solo shape d => .group (by simpa using formed_stored hbot d) (form_stored hbot shape [d])
  | .pair shape d e =>
    .group (by simpa using ⟨formed_stored hbot d, formed_stored hbot e⟩)
      (form_stored hbot shape [d, e])

theorem formed_iff (hbot : ∀ d : Diagram, max ⊥ (d.complexity : α) = d.complexity)
    {node : Node α} : node.Formed ↔ ∃ d : Diagram, d.stored = node := by
  refine ⟨fun h => ?_, fun ⟨d, hd⟩ => hd ▸ formed_stored hbot d⟩
  induction h with
  | rune name => exact ⟨.rune name, rfl⟩
  | @group shape nodes node _ h ih =>
    obtain ⟨ds, rfl⟩ : nodes ∈ Set.range (List.map Diagram.stored) := by
      rw [Set.range_list_map]
      exact ih
    rw [form_stored hbot] at h
    rcases hd : Diagram.group shape ds with e | d <;> rw [hd] at h <;> cases h
    exact ⟨d, rfl⟩

end Forming

/-! ### Over the extended reals -/

theorem max_bot_complexity (d : Diagram) : max ⊥ (d.complexity : EReal) = d.complexity :=
  bot_sup_eq d.complexity

theorem sound_stored (d : Diagram) : (d.stored : Node EReal).Sound := by
  have hheight : (d.stored : Node EReal).complexity = d.height := by
    rw [complexity_stored, Diagram.complexity_eq_height]
  refine ⟨⟨d, rfl⟩, fun {shape nodes c} hinside => ?_,
    ⟨d.height, hheight, path_stored d, fun n hn => hn.le_height⟩, ?_, ?_, fun part hpart => ?_⟩
  · obtain ⟨e, he⟩ := exists_of_inside_stored hinside
    rcases e with _ | _ | _ <;> cases he
    · exact .inl rfl
    · exact .inr rfl
  · rw [hheight]
    exact Nat.cast_nonneg' _
  · rw [hheight]
    exact lt_top_iff_ne_top.2 (EReal.natCast_ne_top _)
  · obtain ⟨e, rfl, hlt⟩ := exists_of_mem_components hpart
    rw [hheight, complexity_stored, Diagram.complexity_eq_height]
    exact_mod_cast hlt

/-! ### In doubles -/

section Doubles

variable {log2 : Float → Float}

theorem nonneg_greater {x y : Float} (hx : 0 ≤ x) (hy : 0 ≤ y) : 0 ≤ if x < y then y else x := by
  split <;> assumption

theorem complexityAround_nonneg (hzero : log2 0 = ⊥) (hone : log2 1 = 0) {deepest : Float}
    (h : 0 ≤ deepest) {count : ℕ} (hcount : count = 1 ∨ count = 2) :
    let _ := Gauge.withLog2 log2
    0 ≤ Diagram.complexityAround deepest count := by
  have hnext : 0 ≤ deepest + Float.ofNat 1 := Double.nonneg_add h (by decide)
  change 0 ≤ if deepest + Float.ofNat 1 < log2 (Float.ofNat count - Float.ofNat 1)
    then log2 (Float.ofNat count - Float.ofNat 1) else deepest + Float.ofNat 1
  rcases hcount with rfl | rfl
  · have hlog : log2 (Float.ofNat 1 - Float.ofNat 1) = ⊥ := hzero
    have hlow : ¬ deepest + Float.ofNat 1 < ⊥ := Double.not_lt_negative_infinity _
    rw [hlog, if_neg hlow]
    exact hnext
  · have hlog : log2 (Float.ofNat 2 - Float.ofNat 1) = 0 := hone
    rw [hlog]
    exact nonneg_greater hnext (by decide)

theorem complexity_nonneg (hzero : log2 0 = ⊥) (hone : log2 1 = 0) (d : Diagram) :
    let _ := Gauge.withLog2 log2
    0 ≤ (d.complexity : Float) := by
  induction d with
  | rune name => exact (by decide : (0 : Float) ≤ Float.ofNat 0)
  | solo shape d ih => exact complexityAround_nonneg hzero hone ih (.inl rfl)
  | pair shape d e ihd ihe =>
    exact complexityAround_nonneg hzero hone (nonneg_greater ihd ihe) (.inr rfl)

end Doubles

/-- A group is formed of one or two nodes and of no other number, as for diagrams. Over the extended
reals a formed node is sound. In doubles no complexity in it is a NaN, so it equals itself; of the
binary logarithm it matters only what those of zero and one are. -/
theorem sound_of_formed {log2 : Float → Float} (hzero : log2 0 = ⊥) (hone : log2 1 = 0) :
    (∀ (α : Type) [Gauge α] [Bot α] (shape : Shape) (nodes : List (Node α)) (e : StructureError),
      form shape nodes = .error e ↔
        nodes = [] ∧ e = .noComponents shape ∨
          3 ≤ nodes.length ∧ e = .tooManyComponents shape nodes.length) ∧
    (∀ (shape : Shape) (ds : List Diagram),
      form shape (ds.map Diagram.stored) =
        (Diagram.group shape ds).map (Diagram.stored (α := EReal))) ∧
    (∀ node : Node EReal, node.Formed → node.Sound) ∧
    ∀ node : Node Float, node.FormedWith log2 →
      (∀ part : Node Float, part.Inside node → part.complexity.isNaN = false) ∧
        (node == node) = true := by
  refine ⟨fun _ _ _ _ _ _ => form_eq_error_iff, form_stored max_bot_complexity,
    fun node h => ?_, fun node h => ?_⟩
  · obtain ⟨d, rfl⟩ := (formed_iff max_bot_complexity).1 h
    exact sound_stored d
  · have hnonneg := complexity_nonneg hzero hone
    let _ := Gauge.withLog2 log2
    obtain ⟨d, rfl⟩ := (formed_iff fun d => if_pos (Double.negative_infinity_lt (hnonneg d))).1 h
    refine ⟨fun part hpart => ?_, beq_stored (fun d => Double.beq_self_of_nonneg (hnonneg d)) d⟩
    obtain ⟨e, rfl⟩ := exists_of_inside_stored hpart
    have he := hnonneg e
    rcases e with _ | _ | _ <;> exact Double.not_isNaN_of_nonneg he

/-- A logarithm that is right about zero and one is enough for a unit around a rune. -/
theorem sound_of_formed_unit :
    let log2 : Float → Float := fun x => if 0 < x then 0 else ⊥
    let unit : Node Float := .group .unit [.rune "a"] 1
    log2 0 = ⊥ ∧ log2 1 = 0 ∧ unit.FormedWith log2 ∧ (unit == unit) = true ∧
      ∃ node : Node EReal, form .unit [.rune "a"] = .ok node ∧ node.Sound := by
  intro log2 unit
  have hzero : log2 0 = ⊥ := rfl
  have hone : log2 1 = 0 := rfl
  have hunit : unit.FormedWith log2 := by
    let _ := Gauge.withLog2 log2
    have hform : form .unit [.rune "a"] = .ok unit := by
      refine congrArg (fun c => Except.ok (Node.group .unit [.rune "a"] c)) (?_ : _ = (1 : Float))
      decide +kernel
    refine .group (fun part hpart => ?_) hform
    obtain rfl := List.mem_singleton.1 hpart
    exact .rune "a"
  obtain ⟨-, hform, hsound, hequal⟩ := sound_of_formed hzero hone
  have hnode := formed_stored max_bot_complexity (.solo .unit (.rune "a"))
  exact ⟨hzero, hone, hunit, (hequal unit hunit).2, _, hform .unit [.rune "a"], hsound _ hnode⟩

end MagicCircle.Node
