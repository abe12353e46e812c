import MagicCircle.Exact.Gauge
import Mathlib.Order.Bounds.Defs

/-!
# Nodes

A diagram as it is kept once it has been put together: a group has its components in a list, and its
complexity beside them, worked out from what they keep. A node can hold any number of components and
any complexity; `Node.Formed` are those that the two ways of making a node lead to.
-/

namespace MagicCircle

/-- Negative infinity. -/
instance Double.instBot : Bot Float := ⟨Float.ofBits 0xfff0000000000000⟩

/-- Binary64 arithmetic with the binary logarithm of some library. -/
@[reducible]
def Gauge.withLog2 (log2 : Float → Float) : Gauge Float :=
  { (inferInstance : Gauge Float) with log2 }

inductive Node (α : Type)
  | rune (name : String)
  | group (shape : Shape) (components : List (Node α)) (complexity : α)

namespace Node

variable {α : Type}

def components : Node α → List (Node α)
  | rune _ => []
  | group _ nodes _ => nodes

mutual

/-- The equality of nodes that compares all they keep, complexities by their own equality. -/
def beq [BEq α] : Node α → Node α → Bool
  | rune name, rune name' => name == name'
  | group shape nodes complexity, group shape' nodes' complexity' =>
    shape == shape' && (beqAll nodes nodes' && complexity == complexity')
  | _, _ => false

def beqAll [BEq α] : List (Node α) → List (Node α) → Bool
  | [], [] => true
  | node :: nodes, node' :: nodes' => beq node node' && beqAll nodes nodes'
  | _, _ => false

end

instance [BEq α] : BEq (Node α) := ⟨beq⟩

/-- The node is the other one or is in it at some depth. -/
inductive Inside (node : Node α) : Node α → Prop
  | self : Inside node node
  | component {shape : Shape} {nodes : List (Node α)} {complexity : α} {part : Node α}
      (hpart : part ∈ nodes) (h : Inside node part) : Inside node (.group shape nodes complexity)

/-- There is a path from the node down to a rune with so many groups on it. -/
inductive Path : Node α → Nat → Prop
  | rune (name : String) : Path (.rune name) 0
  | group {shape : Shape} {nodes : List (Node α)} {complexity : α} {part : Node α} {n : Nat}
      (hpart : part ∈ nodes) (h : Path part n) : Path (.group shape nodes complexity) (n + 1)

variable [Gauge α]

def complexity : Node α → α
  | rune _ => Gauge.num 0
  | group _ _ complexity => complexity

variable [Bot α]

/-- Forms a group around one or two nodes. The search for the greatest of their complexities starts
below all numbers. -/
def form (shape : Shape) (nodes : List (Node α)) : Except StructureError (Node α) :=
  match nodes.length with
  | 0 => .error (.noComponents shape)
  | 1 | 2 =>
    let deepest := (nodes.map complexity).foldl max ⊥
    .ok (.group shape nodes (Diagram.complexityAround deepest nodes.length))
  | count => .error (.tooManyComponents shape count)

/-- The nodes that one gets by making runes and by forming groups of nodes that one has got. -/
inductive Formed : Node α → Prop
  | rune (name : String) : Formed (.rune name)
  | group {shape : Shape} {nodes : List (Node α)} {node : Node α}
      (hnodes : ∀ part ∈ nodes, Formed part) (h : form shape nodes = .ok node) : Formed node

/-- The node is formed in doubles with the given logarithm. -/
def FormedWith (log2 : Float → Float) (node : Node Float) : Prop :=
  letI := Gauge.withLog2 log2
  node.Formed

theorem formedWith_log2 (node : Node Float) : node.FormedWith Float.log2 ↔ node.Formed := Iff.rfl

end Node

/-- The node that a diagram is kept as. -/
def Diagram.stored {α : Type} [Gauge α] : Diagram → Node α
  | rune name => .rune name
  | solo shape d => .group shape [d.stored] (solo shape d).complexity
  | pair shape d e => .group shape [d.stored, e.stored] (pair shape d e).complexity

/-- A node over the extended reals as it should be: a diagram that keeps the largest number of groups
on a path down to a rune. -/
structure Node.Sound (node : Node EReal) : Prop where
  exists_stored : ∃ d : Diagram, d.stored = node
  one_or_two {shape : Shape} {nodes : List (Node EReal)} {complexity : EReal} :
    (Node.group shape nodes complexity).Inside node → nodes.length = 1 ∨ nodes.length = 2
  greatest : ∃ n : ℕ, node.complexity = n ∧ IsGreatest {k | node.Path k} n
  nonneg : 0 ≤ node.complexity
  lt_top : node.complexity < ⊤
  above : ∀ part ∈ node.components, part.complexity < node.complexity

end MagicCircle
