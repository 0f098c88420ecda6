import RailsReview.Tree.Node
import RailsReview.Tree.Text

/-!
# Walks and patterns

A walk keeps the nodes still to be visited, next one first. Visiting a node puts its children in
front, so every node is followed by its own descendants before its right neighbour. What a walk
looks for is said by a pattern, which names acceptable kinds, subjects, messages and texts.
-/
namespace RailsReview

/-- The nodes still to be visited. -/
structure Walk where
  pending : List Node

namespace Walk

/-- Every node below `n`. -/
def below (n : Node) : Walk := ⟨n.children⟩

def next? (w : Walk) : Option (Node × Walk) :=
  match w.pending with
  | [] => none
  | n :: rest => some (n, ⟨n.children ++ rest⟩)

/-- The number of nodes in a list of trees. -/
def nodeCount : List Node → Nat
  | [] => 0
  | n :: rest => n.size + nodeCount rest

theorem nodeCount_append (l r : List Node) : nodeCount (l ++ r) = nodeCount l + nodeCount r := by
  induction l with
  | nil => simp [nodeCount]
  | cons n rest ih => simp only [List.cons_append, nodeCount, ih]; omega

theorem nodeCount_children (slots : List Slot) :
    nodeCount (slots.filterMap Slot.node?) = Node.sizeSlots slots := by
  induction slots with
  | nil => simp [nodeCount, Node.sizeSlots]
  | cons s rest ih =>
    cases s <;> simp [List.filterMap_cons, Slot.node?, nodeCount, Node.sizeSlots, ih]

/-- The number of nodes left to visit. -/
def remaining (w : Walk) : Nat := nodeCount w.pending

theorem size_eq_remaining_below (n : Node) : n.size = (below n).remaining + 1 := by
  cases n with
  | mk k slots p f =>
    simp [Node.size, remaining, below, Node.children, Node.slots, nodeCount_children]

theorem remaining_next {w w' : Walk} {n : Node} (h : w.next? = some (n, w')) :
    w'.remaining + 1 = w.remaining := by
  cases w with
  | mk pending =>
    cases pending with
    | nil => simp [next?] at h
    | cons m rest =>
      simp only [next?, Option.some.injEq, Prod.mk.injEq] at h
      obtain ⟨rfl, rfl⟩ := h
      have hm := size_eq_remaining_below m
      simp only [remaining, below, nodeCount_append, nodeCount] at *
      omega

/-- All nodes of the walk in the order of the visit. -/
def toList (w : Walk) : List Node :=
  match _h : w.next? with
  | none => []
  | some (n, w') => n :: w'.toList
termination_by w.remaining
decreasing_by have := remaining_next _h; omega

/-- The first node of the walk that satisfies `p`. -/
def find? (p : Node → Bool) (w : Walk) : Option Node :=
  match _h : w.next? with
  | none => none
  | some (n, w') => if p n then some n else w'.find? p
termination_by w.remaining
decreasing_by have := remaining_next _h; omega

end Walk

namespace Node

/-- Every node below `n`, each before its own descendants. -/
def descendants (n : Node) : List Node := (Walk.below n).toList

end Node

structure NodePattern where
  kinds : List Kind := []
  subjects : List String := []
  messages : List String := []
  texts : List String := []

namespace NodePattern

def accepts {α : Type} [BEq α] (allowed : List α) (a : α) : Bool :=
  allowed.isEmpty || allowed.contains a

def matchesNode (p : NodePattern) (n : Node) : Bool :=
  accepts p.kinds n.kind
    && (p.subjects.isEmpty || p.subjects.contains (Node.textOf n.subject?))
    && (p.messages.isEmpty || p.messages.contains (Node.textOf n.message?))
    && (p.texts.isEmpty || p.texts.contains n.text)

/-- Every match below `n`, in the order of the walk. -/
def findAll (p : NodePattern) (n : Node) : List Node := n.descendants.filter p.matchesNode

def findFirst? (p : NodePattern) (n : Node) : Option Node := (Walk.below n).find? p.matchesNode

def count (p : NodePattern) (n : Node) : Nat := n.descendants.countP p.matchesNode

end NodePattern

end RailsReview
