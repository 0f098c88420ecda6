import RailsReview.Proofs.Lexical
import RailsReview.Tree.Pattern

/-!
# What a walk visits

A walk from a node keeps its own list of the nodes still to come. What it visits are the nodes below
in the order of the source, whatever the shape of the tree.
-/
namespace RailsReview

namespace Node

/-- The nodes of a tree, each before the nodes below it. -/
def preorder (n : Node) : List Node := (n.occurrences []).map (·.2)

theorem flatMap_preorder (slots : List Slot) :
    (slots.filterMap Slot.node?).flatMap preorder = (occurrencesIn [] slots).map (·.2) := by
  induction slots with
  | nil => rfl
  | cons s rest ih =>
    cases s with
    | node n =>
      have hfirst : (Slot.node n :: rest).filterMap Slot.node? =
          n :: rest.filterMap Slot.node? := rfl
      rw [hfirst, List.flatMap_cons, ih, occurrencesIn, List.map_append, preorder]
    | literal => exact ih
    | absent => exact ih

theorem preorder_eq (n : Node) : n.preorder = n :: n.children.flatMap preorder := by
  cases n with
  | mk k slots p own =>
    rw [preorder, occurrences, List.map_cons, nodes_occurrencesIn _ [] slots, ← flatMap_preorder]
    rfl

end Node

/-- A walk visits the trees that are pending one after the other. -/
theorem Walk.toList_eq (w : Walk) : w.toList = w.pending.flatMap Node.preorder := by
  fun_induction toList w with
  | case1 w hnext =>
    obtain ⟨_ | ⟨n, rest⟩⟩ := w
    · rfl
    · cases hnext
  | case2 w n w' hnext ih =>
    obtain ⟨_ | ⟨m, rest⟩⟩ := w
    · cases hnext
    · obtain ⟨rfl, rfl⟩ := Prod.mk.inj (Option.some.inj hnext)
      rw [ih, List.flatMap_append, List.flatMap_cons, m.preorder_eq]
      rfl

/-- The descendants of a node are the nodes below it, in the order of the source. -/
theorem Node.descendants_eq (n : Node) : n.descendants = (occurrencesIn [] n.slots).map (·.2) := by
  rw [descendants, Walk.toList_eq, ← flatMap_preorder]
  rfl

end RailsReview
