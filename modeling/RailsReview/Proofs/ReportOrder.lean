import Mathlib.Data.List.Basic
import RailsReview.Diagnostic

/-!
# The order of a report

Diagnostics are ordered by file, first line and check, which is a total preorder. A stable sort by
such an order commutes with leaving out.
-/
namespace RailsReview
open Std

namespace Path

/-- The name of a component; the others come out alike. -/
def Component.nameText : Component → String
  | .name s => s
  | _ => ""

theorem Component.order_eq (a b : Component) :
    a.order b = compareLex (compareOn rank) (compareOn nameText) a b := by
  cases a <;> cases b <;> rfl

instance : TransCmp Component.order := by
  have h : Component.order = compareLex (compareOn Component.rank)
      (compareOn Component.nameText) := by
    funext a b
    exact Component.order_eq a b
  rw [h]
  infer_instance

theorem orderOf_eq (as bs : List Component) : orderOf as bs = as.compareLex Component.order bs := by
  induction as generalizing bs with
  | nil => cases bs <;> rfl
  | cons a as ih =>
    cases bs with
    | nil => rfl
    | cons b bs =>
      rw [orderOf, ih, List.compareLex]
      cases a.order b <;> rfl

instance : TransOrd Path := by
  have h : (compare : Path → Path → Ordering) = fun p q =>
      p.components.compareLex Component.order q.components := by
    funext p q
    exact orderOf_eq p.components q.components
  refine { eq_swap := fun {p q} => ?_, isLE_trans := fun {p q r} hpq hqr => ?_ }
  · rw [h]
    exact OrientedCmp.eq_swap
  · rw [h] at hpq hqr ⊢
    exact TransCmp.isLE_trans hpq hqr

end Path

namespace Diagnostic

instance : TransCmp order := by
  have h : order = compareLex (compareLex (compareOn file) (compareOn firstLine))
      (compareOn check) := rfl
  rw [h]
  infer_instance

theorem order_trans (a b c : Diagnostic) (hab : (a.order b).isLE) (hbc : (b.order c).isLE) :
    (a.order c).isLE := TransCmp.isLE_trans hab hbc

theorem order_total (a b : Diagnostic) : ((a.order b).isLE || (b.order a).isLE) = true := by
  have h : b.order a = (a.order b).swap := OrientedCmp.eq_swap
  rw [h]
  cases a.order b <;> rfl

end Diagnostic

section Stable
variable {α : Type} {le : α → α → Bool}

/-- A list of two parts that a property tells apart can be split in one way. -/
theorem append_eq_of_separated {p : α → Bool} {l₁ l₂ r₁ r₂ : List α} (h : l₁ ++ l₂ = r₁ ++ r₂)
    (hl₁ : ∀ a ∈ l₁, p a) (hl₂ : ∀ a ∈ l₂, ¬p a) (hr₁ : ∀ a ∈ r₁, p a) (hr₂ : ∀ a ∈ r₂, ¬p a) :
    l₁ = r₁ ∧ l₂ = r₂ := by
  have hfirst : l₁ = r₁ := by
    have hfilter := congrArg (List.filter p) h
    rwa [List.filter_append, List.filter_append, List.filter_eq_self.2 hl₁,
      List.filter_eq_self.2 hr₁, List.filter_eq_nil_iff.2 hl₂, List.filter_eq_nil_iff.2 hr₂,
      List.append_nil, List.append_nil] at hfilter
  rw [hfirst] at h
  exact ⟨hfirst, List.append_cancel_left h⟩

/-- Where the head of a list goes when the list is sorted: after all that has to precede it. -/
theorem mergeSort_cons_split (trans : ∀ a b c, le a b → le b c → le a c)
    (total : ∀ a b, le a b || le b a) (a : α) (l : List α) :
    ∃ l₁ l₂, (a :: l).mergeSort le = l₁ ++ a :: l₂ ∧ l.mergeSort le = l₁ ++ l₂ ∧
      (∀ b ∈ l₁, !le a b) ∧ ∀ b ∈ l₂, ¬(!le a b) := by
  obtain ⟨l₁, l₂, hcons, hl, hbefore⟩ := List.mergeSort_cons trans total a l
  refine ⟨l₁, l₂, hcons, hl, hbefore, ?_⟩
  have hsorted := List.pairwise_mergeSort trans total (a :: l)
  rw [hcons, List.pairwise_append] at hsorted
  have hhead := (List.pairwise_cons.1 hsorted.2.1).1
  intro b hb
  simp [hhead b hb]

/-- Sorting and leaving out commute. -/
theorem mergeSort_filter (trans : ∀ a b c, le a b → le b c → le a c)
    (total : ∀ a b, le a b || le b a) (p : α → Bool) (l : List α) :
    (l.filter p).mergeSort le = (l.mergeSort le).filter p := by
  induction l with
  | nil => simp
  | cons a l ih =>
    obtain ⟨l₁, l₂, hcons, hl, hbefore, hafter⟩ := mergeSort_cons_split trans total a l
    rw [hl, List.filter_append] at ih
    rw [hcons, List.filter_append]
    by_cases ha : p a
    · rw [List.filter_cons_of_pos ha, List.filter_cons_of_pos ha]
      obtain ⟨r₁, r₂, hrcons, hr, hrbefore, hrafter⟩ :=
        mergeSort_cons_split trans total a (l.filter p)
      rw [hr] at ih
      obtain ⟨rfl, rfl⟩ := append_eq_of_separated ih hrbefore hrafter
        (fun b hb => hbefore b (List.mem_filter.1 hb).1)
        (fun b hb => hafter b (List.mem_filter.1 hb).1)
      exact hrcons
    · rw [List.filter_cons_of_neg ha, List.filter_cons_of_neg ha]
      exact ih

end Stable

/-- A report of fewer diagnostics is the report without the others. -/
theorem Report.sort_filter (p : Diagnostic → Bool) (ds : List Diagnostic) (n : Nat) :
    (Report.sort ⟨ds.filter p, n⟩).diagnostics = (Report.sort ⟨ds, n⟩).diagnostics.filter p :=
  mergeSort_filter Diagnostic.order_trans Diagnostic.order_total p ds

end RailsReview
