import RailsReview.Practice.UnusedActions
import RailsReview.Proofs.Dictionary

/-!
# Facts and uses

The surveys collect facts. Of what a review may change afterwards, no fact is part: which methods of
controllers were seen in use, by which names methods were called, and which methods were published.
-/
namespace RailsReview

namespace MethodTable

/-- A change of a record that keeps its name keeps the names of all methods. -/
theorem names_update (t : MethodTable) (className name : String) {f : MethodRecord → MethodRecord}
    (hf : ∀ m, (f m).name = m.name) (className' : String) :
    ((t.update className name f).ofClass className' none).map (·.name) =
      (t.ofClass className' none).map (·.name) := by
  have hall (ms : List MethodRecord) : ms.filter (·.hasAccess none) = ms :=
    List.filter_eq_self.2 fun _ _ => rfl
  have hone (ms : List MethodRecord) :
      (ms.map fun m => if m.name = name then f m else m).map (·.name) = ms.map (·.name) := by
    rw [List.map_map]
    apply List.map_congr_left
    intro m _
    simp only [Function.comp_apply]
    split
    · exact hf m
    · rfl
  simp only [ofClass, hall, update, Dictionary.get?_modify]
  split
  · cases t.methods.get? className' with
    | none => rfl
    | some ms => exact hone ms
  · rfl

theorem has_eq_names (t : MethodTable) (className name : String) :
    t.has className name none = ((t.ofClass className none).map (·.name)).contains name := by
  rw [Bool.eq_iff_iff, List.contains_iff_mem, List.mem_map, has, find?, List.find?_isSome]
  simp only [beq_iff_eq]

theorem has_update (t : MethodTable) (className name : String) {f : MethodRecord → MethodRecord}
    (hf : ∀ m, (f m).name = m.name) (className' name' : String) :
    (t.update className name f).has className' name' none = t.has className' name' none := by
  rw [has_eq_names, names_update t className name hf, has_eq_names]

theorem has_markUsed (t : MethodTable) (className name className' name' : String) :
    (t.markUsed className name).has className' name' none = t.has className' name' none := by
  unfold markUsed
  rw [has_update]
  exact fun _ => rfl

theorem has_publicize (t : MethodTable) (className name className' name' : String) :
    (t.publicize className name).has className' name' none = t.has className' name' none := by
  unfold publicize
  rw [has_update]
  exact fun _ => rfl

theorem has_markInAncestor (t : MethodTable) (classes : ClassTable)
    (className name className' name' : String) :
    (t.markInAncestor classes className name).has className' name' none =
      t.has className' name' none := by
  unfold markInAncestor
  split
  · exact t.has_markUsed _ name className' name'
  · rfl

theorem has_foldl {β : Type} {f : MethodTable → β → MethodTable} {className name : String}
    (h : ∀ t b, (f t b).has className name none = t.has className name none) (l : List β)
    (t : MethodTable) : (l.foldl f t).has className name none = t.has className name none := by
  induction l generalizing t with
  | nil => rfl
  | cons b l ih => rw [List.foldl_cons, ih, h]

theorem has_markInSubclasses (t : MethodTable) (classes : ClassTable)
    (className name className' name' : String) :
    (t.markInSubclasses classes className name).has className' name' none =
      t.has className' name' none :=
  has_foldl (fun t _ => t.has_markUsed _ name className' name') _ t

end MethodTable

namespace Tables

/-- Tables that agree on all facts; they may differ in what is known of the uses of controller
methods. -/
structure SameFacts (t t' : Tables) : Prop where
  others : { t with controllerMethods := {} } = { t' with controllerMethods := {} }
  has : ∀ className name, t.controllerMethods.has className name none =
    t'.controllerMethods.has className name none

namespace SameFacts

theorem refl (t : Tables) : t.SameFacts t := ⟨rfl, fun _ _ => rfl⟩

theorem symm {t t' : Tables} (h : t.SameFacts t') : t'.SameFacts t :=
  ⟨h.others.symm, fun c n => (h.has c n).symm⟩

theorem trans {t t' t'' : Tables} (h : t.SameFacts t') (h' : t'.SameFacts t'') :
    t.SameFacts t'' :=
  ⟨h.others.trans h'.others, fun c n => (h.has c n).trans (h'.has c n)⟩

section Fields
variable {t t' : Tables} (h : t.SameFacts t')
include h

/-- A part of the tables that is not about methods of controllers. -/
theorem field {α : Type} (f : Tables → α)
    (hf : ∀ u : Tables, f { u with controllerMethods := {} } = f u) : f t = f t' := by
  rw [← hf t, ← hf t', h.others]

theorem controllers : t.controllers = t'.controllers := h.field _ fun _ => rfl

theorem associations : t.associations = t'.associations := h.field _ fun _ => rfl

theorem attributes : t.attributes = t'.attributes := h.field _ fun _ => rfl

theorem gems : t.gems = t'.gems := h.field _ fun _ => rfl

theorem settings : t.settings = t'.settings := h.field _ fun _ => rfl

end Fields

theorem withControllerMethods (t : Tables) {ms : MethodTable}
    (h : ∀ className name, ms.has className name none =
      t.controllerMethods.has className name none) :
    t.SameFacts { t with controllerMethods := ms } :=
  ⟨rfl, fun c n => (h c n).symm⟩

theorem foldl {β : Type} {f : Tables → β → Tables}
    (h : ∀ (t : Tables) (b : β), t.SameFacts (f t b)) (l : List β) (t : Tables) :
    t.SameFacts (l.foldl f t) := by
  induction l generalizing t with
  | nil => exact .refl t
  | cons b l ih => exact (h t b).trans (ih (f t b))

end SameFacts

/-- Calls of controller methods are no facts. -/
theorem sameFacts_callMethod (t : Tables) (className name : String) :
    t.SameFacts (t.callMethod .controllers className name) := by
  unfold callMethod
  split
  · exact .refl t
  · refine .withControllerMethods t fun c n => ?_
    change ((((t.controllerMethods.markUsed className name).markInAncestor t.controllers className
      name).markInSubclasses t.controllers className name).has c n none) = _
    rw [MethodTable.has_markInSubclasses, MethodTable.has_markInAncestor, MethodTable.has_markUsed]

end Tables

open Tables

theorem Usage.sameFacts_mark (className : String) (used : List String) (t : Tables) :
    t.SameFacts (mark .controllers className used t) :=
  .foldl (fun t name => t.sameFacts_callMethod className name) used t

namespace Practice

theorem sameFacts_markCell (arguments : List Node) (t : Tables) :
    t.SameFacts (markCell arguments t) := by
  unfold markCell
  split
  · exact t.sameFacts_callMethod _ _
  · exact .refl t

theorem sameFacts_publicizeAll (className : String) (methods : List Node) (t : Tables) :
    t.SameFacts (publicizeAll className methods t) :=
  .withControllerMethods t fun c n =>
    MethodTable.has_foldl (fun ms (m : Node) => ms.has_publicize className m.text c n) methods
      t.controllerMethods

theorem sameFacts_markDelegated (moduleName : String) (arguments : List Node) (t : Tables) :
    t.SameFacts (markDelegated moduleName arguments t) := by
  unfold markDelegated
  split
  · split
    · exact sameFacts_publicizeAll _ _ t
    · exact .refl t
  · exact .refl t

theorem sameFacts_markCommand (n : Node) (classes : ClassScope) (t : Tables) :
    t.SameFacts (markCommand n classes t) := by
  unfold markCommand
  dsimp only
  split
  · exact sameFacts_markCell _ t
  · exact t.sameFacts_callMethod _ _
  · exact sameFacts_publicizeAll _ _ t
  · exact sameFacts_markDelegated _ _ t
  · exact .refl t

theorem sameFacts_markCall (n : Node) (classes : ClassScope) (t : Tables) :
    t.SameFacts (markCall n classes t) := by
  unfold markCall
  dsimp only
  split
  · exact sameFacts_markCell _ t
  · exact t.sameFacts_callMethod _ _
  · exact .refl t

theorem sameFacts_markSetter (n : Node) (classes : ClassScope) (t : Tables) :
    t.SameFacts (markSetter n classes t) := by
  unfold markSetter
  split
  · split
    · exact t.sameFacts_callMethod _ _
    · exact .refl t
  · exact .refl t

theorem sameFacts_markHooks (s : UsageScope) (t : Tables) : t.SameFacts (markHooks s t) := by
  unfold markHooks
  split
  · split
    · exact .foldl (fun t name => t.sameFacts_callMethod _ name) _ t
    · exact .refl t
  · exact .refl t

theorem sameFacts_markRoutes (t : Tables) : t.SameFacts (markRoutes t) :=
  .foldl (fun t _ => .foldl (fun t name => t.sameFacts_callMethod _ name) _ t) _ t

end Practice
end RailsReview
