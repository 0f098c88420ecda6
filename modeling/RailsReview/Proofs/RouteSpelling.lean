import RailsReview.Practice.Routes
import RailsReview.Proofs.Exchange
import RailsReview.Proofs.Respelling
import RailsReview.Routing.Declaration
import RailsReview.Survey.Project

/-!
# Respelled route declarations

What a route declaration means is read off its message, its names and its options. Respelled
declarations mean the same, and so do the blocks that belong to them. The options of a resource may
also be given in another order, as long as each of them has the same value. So the survey of routes
and the reviews of declared resources do the same at nodes that recount the same.
-/
namespace RailsReview

namespace Node

/-- Related arguments, or options with related values. -/
inductive SameArgument (R : Node → Node → Prop) (m m' : Node) : Prop
  | related (h : R m m')
  | options (hk : m.kind = .bareAssocHash) (hk' : m'.kind = .bareAssocHash)
      (hvalues : ∀ key, Option.Rel R (m.hashValue? key) (m'.hashValue? key))

/-- Related nodes mirror each other, and so do their arguments; those of resources may be options in
another order. -/
structure Recounts (f : Nat → Nat) (R : Node → Node → Prop) : Prop where
  mirrors : Mirrors f R
  arguments : ∀ {n n'}, R n n' → List.Forall₂ (SameArgument R) n.callArguments n'.callArguments
  others : ∀ {n n'}, R n n' → ¬Routing.isResource n.messageText →
    List.Forall₂ R n.callArguments n'.callArguments

theorem Respells.recounts {f : Nat → Nat} {R : Node → Node → Prop} (h : Respells f R) :
    Recounts f R where
  mirrors := h.mirrors
  arguments := h.callArguments_rel .related
  others hn _ := h.callArguments_rel id hn

section Options
variable {f : Nat → Nat} {R : Node → Node → Prop}

theorem messageText_eq_of_rel (h : Mirrors f R) {n n' : Node} (hn : R n n') :
    n'.messageText = n.messageText :=
  textOf_eq h (message?_rel h hn)

theorem textsOf_eq_of_forall₂ (h : Mirrors f R) {l l' : List (Option Node)}
    (hl : List.Forall₂ (Option.Rel R) l l') : l'.map textOf = l.map textOf := by
  induction hl with
  | nil => rfl
  | cons ha _ ih => rw [List.map_cons, List.map_cons, textOf_eq h ha, ih]

theorem SameArgument.isOptions_eq (h : Mirrors f R) {m m' : Node} (hm : SameArgument R m m') :
    (m'.kind == .bareAssocHash) = (m.kind == .bareAssocHash) := by
  cases hm with
  | related hr => exact (h hr).congr_kind (g := (· == .bareAssocHash)) rfl
  | options hk hk' => rw [hk, hk']

theorem options?_rel (h : Recounts f R) {n n' : Node} (hn : R n n') :
    Option.Rel (SameArgument R) n.options? n'.options? :=
  rel_find? (h.arguments hn) fun _ _ hm => hm.isOptions_eq h.mirrors

theorem positionals_rel (h : Recounts f R) {n n' : Node} (hn : R n n') :
    List.Forall₂ R n.positionals n'.positionals := by
  unfold positionals
  have harguments := h.arguments hn
  generalize n.callArguments = l, n'.callArguments = l' at harguments
  induction harguments with
  | nil => exact .nil
  | cons hm _ ih =>
    rw [List.filter_cons, List.filter_cons, bne, bne, hm.isOptions_eq h.mirrors]
    cases hm with
    | options hk => simpa [hk] using ih
    | related hr =>
      split
      · exact .cons hr ih
      · exact ih

variable {a a' : Option Node} (h : Mirrors f R) (ha : Option.Rel (SameArgument R) a a')
include h ha

theorem option?_rel (key : String) : Option.Rel R (option? a key) (option? a' key) :=
  rel_bind ha fun _ _ _ hm => by
    cases hm with
    | related hr => exact hashValue?_rel h hr key
    | options _ _ hvalues => exact hvalues key

theorem optionText_eq_of_rel (key : String) : optionText a' key = optionText a key :=
  textOf_eq h (option?_rel h ha key)

end Options

end Node

namespace Routing
open Node
variable {f : Nat → Nat} {R : Node → Node → Prop}

section Options
variable {a a' : Option Node} (h : Mirrors f R) (ha : Option.Rel (SameArgument R) a a')
include h ha

theorem resourceController_eq_of_rel (name : String) :
    resourceController name a' = resourceController name a := by
  rw [resourceController, resourceController, optionText_eq_of_rel h ha]

theorem resourceActions_eq_of_rel (message : String) :
    resourceActions message a' = resourceActions message a := by
  have honly := option?_rel h ha "only"
  have hexcept := option?_rel h ha "except"
  unfold resourceActions
  generalize option? a "only" = x, option? a' "only" = x' at honly
  generalize option? a "except" = y, option? a' "except" = y' at hexcept
  cases honly with
  | some hr => simp only [stringList_eq_of_rel h hr]
  | none =>
    cases hexcept with
    | some hr => simp only [stringList_eq_of_rel h hr]
    | none => rfl

theorem extraActions_eq_of_rel : extraActions a' = extraActions a := by
  unfold extraActions
  congr 1
  funext key
  exact elim_eq_of_rel (option?_rel h ha key) fun _ _ _ hr => hashKeys_eq_of_rel h hr

end Options

/-- The order of the options counts where any of them may name the target. -/
theorem namedTarget?_eq_of_rel (h : Mirrors f R) {a a' : Option Node} (ha : Option.Rel R a a') :
    namedTarget? a' = namedTarget? a := by
  have hvalues : (a'.elim [] hashValues).map textOf = (a.elim [] hashValues).map textOf := by
    cases ha with
    | none => rfl
    | some hr => exact textsOf_eq_of_forall₂ h (hashValues_rel h hr)
  have hto : optionText a' "to" = optionText a "to" := by
    refine optionText_eq_of_rel h ?_ _
    cases ha with
    | none => exact .none
    | some hr => exact .some (.related hr)
  rw [namedTarget?, namedTarget?, hvalues, hto]

section Declarations
variable {n n' : Node}

theorem isRouteCall_eq_of_rel (h : Mirrors f R) (hn : R n n') :
    isRouteCall n' = isRouteCall n := by
  cases h hn with
  | echoes he => exact he.route
  | aligned ha =>
    have hcalled : isKind .functionCall (n'.slot? 0) = isKind .functionCall (n.slot? 0) := by
      have hslot := ha.slot? 0
      generalize n.slot? 0 = a, n'.slot? 0 = a' at hslot
      cases hslot with
      | none => rfl
      | some hr => exact (h hr).congr_kind (g := (· == .functionCall)) rfl
    rw [isRouteCall, isRouteCall, ha.kind_eq, hcalled]

variable (h : Recounts f R) (hn : R n n')
include h hn

theorem names_eq_of_rel : names n' = names n := by
  rw [names, names, texts_eq_of_forall₂ h.mirrors (positionals_rel h hn)]

theorem resourceTargets_eq_of_rel : resourceTargets n' = resourceTargets n := by
  have hoptions := options?_rel h hn
  simp only [resourceTargets, names_eq_of_rel h hn, messageText_eq_of_rel h.mirrors hn,
    resourceActions_eq_of_rel h.mirrors hoptions, extraActions_eq_of_rel h.mirrors hoptions,
    resourceController_eq_of_rel h.mirrors hoptions]

theorem verbTarget?_eq_of_rel (hother : ¬isResource n.messageText) (current? : Option String) :
    verbTarget? current? n' = verbTarget? current? n := by
  have hoptions : Option.Rel R n.options? n'.options? :=
    rel_find? (h.others hn hother) fun _ _ hr =>
      (h.mirrors hr).congr_kind (g := (· == .bareAssocHash)) rfl
  simp only [verbTarget?, firstPath?, names_eq_of_rel h hn,
    namedTarget?_eq_of_rel h.mirrors hoptions,
    optionText_eq_of_rel h.mirrors (options?_rel h hn)]

theorem rootTarget?_eq_of_rel : rootTarget? n' = rootTarget? n := by
  rw [rootTarget?, rootTarget?, names_eq_of_rel h hn,
    optionText_eq_of_rel h.mirrors (options?_rel h hn)]

theorem targets_eq_of_rel (current? : Option String) :
    targets current? n' = targets current? n := by
  rw [targets, targets, isRouteCall_eq_of_rel h.mirrors hn, messageText_eq_of_rel h.mirrors hn,
    resourceTargets_eq_of_rel h hn, rootTarget?_eq_of_rel h hn]
  by_cases hresource : isResource n.messageText
  · rw [if_pos hresource, if_pos hresource]
  · rw [verbTarget?_eq_of_rel h hn hresource]

end Declarations

end Routing

namespace Practice
open Node Routing
variable {f : Nat → Nat} {R : Node → Node → Prop} {n n' : Node}

section Declarations
variable (h : Mirrors f R) (hn : R n n')
include h hn

theorem declaresResource_eq_of_rel : declaresResource n' = declaresResource n := by
  rw [declaresResource, declaresResource, isRouteCall_eq_of_rel h hn, messageText_eq_of_rel h hn]

theorem visitResource_eq_of_rel : visitResource n' = visitResource n := by
  unfold visitResource
  rw [declaresResource_eq_of_rel h hn]

theorem isTooDeep_eq_of_rel (allowed : Nat) : isTooDeep allowed n' = isTooDeep allowed n := by
  unfold isTooDeep
  rw [declaresResource_eq_of_rel h hn]

end Declarations

theorem excessRoutes?_eq_of_rel (h : Recounts f R) (hn : R n n') :
    excessRoutes? n' = excessRoutes? n := by
  funext scope t
  have hoptions := options?_rel h hn
  simp only [excessRoutes?, resourceClass, names_eq_of_rel h hn,
    declaresResource_eq_of_rel h.mirrors hn, messageText_eq_of_rel h.mirrors hn,
    resourceActions_eq_of_rel h.mirrors hoptions, resourceController_eq_of_rel h.mirrors hoptions]
  rfl

end Practice

/-- The block of a call does not depend on the spelling of the call. -/
theorem RouteBlock.of_eq_of_rel {f : Nat → Nat} {R : Node → Node → Prop} (h : Node.Recounts f R)
    {n n' : Node} (hn : R n n') (hk : Node.argumentPlace? n.kind = none) :
    RouteBlock.of n' = RouteBlock.of n := by
  have hhead := ((h.mirrors hn).aligned_of_not_call hk).slot? 0
  have hoptions : Option.Rel (Node.SameArgument R) ((n.slot? 0).bind Node.options?)
      ((n'.slot? 0).bind Node.options?) :=
    Node.rel_bind hhead fun _ _ _ hr => Node.options?_rel h hr
  have hnames : (n'.slot? 0).elim [] Routing.names = (n.slot? 0).elim [] Routing.names :=
    Node.elim_eq_of_rel hhead fun _ _ _ hr => Routing.names_eq_of_rel h hr
  simp only [RouteBlock.of, hnames, Node.messageText_eq_of_rel h.mirrors hn,
    Node.optionText_eq_of_rel h.mirrors hoptions,
    Routing.resourceController_eq_of_rel h.mirrors hoptions]

open Node
variable {ν : Type} {f : Nat → Nat} {R : Node → Node → Prop}

/-- The open route blocks are kept alike. -/
theorem Spec.respects_start (h : Recounts f R) {name : String} {url : Option String}
    {files ignored : List FilePattern} :
    ((Spec.trackRoutes .whole { name, url, files, ignored } :
      Spec ν RouteScope).interestedIn Routing.callKinds).AllAt fun _ k g => g.Respects R k := by
  refine Spec.AllAt.start.trackRoutes ?_ ?_ |>.interestedIn _
  · refine Handler.respects_update fun {n n'} hn hk => ?_
    have hblock : argumentPlace? n.kind = none := by rw [hk]; rfl
    funext scope
    simp only [Field.modify, RouteScope.enter, RouteBlock.of_eq_of_rel h hn hblock]
  · exact Handler.respects_update fun _ _ => rfl

theorem Survey.respects_addRoutes (h : Recounts f R) (k : Kind) :
    (Handler.record (ν := ν) fun _ n (scope : RouteScope) t =>
      { t with routes := addRoutes n scope t.routes }).Respects R k := by
  refine Handler.respects_record fun hn site => ?_
  funext scope t
  simp only [addRoutes, Routing.targets_eq_of_rel h hn]

namespace Practice

theorem respects_visitResource (h : Mirrors f R) (k : Kind) :
    (Handler.update (ν := ν) visitResource).Respects R k :=
  Handler.respects_update (f := visitResource) fun hn _ => visitResource_eq_of_rel h hn

theorem respects_excessRoutes (h : Recounts f R) (k : Kind) :
    (Handler.report (ν := ν) fun site n scope t =>
      ((excessRoutes? n scope t).map site.finding).toList).Respects R k := by
  refine Handler.respects_report fun hn _ site => ?_
  funext scope t
  rw [excessRoutes?_eq_of_rel h hn]

theorem respects_isTooDeep (h : Mirrors f R) (allowed : Nat) (message : String) (k : Kind) :
    (Handler.report (ν := ν) fun site n scope _ =>
      if isTooDeep allowed n scope then [site.finding message] else []).Respects R k := by
  refine Handler.respects_report fun hn _ site => ?_
  funext scope t
  rw [isTooDeep_eq_of_rel h hn]

end Practice
end RailsReview
