import RailsReview.Proofs.ResourceReview

/-!
# The suggested option

The review of resources suggests an option for every declaration that it reports. A declaration that
is written with this option generates what its controller has, so that the review is content with
it. For this, the names that the declaration lists under `only` have to be those of default actions:
the suggestion speaks about the default actions, and `except` leaves no others.
-/
namespace RailsReview

namespace Routing
open Node

/-- An option that restricts what a resource declaration generates. -/
structure Restriction where
  key : String
  names : List String
  deriving DecidableEq, Repr

def restrictionKeys : List String := ["only", "except"]

/-- A symbol such as `:index`. -/
def symbolOf (name : String) : Node :=
  .ofKind .symbolLiteral [.node (.ofKind .identifier [.literal (.str name)])]

/-- A list of symbols such as `[:index, :show]`. -/
def symbolArray (names : List String) : Node :=
  .ofKind .array [.node (.ofKind .list ((names.map symbolOf).map .node))]

namespace Restriction

/-- The restriction as it is written, such as `only: [:index, :show]`. -/
def node (r : Restriction) : Node :=
  .ofKind .bareAssocHash [.node (.ofKind .list [.node (.ofKind .assocNew
    [.node (.ofKind .label [.literal (.str (r.key ++ ":"))]), .node (symbolArray r.names)])])]

/-- The options have this restriction and no other one. -/
structure Sole (r : Restriction) (options : Option Node) : Prop where
  listed : (option? options r.key).map stringList = some r.names
  noOther : ∀ k ∈ restrictionKeys, k ≠ r.key → option? options k = none

/-- The second declaration is the first one with this restriction in place of those there were. -/
structure Replaces (r : Restriction) (n n' : Node) : Prop where
  declares : Practice.declaresResource n'
  message : n'.messageText = n.messageText
  names : Routing.names n' = Routing.names n
  restricted : r.Sole n'.options?
  others : ∀ k ∉ restrictionKeys, option? n'.options? k = option? n.options? k

end Restriction

theorem text_symbolOf (name : String) : (symbolOf name).text = name := by
  have hsymbol : ¬Kind.symbolLiteral.isToken := by decide
  have hidentifier : Kind.identifier.isToken := by decide
  simp [symbolOf, Node.ofKind, Node.text, textAt, leafText, hsymbol, hidentifier]

theorem stringList_symbolArray (names : List String) : (symbolArray names).stringList = names := by
  have hlist : (symbolArray names).stringList =
      (((names.map symbolOf).map Slot.node).filterMap Slot.node?).map text := rfl
  rw [hlist, Slot.filterMap_node, List.map_map]
  exact (List.map_congr_left fun name _ => text_symbolOf name).trans (List.map_id _)

namespace Restriction

theorem option?_node (r : Restriction) (k : String) :
    option? (some r.node) k = if r.key = k then some (symbolArray r.names) else none := by
  have hpairs : r.node.hashPairs = [.ofKind .assocNew
    [.node (.ofKind .label [.literal (.str (r.key ++ ":"))]), .node (symbolArray r.names)]] := rfl
  have hpair : pairKey (.ofKind .assocNew [.node (.ofKind .label [.literal (.str (r.key ++ ":"))]),
      .node (symbolArray r.names)]) = r.key := by
    have hlabel : Kind.label.isToken := by decide
    have hcolon : withoutColon (r.key ++ ":") = r.key := by simp [withoutColon]
    have htext : text (.ofKind .label [.literal (.str (r.key ++ ":"))]) = r.key := by
      simp [Node.ofKind, Node.text, leafText, hlabel, hcolon]
    exact htext
  rw [option?, Option.bind_some, hashValue?, hpairs, List.find?_singleton]
  simp only [hpair, beq_iff_eq]
  split
  · rfl
  · rfl

theorem sole_node (r : Restriction) : r.Sole (some r.node) where
  listed := by rw [option?_node, if_pos rfl, Option.map_some, stringList_symbolArray]
  noOther k _ hk := by rw [option?_node, if_neg (Ne.symm hk)]

end Restriction

/-- The words for all and for no actions are not actions themselves. -/
theorem not_mem_defaultActions {word : String} (h : word ∈ ["all", "none"]) (message : String) :
    word ∉ defaultActions message := by
  have hwords : ∀ w ∈ ["all", "none"], w ∉ pluralActions ∧ w ∉ singularActions := by decide
  unfold defaultActions
  split
  · exact (hwords word h).2
  · exact (hwords word h).1

/-- A list of default actions stands for itself. -/
theorem restrictTo_of_subset {message : String} {chosen : List String}
    (h : ∀ a ∈ chosen, a ∈ defaultActions message) :
    restrictTo (defaultActions message) chosen = chosen := by
  unfold restrictTo
  split
  · exact absurd (h _ (List.mem_singleton_self _)) (not_mem_defaultActions (by decide) message)
  · exact absurd (h _ (List.mem_singleton_self _)) (not_mem_defaultActions (by decide) message)
  · rfl

/-- To leave out what is not chosen leaves what is chosen. -/
theorem mem_without {message : String} {chosen : List String}
    (h : ∀ a ∈ chosen, a ∈ defaultActions message) (a : String) :
    a ∈ without (defaultActions message) ((defaultActions message).filter (!chosen.contains ·)) ↔
      a ∈ chosen := by
  have hall : "all" ∉ (defaultActions message).filter (!chosen.contains ·) := fun hmem =>
    not_mem_defaultActions (by decide) message (List.mem_filter.1 hmem).1
  have hcontains : ((defaultActions message).filter (!chosen.contains ·)).contains "all" = false :=
    Bool.eq_false_iff.2 fun hmem => hall (List.contains_iff_mem.1 hmem)
  rw [without, hcontains, if_neg Bool.false_ne_true]
  simp only [List.mem_filter, List.contains_eq_mem, Bool.not_eq_true', decide_eq_false_iff_not,
    not_and, Decidable.not_not]
  constructor
  · rintro ⟨hdefault, hkept⟩
    exact hkept hdefault
  · exact fun ha => ⟨h a ha, fun _ => ha⟩

/-- What is generated are default actions, when `only` lists no others. -/
theorem resourceActions_subset {message : String} {options : Option Node}
    (h : ∀ only, option? options "only" = some only →
      ∀ a ∈ only.stringList, a ∈ defaultActions message) :
    ∀ a ∈ resourceActions message options, a ∈ defaultActions message := by
  intro a ha
  unfold resourceActions at ha
  split at ha
  · rename_i only honly
    rw [restrictTo_of_subset (h only honly)] at ha
    exact h only honly a ha
  · unfold without at ha
    split at ha
    · exact absurd ha List.not_mem_nil
    · exact (List.mem_filter.1 ha).1
  · exact ha

end Routing

namespace Practice
open Routing Node

/-- The restriction that is suggested. -/
def suggested (defaults implemented : List String) : Restriction :=
  let excluded := defaults.filter (!implemented.contains ·)
  if excluded.length < implemented.length then ⟨"except", excluded⟩ else ⟨"only", implemented⟩

theorem suggestion_eq (defaults implemented : List String) :
    suggestion defaults implemented = (suggested defaults implemented).key ++ ": [" ++
      symbols (suggested defaults implemented).names ++ "]" := by
  unfold suggestion suggested
  dsimp only
  split
  · rfl
  · rfl

theorem suggested_key_mem (defaults implemented : List String) :
    (suggested defaults implemented).key ∈ restrictionKeys := by
  unfold suggested
  dsimp only
  split
  · exact List.mem_cons_of_mem _ (List.mem_singleton_self _)
  · exact List.mem_cons_self

/-- The suggested list, read back, leaves what is implemented. -/
theorem mem_resourceActions_of_sole {message : String} {implemented : List String}
    (hdefault : ∀ a ∈ implemented, a ∈ defaultActions message) {options : Option Node}
    (h : (suggested (defaultActions message) implemented).Sole options) (a : String) :
    a ∈ resourceActions message options ↔ a ∈ implemented := by
  obtain ⟨value, hvalue, hlisted⟩ := Option.map_eq_some_iff.1 h.listed
  have hother := h.noOther
  unfold suggested at hvalue hlisted hother
  dsimp only at hvalue hlisted hother
  split at hlisted
  · rename_i hshorter
    simp only [if_pos hshorter] at hvalue hother
    have honly : option? options "only" = none := hother "only" (by decide) (by decide)
    simp only [resourceActions, honly, hvalue, hlisted]
    exact mem_without hdefault a
  · rename_i hshorter
    simp only [if_neg hshorter] at hvalue
    simp only [resourceActions, hvalue, hlisted, restrictTo_of_subset hdefault]

/-- The class that a resource is routed to depends on the namespaces around the declaration. -/
theorem resourceClass_eq {s s₂ : RouteScope} (hspaces : s₂.namespaces = s.namespaces) {n n' : Node}
    (hcontroller : option? n'.options? "controller" = option? n.options? "controller")
    (name : String) : resourceClass s₂ name n' = resourceClass s name n := by
  have hnamed : resourceController name n'.options? = resourceController name n.options? := by
    rw [resourceController, optionText, hcontroller]
    rfl
  rw [resourceClass, resourceClass, hspaces, hnamed]

/-- A declaration that is reported, with the suggestion for it. -/
theorem excessRoutes?_eq_some {n : Node} {s : RouteScope} {t : Tables} {message : String}
    (h : excessRoutes? n s t = some message) : ∃ name, (names n).head? = some name ∧
      message = "restrict auto-generated routes " ++ "/".intercalate (resourcePath s name) ++ " ("
        ++ suggestion (defaultActions n.messageText) ((resourceActions n.messageText
          n.options?).filter (t.controllerMethods.has (resourceClass s name n) · none)) ++ ")" := by
  obtain ⟨name, hname, hreport⟩ := Option.bind_eq_some_iff.1 h
  refine ⟨name, (Option.filter_eq_some_iff.1 hname).1, ?_⟩
  dsimp only at hreport
  split at hreport
  · exact absurd hreport.symm (Option.some_ne_none message)
  · exact (Option.some.inj hreport).symm

/-- A declaration is left alone when its controller has all that it generates. -/
theorem excessRoutes?_eq_none {n : Node} {s : RouteScope} {t : Tables} {name : String}
    (hname : (names n).head? = some name) (h : ∀ a ∈ resourceActions n.messageText n.options?,
      t.controllerMethods.has (resourceClass s name n) a none) : excessRoutes? n s t = none := by
  have hall : (resourceActions n.messageText n.options?).all
      (t.controllerMethods.has (resourceClass s name n) · none) := List.all_eq_true.2 h
  cases hdeclares : declaresResource n with
  | false => exact excessRoutes?_of_not_declaresResource (Bool.eq_false_iff.1 hdeclares) s t
  | true =>
    have hfirst : (names n).head?.filter (fun _ => declaresResource n) = some name :=
      Option.filter_eq_some_iff.2 ⟨hname, hdeclares⟩
    rw [excessRoutes?, hfirst, Option.bind_some]
    simp only [hall, Bool.or_true, if_true]

section Following
variable {ν : Type} (ignored : List FilePattern) (t : Tables) (notes : List ν) (s : RouteScope)
  (ds : List Diagnostic) {file : Path} (hfile : (routeOptions (ν := ν) ignored).accepts file)
  (n : Node)
include hfile

/-- To follow a suggestion settles it. An option that lists what is suggested leaves exactly those
of the generated actions that the controller has, and a declaration with it instead of the former
restrictions is not reported in the same namespaces. -/
theorem suggestion_settles
    (hdefault : ∀ only, option? n.options? "only" = some only →
      ∀ a ∈ only.stringList, a ∈ defaultActions n.messageText)
    {s' : RouteScope} {new : List Diagnostic} (hreported : new ≠ [])
    (hrun : Run.announce (.node .enter file n) (reviewing ignored t notes s ds) =
      (reviewing ignored t notes s' (ds ++ new), none)) :
    ∃ name, (names n).head? = some name ∧
      let implemented := (resourceActions n.messageText n.options?).filter
        (t.controllerMethods.has (resourceClass s name n) · none)
      let restriction := suggested (defaultActions n.messageText) implemented
      restriction.key ∈ restrictionKeys ∧
      new.map (·.message) = ["restrict auto-generated routes " ++
        "/".intercalate (resourcePath s name) ++ " (" ++ restriction.key ++ ": [" ++
        symbols restriction.names ++ "])"] ∧
      (∀ options, restriction.Sole options →
        ∀ a, a ∈ resourceActions n.messageText options ↔ a ∈ implemented) ∧
      ∀ n', restriction.Replaces n n' → ∀ s₂ ds₂, s₂.namespaces = s.namespaces →
        ∃ s₂', Run.announce (.node .enter file n') (reviewing ignored t notes s₂ ds₂) =
          (reviewing ignored t notes s₂' ds₂, none) := by
  have hnew : new = reports (ν := ν) ignored t s n file := by
    rw [announce_enter ignored t notes s ds hfile n] at hrun
    have hdiagnostics := congrArg (fun r => r.1.checks.flatMap (·.diagnostics)) hrun
    simpa only [reviewing, List.flatMap_singleton, List.append_cancel_left_eq, eq_comm] using
      hdiagnostics
  subst hnew
  cases hexcess : excessRoutes? n s t with
  | none => exact absurd (by simp [reports, hexcess]) hreported
  | some message =>
    obtain ⟨name, hname, rfl⟩ := excessRoutes?_eq_some hexcess
    refine ⟨name, hname, ?_⟩
    intro implemented restriction
    have himplemented : ∀ a ∈ implemented, a ∈ defaultActions n.messageText := fun a ha =>
      resourceActions_subset hdefault a (List.mem_filter.1 ha).1
    have hread (options : Option Node) (h : restriction.Sole options) :=
      mem_resourceActions_of_sole himplemented h
    refine ⟨suggested_key_mem _ _, ?_, hread, fun n' h s₂ ds₂ hspaces => ?_⟩
    · have hbracket : "]" ++ ")" = "])" := rfl
      rw [reports, hexcess, suggestion_eq]
      simp only [String.append_assoc, hbracket]
      rfl
    · have hclass := resourceClass_eq hspaces (h.others "controller" (by decide)) name
      have hsettled : excessRoutes? n' s₂ t = none := by
        have hsame : (names n').head? = some name := h.names.symm ▸ hname
        refine excessRoutes?_eq_none hsame fun a ha => ?_
        rw [h.message] at ha
        rw [hclass]
        exact (List.mem_filter.1 ((hread _ h.restricted a).1 ha)).2
      refine ⟨visitResource n' (s₂.inside n'), ?_⟩
      rw [announce_enter ignored t notes s₂ ds₂ hfile n', reports, hsettled]
      simp

end Following

/-- A declaration with a restriction, such as `resources :posts, only: [:index]`. -/
def restrictedOf (message name : String) (r : Restriction) : Node :=
  .ofKind .command [.node (.ofKind .identifier [.literal (.str message)]),
    .node (.ofKind .list [.node (symbolOf name), .node r.node])]

theorem suggestion_settles_posts :
    let t := withIndex "PostsController"
    let n := declarationOf "resources" ["posts"]
    let r : Restriction := ⟨"only", ["index"]⟩
    let n' := restrictedOf "resources" "posts" r
    (reports (ν := Empty) [] t {} n routeFile).map (·.message) =
      ["restrict auto-generated routes posts (only: [:index])"] ∧
    (∀ a, a ∈ resourceActions "resources" (some r.node) ↔ a ∈ ["index"]) ∧
    ∃ s, Run.announce (.node .enter routeFile n') (reviewing (ν := Empty) [] t [] {} []) =
      (reviewing [] t [] s [], none) := by
  intro t n r n'
  have hfile : (routeOptions (ν := Empty) []).accepts routeFile := by decide +kernel
  have hoptions : n.options? = none := rfl
  have hreported : reports (ν := Empty) [] t {} n routeFile ≠ [] := by decide +kernel
  obtain ⟨name, hname, hsettles⟩ := suggestion_settles [] t [] {} [] hfile n
    (fun only h => absurd h.symm (Option.some_ne_none only)) hreported
    (announce_enter [] t [] {} [] hfile n)
  have hposts : (names n).head? = some "posts" := by decide +kernel
  obtain rfl := Option.some.inj (hposts.symm.trans hname)
  have himplemented : (resourceActions n.messageText n.options?).filter
      (t.controllerMethods.has (resourceClass {} "posts" n) · none) = ["index"] := by
    decide +kernel
  have hsuggested : suggested (defaultActions n.messageText) ["index"] = r := by decide +kernel
  dsimp only at hsettles
  rw [himplemented, hsuggested] at hsettles
  obtain ⟨-, hmessages, hread, hsilent⟩ := hsettles
  have hrestricted : n'.options? = some r.node := rfl
  have hcorrected : r.Replaces n n' := {
    declares := by decide +kernel
    message := rfl
    names := by decide +kernel
    restricted := by rw [hrestricted]; exact r.sole_node
    others := fun k hk => by
      have hother : "only" ≠ k := fun h => hk (h ▸ List.mem_cons_self)
      rw [hrestricted, Restriction.option?_node, if_neg hother, hoptions]
      rfl }
  exact ⟨hmessages.trans (by decide +kernel), hread _ r.sole_node,
    hsilent n' hcorrected {} [] rfl⟩

end Practice
end RailsReview
