import RailsReview.Practice.Routes
import RailsReview.Proofs.Handlers
import RailsReview.Proofs.Lexical
import RailsReview.Survey.Project

/-!
# The routes of a tree

What a route declaration leads to depends on the namespaces and on the resource around it. Both are
handed down the tree, and the routes are collected from left to right. The survey, which keeps open
blocks instead, comes to the same routes. Two reviews follow the open blocks like it, but look at
resource declarations only.
-/
namespace RailsReview

namespace Routing

/-- The namespace that a block opens, which has to have a name. -/
def spaceName? (n : Node) : Option String :=
  if n.kind ≠ .methodAddBlock then none
  else if n.messageText = "namespace" then nonempty? (((n.slot? 0).elim [] names).headD "")
  else if n.messageText = "scope" then
    nonempty? (Node.optionText ((n.slot? 0).bind Node.options?) "module")
  else none

/-- The controller of the resource that a block belongs to. -/
def blockController? (n : Node) : Option String :=
  if n.kind = .methodAddBlock ∧ isResource n.messageText then
    some (resourceController (((n.slot? 0).elim [] names).headD "")
      ((n.slot? 0).bind Node.options?))
  else none

/-- The namespaces inside of a node, given those around it; the outermost comes first. -/
def spacesInside (spaces : List String) (n : Node) : List String :=
  spaces ++ (spaceName? n).toList

/-- The current controller inside of a node: that of its resource, none in a new namespace, and
otherwise the one around it. -/
def controllerInside? (current? : Option String) (n : Node) : Option String :=
  (blockController? n).or (if (spaceName? n).isSome then none else current?)

/-- Whether a target has both a controller and an action. -/
def Target.isWhole (x : Target) : Bool := x.controller ≠ "" && x.action ≠ ""

/-- The routes that a node declares where these namespaces and this controller are around it. Only
calls without a receiver have targets. -/
def routesAt (spaces : List String) (current? : Option String) (n : Node) : List Route :=
  ((targets current? n).filter Target.isWhole).map fun x => .of spaces x.controller x.action

mutual

/-- The routes of a tree, in the order of their declarations. -/
def routesIn (spaces : List String) (current? : Option String) : Node → List Route
  | .mk k slots p own =>
    let n := Node.mk k slots p own
    routesAt spaces current? n ++
      routesInSlots (spacesInside spaces n) (controllerInside? current? n) slots

def routesInSlots (spaces : List String) (current? : Option String) : List Slot → List Route
  | [] => []
  | .node n :: rest => routesIn spaces current? n ++ routesInSlots spaces current? rest
  | _ :: rest => routesInSlots spaces current? rest

end

theorem ne_block_of_mem_callKinds {k : Kind} (h : k ∈ callKinds) : k ≠ .methodAddBlock := by
  rintro rfl
  simp [callKinds] at h

theorem mem_callKinds_of_isRouteCall {n : Node} (h : isRouteCall n) : n.kind ∈ callKinds := by
  unfold isRouteCall at h
  split at h
  · rename_i hk
    simp [hk, callKinds]
  · rename_i hk
    simp [hk, callKinds]
  · cases h

theorem routesAt_of_not_call {n : Node} (h : n.kind ∉ callKinds) (spaces : List String)
    (current? : Option String) : routesAt spaces current? n = [] := by
  have hcall : ¬isRouteCall n := mt mem_callKinds_of_isRouteCall h
  simp [routesAt, targets, hcall]

end Routing

namespace RouteScope
open Routing

/-- The scope inside of a node. -/
def inside (n : Node) (s : RouteScope) : RouteScope :=
  if n.kind = .methodAddBlock then s.enter n else s

/-- The scope after a call, given the one before. -/
def follow (phase : Phase) (n : Node) (s : RouteScope) : RouteScope :=
  if n.kind = .methodAddBlock then
    match phase with
    | .enter => s.enter n
    | .exit => s.leave
  else s

theorem follow_of_not_block {n : Node} (h : n.kind ≠ .methodAddBlock) (phase : Phase)
    (s : RouteScope) : s.follow phase n = s := if_neg h

theorem follow_exit_inside (n : Node) (s : RouteScope) : (s.inside n).follow .exit n = s := by
  unfold follow inside
  split
  · rfl
  · rfl

theorem namespace?_of {n : Node} (hk : n.kind = .methodAddBlock) :
    (RouteBlock.of n).namespace? = spaceName? n := by
  simp only [RouteBlock.of, spaceName?, hk, ne_eq, not_true_eq_false, if_false]
  by_cases hspace : n.messageText = "namespace"
  · rw [if_pos hspace, if_pos hspace]
    rfl
  · rw [if_neg hspace, if_neg hspace]
    by_cases hscope : n.messageText = "scope"
    · rw [if_pos hscope, if_pos hscope]
      rfl
    · rw [if_neg hscope, if_neg hscope]
      split
      · rfl
      · rfl

theorem namespaces_inside (n : Node) (s : RouteScope) :
    (s.inside n).namespaces = spacesInside s.namespaces n := by
  unfold inside spacesInside
  by_cases hk : n.kind = .methodAddBlock
  · rw [if_pos hk, ← namespace?_of hk]
    simp only [namespaces, enter]
    cases h : (RouteBlock.of n).namespace? with
    | none => rw [List.filterMap_cons_none h]; simp
    | some name => rw [List.filterMap_cons_some h]; simp
  · rw [if_neg hk, spaceName?, if_pos hk]
    exact (List.append_nil _).symm

theorem innermostController?_space (name : String) (blocks : List RouteBlock) :
    innermostController? (.space name :: blocks) =
      if (nonempty? name).isSome then none else innermostController? blocks := by
  unfold nonempty?
  by_cases h : name = ""
  · simp [innermostController?, h]
  · simp [innermostController?, h]

theorem controller?_inside (n : Node) (s : RouteScope) :
    (s.inside n).controller? = controllerInside? s.controller? n := by
  unfold inside controllerInside?
  by_cases hk : n.kind = .methodAddBlock
  · rw [if_pos hk]
    simp only [controller?, enter, blockController?, spaceName?, hk, ne_eq, not_true_eq_false,
      if_false, true_and, RouteBlock.of]
    by_cases hspace : n.messageText = "namespace"
    · have hresource : isResource "namespace" = false := by decide
      simp only [hspace, if_true, hresource, Bool.false_eq_true, if_false]
      exact innermostController?_space _ s.blocks
    · by_cases hscope : n.messageText = "scope"
      · have hother : ("scope" = "namespace") = False := by decide
        have hresource : isResource "scope" = false := by decide
        simp only [hscope, hother, if_true, hresource, Bool.false_eq_true, if_false]
        exact innermostController?_space _ s.blocks
      · rw [if_neg hspace, if_neg hscope, if_neg hspace, if_neg hscope]
        by_cases hresource : isResource n.messageText
        · rw [if_pos hresource, if_pos hresource]
          rfl
        · rw [if_neg hresource, if_neg hresource]
          rfl
  · rw [if_neg hk, spaceName?, if_pos hk, blockController?, if_neg fun h => hk h.1]
    rfl

end RouteScope

namespace Spec
variable {ν : Type}

/-- A check that keeps the open blocks and does more than that only when it enters a call. -/
structure FollowsRoutes (spec : Spec ν RouteScope)
    (atCalls : List (Handler ν RouteScope Node)) : Prop where
  kinds : ∀ k, k ∈ spec.kinds ↔ k = .methodAddBlock ∨ k ∈ Routing.callKinds
  enterBlock : spec.handlers .enter .methodAddBlock =
    [.update fun n => Field.whole.modify (.enter n)]
  leaveBlock : spec.handlers .exit .methodAddBlock = [.update fun _ => Field.whole.modify .leave]
  enterCall : ∀ k ∈ Routing.callKinds, spec.handlers .enter k = atCalls
  leaveCall : ∀ k ∈ Routing.callKinds, spec.handlers .exit k = []

namespace FollowsRoutes
variable {spec : Spec ν RouteScope} {atCalls : List (Handler ν RouteScope Node)} {file : Path}
  {n : Node} (s : RouteScope) (ds : List Diagnostic) (t : Tables) (notes : List ν)

/-- All other calls change the open blocks at most. -/
theorem announce_other (h : spec.FollowsRoutes atCalls) (hfile : spec.accepts file) {phase : Phase}
    (hother : phase = .exit ∨ n.kind ∉ Routing.callKinds) :
    Run.announce (.node phase file n) ⟨[⟨spec, s, ds⟩], t, notes⟩ =
      (⟨[⟨spec, s.follow phase n, ds⟩], t, notes⟩, none) := by
  by_cases hblock : n.kind = .methodAddBlock
  · have hreaches : (Call.node phase file n).reaches (⟨spec, s, ds⟩ : Check ν) :=
      Call.reaches_node.2 ⟨(h.kinds _).2 (.inl hblock), hfile⟩
    apply Run.announce_single hreaches
    cases phase with
    | enter =>
      have hfollow : s.follow .enter n = s.enter n := if_pos hblock
      simp only [hfollow, Call.answer, Run.runCheck, hblock, h.enterBlock, Run.handleAll,
        Handler.update, List.map_nil, List.append_nil]
      rfl
    | exit =>
      have hfollow : s.follow .exit n = s.leave := if_pos hblock
      simp only [hfollow, Call.answer, Run.runCheck, hblock, h.leaveBlock, Run.handleAll,
        Handler.update, List.map_nil, List.append_nil]
      rfl
  · rw [RouteScope.follow_of_not_block hblock]
    by_cases hcall : n.kind ∈ Routing.callKinds
    · obtain rfl : phase = .exit := hother.resolve_right (not_not_intro hcall)
      have hreaches : (Call.node .exit file n).reaches (⟨spec, s, ds⟩ : Check ν) :=
        Call.reaches_node.2 ⟨(h.kinds _).2 (.inr hcall), hfile⟩
      apply Run.announce_single hreaches
      simp only [Call.answer, Run.runCheck, h.leaveCall _ hcall, Run.handleAll, List.map_nil,
        List.append_nil]
    · apply Run.announce_single_of_not_reaches
      rw [Call.reaches_node, h.kinds]
      exact fun hboth => hboth.1.elim hblock hcall

theorem announce_call (h : spec.FollowsRoutes atCalls) (hfile : spec.accepts file)
    (hcall : n.kind ∈ Routing.callKinds) {s' : RouteScope} {t' : Tables} {found : List Finding}
    (heffect : Run.handleAll ⟨some file, n.line?⟩ n atCalls { state := s, tables := t } =
      { state := s', tables := t', findings := found }) :
    Run.announce (.node .enter file n) ⟨[⟨spec, s, ds⟩], t, notes⟩ =
      (⟨[⟨spec, s', ds ++ found.map (⟨spec, s, ds⟩ : Check ν).diagnostic⟩], t', notes⟩, none) := by
  have hreaches : (Call.node .enter file n).reaches (⟨spec, s, ds⟩ : Check ν) :=
    Call.reaches_node.2 ⟨(h.kinds _).2 (.inr hcall), hfile⟩
  apply Run.announce_single hreaches
  simp only [Call.answer, Run.runCheck, h.enterCall _ hcall, heffect]

end FollowsRoutes
end Spec

namespace Survey
variable {ν : Type}

theorem addRoutes_eq (n : Node) (scope : RouteScope) (t : RouteTable) :
    addRoutes n scope t = ⟨t.routes ++ Routing.routesAt scope.namespaces scope.controller? n⟩ := by
  unfold addRoutes Routing.routesAt
  induction Routing.targets scope.controller? n generalizing t with
  | nil => simp
  | cons x rest ih =>
    rw [List.foldl_cons, ih]
    unfold RouteTable.add
    by_cases h : x.controller = "" ∨ x.action = ""
    · have hpart : x.isWhole = false := by
        simpa [Routing.Target.isWhole] using fun hne => h.resolve_left hne
      rw [if_pos (by simpa using h), List.filter_cons_of_neg (by simp [hpart])]
    · have hwhole : x.isWhole = true := by
        simpa [Routing.Target.isWhole] using h
      rw [if_neg (by simpa using h), List.filter_cons_of_pos hwhole]
      simp

/-- The survey alone, with these blocks open and these routes found. -/
def routing (ignored : List FilePattern) (t : Tables) (notes : List ν) (s : RouteScope)
    (found : List Route) : Session ν :=
  ⟨[⟨(routes ignored).spec, s, []⟩], { t with routes := ⟨found⟩ }, notes⟩

theorem followsRoutes_routes (ignored : List FilePattern) :
    (routes (ν := ν) ignored).spec.FollowsRoutes
      [.record fun _ n scope t => { t with routes := addRoutes n scope t.routes }] where
  kinds k := by simp [routes, Spec.trackRoutes]
  enterBlock := rfl
  leaveBlock := rfl
  enterCall k hk := by
    have hnodup : Routing.callKinds.Nodup := by decide
    have hblock := Routing.ne_block_of_mem_callKinds hk
    simp [hblock.symm, hk, hnodup, routes, Spec.trackRoutes]
  leaveCall k hk := by
    have hnodup : Routing.callKinds.Nodup := by decide
    have hblock := Routing.ne_block_of_mem_callKinds hk
    simp [hblock.symm, hnodup, routes, Spec.trackRoutes]

section Steps
variable (ignored : List FilePattern) (t : Tables) (notes : List ν) (s : RouteScope)
  (found : List Route) {file : Path} (hfile : (routes (ν := ν) ignored).accepts file) (n : Node)
include hfile

theorem announce_enter : Run.announce (.node .enter file n) (routing ignored t notes s found) =
    (routing ignored t notes (s.inside n)
      (found ++ Routing.routesAt s.namespaces s.controller? n), none) := by
  by_cases hcall : n.kind ∈ Routing.callKinds
  · have heffect : Run.handleAll ⟨some file, n.line?⟩ n
        [.record fun _ n scope t => { t with routes := addRoutes n scope t.routes }]
        ({ state := s, tables := { t with routes := ⟨found⟩ } } : Effect ν RouteScope) =
          { state := s
            tables := { t with
              routes := ⟨found ++ Routing.routesAt s.namespaces s.controller? n⟩ }
            findings := [] } := by
      simp only [Run.handleAll, Handler.record, addRoutes_eq, List.append_nil]
    rw [RouteScope.inside, if_neg (Routing.ne_block_of_mem_callKinds hcall)]
    exact (followsRoutes_routes ignored).announce_call s [] _ notes hfile hcall heffect
  · rw [Routing.routesAt_of_not_call hcall, List.append_nil]
    exact (followsRoutes_routes ignored).announce_other s [] _ notes hfile (.inr hcall)

theorem announce_exit :
    Run.announce (.node .exit file n) (routing ignored t notes (s.inside n) found) =
      (routing ignored t notes s found, none) := by
  have hexit := (followsRoutes_routes ignored).announce_other (s.inside n) []
    { t with routes := ⟨found⟩ } notes (n := n) hfile (.inl rfl)
  rwa [RouteScope.follow_exit_inside] at hexit

end Steps

section Trees
variable {ignored : List FilePattern} {t : Tables} {notes : List ν} {file : Path}

mutual

/-- A tree leaves the open blocks as they are and adds its routes. -/
theorem hear_below_routes (hfile : (routes (ν := ν) ignored).accepts file) :
    ∀ n : Node, n.isPlain → ∀ (s : RouteScope) (found : List Route),
    Run.hear (Call.below file n) (routing ignored t notes s found) =
      (routing ignored t notes s (found ++ Routing.routesIn s.namespaces s.controller? n), none)
  | .mk k slots p own, h, s, found => by
    simp only [Node.isPlain, Bool.and_eq_true, Option.isNone_iff_eq_none] at h
    obtain ⟨rfl, hslots⟩ := h
    have henter := announce_enter ignored t notes s found hfile (.mk k slots p none)
    have hinside := hear_belowSlots_routes hfile slots hslots (s.inside (.mk k slots p none))
      (found ++ Routing.routesAt s.namespaces s.controller? (.mk k slots p none))
    have hexit := announce_exit ignored t notes s (found ++
      Routing.routesIn s.namespaces s.controller? (.mk k slots p none)) hfile (.mk k slots p none)
    have hfound : found ++ Routing.routesIn s.namespaces s.controller? (.mk k slots p none) =
        found ++ Routing.routesAt s.namespaces s.controller? (.mk k slots p none) ++
          Routing.routesInSlots (s.inside (.mk k slots p none)).namespaces
            (s.inside (.mk k slots p none)).controller? slots := by
      rw [Routing.routesIn, RouteScope.namespaces_inside, RouteScope.controller?_inside,
        List.append_assoc]
    rw [← hfound] at hinside
    exact Run.hear_below henter hinside hexit

theorem hear_belowSlots_routes (hfile : (routes (ν := ν) ignored).accepts file) :
    ∀ slots : List Slot, Node.arePlain slots → ∀ (s : RouteScope) (found : List Route),
      Run.hear (Call.belowSlots file slots) (routing ignored t notes s found) =
        (routing ignored t notes s
          (found ++ Routing.routesInSlots s.namespaces s.controller? slots), none)
  | [], _, s, found => by
    rw [Routing.routesInSlots, List.append_nil]
    rfl
  | .node n :: rest, h, s, found => by
    simp only [Node.arePlain, Bool.and_eq_true] at h
    rw [Call.belowSlots, Run.hear_append,
      Attempt.andThen_of_none _ (hear_below_routes hfile n h.1 s found),
      hear_belowSlots_routes hfile rest h.2, Routing.routesInSlots, List.append_assoc]
  | .literal _ :: rest, h, s, found => hear_belowSlots_routes hfile rest h s found
  | .absent :: rest, h, s, found => hear_belowSlots_routes hfile rest h s found

end

end Trees

/-- The routes found in trees are, tree by tree, those that the tree has by itself. After every tree
the survey is again as it was, with no block open. -/
theorem routes_lexical (ignored : List FilePattern) (t : Tables) (notes : List ν)
    (trees : List (Path × Node)) (hplain : ∀ x ∈ trees, x.2.isPlain) :
    Attempt.all (trees.map fun x => Run.tree x.2 x.1) ⟨[routes ignored], t, notes⟩ =
      (⟨[routes ignored],
        { t with
          routes := ⟨t.routes.routes ++
            (trees.filter fun x => (routes (ν := ν) ignored).accepts x.1).flatMap fun x =>
              Routing.routesIn [] none x.2⟩ }, notes⟩, none) := by
  rw [Run.trees_eq]
  have hear_trees (found : List Route) :
      Run.hear (Call.ofTrees trees) (routing ignored t notes {} found) =
        (routing ignored t notes {}
          (found ++ (trees.filter fun x => (routes (ν := ν) ignored).accepts x.1).flatMap fun x =>
            Routing.routesIn [] none x.2), none) := by
    induction trees generalizing found with
    | nil =>
      rw [List.filter_nil, List.flatMap_nil, List.append_nil]
      rfl
    | cons x trees ih =>
      have hroot := hplain x (by simp)
      have hrest := ih fun y hy => hplain y (List.mem_cons_of_mem _ hy)
      have hcalls : Call.ofTrees (x :: trees) = Call.ofTree x.1 x.2 ++ Call.ofTrees trees :=
        List.flatMap_cons
      rw [hcalls, Run.hear_append]
      by_cases hfile : (routes (ν := ν) ignored).accepts x.1
      · have htree : Run.hear (Call.ofTree x.1 x.2) (routing ignored t notes {} found) =
            (routing ignored t notes {} (found ++ Routing.routesIn [] none x.2), none) := by
          rw [Call.ofTree_of_isPlain x.1 hroot, Call.around_calls x.1 [] x.2 hroot]
          exact hear_below_routes hfile x.2 hroot {} found
        rw [Attempt.andThen_of_none _ htree, hrest, List.filter_cons, if_pos hfile,
          List.flatMap_cons, List.append_assoc]
      · have htree : Run.hear (Call.ofTree x.1 x.2) (routing ignored t notes {} found) =
            (routing ignored t notes {} found, none) :=
          Run.hear_single_of_not_reaches (Call.not_reaches_ofTree hfile hroot) _ notes
        rw [Attempt.andThen_of_none _ htree, hrest, List.filter_cons, if_neg hfile]
  exact hear_trees t.routes.routes

/-- `namespace :admin` with a route inside. -/
def adminRoutes : Node :=
  let word (k : Kind) (s : String) := Node.ofKind k [.literal (.str s)]
  let symbol (s : String) := Node.ofKind .symbolLiteral [.node (word .identifier s)]
  let call (name : String) (arguments : List Node) := Node.ofKind .command
    [.node (word .identifier name), .node (.ofKind .list (arguments.map .node))]
  .ofKind .methodAddBlock
    [.node (call "namespace" [symbol "admin"]),
      .node (.ofKind .doBlock [.absent, .node (call "get" [symbol "posts/drafts"])])]

theorem routes_lexical_admin :
    Attempt.all ([(⟨"config/routes.rb"⟩, adminRoutes)].map fun x => Run.tree x.2 x.1)
        (⟨[routes []], {}, []⟩ : Session Empty) =
      (⟨[routes []], { routes := ⟨[⟨["admin"], "posts", "drafts"⟩]⟩ }, []⟩, none) := by
  have hplain : ∀ x ∈ [((⟨"config/routes.rb"⟩ : Path), adminRoutes)], x.2.isPlain := by
    rintro x hx
    rw [List.mem_singleton.1 hx]
    rfl
  have h := routes_lexical (ν := Empty) [] {} [] [(⟨"config/routes.rb"⟩, adminRoutes)] hplain
  rw [h]
  have hroutes : (([((⟨"config/routes.rb"⟩ : Path), adminRoutes)].filter fun x =>
      (routes (ν := Empty) []).accepts x.1).flatMap fun x => Routing.routesIn [] none x.2) =
        [⟨["admin"], "posts", "drafts"⟩] := by
    decide +kernel
  rw [hroutes]
  rfl

end Survey

namespace Practice

theorem visitResource_of_not_declaresResource {n : Node} (h : ¬declaresResource n)
    (s : RouteScope) : visitResource n s = s := if_neg h

theorem mem_callKinds_of_declaresResource {n : Node} (h : declaresResource n) :
    n.kind ∈ Routing.callKinds :=
  Routing.mem_callKinds_of_isRouteCall (Bool.and_eq_true_iff.1 h).1

end Practice

namespace Spec.FollowsRoutes
open Practice
variable {ν : Type} {spec : Spec ν RouteScope}
  {reported : Site → Node → RouteScope → Tables → List Finding} {file : Path} {n : Node}

/-- A review that has nothing to say about other nodes than resource declarations. -/
theorem announce_review (h : spec.FollowsRoutes [.report reported, .update visitResource])
    (hsilent : ∀ site n s t, ¬declaresResource n → reported site n s t = [])
    (hfile : spec.accepts file) (s : RouteScope) (ds : List Diagnostic) (t : Tables)
    (notes : List ν) :
    Run.announce (.node .enter file n) ⟨[⟨spec, s, ds⟩], t, notes⟩ =
      (⟨[⟨spec, visitResource n (s.inside n),
        ds ++ (reported ⟨some file, n.line?⟩ n s t).map (⟨spec, s, ds⟩ : Check ν).diagnostic⟩], t,
        notes⟩, none) := by
  by_cases hcall : n.kind ∈ Routing.callKinds
  · rw [RouteScope.inside, if_neg (Routing.ne_block_of_mem_callKinds hcall)]
    refine h.announce_call s ds t notes hfile hcall ?_
    simp only [Run.handleAll, Handler.report, Handler.update, List.append_nil, List.nil_append]
  · have hother : ¬declaresResource n := fun hn => hcall (mem_callKinds_of_declaresResource hn)
    rw [hsilent _ _ _ _ hother, List.map_nil, List.append_nil,
      visitResource_of_not_declaresResource hother]
    exact h.announce_other s ds t notes hfile (.inr hcall)

end Spec.FollowsRoutes

end RailsReview
