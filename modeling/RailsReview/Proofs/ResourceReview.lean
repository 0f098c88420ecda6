import RailsReview.Practice.Routes
import RailsReview.Proofs.Alone
import RailsReview.Proofs.RouteScope

/-!
# Resources that generate too much

The survey of routes and the review of resources read the same declarations. Both know the
namespaces around a declaration from the blocks that are open, and both derive its routes in the
same way, but the review looks at the first name only.
-/
namespace RailsReview

namespace Routing

/-- The namespaces inside of open nodes, the innermost of which comes first. -/
def spacesAround (outer : List Node) : List String :=
  outer.foldr (fun n spaces => spacesInside spaces n) []

/-- What a resource declaration generates for some of its names. -/
def generated (n : Node) (names : List String) : List Target :=
  names.flatMap fun name =>
    (resourceActions n.messageText n.options?).map (⟨resourceController name n.options?, ·⟩)

/-- What its options `member` and `collection` add to that. -/
def extras (n : Node) (names : List String) : List Target :=
  names.flatMap fun name =>
    (extraActions n.options?).map (⟨resourceController name n.options?, ·⟩)

/-- The route to a target in some namespaces. -/
def Target.route (spaces : List String) (x : Target) : Route := .of spaces x.controller x.action

theorem mem_resourceTargets {n : Node} {x : Target} :
    x ∈ resourceTargets n ↔ x ∈ generated n (names n) ∨ x ∈ extras n (names n) := by
  simp only [resourceTargets, generated, extras, List.mem_flatMap, List.map_append, List.mem_append]
  constructor
  · rintro ⟨name, hname, h | h⟩
    · exact .inl ⟨name, hname, h⟩
    · exact .inr ⟨name, hname, h⟩
  · rintro (⟨name, hname, h⟩ | ⟨name, hname, h⟩)
    · exact ⟨name, hname, .inl h⟩
    · exact ⟨name, hname, .inr h⟩

/-- The routes of a resource declaration do not depend on the resource around it. -/
theorem mem_routesAt {n : Node} (h : Practice.declaresResource n) {spaces : List String}
    {current? : Option String} {r : Route} : r ∈ routesAt spaces current? n ↔
      ∃ x, (x ∈ generated n (names n) ∨ x ∈ extras n (names n)) ∧ x.isWhole ∧
        x.route spaces = r := by
  obtain ⟨hcall, hresource⟩ := Bool.and_eq_true_iff.1 h
  have htargets : targets current? n = resourceTargets n := by
    simp [targets, hcall, hresource]
  simp only [routesAt, htargets, List.mem_map, List.mem_filter, mem_resourceTargets, Target.route,
    and_assoc]

end Routing

namespace RouteBlock

/-- The block as it was when it was opened, with no declaration seen in it. -/
def unseen : RouteBlock → RouteBlock
  | resource name controller shallow _ => resource name controller shallow false
  | b => b

@[simp] theorem namespace?_unseen (b : RouteBlock) : b.unseen.namespace? = b.namespace? := by
  cases b with
  | space | resource | other => rfl

theorem unseen_of (n : Node) : (of n).unseen = of n := by
  simp only [of]
  split
  · rfl
  · split
    · rfl
    · split
      · rfl
      · rfl

end RouteBlock

namespace RouteScope

/-- The scope as if no declaration had been visited. -/
def unseen (s : RouteScope) : RouteScope := ⟨s.blocks.map RouteBlock.unseen⟩

/-- The scope inside of open nodes. -/
def around (outer : List Node) : RouteScope := outer.foldr inside {}

@[simp] theorem namespaces_unseen (s : RouteScope) : s.unseen.namespaces = s.namespaces := by
  have h : RouteBlock.namespace? ∘ RouteBlock.unseen = RouteBlock.namespace? :=
    funext RouteBlock.namespace?_unseen
  rw [namespaces, namespaces, unseen, List.filterMap_map, h]

theorem unseen_follow (phase : Phase) (n : Node) (s : RouteScope) :
    (s.follow phase n).unseen = s.unseen.follow phase n := by
  unfold follow
  split
  · cases phase with
    | enter => simp [enter, unseen, RouteBlock.unseen_of]
    | exit => simp [leave, unseen]
  · rfl

/-- Visiting a declaration sets a mark and nothing else. -/
theorem unseen_visitResource (s : RouteScope) : s.visitResource.2.unseen = s.unseen := by
  unfold visitResource
  split
  · rename_i h
    simp [unseen, h, RouteBlock.unseen]
  · rfl

theorem namespaces_around (outer : List Node) :
    (around outer).namespaces = Routing.spacesAround outer := by
  induction outer with
  | nil => rfl
  | cons n outer ih =>
    have hcons : around (n :: outer) = (around outer).inside n := rfl
    rw [hcons, namespaces_inside, ih]
    rfl

end RouteScope

/-- Whether the controller of a route is declared and does not have the action. -/
def Tables.lacks (t : Tables) (r : Route) : Bool :=
  t.controllers.declares r.controllerClass &&
    !t.controllerMethods.has r.controllerClass r.action none

namespace Practice
open Routing
variable {ν : Type}

theorem unseen_visitResource (n : Node) (s : RouteScope) :
    (visitResource n s).unseen = s.unseen := by
  unfold visitResource
  split
  · exact s.unseen_visitResource
  · rfl

theorem excessRoutes?_of_not_declaresResource {n : Node} (h : ¬declaresResource n)
    (s : RouteScope) (t : Tables) : excessRoutes? n s t = none := by
  have hnone : (names n).head?.filter (fun _ => declaresResource n) = none :=
    Option.filter_eq_none_iff.2 fun _ _ => h
  rw [excessRoutes?, hnone, Option.bind_none]

/-- All that one name generates belongs to one class. -/
theorem exists_lacks_generated (n : Node) (name : String) (s : RouteScope) (t : Tables) :
    (∃ x ∈ generated n [name], t.lacks (x.route s.namespaces)) ↔
      t.controllers.declares (resourceClass s name n) ∧
        (resourceActions n.messageText n.options?).all
          (fun a => t.controllerMethods.has (resourceClass s name n) a none) = false := by
  have hlacks (a : String) :
      t.lacks (Target.route s.namespaces ⟨resourceController name n.options?, a⟩) ↔
        t.controllers.declares (resourceClass s name n) ∧
          ¬t.controllerMethods.has (resourceClass s name n) a none := by
    simp [Tables.lacks, Target.route, resourceClass, Route.of, Route.controllerClass]
  rw [generated, List.flatMap_singleton, List.all_eq_false]
  constructor
  · rintro ⟨x, hx, hlack⟩
    obtain ⟨a, ha, rfl⟩ := List.mem_map.1 hx
    obtain ⟨hdeclared, hmissing⟩ := (hlacks a).1 hlack
    exact ⟨hdeclared, a, ha, hmissing⟩
  · rintro ⟨hdeclared, a, ha, hmissing⟩
    exact ⟨_, List.mem_map_of_mem ha, (hlacks a).2 ⟨hdeclared, hmissing⟩⟩

/-- A declaration is reported when something that it generates for its first name is lacking. -/
theorem isSome_excessRoutes? (n : Node) (s : RouteScope) (t : Tables) :
    (excessRoutes? n s t).isSome ↔ declaresResource n ∧
      ∃ x ∈ generated n ((names n).take 1), t.lacks (x.route s.namespaces) := by
  by_cases h : declaresResource n
  · cases hnames : names n with
    | nil => simp [excessRoutes?, hnames, generated]
    | cons name rest =>
      rw [List.take_succ_cons, List.take_zero, exists_lacks_generated]
      simp only [excessRoutes?, hnames, List.head?_cons, Option.filter_some, h, if_true,
        Option.bind_some]
      cases t.controllers.declares (resourceClass s name n) with
      | false => simp
      | true =>
        cases (resourceActions n.messageText n.options?).all
          fun a => t.controllerMethods.has (resourceClass s name n) a none with
        | false => simp
        | true => simp
  · simp [excessRoutes?_of_not_declaresResource h, h]

theorem followsRoutes_routeOptions (ignored : List FilePattern) :
    (routeOptions (ν := ν) ignored).spec.FollowsRoutes
      [.report fun site n scope t => ((excessRoutes? n scope t).map site.finding).toList,
        .update visitResource] where
  kinds k := by simp [routeOptions, Spec.trackRoutes]
  enterBlock := rfl
  leaveBlock := rfl
  enterCall k hk := by
    have hnodup : callKinds.Nodup := by decide
    have hblock := ne_block_of_mem_callKinds hk
    simp [hblock.symm, hk, hnodup, routeOptions, Spec.trackRoutes]
  leaveCall k hk := by
    have hnodup : callKinds.Nodup := by decide
    have hblock := ne_block_of_mem_callKinds hk
    simp [hblock.symm, hnodup, routeOptions, Spec.trackRoutes]

section Steps
variable (ignored : List FilePattern) (t : Tables) (notes : List ν) (s : RouteScope)
  (ds : List Diagnostic) {file : Path} (hfile : (routeOptions (ν := ν) ignored).accepts file)
  (n : Node)

/-- The review alone, with these blocks open. -/
def reviewing : Session ν := ⟨[⟨(routeOptions ignored).spec, s, ds⟩], t, notes⟩

/-- What the review reports of a node. -/
def reports (file : Path) : List Diagnostic :=
  ((excessRoutes? n s t).map (Site.finding ⟨some file, n.line?⟩)).toList.map
    (routeOptions (ν := ν) ignored).diagnostic

theorem reports_ne_nil_iff (file : Path) : reports (ν := ν) ignored t s n file ≠ [] ↔
    declaresResource n ∧
      ∃ x ∈ generated n ((names n).take 1), t.lacks (x.route s.namespaces) := by
  rw [← isSome_excessRoutes?]
  cases h : excessRoutes? n s t with
  | none => simp [reports, h]
  | some message => simp [reports, h]

theorem place_of_mem_reports {d : Diagnostic} (h : d ∈ reports (ν := ν) ignored t s n file) :
    d.file = file ∧ d.lines = [n.line?.getD 0] := by
  obtain ⟨finding, hfinding, rfl⟩ := List.mem_map.1 h
  obtain ⟨message, -, rfl⟩ := Option.map_eq_some_iff.1 (Option.mem_toList.1 hfinding)
  exact ⟨rfl, rfl⟩

include hfile

theorem announce_enter : Run.announce (.node .enter file n) (reviewing ignored t notes s ds) =
    (reviewing ignored t notes (visitResource n (s.inside n))
      (ds ++ reports (ν := ν) ignored t s n file), none) := by
  refine (followsRoutes_routeOptions ignored).announce_review (fun site n s t h => ?_) hfile s ds t
    notes
  rw [excessRoutes?_of_not_declaresResource h]
  rfl

theorem announce_exit : Run.announce (.node .exit file n) (reviewing ignored t notes s ds) =
    (reviewing ignored t notes (s.follow .exit n) ds, none) :=
  (followsRoutes_routeOptions ignored).announce_other s ds t notes hfile (.inl rfl)

end Steps

section Runs
open Call

/-- The review has open what is open in the tree, apart from the declarations it has seen. -/
theorem leads_reviewing (ignored : List FilePattern) (t : Tables) (notes : List ν) (path : Path)
    (hfile : (routeOptions (ν := ν) ignored).accepts path) (phase : Phase) (outer : List Node)
    (n : Node) :
    Run.Leads (σ := RouteScope) (routeOptions (ν := ν) ignored).spec notes
      (fun outer s _ t' => s.unseen = .around outer ∧ t = t') (phase.openBefore outer n)
      [.node phase path n] (phase.openAfter outer n) := by
  rintro s ds _ ⟨hopen, rfl⟩
  rw [Run.hear_singleton]
  cases phase with
  | enter =>
    refine ⟨_, _, t, announce_enter ignored t notes s ds hfile n, ?_, rfl⟩
    have hinside : (s.inside n).unseen = s.unseen.inside n := s.unseen_follow .enter n
    rw [unseen_visitResource, hinside, hopen]
    rfl
  | exit =>
    refine ⟨_, _, t, announce_exit ignored t notes s ds hfile n, ?_, rfl⟩
    have hinside : s.unseen = (RouteScope.around outer).inside n := hopen
    rw [RouteScope.unseen_follow, hinside, RouteScope.follow_exit_inside]
    rfl

/-- The survey has open what is open in the tree. -/
theorem leads_routing (ignored : List FilePattern) (t : Tables) (notes : List ν) (path : Path)
    (hfile : (Survey.routes (ν := ν) ignored).accepts path) (phase : Phase) (outer : List Node)
    (n : Node) :
    Run.Leads (σ := RouteScope) (Survey.routes (ν := ν) ignored).spec notes
      (fun outer s ds t' => s = .around outer ∧ ds = [] ∧
        ∃ found, t' = { t with routes := ⟨found⟩ }) (phase.openBefore outer n)
      [.node phase path n] (phase.openAfter outer n) := by
  rintro _ _ _ ⟨rfl, rfl, found, rfl⟩
  rw [Run.hear_singleton]
  cases phase with
  | enter =>
    exact ⟨_, _, _, Survey.announce_enter ignored t notes _ found hfile n, rfl, rfl, _, rfl⟩
  | exit =>
    exact ⟨_, _, _, Survey.announce_exit ignored t notes (.around outer) found hfile n, rfl, rfl,
      found, rfl⟩

/-- At every place of a tree the survey records what a resource declaration generates for all of its
names, and the review reports the declaration exactly when something that it generates for the first
of them is lacking, in the same namespaces. For a declaration with one name this is anything that it
generates. -/
theorem first_name_reviewed (before : List (Path × Node)) (hbefore : ∀ x ∈ before, x.2.isPlain)
    (path : Path) (root : Node) (hroot : root.isPlain) (surveyed reviewed : List FilePattern)
    (hsurvey : (Survey.routes (ν := ν) surveyed).accepts path)
    (hreview : (routeOptions (ν := ν) reviewed).accepts path)
    {made rest : List (List Node × Call)} {outer : List Node} {n : Node}
    (hcalls : around path [] root = made ++ (outer, .node .enter path n) :: rest)
    (t t' : Tables) (notes : List ν) :
    let calls := ofTrees before ++ made.map (·.2)
    let spaces := spacesAround outer
    ofTree path root = made.map (·.2) ++ .node .enter path n :: rest.map (·.2) ∧
    (∃ s found new,
      Run.hear calls ⟨[Survey.routes surveyed], t, notes⟩ =
        (Survey.routing surveyed t notes s found, none) ∧
      Run.announce (.node .enter path n) (Survey.routing surveyed t notes s found) =
        (Survey.routing surveyed t notes (s.inside n) (found ++ new), none) ∧
      (declaresResource n → ∀ r, r ∈ new ↔
        ∃ x, (x ∈ generated n (names n) ∨ x ∈ extras n (names n)) ∧ x.isWhole ∧
          x.route spaces = r)) ∧
    ∃ s ds s' new,
      Run.hear calls ⟨[routeOptions reviewed], t', notes⟩ =
        (reviewing reviewed t' notes s ds, none) ∧
      Run.announce (.node .enter path n) (reviewing reviewed t' notes s ds) =
        (reviewing reviewed t' notes s' (ds ++ new), none) ∧
      (∀ d ∈ new, d.file = path ∧ d.lines = [n.line?.getD 0]) ∧
      (new ≠ [] ↔ declaresResource n ∧
        ∃ x ∈ generated n ((names n).take 1), t'.lacks (x.route spaces)) ∧
      ((names n).length ≤ 1 → (new ≠ [] ↔ declaresResource n ∧
        ∃ x ∈ generated n (names n), t'.lacks (x.route spaces))) := by
  intro calls spaces
  refine ⟨by rw [ofTree_of_isPlain path hroot, hcalls, List.map_append, List.map_cons], ?_, ?_⟩
  · have hleads := Run.leads_inside (σ := RouteScope) (leads_routing surveyed t notes) hbefore
      hsurvey hcalls
    obtain ⟨_, _, _, hrun, rfl, rfl, found, rfl⟩ := hleads {} [] t ⟨rfl, rfl, t.routes.routes, rfl⟩
    refine ⟨.around outer, found, _, hrun, Survey.announce_enter surveyed t notes _ found hsurvey n,
      fun hdeclares r => ?_⟩
    rw [RouteScope.namespaces_around]
    exact mem_routesAt hdeclares
  · have hleads := Run.leads_inside (σ := RouteScope) (leads_reviewing reviewed t' notes) hbefore
      hreview hcalls
    obtain ⟨s, ds, _, hrun, hopen, rfl⟩ := hleads {} [] t' ⟨rfl, rfl⟩
    have hspaces : s.namespaces = spaces := by
      rw [← s.namespaces_unseen, hopen, RouteScope.namespaces_around]
      rfl
    have hfirst := reports_ne_nil_iff (ν := ν) reviewed t' s n path
    rw [hspaces] at hfirst
    refine ⟨s, ds, _, _, hrun, announce_enter reviewed t' notes s ds hreview n,
      fun d hd => place_of_mem_reports reviewed t' s n hd, hfirst, fun hone => ?_⟩
    rwa [List.take_of_length_le hone] at hfirst

/-- A declaration such as `resources :posts, :comments`. -/
def declarationOf (message : String) (names : List String) : Node :=
  let word (k : Kind) (s : String) := Node.ofKind k [.literal (.str s)]
  let symbol (s : String) := Node.ofKind .symbolLiteral [.node (word .identifier s)]
  .ofKind .command [.node (word .identifier message),
    .node (.ofKind .list (names.map fun name => .node (symbol name)))]

/-- `namespace :admin` with `resources :comments` inside. -/
def adminComments : Node :=
  .ofKind .methodAddBlock [.node (declarationOf "namespace" ["admin"]),
    .node (.ofKind .doBlock [.absent, .node (declarationOf "resources" ["comments"])])]

def routeFile : Path := ⟨"config/routes.rb"⟩

/-- A controller with a single action. -/
def withIndex (className : String) : Tables :=
  { controllers := ⟨[⟨className, "ApplicationController", []⟩]⟩
    controllerMethods := MethodTable.add {} className "index" ⟨"app/controllers/x.rb"⟩ 2 .public_ }

theorem first_name_reviewed_admin :
    let t := withIndex "Admin::CommentsController"
    ∃ s ds s' new,
      Run.announce (.node .enter routeFile (declarationOf "resources" ["comments"]))
          (reviewing (ν := Empty) [] t [] s ds) = (reviewing [] t [] s' (ds ++ new), none) ∧
      (∀ d ∈ new, d.file = routeFile ∧ d.lines = [0]) ∧ new ≠ [] := by
  intro t
  let calls := around routeFile [] adminComments
  -- The block with its head, and the body that is still open, come first.
  have hcalls : calls = calls.take 12 ++
      (_, .node .enter routeFile (declarationOf "resources" ["comments"])) :: calls.drop 13 := rfl
  have hplaces := first_name_reviewed (ν := Empty) [] nofun routeFile adminComments rfl [] []
    (by decide +kernel) (by decide +kernel) hcalls {} t []
  obtain ⟨-, -, s, ds, s', new, -, hcall, hplaces, hreported, -⟩ := hplaces
  exact ⟨s, ds, s', new, hcall, hplaces, hreported.2 (by decide +kernel)⟩

/-- Of two resources in one declaration the second one is not reviewed, although the survey knows
its routes. -/
theorem second_name_unreviewed :
    let calls := ofTree routeFile (declarationOf "resources" ["posts", "comments"])
    let t := withIndex "CommentsController"
    ((Run.hear calls ⟨[routeOptions (ν := Empty) []], t, []⟩).1.checks.flatMap
      (·.diagnostics.map (·.message))) = [] ∧
    ∃ r ∈ (Run.hear calls ⟨[Survey.routes (ν := Empty) []], {}, []⟩).1.tables.routes.routes,
      t.lacks r := by
  decide +kernel

end Runs

end Practice
end RailsReview
