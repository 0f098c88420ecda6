import RailsReview.Proofs.Reordering
import RailsReview.Proofs.RouteSpelling

/-!
# The order of options

The survey of routes and the reviews of declared resources find an option by its key. In whichever
order the options of a resource are given, the checks come to the same.
-/
namespace RailsReview
variable {ν σ : Type}

section Declarations
open Node Routing
variable {n : Node} (h : ¬declaresRoutes n)
include h

theorem not_declaresResource_of_not_declaresRoutes : ¬Practice.declaresResource n := by
  intro hn
  obtain ⟨hcall, hmessage⟩ := Bool.and_eq_true_iff.1 hn
  exact h (by rw [declaresRoutes, hcall, hmessage]; rfl)

theorem targets_of_not_declaresRoutes (current? : Option String) : targets current? n = [] := by
  unfold targets
  rw [declaresRoutes] at h
  cases hcall : isRouteCall n with
  | false => rfl
  | true =>
    simp only [hcall, Bool.true_and, Bool.or_eq_true, not_or, beq_iff_eq] at h
    obtain ⟨⟨hresource, hverb⟩, hroot⟩ := h
    simp only [hresource, hverb, hroot, Bool.not_true, Bool.false_eq_true, if_false]

end Declarations

/-- A check of routes that takes the options of a resource in any order. -/
structure Spec.TakesAnyOrder (s : Spec ν σ) : Prop where
  kinds : s.kinds ⊆ Node.routeKinds
  nodes : s.AllAt fun _ k g => g.Respects Node.Reordered k
  others : s.AllAt fun _ k g =>
    k ≠ .methodAddBlock → ∀ n : Node, n.kind = k → ¬n.declaresRoutes → g.IdleAt n

def Check.TakesAnyOrder (c : Check ν) : Prop := c.spec.TakesAnyOrder

theorem Check.takesAnyOrder_congr {c c' : Check ν} (hd : c.design = c'.design)
    (h : c.TakesAnyOrder) : c'.TakesAnyOrder := by
  obtain ⟨s, ds, rfl⟩ := Check.eq_of_design_eq hd
  exact h

namespace Call
open Node
variable {n n' : Node}

theorem heardAlike_reordered (h : Reordered n n') (phase : Phase) (file : Path) :
    HeardAlike (ν := ν) Check.TakesAnyOrder [.node phase file n'] [.node phase file n] :=
  .node_of_equates h.line?_eq fun c hc =>
    { kinds := by rw [h.kind_eq]
      handlers := by rw [h.kind_eq]
      nodes := fun g hg => hc.nodes.handlers g hg h rfl }

theorem heardAlike_of_not_route (hk : n.kind ∉ routeKinds) (phase : Phase) (file : Path) :
    HeardAlike (ν := ν) Check.TakesAnyOrder [.node phase file n] [] :=
  .node_of_idle fun _ hc hkind => absurd (hc.kinds hkind) hk

/-- A tree without route declarations and blocks makes no difference. -/
theorem heardAlike_routeless (h : n.Routeless) (parent : Path) :
    HeardAlike (ν := ν) Check.TakesAnyOrder (below parent n) [] := by
  induction n using size_induction generalizing parent with
  | step n ih =>
    obtain ⟨k, slots, p, own⟩ := n
    rw [Routeless, preorder_eq] at h
    obtain ⟨⟨hroute, hblock⟩, hbelow⟩ := List.forall_mem_cons.1 h
    refine .around_idle Check.takesAnyOrder_congr (fun phase => ?_) ?_
    · exact .node_of_idle fun c hc _ g hg => hc.others.handlers g hg hblock _ rfl hroute
    · have hslot (file : Path) : ∀ s ∈ slots,
          HeardAlike (ν := ν) Check.TakesAnyOrder (belowSlots file [s]) [] := by
        intro s hs
        cases s with
        | node m =>
          rw [belowSlots, belowSlots, List.append_nil]
          have hmem : m ∈ (Node.mk k slots p own).children :=
            List.mem_filterMap.2 ⟨.node m, hs, rfl⟩
          exact ih m (size_lt_of_mem_children hmem)
            (fun m' hm' => hbelow m' (List.mem_flatMap.2 ⟨m, hmem, hm'⟩)) _
        | literal _ => exact .refl _
        | absent => exact .refl _
      have hslots := heardAlike_filter Check.takesAnyOrder_congr (fun _ => false)
        fun s hs _ => hslot ((Node.mk k slots p own).fileBelow parent) s hs
      rwa [List.filter_false] at hslots

/-- Of the slots of options, those without pairs are left. -/
theorem heardAlike_others {slots : List Slot}
    (h : ∀ n, .node n ∈ slots → n.kind = .assocNew → n.Routeless) (file : Path) :
    HeardAlike (ν := ν) Check.TakesAnyOrder (belowSlots file slots)
      (belowSlots file (slots.filter (!·.isPair))) := by
  refine heardAlike_filter Check.takesAnyOrder_congr _ fun s hs hpair => ?_
  cases s with
  | node n =>
    rw [belowSlots, belowSlots, List.append_nil]
    have hkind : n.kind = .assocNew := by simpa [Slot.isPair, Slot.node?] using hpair
    exact heardAlike_routeless (h n hs hkind) file
  | literal _ => exact .refl _
  | absent => exact .refl _

/-- Slots that differ in their pairs only are one to all checks of routes. -/
theorem heardAlike_of_others_eq {slots slots' : List Slot}
    (h : ∀ n, .node n ∈ slots → n.kind = .assocNew → n.Routeless)
    (h' : ∀ n, .node n ∈ slots' → n.kind = .assocNew → n.Routeless)
    (hothers : slots'.filter (!·.isPair) = slots.filter (!·.isPair)) (file : Path) :
    HeardAlike (ν := ν) Check.TakesAnyOrder (belowSlots file slots') (belowSlots file slots) := by
  have hslots' := heardAlike_others (ν := ν) h' file
  rw [hothers] at hslots'
  exact hslots'.trans (heardAlike_others h file).symm

/-- Two nodes that no check of routes listens to are one to all of them. -/
theorem heardAlike_of_not_routes (hk' : n'.kind ∉ routeKinds) (hk : n.kind ∉ routeKinds)
    (phase : Phase) (file : Path) :
    HeardAlike (ν := ν) Check.TakesAnyOrder [.node phase file n'] [.node phase file n] :=
  (heardAlike_of_not_route hk' phase file).trans (heardAlike_of_not_route hk phase file).symm

theorem heardAlike_options (h : OptionsPermuted n n') (parent : Path) :
    HeardAlike (ν := ν) Check.TakesAnyOrder (below parent n') (below parent n) := by
  have hrouteless' : ∀ pair ∈ n'.hashPairs, pair.Routeless :=
    fun pair hpair => h.routeless pair (h.pairs.hashPairs.mem_iff.1 hpair)
  obtain ⟨hpairs, -, hrouteless⟩ := h
  cases hpairs with
  | @mk k slots slots' rest p p' own own' hholder hpairs hothers =>
    rw [hashPairs_eq] at hrouteless hrouteless'
    have hmem {slots : List Slot} {n : Node} (hn : .node n ∈ slots) (hk : n.kind = .assocNew) :
        n ∈ (Node.mk k slots p own).pairs :=
      List.mem_filter.2 ⟨List.mem_filterMap.2 ⟨_, hn, rfl⟩, beq_iff_eq.2 hk⟩
    -- Neither the options nor what holds them is listened to, so the slots decide.
    have hash : Kind.bareAssocHash ∉ routeKinds := by decide
    have holder (slots : List Slot) : (Node.mk k slots p own).kind ∉ routeKinds := hholder
    refine heardAlike_hole Check.takesAnyOrder_congr [] (heardAlike_of_not_routes hash hash)
      (fun file => ?_) parent
    refine .around Check.takesAnyOrder_congr
      (heardAlike_of_not_routes (holder slots') (holder slots) · _) ?_
    exact heardAlike_of_others_eq (fun m hm hk => hrouteless m (hmem hm hk))
      (fun m hm hk => hrouteless' m (hmem hm hk)) hothers _

theorem heardAlike_arguments (h : ArgumentChanged OptionsPermuted n n') (parent : Path) :
    HeardAlike (ν := ν) Check.TakesAnyOrder (below parent n') (below parent n) := by
  have hnode {n n' : Node} (h : ArgumentChanged OptionsPermuted n n') :=
    heardAlike_of_not_routes (ν := ν) h.kind_not_route' h.kind_not_route
  induction h generalizing parent with
  | value hk h =>
    exact heardAlike_hole Check.takesAnyOrder_congr _ (hnode (.value hk h)) (heardAlike_options h) _
  | @inside m m' k back p own hk h ih =>
    exact heardAlike_hole Check.takesAnyOrder_congr [] (hnode (.inside hk h)) ih _

theorem heardAlike_below (h : Reordered n n') (parent : Path) :
    HeardAlike (ν := ν) Check.TakesAnyOrder (below parent n') (below parent n) := by
  induction h generalizing parent with
  | same n => exact .refl _
  | options hplace hcall hargs =>
    exact heardAlike_hole Check.takesAnyOrder_congr _
      (heardAlike_reordered (.options hplace hcall hargs)) (heardAlike_arguments hargs) _
  | inside h ih =>
    exact heardAlike_hole Check.takesAnyOrder_congr _ (heardAlike_reordered (.inside h)) ih _

end Call

section Readers
open Node Routing

/-- A check that keeps the open route blocks, before it does anything else. -/
theorem Spec.takesAnyOrder_start {name : String} {url : Option String}
    {files ignored : List FilePattern} :
    ((Spec.trackRoutes .whole { name, url, files, ignored } :
      Spec ν RouteScope).interestedIn callKinds).TakesAnyOrder where
  kinds := by
    intro k hk
    simp only [trackRoutes, Spec.mem_interestedIn, Spec.kinds_on, List.not_mem_nil, false_or,
      List.mem_singleton] at hk
    exact List.mem_cons.2 hk
  nodes := Spec.respects_start recounts_reordered
  others := by
    refine Spec.AllAt.start.trackRoutes ?_ ?_ |>.interestedIn _
    · exact fun hk => absurd rfl hk
    · exact fun hk => absurd rfl hk

theorem Spec.TakesAnyOrder.onCalls {s : Spec ν σ} (h : s.TakesAnyOrder) (phase : Phase)
    {g : Handler ν σ Node} (hg : ∀ k, g.Respects Reordered k)
    (hidle : ∀ n : Node, ¬n.declaresRoutes → g.IdleAt n) :
    (s.onEach phase callKinds g).TakesAnyOrder where
  kinds := by
    rw [kinds_onEach]
    exact h.kinds
  nodes := h.nodes.onEach fun k _ => hg k
  others := h.others.onEach fun _ _ _ n _ hn => hidle n hn

theorem Survey.takesAnyOrder_routes (ignored : List FilePattern) :
    (routes (ν := ν) ignored).TakesAnyOrder := by
  refine Spec.takesAnyOrder_start.onCalls _ (respects_addRoutes recounts_reordered)
    fun n hn site scope t => ?_
  simp only [Handler.record, addRoutes, targets_of_not_declaresRoutes hn, List.foldl_nil]

namespace Practice

theorem takesAnyOrder_visitResource {s : Spec ν RouteScope} (h : s.TakesAnyOrder) :
    (s.onEach .enter callKinds (.update visitResource)).TakesAnyOrder := by
  refine h.onCalls _ (respects_visitResource mirrors_reordered) fun n hn site scope t => ?_
  rw [Handler.update, visitResource, if_neg (not_declaresResource_of_not_declaresRoutes hn)]

theorem takesAnyOrder_routeOptions (ignored : List FilePattern) :
    (routeOptions (ν := ν) ignored).TakesAnyOrder := by
  refine takesAnyOrder_visitResource (Spec.takesAnyOrder_start.onCalls _
    (respects_excessRoutes recounts_reordered) fun n hn site scope t => ?_)
  have hother := not_declaresResource_of_not_declaresRoutes hn
  have hnone : excessRoutes? n scope t = none := by
    simp [excessRoutes?, hother]
  rw [Handler.report, hnone]
  rfl

theorem takesAnyOrder_nestedRoutes (allowed : Nat) (ignored : List FilePattern) :
    (nestedRoutes (ν := ν) allowed ignored).TakesAnyOrder := by
  refine takesAnyOrder_visitResource (Spec.takesAnyOrder_start.onCalls _
    (respects_isTooDeep mirrors_reordered allowed _) fun n hn site scope t => ?_)
  have hother := not_declaresResource_of_not_declaresRoutes hn
  rw [Handler.report, isTooDeep, eq_false_of_ne_true hother]
  rfl

theorem takesAnyOrder_customRoutes (allowed : Nat) (ignored : List FilePattern) :
    (customRoutes (ν := ν) allowed ignored).TakesAnyOrder where
  kinds := List.cons_subset.2 ⟨List.mem_cons_self, List.nil_subset _⟩
  nodes := by
    refine Spec.AllAt.start.interestedIn _ |>.on (Handler.respects_report fun hn hk site => ?_)
    funext scope t
    rw [messageText_eq_of_rel mirrors_reordered hn, customRouteCount_reordered hn hk]
  others := Spec.AllAt.start.interestedIn _ |>.on fun hk => absurd rfl hk

end Practice

end Readers

/-- The survey of routes and the reviews of declared resources, in the middle of a run. -/
inductive Check.ReadsRoutes : Check ν → Prop
  | survey (ignored : List FilePattern) (scope : RouteScope) (ds : List Diagnostic) :
      ReadsRoutes ⟨(Survey.routes ignored).spec, scope, ds⟩
  | routeOptions (ignored : List FilePattern) (scope : RouteScope) (ds : List Diagnostic) :
      ReadsRoutes ⟨(Practice.routeOptions ignored).spec, scope, ds⟩
  | nestedRoutes (allowed : Nat) (ignored : List FilePattern) (scope : RouteScope)
      (ds : List Diagnostic) : ReadsRoutes ⟨(Practice.nestedRoutes allowed ignored).spec, scope, ds⟩
  | customRoutes (allowed : Nat) (ignored : List FilePattern) (ds : List Diagnostic) :
      ReadsRoutes ⟨(Practice.customRoutes allowed ignored).spec, (), ds⟩

theorem Check.ReadsRoutes.takesAnyOrder {c : Check ν} (h : c.ReadsRoutes) : c.TakesAnyOrder := by
  cases h with
  | survey ignored => exact Survey.takesAnyOrder_routes ignored
  | routeOptions ignored => exact Practice.takesAnyOrder_routeOptions ignored
  | nestedRoutes allowed ignored => exact Practice.takesAnyOrder_nestedRoutes allowed ignored
  | customRoutes allowed ignored => exact Practice.takesAnyOrder_customRoutes allowed ignored

/-- The order of options does not matter in routes: when no two options of a resource have the same
key and none of them holds a route declaration or a block, they may be given in any order. The
routes that are recorded, in their order, and everything that is reported about them are the
same. -/
theorem Run.option_order_irrelevant {root root' : Node} (h : root.Reordered root') (path : Path)
    {s : Session ν} (hs : ∀ c ∈ s.checks, c.ReadsRoutes) :
    tree root' path s = tree root path s := by
  rw [tree_eq, tree_eq, Call.ofTree, Call.ofTree, h.file?_eq]
  exact Call.heardAlike_below h _ s fun c hc => (hs c hc).takesAnyOrder

/-- A resource with the options `only`, `controller` and `member`, and with a block that declares
one more route. -/
theorem Run.option_order_irrelevant_posts :
    let word (s : String) := Node.ofKind .identifier [.literal (.str s)]
    let list (ns : List Node) := Node.ofKind .list (ns.map .node)
    let pair (key : String) (value : Node) := Node.ofKind .assocNew [.node (word key), .node value]
    let only := pair "only" (.ofKind .array [.node (list [word "show"])])
    let controller := pair "controller" (word "articles")
    let preview := list [pair "preview" (word "get")]
    let member := pair "member" (.ofKind .hash [.node (.ofKind .assocListFromArgs [.node preview])])
    let posts (options : List Node) := Node.ofKind .command [.node (word "resources"),
      .node (list [word "posts", .ofKind .bareAssocHash [.node (list options)]])]
    let root (options : List Node) := Node.ofKind .methodAddBlock [.node (posts options),
      .node (.ofKind .doBlock [.absent,
        .node (.ofKind .command [.node (word "get"), .node (list [word "recent"])])])]
    let start : Session Empty := ⟨[Survey.routes [], Practice.routeOptions [],
      Practice.nestedRoutes 2 [], Practice.customRoutes 1 []], {}, []⟩
    let found (options : List Node) := (tree (root options) ⟨"config/routes.rb"⟩ start).1
    (∀ c ∈ start.checks, c.ReadsRoutes) ∧
      (root [only, controller, member]).Reordered (root [member, only, controller]) ∧
      found [member, only, controller] = found [only, controller, member] ∧
      (found [only, controller, member]).tables.routes.routes.map Route.text =
        ["ArticlesController#show", "ArticlesController#preview", "ArticlesController#recent"] ∧
      (found [only, controller, member]).diagnostics.length = 1 := by
  intro word list pair only controller preview member posts root start found
  have hchecks : ∀ c ∈ start.checks, c.ReadsRoutes := by
    refine List.forall_mem_cons.2 ⟨.survey [] {} [], List.forall_mem_cons.2
      ⟨.routeOptions [] {} [], List.forall_mem_cons.2 ⟨.nestedRoutes 2 [] {} [],
        List.forall_mem_singleton.2 (.customRoutes 1 [] [])⟩⟩⟩
  have hoptions : Node.OptionsPermuted
      (.ofKind .bareAssocHash [.node (list [only, controller, member])])
      (.ofKind .bareAssocHash [.node (list [member, only, controller])]) :=
    { pairs := .mk (by decide) (@List.perm_append_comm _ [_] [_, _]) rfl
      keys := by decide +kernel
      routeless := by decide +kernel }
  have hroot : (root [only, controller, member]).Reordered (root [member, only, controller]) :=
    @Node.Reordered.inside _ _ _ [] _ _ _
      (@Node.Reordered.options _ _ _ [.node (word "resources")] _ _ _ rfl (by decide +kernel)
        (@Node.ArgumentChanged.value _ _ _ _ [.node (word "posts")] _ _ _ (.inl rfl) hoptions))
  refine ⟨hchecks, hroot, ?_, by decide +kernel, by decide +kernel⟩
  exact congrArg Prod.fst (option_order_irrelevant hroot ⟨"config/routes.rb"⟩ hchecks)

/-- A key is a part of the tree as well. Routes declared inside of keys are recorded in the order of
the options. -/
theorem Run.routes_in_keys_recorded_in_order :
    let word (s : String) := Node.ofKind .identifier [.literal (.str s)]
    let list (ns : List Node) := Node.ofKind .list (ns.map .node)
    let get (path : String) := Node.ofKind .command [.node (word "get"), .node (list [word path])]
    let pair (key path : String) := Node.ofKind .assocNew
      [.node (.ofKind .dynamicSymbol [.node (.ofKind .stringContent
          [.node (word key), .node (.ofKind .interpolation [.node (list [get path])])])]),
        .node (word "true")]
    let first := pair "a" "drafts/first"
    let last := pair "b" "news/last"
    let hash (options : List Node) := Node.ofKind .bareAssocHash [.node (list options)]
    let root (options : List Node) := Node.ofKind .command [.node (word "resources"),
      .node (list [word "posts", hash options])]
    let start : Session Empty := ⟨[Survey.routes []], {}, []⟩
    let found (options : List Node) :=
      (tree (root options) ⟨"config/routes.rb"⟩ start).1.tables.routes.routes.map Route.text
    Node.PairsPermuted (hash [first, last]) (hash [last, first]) ∧
      (hash [first, last]).hashKeys = ["a", "b"] ∧
      (∀ value ∈ (hash [first, last]).hashValues, ∀ n ∈ value, n.Routeless) ∧
      (found [first, last]).drop 7 = ["DraftsController#first", "NewsController#last"] ∧
      (found [last, first]).drop 7 = ["NewsController#last", "DraftsController#first"] := by
  intro word list get pair first last hash root start found
  exact ⟨.mk (by decide) (.swap _ _ _) rfl, by decide +kernel, by decide +kernel, by decide +kernel,
    by decide +kernel⟩

end RailsReview
