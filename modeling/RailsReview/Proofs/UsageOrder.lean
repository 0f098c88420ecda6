import RailsReview.Proofs.UsageEvidence

/-!
# The order of uses

It does not matter in which order uses are found, nor how often. Whatever else is found later, no
further method becomes unused, so the review never has more to report.
-/
namespace RailsReview
open Tables

namespace Practice

theorem names_learn (t : Tables) (found : List Evidence) (className : String) :
    ((t.learn .controllers found).controllerMethods.ofClass className none).map (·.name) =
      (t.controllerMethods.ofClass className none).map (·.name) := by
  rw [learn_eq_marks]
  exact Mark.names_foldl_apply _ t.controllerMethods className

theorem routes_learn (t : Tables) (found : List Evidence) :
    (t.learn .controllers found).routes = t.routes := by
  rw [learn_eq_marks]
  rfl

theorem controllers_learn (t : Tables) (found : List Evidence) :
    (t.learn .controllers found).controllers = t.controllers := by
  rw [learn_eq_marks]
  rfl

theorem routedMethods_learn (t : Tables) (found : List Evidence) (r : Route) :
    routedMethods (t.learn .controllers found) r = routedMethods t r := by
  unfold routedMethods
  rw [names_learn]

/-- The calls of methods that routes stand for. -/
def routeCalls (t : Tables) (routes : List Route) : List Evidence :=
  routes.flatMap fun r => (routedMethods t r).map (.call r.controllerClass)

/-- Routes are evidence like any other, because which methods they lead to is known beforehand. -/
theorem markRoutes_eq (t : Tables) :
    markRoutes t = t.learn .controllers (routeCalls t t.routes.routes) := by
  unfold markRoutes
  generalize t.routes.routes = routes
  induction routes generalizing t with
  | nil => rfl
  | cons r routes ih =>
    have hroute : markRoute t r =
        t.learn .controllers ((routedMethods t r).map (.call r.controllerClass)) := by
      unfold markRoute learn
      rw [List.foldl_map]
      rfl
    rw [List.foldl_cons, ih, hroute]
    simp only [routeCalls, routedMethods_learn, List.flatMap_cons, learn_append]

/-- The routes may as well be read before anything else. -/
theorem markRoutes_learn (t : Tables) (found : List Evidence) :
    markRoutes (t.learn .controllers found) =
      t.learn .controllers (found ++ routeCalls t t.routes.routes) := by
  rw [markRoutes_eq, learn_append]
  simp only [routeCalls, routedMethods_learn, routes_learn]

end Practice

/-- A method up to its access. -/
def MethodRecord.ignoringAccess (m : MethodRecord) : MethodRecord := { m with access := .public_ }

namespace MethodTable
variable {publishing : Bool} {t t' : MethodTable}

theorem Learned.unused_sublist (h : t.Learned publishing t') :
    ((t'.unused none).map MethodRecord.ignoringAccess).Sublist
      ((t.unused none).map MethodRecord.ignoringAccess) := by
  obtain ⟨kept, hsub, hkept⟩ := h.unused
  have hsame : (t'.unused none).map MethodRecord.ignoringAccess =
      kept.map MethodRecord.ignoringAccess := by
    clear hsub
    generalize t'.unused none = rest at hkept
    induction hkept with
    | nil => rfl
    | cons hm _ ih =>
      rw [List.map_cons, List.map_cons, ih]
      rcases hm with rfl | ⟨-, rfl⟩
      · rfl
      · rfl
  rw [hsame]
  exact hsub.map _

/-- Without publications what stays unused stays exactly as it is. -/
theorem Learned.unused_sublist_of_calls (h : t.Learned false t') :
    (t'.unused none).Sublist (t.unused none) := by
  obtain ⟨kept, hsub, hkept⟩ := h.unused
  have hsame : kept = t'.unused none := by
    clear hsub
    generalize t'.unused none = rest at hkept
    induction hkept with
    | nil => rfl
    | cons hm _ ih =>
      rcases hm with rfl | ⟨hfalse, -⟩
      · rw [ih]
      · cases hfalse
  rw [← hsame]
  exact hsub

end MethodTable

namespace Practice
variable {ν : Type} (exceptions : List String) (ignored : List FilePattern)

theorem findings_sublist {t t' : Tables} (hcontrollers : t'.controllers = t.controllers)
    (h : ((t'.controllerMethods.unused none).map MethodRecord.ignoringAccess).Sublist
      ((t.controllerMethods.unused none).map MethodRecord.ignoringAccess)) :
    ((unusedMethods exceptions ignored t').map unusedFinding).Sublist
      ((unusedMethods exceptions ignored t).map unusedFinding) := by
  -- Neither the exceptions nor the message have to do with access.
  have hfindings (u : Tables) : (unusedMethods exceptions ignored u).map unusedFinding =
      (((u.controllerMethods.unused none).map MethodRecord.ignoringAccess).filter fun m =>
        !FilePattern.anyMatch ignored m.file &&
          !(exceptions ++ frameworkMethods).any (isException u.controllers m)).map
            unusedFinding := by
    rw [List.filter_map, List.map_map]
    rfl
  rw [hfindings, hfindings, hcontrollers]
  exact (h.filter _).map _

theorem learned_append (t : Tables) (layer : Layer) (uses more : List Evidence) :
    ((t.learn layer uses).methodsOf layer).Learned true
      ((t.learn layer (uses ++ more)).methodsOf layer) := by
  rw [learn_append]
  exact learned_learn _ layer fun _ _ => rfl

/-- The review of trees, alone. -/
def review (trees : List (Path × Node)) : Run ν :=
  (Attempt.all (trees.map fun x => Run.tree x.2 x.1)).andThen Run.finish

/-- What the review comes to. -/
theorem exists_review : ∃ learned : Path × Node → List Evidence,
    (∀ x, x.2.isPlain → Lesson (ν := ν) exceptions ignored x (learned x)) ∧
    ∀ trees : List (Path × Node), (∀ x ∈ trees, x.2.isPlain) → ∀ (t : Tables) (notes : List ν),
      let final :=
        t.learn .controllers (trees.flatMap learned ++ routeCalls t t.routes.routes)
      ∃ st, review trees ⟨[unusedActions exceptions ignored], t, notes⟩ =
        (⟨[⟨unusedSpec exceptions ignored, st,
          ((unusedMethods exceptions ignored final).map unusedFinding).map
            (unusedActions (ν := ν) exceptions ignored).diagnostic⟩],
          final, notes⟩, none) := by
  obtain ⟨learned, hlessons, hlearned⟩ := exists_lessons (ν := ν) exceptions ignored
  refine ⟨learned, hlessons, fun trees hplain t notes => ?_⟩
  obtain ⟨l, hrun⟩ := hlearned trees hplain none
  refine ⟨⟨⟨[], l⟩, []⟩, ?_⟩
  have hstart : unusedActions exceptions ignored =
      reviewIn (ν := ν) exceptions ignored [] none [] [] := rfl
  rw [review, Run.trees_eq, hstart, Attempt.andThen_of_none _ (hrun t [] notes), Run.finish_eq]
  refine Run.announce_single rfl ?_ notes
  rw [← markRoutes_learn]
  rfl

theorem review_sublist (t : Tables) (notes : List ν) {trees trees' : List (Path × Node)}
    (hplain : ∀ x ∈ trees', x.2.isPlain) (hsub : trees ⊆ trees') : ∃ s s' : Session ν,
      review trees ⟨[unusedActions exceptions ignored], t, notes⟩ = (s, none) ∧
      review trees' ⟨[unusedActions exceptions ignored], t, notes⟩ = (s', none) ∧
      s'.diagnostics.Sublist s.diagnostics ∧
      (trees' ⊆ trees → s'.tables = s.tables ∧ s'.diagnostics = s.diagnostics) := by
  obtain ⟨learned, -, hreview⟩ := exists_review (ν := ν) exceptions ignored
  obtain ⟨st, hrun⟩ := hreview trees (fun x hx => hplain x (hsub hx)) t notes
  obtain ⟨st', hrun'⟩ := hreview trees' hplain t notes
  have hflat {l l' : List (Path × Node)} (h : l ⊆ l') : l.flatMap learned ⊆ l'.flatMap learned :=
    fun e he => by
      obtain ⟨x, hx, hfound⟩ := List.mem_flatMap.1 he
      exact List.mem_flatMap.2 ⟨x, h hx, hfound⟩
  -- The evidence of more trees is that of the fewer, and more.
  have hmore : t.learn .controllers (trees'.flatMap learned ++ routeCalls t t.routes.routes) =
      t.learn .controllers ((trees.flatMap learned ++ routeCalls t t.routes.routes) ++
        trees'.flatMap learned) := by
    apply learn_congr
    intro e
    have := @hflat _ _ hsub e
    simp only [List.mem_append]
    tauto
  refine ⟨_, _, hrun, hrun', ?_, fun hsub' => ?_⟩
  · simp only [Session.diagnostics, List.flatMap_singleton, hmore]
    refine (findings_sublist exceptions ignored ?_ ?_).map _
    · rw [controllers_learn, controllers_learn]
    · exact (learned_append t .controllers _ _).unused_sublist
  · have hsame : t.learn .controllers (trees'.flatMap learned ++ routeCalls t t.routes.routes) =
        t.learn .controllers (trees.flatMap learned ++ routeCalls t t.routes.routes) := by
      apply learn_congr
      intro e
      have := @hflat _ _ hsub e
      have := @hflat _ _ hsub' e
      simp only [List.mem_append]
      tauto
    simp only [Session.diagnostics, List.flatMap_singleton, hsame, and_self]

end Practice

open Practice

/-- In which order and how often uses are found makes no difference, and whatever else is found, no
further method becomes unused. So it is with the trees that the review reads: more of them never
lead to more reports. -/
theorem usage_order_independent :
    (∀ (layer : Layer) (t : Tables) (uses uses' : List Evidence), (∀ e, e ∈ uses ↔ e ∈ uses') →
      t.learn layer uses' = t.learn layer uses) ∧
    (∀ (layer : Layer) (t : Tables) (uses more : List Evidence),
      let before := (t.learn layer uses).methodsOf layer
      let after := (t.learn layer (uses ++ more)).methodsOf layer
      ((after.unused none).map MethodRecord.ignoringAccess).Sublist
        ((before.unused none).map MethodRecord.ignoringAccess) ∧
      ((∀ e ∈ more, e.isCall) → (after.unused none).Sublist (before.unused none))) ∧
    (∀ (exceptions : List String) (ignored : List FilePattern) (t : Tables)
      (uses more : List Evidence),
      ((unusedMethods exceptions ignored (t.learn .controllers (uses ++ more))).map
        unusedFinding).Sublist
          ((unusedMethods exceptions ignored (t.learn .controllers uses)).map unusedFinding)) ∧
    ∀ {ν : Type} (exceptions : List String) (ignored : List FilePattern) (t : Tables)
      (notes : List ν) (trees trees' : List (Path × Node)), (∀ x ∈ trees', x.2.isPlain) →
        trees ⊆ trees' → ∃ s s' : Session ν,
          review trees ⟨[unusedActions exceptions ignored], t, notes⟩ = (s, none) ∧
          review trees' ⟨[unusedActions exceptions ignored], t, notes⟩ = (s', none) ∧
          s'.diagnostics.Sublist s.diagnostics ∧
          (trees' ⊆ trees → s'.tables = s.tables ∧ s'.diagnostics = s.diagnostics) := by
  refine ⟨fun layer t uses uses' h => t.learn_congr layer fun e => (h e).symm,
    fun layer t uses more => ⟨(learned_append t layer uses more).unused_sublist, fun hcalls => ?_⟩,
    fun exceptions ignored t uses more => findings_sublist exceptions ignored ?_
      (learned_append t .controllers uses more).unused_sublist,
    fun exceptions ignored t notes trees trees' hplain hsub =>
      review_sublist exceptions ignored t notes hplain hsub⟩
  · have hlearned : ((t.learn layer uses).methodsOf layer).Learned false
        ((t.learn layer (uses ++ more)).methodsOf layer) := by
      rw [learn_append]
      exact learned_learn _ layer fun e he => by simpa using hcalls e he
    exact hlearned.unused_sublist_of_calls
  · rw [controllers_learn, controllers_learn]

/-- A controller with a public and a private method. -/
def postsTables : Tables where
  controllerMethods :=
    (({} : MethodTable).add "PostsController" "show" ⟨"app/controllers/posts_controller.rb"⟩ 2
      .public_).add "PostsController" "load" ⟨"app/controllers/posts_controller.rb"⟩ 6 .private_

/-- A view that mentions a name. -/
def postsView (name : String) : Path × Node :=
  (⟨"app/views/posts/show.html.erb"⟩,
    .ofKind .variableCall [.node (.ofKind .identifier [.literal (.str name)])])

theorem usage_order_independent_posts :
    postsTables.learn .controllers [.publish "PostsController" "load",
        .call "PostsController" "show", .publish "PostsController" "load"] =
      postsTables.learn .controllers [.call "PostsController" "show",
        .publish "PostsController" "load"] ∧
    ((postsTables.learn .controllers ([] ++
        [.call "PostsController" "load"])).controllerMethods.unused none).Sublist
      ((postsTables.learn .controllers []).controllerMethods.unused none) ∧
    ((postsTables.learn .controllers []).controllerMethods.unused none).map (·.name) =
      ["show", "load"] ∧
    ((postsTables.learn .controllers ([] ++
      [.call "PostsController" "load"])).controllerMethods.unused none).map (·.name) = ["show"] ∧
    ∃ s s' : Session Empty,
      review [postsView "a"] ⟨[unusedActions [] []], postsTables, []⟩ = (s, none) ∧
      review [postsView "b", postsView "a"] ⟨[unusedActions [] []], postsTables, []⟩ = (s', none) ∧
      s'.diagnostics.Sublist s.diagnostics := by
  have hplain : ∀ x ∈ [postsView "b", postsView "a"], x.2.isPlain := by
    intro x hx
    rcases List.mem_cons.1 hx with rfl | hx
    · rfl
    · rw [List.mem_singleton.1 hx]
      rfl
  have horder : ∀ e, e ∈ [Evidence.call "PostsController" "show",
        .publish "PostsController" "load"] ↔
      e ∈ [.publish "PostsController" "load", .call "PostsController" "show",
        .publish "PostsController" "load"] := by
    intro e
    simp only [List.mem_cons, List.not_mem_nil, or_false]
    tauto
  obtain ⟨s, s', hrun, hrun', hsub, -⟩ := usage_order_independent.2.2.2 (ν := Empty) [] []
    postsTables [] [postsView "a"] [postsView "b", postsView "a"] hplain (List.subset_cons_self _ _)
  have hmore := (usage_order_independent.2.1 .controllers postsTables []
    [.call "PostsController" "load"]).2 (by decide)
  exact ⟨usage_order_independent.1 .controllers postsTables _ _ horder, hmore, by decide +kernel,
    by decide +kernel, s, s', hrun, hrun', hsub⟩

end RailsReview
