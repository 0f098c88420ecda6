import RailsReview.Practice.Routes
import RailsReview.Proofs.Alone
import RailsReview.Proofs.TreeDelivery

/-!
# The custom routes of a resource

The routes of a `resources` block are its calls for request methods, wherever they stand in the
block, unless the block of another resource is around them. The review counts those of them that
are written without parentheses, and the pairs of the options.
-/
namespace RailsReview

namespace Practice
open Node
variable {ν : Type}

/-- A call for a request method, without a receiver, in either spelling. -/
def isVerbCall (n : Node) : Bool := Routing.isRouteCall n && Routing.verbs.contains n.messageText

/-- How many nodes below a node are of some sort and have no resource block around them there. -/
def ownCount (isOne : Node → Bool) (n : Node) : Nat :=
  (occurrencesIn [] n.slots).countP fun x => isOne x.2 && !x.1.any isResourceBlock

/-- The pairs of the options `member` and `collection` of a call with a block, together with the
nodes of some sort that belong to its block. -/
def customCount (isOne : Node → Bool) (n : Node) : Nat :=
  (n.slot? 0).elim 0 optionCount + n.block?.elim 0 (ownCount isOne)

section Counting
variable {isOne : Node → Bool}

theorem countP_inside_resource {outer : List Node} (h : outer.any isResourceBlock)
    (slots : List Slot) :
    (occurrencesIn outer slots).countP (fun x => isOne x.2 && !x.1.any isResourceBlock) = 0 := by
  refine List.countP_eq_zero.2 fun x hx hcounts => ?_
  obtain ⟨b, hb, hresource⟩ := List.any_eq_true.1 h
  have hinside : x.1.any isResourceBlock :=
    List.any_eq_true.2 ⟨b, subset_of_mem_occurrencesIn outer slots x hx hb, hresource⟩
  rw [hinside, Bool.not_true, Bool.and_false] at hcounts
  cases hcounts

theorem not_isVerbCommand_of_isResourceBlock {n : Node} (h : isResourceBlock n) :
    isVerbCommand n = false := by
  have hkind : n.kind = .methodAddBlock := eq_of_beq (Bool.and_eq_true_iff.1 h).1
  rw [isVerbCommand, hkind]
  rfl

mutual

theorem countP_occurrences : ∀ (n : Node) (outer : List Node), outer.any isResourceBlock = false →
    (occurrences outer n).countP (fun x => isVerbCommand x.2 && !x.1.any isResourceBlock) =
      if isResourceBlock n then 0 else if isVerbCommand n then 1 + verbCount n else verbCount n
  | .mk k slots p own, outer, h => by
    rw [occurrences, List.countP_cons, h, Bool.not_false, Bool.and_true]
    by_cases hblock : isResourceBlock (.mk k slots p own)
    · have haround : (Node.mk k slots p own :: outer).any isResourceBlock := by
        rw [List.any_cons, hblock, Bool.true_or]
      rw [if_pos hblock, countP_inside_resource haround,
        not_isVerbCommand_of_isResourceBlock hblock]
      rfl
    · have haround : (Node.mk k slots p own :: outer).any isResourceBlock = false := by
        rw [List.any_cons, h, eq_false_of_ne_true hblock, Bool.or_false]
      rw [if_neg hblock, countP_occurrencesIn slots _ haround, verbCount]
      split
      · exact Nat.add_comm _ _
      · rfl

theorem countP_occurrencesIn :
    ∀ (slots : List Slot) (outer : List Node), outer.any isResourceBlock = false →
      (occurrencesIn outer slots).countP
        (fun x => isVerbCommand x.2 && !x.1.any isResourceBlock) = verbCountSlots slots
  | [], _, _ => rfl
  | .node n :: rest, outer, h => by
    rw [occurrencesIn, List.countP_append, countP_occurrences n outer h,
      countP_occurrencesIn rest outer h, verbCountSlots]
  | .literal _ :: rest, outer, h => countP_occurrencesIn rest outer h
  | .absent :: rest, outer, h => countP_occurrencesIn rest outer h

end

theorem verbCount_eq (n : Node) : verbCount n = ownCount isVerbCommand n := by
  obtain ⟨k, slots, p, own⟩ := n
  exact (countP_occurrencesIn slots [] rfl).symm

theorem customRouteCount_eq (n : Node) : customRouteCount n = customCount isVerbCommand n := by
  have hcount : verbCount = ownCount isVerbCommand := funext verbCount_eq
  rw [customRouteCount, customCount, hcount]

end Counting

/-- A call for a request method with its arguments in parentheses. -/
def isParenthesizedVerb (n : Node) : Bool := isVerbCall n && n.kind != .command

theorem isVerbCommand_eq (n : Node) : isVerbCommand n = (isVerbCall n && n.kind == .command) := by
  unfold isVerbCommand isVerbCall
  by_cases hk : n.kind = .command
  · rw [Routing.isRouteCall, hk, Bool.true_and, beq_self_eq_true, Bool.true_and, Bool.and_true]
  · rw [beq_eq_false_iff_ne.2 hk, Bool.false_and, Bool.and_false]

/-- The calls for request methods are commands or have parentheses. -/
theorem ownCount_isVerbCall (n : Node) :
    ownCount isVerbCall n = ownCount isVerbCommand n + ownCount isParenthesizedVerb n := by
  unfold ownCount
  rw [List.countP_eq_countP_filter_add _ _ fun x => x.2.kind == .command, List.countP_filter,
    List.countP_filter]
  congr 2
  · funext x
    rw [isVerbCommand_eq, Bool.and_right_comm]
  · funext x
    rw [isParenthesizedVerb, bne, Bool.and_right_comm]

theorem customCount_isVerbCall (n : Node) : customCount isVerbCall n =
    customCount isVerbCommand n + n.block?.elim 0 (ownCount isParenthesizedVerb) := by
  unfold customCount
  cases n.block? with
  | none => rfl
  | some b => rw [Option.elim_some, Option.elim_some, Option.elim_some, ownCount_isVerbCall,
      Nat.add_assoc]

/-- What the review reports of a resource block. -/
def overuseFinding (allowed : Nat) (file : Path) (n : Node) : Finding :=
  Site.finding ⟨some file, n.line?⟩
    ("overuse route customizations (customize_count > " ++ toString allowed ++ ")")

/-- Whether a block of `resources` has more custom routes than are allowed. -/
def isOverused (allowed : Nat) (n : Node) : Bool :=
  n.kind == .methodAddBlock && n.messageText == "resources" &&
    decide (allowed < customCount isVerbCommand n)

section Steps
variable (allowed : Nat) (ignored : List FilePattern) (t : Tables) (notes : List ν)

/-- The review alone, with these findings made. -/
def counting (found : List Finding) : Session ν :=
  let check := customRoutes allowed ignored
  ⟨[⟨check.spec, (), found.map check.diagnostic⟩], t, notes⟩

/-- What the review reports at a call. -/
def overuseAt (call : Call) : Option Finding :=
  (call.entered?.filter fun x =>
    (customRoutes (ν := ν) allowed ignored).accepts x.1 && isOverused allowed x.2).map fun x =>
      overuseFinding allowed x.1 x.2

theorem handlers_customRoutes (phase : Phase) (k : Kind) :
    (customRoutes (ν := ν) allowed ignored).spec.handlers phase k =
      if phase = .enter ∧ k = .methodAddBlock then
        [.report fun site n _ _ =>
          if n.messageText == "resources" && decide (allowed < customRouteCount n) then
            [site.finding
              ("overuse route customizations (customize_count > " ++ toString allowed ++ ")")]
          else []]
      else [] := by
  simp only [customRoutes, Spec.handlers_on, Spec.handlers_interestedIn, Spec.handlers_start,
    List.nil_append, eq_comm]

theorem overuseAt_enter (file : Path) (n : Node) :
    (overuseAt (ν := ν) allowed ignored (.node .enter file n)).toList =
      if (customRoutes (ν := ν) allowed ignored).accepts file && isOverused allowed n then
        [overuseFinding allowed file n]
      else [] := by
  simp only [overuseAt, Call.entered?, Option.filter_some]
  split
  · rfl
  · rfl

theorem announce_counting (phase : Phase) (file : Path) (n : Node) (found : List Finding) :
    Run.announce (.node phase file n) (counting allowed ignored t notes found) =
      (counting allowed ignored t notes
        (found ++ (overuseAt (ν := ν) allowed ignored (.node phase file n)).toList), none) := by
  by_cases hreached : n.kind = .methodAddBlock ∧
      (customRoutes (ν := ν) allowed ignored).spec.accepts file
  · obtain ⟨hkind, hfile⟩ := hreached
    have hmem : n.kind ∈ (customRoutes (ν := ν) allowed ignored).spec.kinds := by
      rw [hkind]
      exact List.mem_singleton_self _
    have hreaches : (Call.node phase file n).reaches (⟨(customRoutes allowed ignored).spec, (),
        found.map (customRoutes (ν := ν) allowed ignored).diagnostic⟩ : Check ν) :=
      Call.reaches_node.2 ⟨hmem, hfile⟩
    refine Run.announce_single hreaches ?_ notes
    cases phase with
    | enter =>
      have hover : isOverused allowed n =
          (n.messageText == "resources" && decide (allowed < customRouteCount n)) := by
        rw [isOverused, hkind, beq_self_eq_true, Bool.true_and, customRouteCount_eq]
      have haccepts : (customRoutes (ν := ν) allowed ignored).accepts file := hfile
      rw [overuseAt_enter, haccepts, Bool.true_and, hover, List.map_append]
      simp only [Call.answer, Run.runCheck, handlers_customRoutes, hkind, and_self, if_true,
        Run.handleAll, Handler.report, List.nil_append]
      rfl
    | exit =>
      have hsilent : overuseAt (ν := ν) allowed ignored (.node .exit file n) = none := rfl
      rw [hsilent, Option.toList_none, List.append_nil]
      simp only [Call.answer, Run.runCheck, handlers_customRoutes, reduceCtorEq, false_and,
        if_false, Run.handleAll, List.map_nil, List.append_nil]
  · have hsilent : (overuseAt (ν := ν) allowed ignored (.node phase file n)).toList = [] := by
      cases phase with
      | enter =>
        rw [overuseAt_enter, if_neg]
        intro hboth
        obtain ⟨hfile, hover⟩ := Bool.and_eq_true_iff.1 hboth
        have hkind := (Bool.and_eq_true_iff.1 (Bool.and_eq_true_iff.1 hover).1).1
        exact hreached ⟨eq_of_beq hkind, hfile⟩
      | exit => rfl
    rw [hsilent, List.append_nil]
    apply Run.announce_single_of_not_reaches
    rw [Call.reaches_node]
    rintro ⟨hkind, hfile⟩
    exact hreached ⟨List.mem_singleton.1 hkind, hfile⟩

theorem filterMap_overuseAt (calls : List Call) :
    calls.filterMap (overuseAt (ν := ν) allowed ignored) =
      ((calls.filterMap Call.entered?).filter fun x =>
        (customRoutes (ν := ν) allowed ignored).accepts x.1 && isOverused allowed x.2).map fun x =>
          overuseFinding allowed x.1 x.2 := by
  rw [List.filter_filterMap, List.map_filterMap]
  rfl

theorem hear_counting {calls : List Call}
    (hnodes : ∀ call ∈ calls, ∃ phase file n, call = .node phase file n) (found : List Finding) :
    Run.hear calls (counting allowed ignored t notes found) =
      (counting allowed ignored t notes
        (found ++ calls.filterMap (overuseAt (ν := ν) allowed ignored)), none) := by
  have hcalls (call : Call) (hcall : call ∈ calls) (found : List Finding) :
      Run.hear [call] (counting allowed ignored t notes found) =
        (counting allowed ignored t notes
          (found ++ (overuseAt (ν := ν) allowed ignored call).toList), none) := by
    obtain ⟨phase, file, n, rfl⟩ := hnodes call hcall
    rw [Run.hear_singleton, announce_counting]
  have hparts := Run.hear_flatMap (counting allowed ignored t notes) _ _ hcalls found
  rwa [List.flatMap_singleton', ← List.filterMap_eq_flatMap_toList] at hparts

end Steps

/-- The review reports, once and at its line, every block of `resources` whose options and whose
commands for request methods are more than `allowed`. Calls with parentheses would have to be added
to count all custom routes; without such calls in the block these are all. -/
theorem verb_commands_counted (allowed : Nat) (ignored : List FilePattern) (t : Tables)
    (notes : List ν) (trees : List (Path × Node)) :
    let check := customRoutes (ν := ν) allowed ignored
    Attempt.all (trees.map fun x => Run.tree x.2 x.1) ⟨[check], t, notes⟩ =
      (⟨[{ check with
        diagnostics := ((trees.flatMap fun x => (x.2.located (x.2.file?.getD x.1)).filter fun y =>
          check.accepts y.1 && (y.2.kind == .methodAddBlock && y.2.messageText == "resources" &&
            decide (allowed < customCount isVerbCommand y.2))).map fun y =>
              overuseFinding allowed y.1 y.2).map check.diagnostic }], t, notes⟩, none) ∧
      ∀ n, customCount isVerbCall n =
        customCount isVerbCommand n + n.block?.elim 0 (ownCount isParenthesizedVerb) := by
  intro check
  refine ⟨?_, customCount_isVerbCall⟩
  rw [Run.trees_eq]
  have hnodes : ∀ call ∈ Call.ofTrees trees, ∃ phase file n, call = .node phase file n :=
    fun _ => Call.exists_node_of_mem_ofTrees
  have hrun := hear_counting allowed ignored t notes hnodes []
  have hentered : (Call.ofTrees trees).filterMap Call.entered? =
      trees.flatMap fun x => x.2.located (x.2.file?.getD x.1) := by
    rw [Call.ofTrees, List.filterMap_flatMap]
    exact List.flatMap_congr fun x _ => Call.entered_below _ x.2
  rw [List.nil_append, filterMap_overuseAt, hentered, List.filter_flatMap] at hrun
  exact hrun

/-- `resources :posts` with a block in which `get(name)` is called for each name. -/
def postsWithGets (names : List String) : Node :=
  let word (s : String) := Node.ofKind .identifier [.literal (.str s)]
  let symbol (s : String) := Node.ofKind .symbolLiteral [.node (word s)]
  let get (name : String) := Node.ofKind .methodAddArg
    [.node (.ofKind .functionCall [.node (word "get")]),
      .node (.ofKind .argParen [.node (.ofKind .list [.node (symbol name)])])]
  .ofKind .methodAddBlock
    [.node (.ofKind .command [.node (word "resources"),
        .node (.ofKind .list [.node (symbol "posts")])]),
      .node (.ofKind .doBlock [.absent, .node (.ofKind .list (names.map fun s => .node (get s)))])]

/-- Four custom routes that are written with parentheses do not count as more than three. -/
theorem parenthesized_verbs_uncounted :
    let root := postsWithGets ["recent", "popular", "drafts", "archived"]
    root.kind = .methodAddBlock ∧ root.messageText = "resources" ∧
      customCount isVerbCall root = 4 ∧
      (Run.tree root ⟨"config/routes.rb"⟩
        (⟨[customRoutes 3 []], {}, []⟩ : Session Empty)).1.diagnostics.map (·.message) = [] := by
  decide +kernel

end Practice
end RailsReview
