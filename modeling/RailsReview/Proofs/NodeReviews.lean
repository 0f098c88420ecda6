import RailsReview.Proofs.Alone
import RailsReview.Proofs.TreeDelivery

/-!
# Reviews of single nodes

A review without a state that looks at the nodes of one kind reports of each what it has to say of
it when it enters it. In the end its findings are those of the nodes in the order of the source,
and nothing else has happened.
-/
namespace RailsReview

namespace Spec
variable {ν : Type}

/-- A review that keeps no state and reports only when it enters nodes of one kind. -/
structure ReviewsNodes (kind : Kind) (reported : Site → Node → Tables → List Finding)
    (spec : Spec ν Unit) : Prop where
  kinds : spec.kinds = [kind]
  enter : spec.handlers .enter kind = [.report fun site n _ t => reported site n t]
  exit : spec.handlers .exit kind = []

namespace ReviewsNodes
variable {kind : Kind} {reported : Site → Node → Tables → List Finding} {spec : Spec ν Unit}
  (t : Tables) (notes : List ν)

/-- The review alone, with these findings made. -/
def reviewing (spec : Spec ν Unit) (t : Tables) (notes : List ν) (found : List Finding) :
    Session ν :=
  ⟨[⟨spec, (), found.map (⟨spec, (), []⟩ : Check ν).diagnostic⟩], t, notes⟩

/-- What the review reports of a node of a file. -/
def findingsOf (kind : Kind) (reported : Site → Node → Tables → List Finding) (spec : Spec ν Unit)
    (t : Tables) (x : Path × Node) : List Finding :=
  if spec.accepts x.1 && x.2.kind == kind then reported ⟨some x.1, x.2.line?⟩ x.2 t else []

theorem announce (h : spec.ReviewsNodes kind reported) (phase : Phase) (file : Path) (n : Node)
    (found : List Finding) :
    Run.announce (.node phase file n) (reviewing spec t notes found) =
      (reviewing spec t notes (found ++
        (Call.node phase file n).entered?.elim [] (findingsOf kind reported spec t)), none) := by
  by_cases hreached : spec.accepts file ∧ n.kind = kind
  · obtain ⟨hfile, hkind⟩ := hreached
    have hreaches : (Call.node phase file n).reaches
        (⟨spec, (), found.map (⟨spec, (), []⟩ : Check ν).diagnostic⟩ : Check ν) := by
      refine Call.reaches_node.2 ⟨?_, hfile⟩
      rw [h.kinds, hkind]
      exact List.mem_singleton_self kind
    refine Run.announce_single hreaches ?_ notes
    cases phase with
    | enter =>
      simp only [Call.answer, Run.runCheck, hkind, h.enter, Run.handleAll, Handler.report,
        Call.entered?, Option.elim_some, findingsOf, hfile, beq_self_eq_true, Bool.and_self,
        if_true, List.map_append, List.nil_append]
      rfl
    | exit =>
      simp only [Call.answer, Run.runCheck, hkind, h.exit, Run.handleAll, Call.entered?,
        Option.elim_none, List.map_nil, List.append_nil]
  · have hsilent : (Call.node phase file n).entered?.elim [] (findingsOf kind reported spec t) =
        [] := by
      cases phase with
      | enter =>
        refine if_neg fun hboth => hreached ?_
        exact (Bool.and_eq_true_iff.1 hboth).imp id eq_of_beq
      | exit => rfl
    rw [hsilent, List.append_nil]
    refine Run.announce_single_of_not_reaches (fun hreaches => hreached ?_) t notes
    obtain ⟨hmem, hfile⟩ := Call.reaches_node.1 hreaches
    rw [h.kinds] at hmem
    exact ⟨hfile, List.mem_singleton.1 hmem⟩

/-- The findings in trees are those of their nodes of that kind in the accepted files. -/
theorem trees (h : spec.ReviewsNodes kind reported) (trees : List (Path × Node)) :
    Attempt.all (trees.map fun x => Run.tree x.2 x.1) ⟨[⟨spec, (), []⟩], t, notes⟩ =
      (⟨[⟨spec, (), (((trees.flatMap fun x => x.2.located (x.2.file?.getD x.1)).filter fun y =>
        spec.accepts y.1 && y.2.kind == kind).flatMap fun y =>
          reported ⟨some y.1, y.2.line?⟩ y.2 t).map (⟨spec, (), []⟩ : Check ν).diagnostic⟩], t,
        notes⟩, none) := by
  have hcalls (call : Call) (hcall : call ∈ Call.ofTrees trees) (found : List Finding) :
      Run.hear [call] (reviewing spec t notes found) =
        (reviewing spec t notes
          (found ++ call.entered?.elim [] (findingsOf kind reported spec t)), none) := by
    obtain ⟨phase, file, n, rfl⟩ := Call.exists_node_of_mem_ofTrees hcall
    rw [Run.hear_singleton, h.announce]
  have hentered : (Call.ofTrees trees).flatMap (fun call =>
      call.entered?.elim [] (findingsOf kind reported spec t)) =
        (trees.flatMap fun x => x.2.located (x.2.file?.getD x.1)).flatMap
          (findingsOf kind reported spec t) := by
    have hlocated : (Call.ofTrees trees).filterMap Call.entered? =
        trees.flatMap fun x => x.2.located (x.2.file?.getD x.1) := by
      rw [Call.ofTrees, List.filterMap_flatMap]
      exact List.flatMap_congr fun x _ => Call.entered_below _ x.2
    rw [← hlocated, List.filterMap_eq_flatMap_toList, List.flatMap_assoc]
    refine List.flatMap_congr fun call _ => ?_
    cases call.entered? with
    | none => rfl
    | some x => exact (List.append_nil _).symm
  have hfilter (xs : List (Path × Node)) : xs.flatMap (findingsOf kind reported spec t) =
      (xs.filter fun y => spec.accepts y.1 && y.2.kind == kind).flatMap fun y =>
        reported ⟨some y.1, y.2.line?⟩ y.2 t := by
    induction xs with
    | nil => rfl
    | cons x xs ih =>
      rw [List.flatMap_cons, List.filter_cons, ih, findingsOf]
      split
      · rw [List.flatMap_cons]
      · rfl
  have hrun := Run.hear_flatMap (reviewing spec t notes) _ _ hcalls []
  rw [List.flatMap_singleton', List.nil_append, hentered, hfilter] at hrun
  rw [Run.trees_eq]
  exact hrun

end ReviewsNodes
end Spec
end RailsReview
