import RailsReview.Proofs.Handlers
import RailsReview.Proofs.Lexical

/-!
# A check alone

A check that never fails hears all calls when it runs alone. Whatever holds of its state, of what it
found and of the tables, and follows them from call to call, therefore holds in the end.
-/
namespace RailsReview
variable {ν σ : Type}

namespace Call

mutual

theorem exists_node_of_mem_below (parent : Path) :
    ∀ n : Node, ∀ call ∈ below parent n, ∃ phase file m, call = .node phase file m
  | .mk k slots p own => by
    intro call hcall
    rw [below] at hcall
    rcases List.mem_cons.1 hcall with rfl | hcall
    · exact ⟨_, _, _, rfl⟩
    · rcases List.mem_append.1 hcall with hcall | hcall
      · exact exists_node_of_mem_belowSlots _ slots call hcall
      · exact ⟨_, _, _, List.mem_singleton.1 hcall⟩

theorem exists_node_of_mem_belowSlots (file : Path) :
    ∀ slots : List Slot, ∀ call ∈ belowSlots file slots, ∃ phase file m, call = .node phase file m
  | [] => nofun
  | .node n :: rest => by
    intro call hcall
    rw [belowSlots] at hcall
    rcases List.mem_append.1 hcall with hcall | hcall
    · exact exists_node_of_mem_below file n call hcall
    · exact exists_node_of_mem_belowSlots file rest call hcall
  | .literal _ :: rest => exists_node_of_mem_belowSlots file rest
  | .absent :: rest => exists_node_of_mem_belowSlots file rest

end

/-- All calls of trees are about nodes. -/
theorem exists_node_of_mem_ofTrees {trees : List (Path × Node)} {call : Call}
    (h : call ∈ ofTrees trees) : ∃ phase file n, call = .node phase file n := by
  obtain ⟨x, -, hcall⟩ := List.mem_flatMap.1 h
  exact exists_node_of_mem_below _ x.2 call hcall

end Call

namespace Run
variable {spec : Spec ν σ} {calls : List Call} {I : List Call → σ → List Diagnostic → Tables → Prop}

/-- What a check alone makes of a node. -/
theorem answer_alone (hquiet : spec.All Handler.Quiet) (phase : Phase) (file : Path) (n : Node)
    (st : σ) (ds : List Diagnostic) (t : Tables) :
    let e := handleAll ⟨some file, n.line?⟩ n (spec.handlers phase n.kind)
      { state := st, tables := t }
    (Call.node phase file n).answer (⟨spec, st, ds⟩ : Check ν) t =
      (⟨spec, e.state, ds ++ e.findings.map (⟨spec, st, ds⟩ : Check ν).diagnostic⟩, e.tables, [],
        none) := by
  intro e
  have hanswer := Call.answer_quiet (c := ⟨spec, st, ds⟩) hquiet (.node phase file n) t
  exact Prod.ext rfl (Prod.ext rfl hanswer)

/-- A check alone hears all calls about nodes, and what follows the calls one by one is true in the
end. Calls that do not reach the check have to be followed too. -/
theorem hear_alone (hquiet : spec.All Handler.Quiet)
    (hnodes : ∀ call ∈ calls, ∃ phase file n, call = .node phase file n)
    (hreached : ∀ done phase file n st ds t, .node phase file n ∈ calls → spec.accepts file →
      n.kind ∈ spec.kinds → I done st ds t →
        let e := handleAll ⟨some file, n.line?⟩ n (spec.handlers phase n.kind)
          { state := st, tables := t }
        I (done ++ [.node phase file n]) e.state
          (ds ++ e.findings.map (⟨spec, st, ds⟩ : Check ν).diagnostic) e.tables)
    (hother : ∀ done phase file n st ds t, .node phase file n ∈ calls →
      ¬(spec.accepts file ∧ n.kind ∈ spec.kinds) → I done st ds t →
        I (done ++ [.node phase file n]) st ds t)
    (done : List Call) {st : σ} {ds : List Diagnostic} {t : Tables} (h : I done st ds t)
    (notes : List ν) :
    ∃ st' ds' t', hear calls ⟨[⟨spec, st, ds⟩], t, notes⟩ =
      (⟨[⟨spec, st', ds'⟩], t', notes⟩, none) ∧ I (done ++ calls) st' ds' t' := by
  induction calls generalizing done st ds t with
  | nil => exact ⟨st, ds, t, rfl, by rwa [List.append_nil]⟩
  | cons call calls ih =>
    have hrest {done st ds t} (hfirst : I (done ++ [call]) st ds t) :=
      ih (fun c hc => hnodes c (List.mem_cons_of_mem _ hc))
        (fun done phase file n st ds t hc => hreached done phase file n st ds t (.tail _ hc))
        (fun done phase file n st ds t hc => hother done phase file n st ds t (.tail _ hc)) _ hfirst
    obtain ⟨phase, file, n, rfl⟩ := hnodes call (by simp)
    by_cases hr : (Call.node phase file n).reaches (⟨spec, st, ds⟩ : Check ν)
    · obtain ⟨hkind, hfile⟩ := Call.reaches_node.1 hr
      obtain ⟨st', ds', t', hrun, hend⟩ :=
        hrest (hreached done phase file n st ds t (by simp) hfile hkind h)
      refine ⟨st', ds', t', ?_, by rwa [List.append_assoc, List.singleton_append] at hend⟩
      rw [hear_cons, Attempt.andThen_of_none _
        (announce_single hr (answer_alone hquiet phase file n st ds t) notes)]
      exact hrun
    · obtain ⟨st', ds', t', hrun, hend⟩ :=
        hrest (hother done phase file n st ds t (by simp)
          (fun hboth => hr (Call.reaches_node.2 hboth.symm)) h)
      refine ⟨st', ds', t', ?_, by rwa [List.append_assoc, List.singleton_append] at hend⟩
      rw [hear_cons, Attempt.andThen_of_none _ (announce_single_of_not_reaches hr t notes)]
      exact hrun

section Places
open Call
variable {file : Path} {first mid last : List Node} {calls calls' : List Call}
  {I : List Node → σ → List Diagnostic → Tables → Prop} {notes : List ν}

/-- The calls lead a check alone from one place to another without failing, where `I` says what is
true of it inside of open nodes. -/
def Leads (spec : Spec ν σ) (notes : List ν) (I : List Node → σ → List Diagnostic → Tables → Prop)
    (first : List Node) (calls : List Call) (last : List Node) : Prop :=
  ∀ st ds t, I first st ds t → ∃ st' ds' t',
    hear calls ⟨[⟨spec, st, ds⟩], t, notes⟩ = (⟨[⟨spec, st', ds'⟩], t', notes⟩, none) ∧
      I last st' ds' t'

theorem Leads.nil (outer : List Node) : Leads spec notes I outer [] outer :=
  fun st ds t h => ⟨st, ds, t, rfl, h⟩

theorem Leads.append (h : Leads spec notes I first calls mid)
    (h' : Leads spec notes I mid calls' last) :
    Leads spec notes I first (calls ++ calls') last := by
  intro st ds t hfirst
  obtain ⟨st₁, ds₁, t₁, hcalls, hmid⟩ := h st ds t hfirst
  obtain ⟨st₂, ds₂, t₂, hcalls', hlast⟩ := h' st₁ ds₁ t₁ hmid
  exact ⟨st₂, ds₂, t₂, by rw [hear_append, Attempt.andThen_of_none _ hcalls, hcalls'], hlast⟩

/-- What each of the calls about the nodes of a file follows is followed by all of them. -/
theorem leads_lexical_of_mem {calls : List (List Node × Call)}
    (h : ∀ phase outer n, (outer, .node phase file n) ∈ calls →
      Leads spec notes I (Phase.openBefore outer n phase) [.node phase file n]
        (phase.openAfter outer n))
    (hcalls : Lexical file first calls last) :
    Leads spec notes I first (calls.map (·.2)) last := by
  induction hcalls with
  | nil outer => exact .nil outer
  | enter _ ih =>
    exact (h .enter _ _ (.head _)).append (ih fun phase outer n hn => h phase outer n (.tail _ hn))
  | exit _ ih =>
    exact (h .exit _ _ (.head _)).append (ih fun phase outer n hn => h phase outer n (.tail _ hn))

/-- What every single call about the nodes of a file follows is followed through the file. -/
theorem leads_lexical (h : ∀ phase outer n, Leads spec notes I (Phase.openBefore outer n phase)
      [.node phase file n] (phase.openAfter outer n))
    {calls : List (List Node × Call)} (hcalls : Lexical file first calls last) :
    Leads spec notes I first (calls.map (·.2)) last :=
  leads_lexical_of_mem (fun phase outer n _ => h phase outer n) hcalls

theorem leads_trees (h : ∀ file, spec.accepts file → ∀ phase outer n,
      Leads spec notes I (Phase.openBefore outer n phase) [.node phase file n]
        (phase.openAfter outer n))
    {trees : List (Path × Node)} (hplain : ∀ x ∈ trees, x.2.isPlain) :
    Leads spec notes I [] (ofTrees trees) [] := by
  induction trees with
  | nil => exact .nil []
  | cons x trees ih =>
    have hroot := hplain x (by simp)
    have htree : Leads spec notes I [] (ofTree x.1 x.2) [] := by
      by_cases hfile : spec.accepts x.1
      · rw [ofTree_of_isPlain x.1 hroot]
        exact leads_lexical (h x.1 hfile) (lexical_around x.1 [] x.2)
      · intro st ds t hst
        have hout := not_reaches_ofTree (c := ⟨spec, st, ds⟩) hfile hroot
        exact ⟨st, ds, t, hear_single_of_not_reaches hout t notes, hst⟩
    exact htree.append (ih fun y hy => hplain y (.tail _ hy))

/-- After other trees and a part of its own tree, a check alone is inside of what is open there. -/
theorem leads_inside (h : ∀ file, spec.accepts file → ∀ phase outer n,
      Leads spec notes I (Phase.openBefore outer n phase) [.node phase file n]
        (phase.openAfter outer n))
    {trees : List (Path × Node)} (hplain : ∀ x ∈ trees, x.2.isPlain) (hfile : spec.accepts file)
    {root n : Node} {outer : List Node} {phase : Phase} {made rest : List (List Node × Call)}
    (hcalls : around file [] root = made ++ (outer, .node phase file n) :: rest) :
    Leads spec notes I [] (ofTrees trees ++ made.map (·.2)) (phase.openBefore outer n) := by
  have hlexical := lexical_around file [] root
  rw [hcalls] at hlexical
  exact (leads_trees h hplain).append (leads_lexical (h file hfile) hlexical.upTo)

end Places

end Run
end RailsReview
