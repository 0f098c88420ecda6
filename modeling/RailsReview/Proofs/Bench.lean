import RailsReview.Check.Bench
import RailsReview.Proofs.Call

/-!
# Benches

A stage is a sequence of calls, some to the text checks and some to the tree checks. The two kinds
of checks share tables and notes and nothing else.
-/
namespace RailsReview

namespace Call

/-- The calls that read files. -/
def ofFiles (files : List SourceFile) : List Call := files.map fun f => text f.path f.content

/-- The calls that visit parsed files. -/
def ofParsed (parsed : List (SourceFile × ParsedSource)) : List Call :=
  parsed.flatMap fun x => ofTree x.1.path x.2.tree

end Call

namespace Bench
open Attempt
variable {ν : Type}

theorem onTexts_andThen (r r' : Run ν) :
    onTexts (r.andThen r') = (onTexts r).andThen (onTexts r') := by
  funext b
  rcases h : r ⟨b.texts, b.tables, b.notes⟩ with ⟨s, _ | e⟩
  · simp only [onTexts, andThen, h]
  · simp only [onTexts, andThen, h]

theorem onTrees_andThen (r r' : Run ν) :
    onTrees (r.andThen r') = (onTrees r).andThen (onTrees r') := by
  funext b
  rcases h : r ⟨b.trees, b.tables, b.notes⟩ with ⟨s, _ | e⟩
  · simp only [onTrees, andThen, h]
  · simp only [onTrees, andThen, h]

theorem readTexts_eq (files : List SourceFile) :
    readTexts (ν := ν) files = onTexts (Run.hear (Call.ofFiles files)) := by
  unfold readTexts Call.ofFiles
  induction files with
  | nil => rfl
  | cons f rest ih =>
    rw [List.map_cons, all, ih, Run.text_eq, List.map_cons, Run.hear_cons, onTexts_andThen]

theorem all_dispatch (checks : List (Check ν)) (parsed : List (SourceFile × ParsedSource))
    (b : Bench ν) (hb : b.trees.map Check.design = checks.map Check.design) :
    all (parsed.map fun x => onTrees (Run.dispatch (.ofChecks checks) x.2.tree x.1.path)) b =
      onTrees (Run.hear (Call.ofParsed parsed)) b := by
  unfold Call.ofParsed
  induction parsed generalizing b with
  | nil => rfl
  | cons x rest ih =>
    rw [List.flatMap_cons, Run.hear_append, onTrees_andThen]
    refine andThen_congr (P := fun b => b.trees.map Check.design = checks.map Check.design)
      (fun b hb => ?_) (fun b hb => ih b hb) (fun b hb => ?_) b hb
    · have hdispatch := Run.dispatch_eq x.2.tree x.1.path checks ⟨b.trees, b.tables, b.notes⟩ hb
      simp only [onTrees, hdispatch]
    · exact (Run.hear_design _ _).trans hb

theorem readTrees_eq (parsed : List (SourceFile × ParsedSource)) :
    readTrees (ν := ν) parsed = onTrees (Run.hear (Call.ofParsed parsed)) := by
  funext b
  exact all_dispatch b.trees parsed b rfl

/-- A stage as four rounds of calls. -/
theorem stage_eq (files : List SourceFile) (parsed : List (SourceFile × ParsedSource)) :
    stage (ν := ν) files parsed =
      ((onTexts (Run.hear (Call.ofFiles files))).andThen
        (onTrees (Run.hear (Call.ofParsed parsed)))).andThen
          ((onTexts (Run.hear [.atEnd])).andThen (onTrees (Run.hear [.atEnd]))) := by
  rw [stage, readTexts_eq, readTrees_eq, Run.finish_eq, Run.hear_singleton]

end Bench
end RailsReview
