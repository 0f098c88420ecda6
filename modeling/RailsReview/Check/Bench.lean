import RailsReview.Check.Run
import RailsReview.Source

/-!
# Running a stage of the analysis

Within a stage, text checks read the text of every file and all other checks visit the trees of the
parsed ones, in an order of their own. They work on the same tables.
-/
namespace RailsReview

structure Bench (ν : Type) where
  texts : List (Check ν)
  trees : List (Check ν)
  tables : Tables := {}
  notes : List ν := []

namespace Bench

variable {ν : Type}

/-- Sorts the checks by what they read. -/
def ofChecks (checks : List (Check ν)) (tables : Tables) (notes : List ν) : Bench ν :=
  ⟨checks.filter (·.isTextCheck), checks.filter (!·.isTextCheck), tables, notes⟩

/-- Lets the text checks make a run. -/
def onTexts (r : Run ν) : Attempt RunError (Bench ν) := fun b =>
  let (s, e) := r ⟨b.texts, b.tables, b.notes⟩
  ({ b with texts := s.checks, tables := s.tables, notes := s.notes }, e)

/-- Lets the other checks make a run. -/
def onTrees (r : Run ν) : Attempt RunError (Bench ν) := fun b =>
  let (s, e) := r ⟨b.trees, b.tables, b.notes⟩
  ({ b with trees := s.checks, tables := s.tables, notes := s.notes }, e)

def readTexts (files : List SourceFile) : Attempt RunError (Bench ν) :=
  .all (files.map fun f => onTexts (Run.text f.path f.content))

/-- Sends all trees to the checks, by one index of their kinds. -/
def readTrees (parsed : List (SourceFile × ParsedSource)) : Attempt RunError (Bench ν) := fun b =>
  let index := Run.KindIndex.ofChecks b.trees
  Attempt.all (parsed.map fun (f, source) => onTrees (Run.dispatch index source.tree f.path)) b

/-- All texts, then all trees, then the end of both. -/
def stage (files : List SourceFile) (parsed : List (SourceFile × ParsedSource)) :
    Attempt RunError (Bench ν) :=
  ((readTexts files).andThen (readTrees parsed)).andThen
    ((onTexts Run.finish).andThen (onTrees Run.finish))

/-- The diagnostics of the text checks and then those of the others. -/
def diagnostics (b : Bench ν) : List Diagnostic :=
  b.texts.flatMap (·.diagnostics) ++ b.trees.flatMap (·.diagnostics)

end Bench

end RailsReview
