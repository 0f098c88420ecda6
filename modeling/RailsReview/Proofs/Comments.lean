import RailsReview.Layout
import RailsReview.Proofs.Analysis
import RailsReview.Proofs.Bench
import RailsReview.Proofs.ReportOrder
import RailsReview.Proofs.Suppression

/-!
# Comments

Comments take no part in an analysis except that they leave diagnostics out of the report: exactly
those whose line bears a directive for their check.
-/
namespace RailsReview

namespace Analysis

/-- Whether a comment in one of the files switches a diagnostic off. -/
def switchedOff (parser : Parser) (files : List SourceFile) (d : Diagnostic) : Bool :=
  (files.filter (·.path.isRuby)).any fun f =>
    match parser f.path f.content with
    | .ok source => d.file == f.path && source.comments.any (·.disables d)
    | .error _ => false

theorem covers_suppressions (parser : Parser) (files : List SourceFile) (d : Diagnostic) :
    (suppressions (parsedFiles parser files)).covers d = switchedOff parser files d := by
  have hnone : ({} : Suppressions).covers d = false := rfl
  refine (Suppressions.covers_foldl (fun x : SourceFile × ParsedSource => x.1.path)
    (·.2.comments) _ {} d).trans ?_
  rw [hnone, Bool.false_or, parsedFiles, switchedOff, List.any_filterMap]
  congr 1
  funext f
  cases parser f.path f.content <;> rfl

end Analysis

/-- `q` rejects the same files as `p` and makes the same trees of the others, with the comments that
`p` finds and perhaps more. -/
def Parser.AddsComments (p q : Parser) (files : List SourceFile) : Prop :=
  ∀ f ∈ files, match p f.path f.content, q f.path f.content with
    | .ok s, .ok t => s.tree = t.tree ∧ s.comments ⊆ t.comments
    | .error _, .error _ => True
    | _, _ => False

namespace Analysis
variable {ν : Type} {p q : Parser} {files : List SourceFile}

/-- The files and their trees. -/
def parsedTrees (parsed : List (SourceFile × ParsedSource)) : List (SourceFile × Node) :=
  parsed.map fun x => (x.1, x.2.tree)

theorem parsedTrees_eq (h : p.AddsComments q files) :
    parsedTrees (parsedFiles p files) = parsedTrees (parsedFiles q files) := by
  unfold parsedTrees parsedFiles
  rw [List.map_filterMap, List.map_filterMap]
  apply List.filterMap_congr
  intro f hf
  have hf := h f (List.mem_filter.1 hf).1
  cases hp : p f.path f.content <;> cases hq : q f.path f.content <;> simp only [hp, hq] at hf ⊢
  simp [hf.1]

theorem rejected_eq (h : p.AddsComments q files) :
    (rejections p files).map (·.1) = (rejections q files).map (·.1) := by
  unfold rejections
  rw [List.map_filterMap, List.map_filterMap]
  apply List.filterMap_congr
  intro f hf
  have hf := h f (List.mem_filter.1 hf).1
  cases hp : p f.path f.content <;> cases hq : q f.path f.content <;> simp only [hp, hq] at hf ⊢
  rfl

/-- The analysis goes on after the one parser when it goes on after the other. -/
theorem parseAll_agrees (h : p.AddsComments q files) (strict : Bool) :
    (∃ e e', parseAll strict p files = .error e ∧ parseAll strict q files = .error e') ∨
      parseAll strict p files = .ok (parsedFiles p files) ∧
        parseAll strict q files = .ok (parsedFiles q files) := by
  have hrejected := rejected_eq h
  unfold parseAll
  cases hp : rejections p files with
  | nil =>
    rw [hp] at hrejected
    have hq : rejections q files = [] := List.map_eq_nil_iff.1 hrejected.symm
    rw [hq]
    exact .inr ⟨rfl, rfl⟩
  | cons x rest =>
    cases hq : rejections q files with
    | nil =>
      rw [hp, hq] at hrejected
      cases hrejected
    | cons y rest' =>
      cases strict with
      | false => exact .inr ⟨rfl, rfl⟩
      | true => exact .inl ⟨_, _, rfl, rfl⟩

theorem ofParsed_eq (parsed : List (SourceFile × ParsedSource)) :
    Call.ofParsed parsed = (parsedTrees parsed).flatMap fun x => Call.ofTree x.1.path x.2 := by
  unfold parsedTrees Call.ofParsed
  rw [List.flatMap_map]

theorem parsedTrees_withMigrationsLast (revisit : Bool)
    (parsed : List (SourceFile × ParsedSource)) :
    parsedTrees (withMigrationsLast revisit parsed) =
      (if revisit then parsedTrees parsed else (parsedTrees parsed).filter (!isMigration ·.1)) ++
        (parsedTrees parsed).filter (isMigration ·.1) := by
  unfold parsedTrees withMigrationsLast
  rw [List.map_append, List.filter_map, List.filter_map]
  cases revisit with
  | false => simp only [Bool.false_eq_true, if_false, Function.comp_def]
  | true => simp only [if_true, Function.comp_def]

section Stages
variable {parsed parsed' : List (SourceFile × ParsedSource)}
  (h : parsedTrees parsed = parsedTrees parsed')
include h

/-- A stage sees files and trees only. -/
theorem stage_congr (files : List SourceFile) :
    Bench.stage (ν := ν) files parsed = Bench.stage files parsed' := by
  rw [Bench.stage_eq, Bench.stage_eq, ofParsed_eq, ofParsed_eq, h]

theorem surveyStage_congr (plan : AnalysisPlan) (checks : List (Check ν)) (files : List SourceFile)
    (before : Bench ν) :
    surveyStage plan checks files parsed before = surveyStage plan checks files parsed' before := by
  unfold surveyStage
  rw [stage_congr]
  rw [parsedTrees_withMigrationsLast, parsedTrees_withMigrationsLast, h]

theorem practiceStage_congr (checks : List (Check ν)) (files : List SourceFile)
    (before : Bench ν) :
    practiceStage checks files parsed before = practiceStage checks files parsed' before := by
  unfold practiceStage
  rw [stage_congr h]

end Stages

/-- What fewer comments switch off, more comments switch off. -/
theorem switchedOff_mono (h : p.AddsComments q files) (d : Diagnostic)
    (hd : switchedOff p files d) : switchedOff q files d := by
  unfold switchedOff at hd ⊢
  obtain ⟨f, hf, hd⟩ := List.any_eq_true.1 hd
  refine List.any_eq_true.2 ⟨f, hf, ?_⟩
  have hf := h f (List.mem_filter.1 hf).1
  cases hp : p f.path f.content <;> cases hq : q f.path f.content <;>
    simp only [hp, hq, Bool.and_eq_true, Bool.false_eq_true] at hf hd ⊢
  obtain ⟨c, hc, hcd⟩ := List.any_eq_true.1 hd.2
  exact ⟨hd.1, List.any_eq_true.2 ⟨c, hf.2 hc, hcd⟩⟩

/-- More comments leave out some of what fewer comments leave in. -/
theorem filter_suppressions (h : p.AddsComments q files) (ds : List Diagnostic) :
    (suppressions (parsedFiles q files)).filter ds =
      ((suppressions (parsedFiles p files)).filter ds).filter (!switchedOff q files ·) := by
  rw [Suppressions.filter_eq, Suppressions.filter_eq, List.filter_filter]
  apply List.filter_congr
  intro d _
  rw [covers_suppressions, covers_suppressions]
  cases hd : switchedOff p files d with
  | false => rw [Bool.not_false, Bool.and_true]
  | true => rw [switchedOff_mono h d hd]; rfl

/-- More comments leave more diagnostics out, exactly those that they switch off, and do nothing
else. -/
theorem comments_only_filter (plan : AnalysisPlan) (set : CheckSet ν) (all : List SourceFile)
    (p q : Parser) (h : p.AddsComments q all) :
    (run plan set all p).2.isOk = (run plan set all q).2.isOk ∧
    ∀ report tables report' tables', (run plan set all p).2 = .ok (report, tables) →
      (run plan set all q).2 = .ok (report', tables') →
      tables' = tables ∧ report'.filesChecked = report.filesChecked ∧
        report'.diagnostics =
          report.diagnostics.filter (!switchedOff q (chosenFiles plan all) ·) := by
  have hfiles : p.AddsComments q (chosenFiles plan all) := fun f hf =>
    h f (List.mem_filter.1 ((inReadingOrder_perm _).subset hf)).1
  have htrees := parsedTrees_eq hfiles
  rcases hL : layoutStage set.layout (chosenFiles plan all) with ⟨layout, _ | e⟩
  · rcases parseAll_agrees hfiles plan.failOnParseError with ⟨e, e', hp, hq⟩ | ⟨hp, hq⟩
    · rw [run_of_unparsed hL hp, run_of_unparsed hL hq]
      exact ⟨rfl, nofun⟩
    · -- From here on both analyses make the same stages, as these see no comments.
      have hsurvey := surveyStage_congr htrees plan set.survey (chosenFiles plan all) layout
      rcases hS : surveyStage plan set.survey (chosenFiles plan all)
        (parsedFiles p (chosenFiles plan all)) layout with ⟨survey, _ | e⟩
      · have hpractice := practiceStage_congr htrees set.practice (chosenFiles plan all) survey
        rcases hR : practiceStage set.practice (chosenFiles plan all)
          (parsedFiles p (chosenFiles plan all)) survey with ⟨practice, _ | e⟩
        · rw [run_of_finished hL hp hS hR,
            run_of_finished hL hq (hsurvey.symm.trans hS) (hpractice.symm.trans hR),
            filter_suppressions hfiles]
          refine ⟨rfl, ?_⟩
          rintro report tables report' tables' ⟨⟩ ⟨⟩
          exact ⟨rfl, rfl, Report.sort_filter _ _ _⟩
        · rw [run_of_practice_failed hL hp hS hR,
            run_of_practice_failed hL hq (hsurvey.symm.trans hS) (hpractice.symm.trans hR)]
          exact ⟨rfl, nofun⟩
      · rw [run_of_survey_failed hL hp hS,
          run_of_survey_failed hL hq (hsurvey.symm.trans hS)]
        exact ⟨rfl, nofun⟩
  · rw [run_of_layout_failed hL, run_of_layout_failed hL]
    exact ⟨rfl, nofun⟩

/-- A line with a tab at its start. -/
def untidyFile : SourceFile := ⟨⟨"Gemfile"⟩, "\tx"⟩

/-- A parser that finds these comments and nothing else. -/
def commentParser (comments : List Comment) : Parser := fun _ _ =>
  .ok ⟨.ofKind .program [], comments⟩

/-- Switches the check of tabs off where it reports. -/
def tabDirective : List Comment := [⟨1, "# railsbp:disable RemoveTab"⟩]

def wholePlan : AnalysisPlan := ⟨[], [], [], false, false⟩

def tidyChecks : CheckSet Empty := { layout := [Layout.tab [], Layout.trailingBlank []] }

theorem comments_only_filter_tab :
    (commentParser []).AddsComments (commentParser tabDirective) [untidyFile] ∧
    ∃ report report' tables,
      (run wholePlan tidyChecks [untidyFile] (commentParser [])).2 = .ok (report, tables) ∧
      (run wholePlan tidyChecks [untidyFile] (commentParser tabDirective)).2 =
        .ok (report', tables) ∧
      report'.diagnostics = report.diagnostics.filter
        (!switchedOff (commentParser tabDirective) (chosenFiles wholePlan [untidyFile]) ·) ∧
      report.diagnostics.map (·.check) = ["RemoveTabCheck"] ∧
      report'.diagnostics.map (·.check) = [] := by
  have hcomments : (commentParser []).AddsComments (commentParser tabDirective) [untidyFile] :=
    fun _ _ => ⟨rfl, List.nil_subset _⟩
  obtain ⟨hok, hfilter⟩ := comments_only_filter wholePlan tidyChecks [untidyFile] _ _ hcomments
  have hfirst : (run wholePlan tidyChecks [untidyFile] (commentParser [])).2.toOption.map
      (·.1.diagnostics.map (·.check)) = some ["RemoveTabCheck"] := by decide +kernel
  have hsecond : (run wholePlan tidyChecks [untidyFile]
      (commentParser tabDirective)).2.toOption.map (·.1.diagnostics.map (·.check)) = some [] := by
    decide +kernel
  rcases hp : (run wholePlan tidyChecks [untidyFile] (commentParser [])).2 with e | ⟨report, tables⟩
  · rw [hp] at hfirst
    cases hfirst
  · rcases hq : (run wholePlan tidyChecks [untidyFile] (commentParser tabDirective)).2 with
      e | ⟨report', tables'⟩
    · rw [hq] at hsecond
      cases hsecond
    · obtain ⟨rfl, -, hdiagnostics⟩ := hfilter report tables report' tables' hp hq
      rw [hp] at hfirst
      rw [hq] at hsecond
      exact ⟨hcomments, report, report', tables', rfl, rfl, hdiagnostics,
        Option.some.inj hfirst, Option.some.inj hsecond⟩

end Analysis
end RailsReview
