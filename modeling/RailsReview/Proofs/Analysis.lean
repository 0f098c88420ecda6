import Mathlib.Data.List.Basic
import RailsReview.Analysis

/-!
# The ways an analysis can go

One lemma for each way in which an analysis ends, and facts on the files that it reads.
-/
namespace RailsReview.Analysis
variable {ν : Type}

section Ways
variable {plan : AnalysisPlan} {checks : CheckSet ν} {all : List SourceFile} {parser : Parser}
  {layout survey practice : Bench ν} {parsed : List (SourceFile × ParsedSource)}

theorem run_of_layout_failed {e : RunError}
    (h : layoutStage checks.layout (chosenFiles plan all) = (layout, some e)) :
    run plan checks all parser = (layout.notes, .error (.run e)) := by
  simp only [run, h]

theorem run_of_unparsed {e : AnalysisError}
    (h : layoutStage checks.layout (chosenFiles plan all) = (layout, none))
    (hp : parseAll plan.failOnParseError parser (chosenFiles plan all) = .error e) :
    run plan checks all parser = (layout.notes, .error e) := by
  simp only [run, h, hp]

theorem run_of_survey_failed {e : RunError}
    (h : layoutStage checks.layout (chosenFiles plan all) = (layout, none))
    (hp : parseAll plan.failOnParseError parser (chosenFiles plan all) = .ok parsed)
    (hs : surveyStage plan checks.survey (chosenFiles plan all) parsed layout = (survey, some e)) :
    run plan checks all parser = (survey.notes, .error (.run e)) := by
  simp only [run, h, hp, hs]

theorem run_of_practice_failed {e : RunError}
    (h : layoutStage checks.layout (chosenFiles plan all) = (layout, none))
    (hp : parseAll plan.failOnParseError parser (chosenFiles plan all) = .ok parsed)
    (hs : surveyStage plan checks.survey (chosenFiles plan all) parsed layout = (survey, none))
    (hr : practiceStage checks.practice (chosenFiles plan all) parsed survey =
      (practice, some e)) :
    run plan checks all parser = (practice.notes, .error (.run e)) := by
  simp only [run, h, hp, hs, hr]

theorem run_of_finished
    (h : layoutStage checks.layout (chosenFiles plan all) = (layout, none))
    (hp : parseAll plan.failOnParseError parser (chosenFiles plan all) = .ok parsed)
    (hs : surveyStage plan checks.survey (chosenFiles plan all) parsed layout = (survey, none))
    (hr : practiceStage checks.practice (chosenFiles plan all) parsed survey = (practice, none)) :
    run plan checks all parser =
      (practice.notes, .ok (Report.sort ⟨(suppressions parsed).filter
        (layout.diagnostics ++ practice.diagnostics), (chosenFiles plan all).length⟩,
        practice.tables)) := by
  simp only [run, h, hp, hs, hr]

end Ways

theorem parseAll_error {strict : Bool} {parser : Parser} {files : List SourceFile}
    {e : AnalysisError} (h : parseAll strict parser files = .error e) :
    ∃ file cause, e = .parse file cause := by
  unfold parseAll at h
  split at h
  · cases h
    exact ⟨_, _, rfl⟩
  · cases h

theorem parsed_of_parseAll {strict : Bool} {parser : Parser} {files : List SourceFile}
    {parsed : List (SourceFile × ParsedSource)} (h : parseAll strict parser files = .ok parsed) :
    parsed = parsedFiles parser files := by
  unfold parseAll at h
  split at h
  · cases h
  · exact (Except.ok.inj h).symm

/-- Only what the parser makes of the files that are parsed matters. -/
theorem parseAll_congr {strict : Bool} {parser parser' : Parser} {files : List SourceFile}
    (h : ∀ f ∈ files, parser f.path f.content = parser' f.path f.content) :
    parseAll strict parser files = parseAll strict parser' files := by
  have hr : rejections parser files = rejections parser' files := by
    apply List.filterMap_congr
    intro f hf
    rw [h f (List.mem_filter.1 hf).1]
  have hp : parsedFiles parser files = parsedFiles parser' files := by
    apply List.filterMap_congr
    intro f hf
    rw [h f (List.mem_filter.1 hf).1]
  unfold parseAll
  rw [hr, hp]

theorem group_lt (path : Path) : group path < 5 := by
  unfold group
  grind

/-- The first groups hold the files that belong to them. -/
theorem groups_perm (files : List SourceFile) (n : Nat) :
    ((List.range n).flatMap fun g => files.filter (group ·.path == g)).Perm
      (files.filter fun f => decide (group f.path < n)) := by
  induction n with
  | zero => simp
  | succ n ih =>
    rw [List.range_succ, List.flatMap_append, List.flatMap_singleton]
    have split := List.filter_append_perm (fun f => decide (group f.path < n))
      (files.filter fun f => decide (group f.path < n + 1))
    rw [List.filter_filter, List.filter_filter] at split
    have below : (files.filter fun f =>
          decide (group f.path < n) && decide (group f.path < n + 1)) =
        files.filter fun f => decide (group f.path < n) := by
      apply List.filter_congr
      intro f _
      grind
    have last : (files.filter fun f =>
          !decide (group f.path < n) && decide (group f.path < n + 1)) =
        files.filter (group ·.path == n) := by
      apply List.filter_congr
      intro f _
      grind
    rw [below, last] at split
    exact (ih.append_right _).trans split

theorem inReadingOrder_perm (files : List SourceFile) : (inReadingOrder files).Perm files := by
  have h := groups_perm files 5
  rwa [List.filter_eq_self.2 fun f _ => decide_eq_true (group_lt f.path)] at h

theorem inReadingOrder_sorted (files : List SourceFile) :
    (inReadingOrder files).Pairwise fun f g => group f.path ≤ group g.path := by
  unfold inReadingOrder
  rw [List.pairwise_flatMap]
  constructor
  · intro g _
    apply List.pairwise_of_forall_mem_list
    intro f hf f' hf'
    have hgroup := (List.mem_filter.1 hf).2
    have hgroup' := (List.mem_filter.1 hf').2
    grind
  · refine (List.pairwise_lt_range (n := 5)).imp ?_
    intro g g' hlt f hf f' hf'
    have hgroup := (List.mem_filter.1 hf).2
    have hgroup' := (List.mem_filter.1 hf').2
    grind

/-- Sorting into groups keeps the order in each group. -/
theorem filter_inReadingOrder (files : List SourceFile) (g : Nat) :
    (inReadingOrder files).filter (group ·.path == g) = files.filter (group ·.path == g) := by
  have hone (k : Nat) : (files.filter (group ·.path == k)).filter (group ·.path == g) =
      if k = g then files.filter (group ·.path == g) else [] := by
    rw [List.filter_filter]
    split
    · rename_i h
      rw [h]
      exact List.filter_congr fun f _ => by rw [Bool.and_self]
    · rename_i h
      rw [List.filter_eq_nil_iff]
      intro f _
      simp only [Bool.and_eq_true, beq_iff_eq]
      omega
  have hall (n : Nat) : ((List.range n).flatMap fun k =>
      (files.filter (group ·.path == k)).filter (group ·.path == g)) =
        if g < n then files.filter (group ·.path == g) else [] := by
    induction n with
    | zero => rfl
    | succ n ih =>
      rw [List.range_succ, List.flatMap_append, ih, List.flatMap_singleton, hone]
      grind
  unfold inReadingOrder
  rw [List.filter_flatMap, hall]
  split
  · rfl
  · rename_i h
    symm
    rw [List.filter_eq_nil_iff]
    intro f _ hf
    have hlt := group_lt f.path
    grind

/-- Files that are left out are not so much as parsed. -/
theorem run_kept (plan : AnalysisPlan) (set : CheckSet ν) (all : List SourceFile)
    {parser parser' : Parser} (h : ∀ f ∈ all, plan.excludes f.path = false →
      parser' f.path f.content = parser f.path f.content) :
    run plan set all parser = run plan set (all.filter (!plan.excludes ·.path)) parser' := by
  have hfiles : chosenFiles plan (all.filter (!plan.excludes ·.path)) = chosenFiles plan all := by
    unfold chosenFiles
    rw [List.filter_filter]
    simp only [Bool.and_self]
  have hparse : parseAll plan.failOnParseError parser' (chosenFiles plan all) =
      parseAll plan.failOnParseError parser (chosenFiles plan all) := by
    apply parseAll_congr
    intro f hf
    have hkept := List.mem_filter.1 ((inReadingOrder_perm _).subset hf)
    exact h f hkept.1 (by simpa using hkept.2)
  unfold run
  dsimp only
  rw [hfiles, hparse]

end RailsReview.Analysis
