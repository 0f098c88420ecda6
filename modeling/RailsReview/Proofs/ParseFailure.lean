import RailsReview.Proofs.Cuts
import RailsReview.Proofs.QuietRuns

/-!
# Failures of parsing

With the checks of a configuration, an analysis ends in an error if and only if it is told to and a
file is not parsed, and the error names the first such file in the order in which files are read.
-/
namespace RailsReview
variable {ν : Type}

namespace Analysis

/-- A file that has to be parsed and is rejected. -/
structure Rejected (parser : Parser) (f : SourceFile) (cause : ParseFailure) : Prop where
  ruby : f.path.isRuby
  parse : parser f.path f.content = .error cause

/-- The first one that is rejected of files in this order. -/
structure FirstRejected (parser : Parser) (files : List SourceFile) (f : SourceFile)
    (cause : ParseFailure) : Prop where
  rejected : Rejected parser f cause
  first : ∃ before after, files = before ++ f :: after ∧
    ∀ g ∈ before, ∀ cause', ¬Rejected parser g cause'

section Parsing
variable {parser : Parser} {files : List SourceFile} {f : SourceFile} {cause : ParseFailure}

/-- What is said of a file by the list of rejected ones. -/
def rejection? (parser : Parser) (f : SourceFile) : Option (SourceFile × ParseFailure) :=
  if f.path.isRuby then
    match parser f.path f.content with
    | .ok _ => none
    | .error cause => some (f, cause)
  else none

theorem rejection?_eq_some_iff {g : SourceFile} :
    rejection? parser g = some (f, cause) ↔ g = f ∧ Rejected parser f cause := by
  unfold rejection?
  constructor
  · intro h
    split at h
    · rename_i hruby
      split at h
      · cases h
      · rename_i hparse
        cases h
        exact ⟨rfl, hruby, hparse⟩
    · cases h
  · rintro ⟨rfl, hruby, hparse⟩
    rw [if_pos hruby, hparse]

theorem rejections_eq (parser : Parser) (files : List SourceFile) :
    rejections parser files = files.filterMap (rejection? parser) := by
  unfold rejections
  rw [List.filterMap_filter]
  rfl

theorem head?_rejections :
    (rejections parser files).head? = some (f, cause) ↔ FirstRejected parser files f cause := by
  rw [rejections_eq, List.head?_filterMap, List.findSome?_eq_some_iff]
  constructor
  · rintro ⟨before, g, after, rfl, hg, hbefore⟩
    obtain ⟨rfl, hrejected⟩ := rejection?_eq_some_iff.1 hg
    refine ⟨hrejected, before, after, rfl, fun x hx cause' hx' => ?_⟩
    have hnone := hbefore x hx
    rw [rejection?_eq_some_iff.2 ⟨rfl, hx'⟩] at hnone
    cases hnone
  · rintro ⟨hrejected, before, after, rfl, hbefore⟩
    refine ⟨before, f, after, rfl, rejection?_eq_some_iff.2 ⟨rfl, hrejected⟩, fun x hx => ?_⟩
    cases hx' : rejection? parser x with
    | none => rfl
    | some y =>
      obtain ⟨rfl, hrejected'⟩ := rejection?_eq_some_iff.1 hx'
      exact absurd hrejected' (hbefore _ hx _)

/-- Where a file is rejected, one is the first. -/
theorem exists_firstRejected (hf : f ∈ files) (h : Rejected parser f cause) :
    ∃ g cause', FirstRejected parser files g cause' := by
  have hmem : (f, cause) ∈ rejections parser files := by
    rw [rejections_eq]
    exact List.mem_filterMap.2 ⟨f, hf, rejection?_eq_some_iff.2 ⟨rfl, h⟩⟩
  rcases hall : rejections parser files with _ | ⟨⟨g, cause'⟩, rest⟩
  · rw [hall] at hmem
    cases hmem
  · exact ⟨g, cause', head?_rejections.1 (by rw [hall, List.head?_cons])⟩

/-- Parsing fails if it is strict and a file is rejected, and says so of the first one. -/
theorem parseAll_eq_error_iff {strict : Bool} {e : AnalysisError} :
    parseAll strict parser files = .error e ↔
      strict ∧ ∃ f cause, FirstRejected parser files f cause ∧ e = .parse f.path cause := by
  simp only [← head?_rejections]
  unfold parseAll
  cases strict with
  | false => simp
  | true =>
    rcases (rejections parser files).head? with _ | ⟨f, cause⟩
    · simp
    · simp [Option.filter_some, eq_comm]

end Parsing

/-- The result of an analysis with checks that never fail is decided by the parser. -/
theorem run_of_quiet {set : CheckSet ν} (hlayout : ∀ c ∈ set.layout, c.Quiet)
    (hsurvey : ∀ c ∈ set.survey, c.Quiet) (hpractice : ∀ c ∈ set.practice, c.Quiet)
    (plan : AnalysisPlan) (all : List SourceFile) (parser : Parser) :
    match parseAll plan.failOnParseError parser (chosenFiles plan all) with
    | .error e => (run plan set all parser).2 = .error e
    | .ok _ => ∃ report tables, (run plan set all parser).2 = .ok (report, tables) ∧
        report.filesChecked = (chosenFiles plan all).length := by
  rcases hL : layoutStage set.layout (chosenFiles plan all) with ⟨layout, e⟩
  obtain rfl : e = none := by
    have hnone := layoutStage_succeeds hlayout (chosenFiles plan all)
    rwa [hL] at hnone
  cases hp : parseAll plan.failOnParseError parser (chosenFiles plan all) with
  | error e =>
    rw [run_of_unparsed hL hp]
  | ok parsed =>
    rcases hS : surveyStage plan set.survey (chosenFiles plan all) parsed layout with ⟨survey, e⟩
    obtain rfl : e = none := by
      have hnone := surveyStage_succeeds hsurvey (chosenFiles plan all) parsed layout plan
      rwa [hS] at hnone
    rcases hR : practiceStage set.practice (chosenFiles plan all) parsed survey with ⟨practice, e⟩
    obtain rfl : e = none := by
      have hnone := practiceStage_succeeds hpractice (chosenFiles plan all) parsed survey
      rwa [hR] at hnone
    rw [run_of_finished hL hp hS hR]
    exact ⟨_, _, rfl, rfl⟩

/-- The files that are left of all, in the order in which they are read. -/
structure ReadingOrder (plan : AnalysisPlan) (all files : List SourceFile) : Prop where
  perm : files.Perm (all.filter (!plan.excludes ·.path))
  sorted : files.Pairwise fun f g => group f.path ≤ group g.path
  stable : ∀ g, files.filter (group ·.path == g) =
    (all.filter (!plan.excludes ·.path)).filter (group ·.path == g)

theorem chosenFiles_readingOrder (plan : AnalysisPlan) (all : List SourceFile) :
    ReadingOrder plan all (chosenFiles plan all) :=
  ⟨inReadingOrder_perm _, inReadingOrder_sorted _, filter_inReadingOrder _⟩

/-- An analysis with the checks of a configuration fails exactly if it is told to and the parser
rejects a file that is not excluded. The error is the parser's, of the first such file in reading
order. -/
theorem only_parse_failures [PatternLanguage] {c : Configuration} {set : CheckSet ν}
    (hset : CheckSet.ofConfiguration c = .ok set) (plan : AnalysisPlan) (all : List SourceFile)
    (parser : Parser) :
    ReadingOrder plan all (chosenFiles plan all) ∧
      ((∃ e, (run plan set all parser).2 = .error e) ↔ plan.failOnParseError ∧
        ∃ f ∈ all, !plan.excludes f.path ∧ ∃ cause, Rejected parser f cause) ∧
      (∀ e, (run plan set all parser).2 = .error e →
        ∃ f cause, FirstRejected parser (chosenFiles plan all) f cause ∧ e = .parse f.path cause) ∧
      (∀ report tables, (run plan set all parser).2 = .ok (report, tables) →
        report.filesChecked = (all.filter (!plan.excludes ·.path)).length) ∧
      CutsSucceed := by
  obtain ⟨hlayout, hsurvey, hpractice⟩ := CheckSet.quiet_ofConfiguration hset
  have horder := chosenFiles_readingOrder plan all
  have hresult := run_of_quiet hlayout hsurvey hpractice plan all parser
  have hmem {f : SourceFile} : f ∈ chosenFiles plan all ↔ f ∈ all ∧ !plan.excludes f.path :=
    horder.perm.mem_iff.trans List.mem_filter
  refine ⟨horder, ?_⟩
  cases hp : parseAll plan.failOnParseError parser (chosenFiles plan all) with
  | error e =>
    obtain ⟨hstrict, f, cause, hfirst, rfl⟩ := parseAll_eq_error_iff.1 hp
    simp only [hp] at hresult
    rw [hresult]
    obtain ⟨before, after, hfiles, -⟩ := hfirst.first
    obtain ⟨hall, hkept⟩ := hmem.1 (hfiles ▸ List.mem_append_right before (by simp) : f ∈ _)
    refine ⟨⟨fun _ => ⟨hstrict, f, hall, hkept, cause, hfirst.rejected⟩, fun _ => ⟨_, rfl⟩⟩, ?_,
      nofun, cutsSucceed⟩
    rintro e he
    exact ⟨f, cause, hfirst, (Except.error.inj he).symm⟩
  | ok parsed =>
    simp only [hp] at hresult
    obtain ⟨report, tables, hrun, hcount⟩ := hresult
    rw [hrun]
    refine ⟨⟨nofun, ?_⟩, nofun, ?_, cutsSucceed⟩
    · rintro ⟨hstrict, f, hall, hkept, cause, hrejected⟩
      obtain ⟨g, cause', hfirst⟩ := exists_firstRejected (hmem.2 ⟨hall, hkept⟩) hrejected
      have herror := parseAll_eq_error_iff.2 ⟨hstrict, g, cause', hfirst, rfl⟩
      rw [hp] at herror
      cases herror
    · rintro report' tables' hok
      cases hok
      rw [hcount, horder.perm.length_eq]

/-- A file that is excluded, a helper and a model. -/
def brokenFiles : List SourceFile :=
  [⟨⟨"vendor/post.rb"⟩, ""⟩, ⟨⟨"app/helpers/post_helper.rb"⟩, ""⟩, ⟨⟨"app/models/post.rb"⟩, ""⟩]

/-- Leaves vendored files out and ends at a failure to parse. -/
def strictPlan : AnalysisPlan := ⟨["vendor"].map AnalysisPlan.below, [], [], true, false⟩

/-- Rejects all files. -/
def brokenParser : Parser := fun _ _ => .error (.said "unexpected end")

/-- How the analysis of these files ends. -/
def brokenMessage? (set : CheckSet Empty) : Option String :=
  match (run strictPlan set brokenFiles brokenParser).2 with
  | .ok _ => none
  | .error e => e.text?

theorem only_parse_failures_broken : ∃ set : CheckSet Empty,
    CheckSet.ofConfiguration {} = .ok set ∧
    brokenMessage? set = some "Parse error in app/models/post.rb: unexpected end" ∧
    ReadingOrder strictPlan brokenFiles (chosenFiles strictPlan brokenFiles) ∧
    ((∃ e, (run strictPlan set brokenFiles brokenParser).2 = .error e) ↔
      strictPlan.failOnParseError ∧ ∃ f ∈ brokenFiles, !strictPlan.excludes f.path ∧
        ∃ cause, Rejected brokenParser f cause) ∧
    (∀ e, (run strictPlan set brokenFiles brokenParser).2 = .error e →
      ∃ f cause, FirstRejected brokenParser (chosenFiles strictPlan brokenFiles) f cause ∧
        e = .parse f.path cause) ∧
    (∀ report tables, (run strictPlan set brokenFiles brokenParser).2 = .ok (report, tables) →
      report.filesChecked = (brokenFiles.filter (!strictPlan.excludes ·.path)).length) ∧
    CutsSucceed := by
  obtain ⟨set, hset⟩ : ∃ set : CheckSet Empty, CheckSet.ofConfiguration {} = .ok set := ⟨_, rfl⟩
  have hmessage : (CheckSet.ofConfiguration (ν := Empty) {}).toOption.bind brokenMessage? =
      some "Parse error in app/models/post.rb: unexpected end" := by decide +kernel
  simp only [hset, Except.toOption, Option.bind_some] at hmessage
  exact ⟨set, hset, hmessage, only_parse_failures hset strictPlan brokenFiles brokenParser⟩

end Analysis
end RailsReview
