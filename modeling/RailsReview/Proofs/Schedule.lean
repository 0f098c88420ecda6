import RailsReview.Proofs.Analysis
import RailsReview.Proofs.TreeDelivery
import RailsReview.Proofs.WatchedBench

/-!
# The schedule of an analysis

Which calls an analysis delivers to which checks is settled by its checks and files before it
starts: there is a schedule, stage by stage, and a run delivers all of it or all up to a failure.
-/
namespace RailsReview
open Attempt
variable {ν : Type}

namespace CheckSet

/-- The checks of a stage, known by the stage and their places. -/
def inStage (stage : Stage) (checks : List (Check ν)) : List (Check ν × (Stage × Nat)) :=
  checks.zipIdx.map fun x => (x.1, stage, x.2)

/-- All checks, known by their stages and places. -/
def labelled (s : CheckSet ν) : List (Check ν × (Stage × Nat)) :=
  inStage .layout s.layout ++ (inStage .survey s.survey ++ inStage .practice s.practice)

/-- The same checks under a watch. -/
def watched (s : CheckSet ν) : CheckSet (Watched ν (Stage × Nat)) where
  layout := watchAll true (inStage .layout s.layout)
  survey := watchAll false (inStage .survey s.survey)
  practice := watchAll false (inStage .practice s.practice)

theorem inStage_fst (stage : Stage) (checks : List (Check ν)) :
    (inStage stage checks).map (·.1) = checks := by
  rw [inStage, List.map_map]
  exact List.zipIdx_map_fst 0 checks

end CheckSet

namespace Analysis
open CheckSet

/-- What the layout checks are to receive: every text, and the end. -/
def layoutSchedule (set : CheckSet ν) (files : List SourceFile) : List (Delivery (Stage × Nat)) :=
  Call.deliveries (inStage .layout set.layout) (Call.ofFiles files ++ [.atEnd])

/-- What the checks of a later stage are to receive: every text, every tree, and the end. -/
def stageSchedule (checks : List (Check ν × (Stage × Nat))) (files : List SourceFile)
    (parsed : List (SourceFile × ParsedSource)) : List (Delivery (Stage × Nat)) :=
  let texts := checks.filter (·.1.isTextCheck)
  let trees := checks.filter (!·.1.isTextCheck)
  (Call.deliveries texts (Call.ofFiles files) ++ Call.deliveries trees (Call.ofParsed parsed)) ++
    (Call.deliveries texts [.atEnd] ++ Call.deliveries trees [.atEnd])

def surveySchedule (plan : AnalysisPlan) (set : CheckSet ν) (files : List SourceFile)
    (parsed : List (SourceFile × ParsedSource)) : List (Delivery (Stage × Nat)) :=
  stageSchedule (inStage .survey set.survey) files
    (withMigrationsLast plan.revisitMigrations parsed)

def practiceSchedule (set : CheckSet ν) (files : List SourceFile)
    (parsed : List (SourceFile × ParsedSource)) : List (Delivery (Stage × Nat)) :=
  stageSchedule (inStage .practice set.practice) files parsed

/-- The stages after the layout, if there are parsed files to go on with. -/
def laterSchedule (plan : AnalysisPlan) (set : CheckSet ν) (files : List SourceFile) :
    Except AnalysisError (List (SourceFile × ParsedSource)) → List (Delivery (Stage × Nat))
  | .ok parsed => surveySchedule plan set files parsed ++ practiceSchedule set files parsed
  | .error _ => []

theorem layoutStage_logs (set : CheckSet ν) (files : List SourceFile) {after : Bench ν}
    {e : Option RunError} (h : layoutStage set.layout files = (after, e)) :
    ∃ after', layoutStage set.watched.layout files = (after', e) ∧
      (after'.tables = after.tables ∧ Watched.own after'.notes = after.notes ∧
        after'.diagnostics = after.diagnostics) ∧
      Logged (Delivery.Ends set.labelled) (layoutSchedule set files) []
        (Watched.outcomes after'.notes) e := by
  let start : List (Check ν × (Stage × Nat)) := inStage .layout set.layout
  have hlabels : set.layout.zip (start.map (·.2)) = start := by
    have hzip := zip_fst_snd start
    rwa [inStage_fst] at hzip
  have hstart : Bench.Watches true start [] ⟨set.layout, [], {}, []⟩
      ⟨set.watched.layout, [], {}, []⟩ := by
    refine ⟨by rw [inStage_fst], rfl, ?_, rfl, rfl, rfl⟩
    rw [hlabels]
    rfl
  have hseen : ∀ call ∈ Call.ofFiles files ++ [.atEnd], ∀ x ∈ start, call.seen true x.1 := by
    intro call _ x _
    cases call <;> rfl
  have hrun := Bench.onTexts_logs hseen _ _ hstart
  rw [Run.hear_append, Run.hear_append, Run.hear_singleton, Run.hear_singleton,
    Bench.onTexts_andThen, Bench.onTexts_andThen] at hrun
  simp only [layoutStage, Bench.readTexts_eq, Run.finish_eq] at h ⊢
  rw [h] at hrun
  obtain ⟨hwatch, herr, hlog⟩ := hrun
  refine ⟨_, Prod.ext rfl herr, ⟨hwatch.tables, hwatch.notes, hwatch.diagnostics⟩, ?_⟩
  refine hlog.mono fun d x e => Delivery.Ends.mono ?_
  rw [List.append_nil]
  exact List.subset_append_left _ _

theorem stage_logs (checks : List (Check ν × (Stage × Nat))) (files : List SourceFile)
    (parsed : List (SourceFile × ParsedSource)) :
    Bench.Logs false (checks.filter (·.1.isTextCheck)) (checks.filter (!·.1.isTextCheck))
      (stageSchedule checks files parsed) (Bench.stage files parsed)
      (Bench.stage files parsed) := by
  rw [Bench.stage_eq, Bench.stage_eq]
  have htext : ∀ calls : List Call, ∀ call ∈ calls, ∀ x ∈ checks.filter (·.1.isTextCheck),
      call.seen false x.1 := by
    intro calls call _ x hx
    have htextual := (List.mem_filter.1 hx).2
    cases call <;> first | rfl | exact htextual
  have hend : ∀ call ∈ [Call.atEnd], ∀ x ∈ checks.filter (!·.1.isTextCheck),
      call.seen false x.1 := by
    intro call hcall x _
    rw [List.mem_singleton.1 hcall]
    rfl
  have htree : ∀ call ∈ Call.ofParsed parsed, ∀ x ∈ checks.filter (!·.1.isTextCheck),
      call.seen false x.1 := by
    intro call hcall x _
    obtain ⟨y, _, hy⟩ := List.mem_flatMap.1 hcall
    obtain ⟨phase, file, n, rfl⟩ := (Call.nested_below _ _).exists_node hy
    rfl
  exact ((Bench.onTexts_logs (htext _)).andThen (Bench.onTrees_logs htree)).andThen
    ((Bench.onTexts_logs (htext _)).andThen (Bench.onTrees_logs hend))

/-- What a later stage logs, and that the watch changes nothing of what it leaves. -/
theorem laterStage_logs {set : CheckSet ν} {stage : Stage} {checks : List (Check ν)}
    (hset : inStage stage checks ⊆ set.labelled) {files : List SourceFile}
    {parsed : List (SourceFile × ParsedSource)} {before after : Bench ν} {e : Option RunError}
    {before' : Bench (Watched ν (Stage × Nat))} (ht : before'.tables = before.tables)
    (hn : Watched.own before'.notes = before.notes)
    (h : Bench.stage files parsed (.ofChecks checks before.tables before.notes) = (after, e)) :
    ∃ after', Bench.stage files parsed
        (.ofChecks (watchAll false (inStage stage checks)) before'.tables before'.notes) =
          (after', e) ∧
      (after'.tables = after.tables ∧ Watched.own after'.notes = after.notes ∧
        after'.diagnostics = after.diagnostics) ∧
      Logged (Delivery.Ends set.labelled) (stageSchedule (inStage stage checks) files parsed)
        (Watched.outcomes before'.notes) (Watched.outcomes after'.notes) e := by
  have hstart := Bench.ofChecks_watches (inStage stage checks) before.tables hn
  rw [inStage_fst] at hstart
  have hrun := stage_logs (inStage stage checks) files parsed _ _ hstart
  rw [h, ← ht] at hrun
  obtain ⟨hwatch, herr, hlog⟩ := hrun
  refine ⟨_, Prod.ext rfl herr, ⟨hwatch.tables, hwatch.notes, hwatch.diagnostics⟩, ?_⟩
  refine hlog.mono fun d x e => Delivery.Ends.mono fun y hy => ?_
  rcases List.mem_append.1 hy with hy | hy
  · exact hset (List.mem_filter.1 hy).1
  · exact hset (List.mem_filter.1 hy).1

/-- How an analysis with the schedule `whole` comes to its result: it makes all deliveries, or all
up to one that fails. -/
def Follows (set : CheckSet ν) (whole : List (Delivery (Stage × Nat)))
    (seen : List (Delivery (Stage × Nat) × Option CheckError))
    (parsed : Except AnalysisError (List (SourceFile × ParsedSource))) :
    Except AnalysisError (Report × Tables) → Prop
  | .ok _ => seen = whole.map (·, none) ∧ ∃ p, parsed = .ok p
  | .error (.parse file cause) =>
    seen = whole.map (·, none) ∧ parsed = .error (.parse file cause)
  | .error (.run e) => Logged (Delivery.Ends set.labelled) whole [] seen (some e)

/-- The watch on an analysis changes nothing, and it sees the analysis follow its schedule. -/
theorem run_follows (plan : AnalysisPlan) (set : CheckSet ν) (all : List SourceFile)
    (parser : Parser) :
    let files := chosenFiles plan all
    let parsed := parseAll plan.failOnParseError parser files
    let plain := run plan set all parser
    let seen := run plan set.watched all parser
    seen.2 = plain.2 ∧ Watched.own seen.1 = plain.1 ∧
      Follows set (layoutSchedule set files ++ laterSchedule plan set files parsed)
        (Watched.outcomes seen.1) parsed plain.2 := by
  intro files parsed plain seen
  rcases hL : layoutStage set.layout files with ⟨layout, _ | e⟩
  · obtain ⟨layout', hL', ⟨htL, hnL, hdL⟩, hlogL⟩ := layoutStage_logs set files hL
    cases hp : parsed with
    | error e =>
      obtain ⟨file, cause, rfl⟩ := parseAll_error hp
      rw [show plain = _ from run_of_unparsed hL hp, show seen = _ from run_of_unparsed hL' hp]
      refine ⟨rfl, hnL, ?_, rfl⟩
      rw [laterSchedule, List.append_nil]
      exact hlogL
    | ok p =>
      have hsurvey : inStage .survey set.survey ⊆ set.labelled :=
        List.subset_append_of_subset_right _ (List.subset_append_left _ _)
      have hpractice : inStage .practice set.practice ⊆ set.labelled :=
        List.subset_append_of_subset_right _ (List.subset_append_right _ _)
      rw [laterSchedule, ← List.append_assoc]
      rcases hS : surveyStage plan set.survey files p layout with ⟨survey, _ | e⟩
      · obtain ⟨survey', hS', ⟨htS, hnS, -⟩, hlogS⟩ := laterStage_logs hsurvey htL hnL hS
        rcases hR : practiceStage set.practice files p survey with ⟨practice, _ | e⟩
        · obtain ⟨practice', hR', ⟨htR, hnR, hdR⟩, hlogR⟩ := laterStage_logs hpractice htS hnS hR
          rw [show plain = _ from run_of_finished hL hp hS hR,
            show seen = _ from run_of_finished hL' hp hS' hR', htR, hdL, hdR]
          exact ⟨rfl, hnR, (hlogL.append hlogS).append hlogR, p, rfl⟩
        · obtain ⟨practice', hR', ⟨-, hnR, -⟩, hlogR⟩ := laterStage_logs hpractice htS hnS hR
          rw [show plain = _ from run_of_practice_failed hL hp hS hR,
            show seen = _ from run_of_practice_failed hL' hp hS' hR']
          exact ⟨rfl, hnR, (hlogL.append hlogS).append hlogR⟩
      · obtain ⟨survey', hS', ⟨-, hnS, -⟩, hlogS⟩ := laterStage_logs hsurvey htL hnL hS
        rw [show plain = _ from run_of_survey_failed hL hp hS,
          show seen = _ from run_of_survey_failed hL' hp hS']
        exact ⟨rfl, hnS, (hlogL.append hlogS).cut _⟩
  · obtain ⟨layout', hL', ⟨-, hnL, -⟩, hlogL⟩ := layoutStage_logs set files hL
    rw [show plain = _ from run_of_layout_failed hL, show seen = _ from run_of_layout_failed hL']
    exact ⟨rfl, hnL, hlogL.cut _⟩

/-- A delivery goes to one of the checks. -/
theorem exists_check_of_mem {α : Type} {checks : List (Check ν × α)} {calls : List Call}
    {d : Delivery α} (h : d ∈ Call.deliveries checks calls) : ∃ x ∈ checks, d.check = x.2 := by
  obtain ⟨call, _, hd⟩ := List.mem_flatMap.1 h
  obtain ⟨x, hx, rfl⟩ := List.mem_map.1 hd
  exact ⟨x, (List.mem_filter.1 hx).1, rfl⟩

theorem stage_of_mem_inStage {stage : Stage} {checks : List (Check ν)}
    {x : Check ν × (Stage × Nat)} (h : x ∈ inStage stage checks) : x.2.1 = stage := by
  obtain ⟨y, _, rfl⟩ := List.mem_map.1 h
  rfl

theorem stage_of_mem_layoutSchedule {set : CheckSet ν} {files : List SourceFile}
    {d : Delivery (Stage × Nat)} (h : d ∈ layoutSchedule set files) : d.check.1 = .layout := by
  obtain ⟨x, hx, hd⟩ := exists_check_of_mem h
  rw [hd]
  exact stage_of_mem_inStage hx

theorem stage_of_mem_stageSchedule {stage : Stage} {checks : List (Check ν)}
    {files : List SourceFile} {parsed : List (SourceFile × ParsedSource)}
    {d : Delivery (Stage × Nat)} (h : d ∈ stageSchedule (inStage stage checks) files parsed) :
    d.check.1 = stage := by
  have part {p : Check ν × (Stage × Nat) → Bool} {calls : List Call}
      (h : d ∈ Call.deliveries ((inStage stage checks).filter p) calls) : d.check.1 = stage := by
    obtain ⟨x, hx, hd⟩ := exists_check_of_mem h
    rw [hd]
    exact stage_of_mem_inStage (List.mem_filter.1 hx).1
  rcases List.mem_append.1 h with h | h
  · rcases List.mem_append.1 h with h | h
    · exact part h
    · exact part h
  · rcases List.mem_append.1 h with h | h
    · exact part h
    · exact part h

/-- What does not occur in the first part of a list is preceded by that part. -/
theorem prefix_of_append_singleton {β : Type} {first rest before : List β} {d : β}
    (h : before ++ [d] <+: first ++ rest) (hd : d ∉ first) : first <+: before := by
  rcases List.prefix_or_prefix_of_prefix h (List.prefix_append first rest) with h | h
  · exact absurd (h.subset (by simp)) hd
  · rcases List.prefix_concat_iff.1 h with h | h
    · exact absurd (by simp [h]) hd
    · exact h

theorem Follows.initial {set : CheckSet ν} {whole : List (Delivery (Stage × Nat))}
    {seen : List (Delivery (Stage × Nat) × Option CheckError)}
    {parsed : Except AnalysisError (List (SourceFile × ParsedSource))}
    {result : Except AnalysisError (Report × Tables)} (h : Follows set whole seen parsed result) :
    seen.map (·.1) <+: whole := by
  match result with
  | .ok _ =>
    rw [h.1, List.map_map]
    exact (List.map_id whole).symm ▸ List.prefix_rfl
  | .error (.parse file cause) =>
    rw [h.1, List.map_map]
    exact (List.map_id whole).symm ▸ List.prefix_rfl
  | .error (.run e) =>
    obtain ⟨made, d, left, x, rfl, hseen, _⟩ := h
    refine ⟨left, ?_⟩
    rw [hseen]
    simp [Function.comp_def]

section Barrier
variable {plan : AnalysisPlan} {set : CheckSet ν} {files : List SourceFile}
  {parsed : Except AnalysisError (List (SourceFile × ParsedSource))}
  {before : List (Delivery (Stage × Nat))} {d : Delivery (Stage × Nat)}

theorem layout_precedes
    (h : before ++ [d] <+: layoutSchedule set files ++ laterSchedule plan set files parsed)
    (hd : d.check.1 ≠ .layout) : layoutSchedule set files <+: before :=
  prefix_of_append_singleton h fun hmem => hd (stage_of_mem_layoutSchedule hmem)

theorem surveys_precede
    (h : before ++ [d] <+: layoutSchedule set files ++ laterSchedule plan set files parsed)
    (hd : d.check.1 = .practice) :
    ∃ p, parsed = .ok p ∧
      layoutSchedule set files ++ surveySchedule plan set files p <+: before := by
  cases parsed with
  | error e =>
    rw [laterSchedule, List.append_nil] at h
    have hmem : d ∈ layoutSchedule set files := h.subset (by simp)
    rw [stage_of_mem_layoutSchedule hmem] at hd
    cases hd
  | ok p =>
    rw [laterSchedule, ← List.append_assoc] at h
    refine ⟨p, rfl, prefix_of_append_singleton h fun hmem => ?_⟩
    rcases List.mem_append.1 hmem with hmem | hmem
    · rw [stage_of_mem_layoutSchedule hmem] at hd
      cases hd
    · rw [stage_of_mem_stageSchedule hmem] at hd
      cases hd

end Barrier

/-- An analysis delivers its schedule: the layout stage, then the surveys, then the reviews, each
over the files in their order. A failure ends it then and there, and nothing that is left out is
parsed or delivered. -/
theorem scheduled_deliveries (plan : AnalysisPlan) (set : CheckSet ν) (all : List SourceFile)
    (parser : Parser) :
    let files := chosenFiles plan all
    let kept := all.filter (!plan.excludes ·.path)
    let parsed := parseAll plan.failOnParseError parser files
    let layout := layoutSchedule set files
    let whole := layout ++ laterSchedule plan set files parsed
    let plain := run plan set all parser
    let seen := run plan set.watched all parser
    let outcomes := Watched.outcomes seen.1
    let made := Watched.deliveries seen.1
    (seen.2 = plain.2 ∧ Watched.own seen.1 = plain.1) ∧
    (files.Perm kept ∧ files.Pairwise (fun f g => group f.path ≤ group g.path) ∧
      ∀ g, files.filter (group ·.path == g) = kept.filter (group ·.path == g)) ∧
    (match plain.2 with
      | .ok _ => outcomes = whole.map (·, none)
      | .error (.parse file cause) =>
        outcomes = layout.map (·, none) ∧ parsed = .error (.parse file cause)
      | .error (.run e) => ∃ before d rest check cause, whole = before ++ d :: rest ∧
          outcomes = before.map (·, none) ++ [(d, some cause)] ∧
          (check, d.check) ∈ set.labelled ∧ e = d.call.error check.name cause) ∧
    (∀ before d rest, made = before ++ d :: rest → d.check.1 ≠ .layout → layout <+: before) ∧
    (∀ before d rest, made = before ++ d :: rest → d.check.1 = .practice →
      ∃ p, parsed = .ok p ∧ layout ++ surveySchedule plan set files p <+: before) ∧
    ∀ parser' : Parser, (∀ f ∈ all, plan.excludes f.path = false →
        parser' f.path f.content = parser f.path f.content) →
      run plan set.watched all parser = run plan set.watched kept parser' := by
  intro files kept parsed layout whole plain seen outcomes made
  obtain ⟨hresult, hown, hfollows⟩ := run_follows plan set all parser
  have hmade : made <+: whole := hfollows.initial
  have initial {before rest : List (Delivery (Stage × Nat))} {d : Delivery (Stage × Nat)}
      (h : made = before ++ d :: rest) : before ++ [d] <+: whole := by
    refine List.IsPrefix.trans ⟨rest, ?_⟩ hmade
    rw [h, List.append_assoc]
    rfl
  refine ⟨⟨hresult, hown⟩, ⟨inReadingOrder_perm kept, inReadingOrder_sorted kept,
    filter_inReadingOrder kept⟩, ?_, fun before d rest h => layout_precedes (initial h),
    fun before d rest h => surveys_precede (initial h),
    fun parser' h => run_kept plan set.watched all h⟩
  match hr : plain.2, show Follows set whole outcomes parsed plain.2 from hfollows with
  | .ok _, h => exact h.1
  | .error (.parse file cause), h =>
    refine ⟨?_, h.2⟩
    rw [h.1, show whole = layout ++ laterSchedule plan set files parsed from rfl, h.2,
      laterSchedule, List.append_nil]
  | .error (.run e), h =>
    obtain ⟨before, d, rest, cause, hwhole, hseen, check, hcheck, he⟩ := h
    exact ⟨before, d, rest, check, cause, hwhole, hseen, hcheck, he⟩

/-- One check in each stage; the review fails where a method is defined. -/
def stagedChecks : CheckSet Empty where
  layout := [{ spec := { name := "Texts", files := [.all] }, state := () }]
  survey :=
    [{ spec := Spec.interestedIn { name := "Facts", files := [.all] } [.methodDef], state := () }]
  practice :=
    [{ spec := Spec.on (Spec.interestedIn { name := "Refusal", files := [.all] } [.methodDef])
        .enter .methodDef fun _ _ s t =>
          { state := s, tables := t, failure := some (.message "refused") }
       state := () }]

def methodFile : SourceFile := ⟨⟨"Gemfile"⟩, "def run; end"⟩

def methodParser : Parser := fun _ _ => .ok ⟨.ofKind .methodDef [], []⟩

/-- The failing review comes after all that the other stages were to receive. -/
theorem scheduled_deliveries_refused :
    let plan : AnalysisPlan := ⟨[], [], [], false, false⟩
    let files := chosenFiles plan [methodFile]
    let seen := (run plan stagedChecks.watched [methodFile] methodParser).1
    let made := Watched.deliveries seen
    (Watched.outcomes seen).map (fun x => (x.1.check, x.2)) =
      [((.layout, 0), none), ((.layout, 0), none), ((.survey, 0), none), ((.survey, 0), none),
        ((.survey, 0), none), ((.practice, 0), some (.message "refused"))] ∧
    (∃ d, made = made.take 5 ++ [d] ∧ d.check.1 = .practice) ∧
    ∃ p, parseAll false methodParser files = .ok p ∧
      layoutSchedule stagedChecks files ++ surveySchedule plan stagedChecks files p <+:
        made.take 5 := by
  intro plan files seen made
  have houtcomes : (Watched.outcomes seen).map (fun x => (x.1.check, x.2)) =
      [((.layout, 0), none), ((.layout, 0), none), ((.survey, 0), none), ((.survey, 0), none),
        ((.survey, 0), none), ((.practice, 0), some (.message "refused"))] := by decide +kernel
  have hlast : (made.drop 5).map (·.check) = [(.practice, 0)] := by decide +kernel
  obtain ⟨d, hdrop, hcheck⟩ := List.map_eq_singleton_iff.1 hlast
  have hmade : made = made.take 5 ++ [d] := by
    rw [← hdrop, List.take_append_drop]
  have hstage : d.check.1 = .practice := by rw [hcheck]
  have hbarrier := (scheduled_deliveries plan stagedChecks [methodFile] methodParser).2.2.2.2.1
  exact ⟨houtcomes, ⟨d, hmade, hstage⟩, hbarrier _ d [] hmade hstage⟩

end Analysis
end RailsReview
