import RailsReview.Proofs.Analysis
import RailsReview.Proofs.Bench
import RailsReview.Proofs.ConfiguredChecks
import RailsReview.Proofs.Exchange
import RailsReview.Proofs.Lexical

/-!
# Migrations in a survey

A survey reads migrations last, or once more at the end. No survey is interested in one, and calls
that reach nobody change nothing, so the two orders come to the same.
-/
namespace RailsReview
variable {ν : Type}

namespace Run

theorem announceTo_of_not_reaches {call : Call} {cs : List (Check ν)}
    (h : ∀ c ∈ cs, ¬call.reaches c) (t : Tables) (notes : List ν) :
    announceTo call cs t notes = (⟨cs, t, notes⟩, none) :=
  announceTo_of_idle (fun c hc hreached => absurd hreached (h c hc)) t notes

theorem announce_of_not_reaches {call : Call} {s : Session ν}
    (h : ∀ c ∈ s.checks, ¬call.reaches c) : announce call s = (s, none) :=
  announceTo_of_not_reaches h s.tables s.notes

/-- Calls that reach nobody change nothing. -/
theorem hear_of_not_reaches {calls : List Call} {s : Session ν}
    (h : ∀ call ∈ calls, ∀ c ∈ s.checks, ¬call.reaches c) : hear calls s = (s, none) := by
  induction calls with
  | nil => rfl
  | cons call calls ih =>
    obtain ⟨hcall, hcalls⟩ := List.forall_mem_cons.1 h
    rw [hear_cons, Attempt.andThen_of_none _ (announce_of_not_reaches hcall)]
    exact ih hcalls

/-- Files whose trees reach nobody may be left out. -/
theorem hear_ofParsed_filter {keep : SourceFile × ParsedSource → Bool}
    {parsed : List (SourceFile × ParsedSource)} {s : Session ν}
    (h : ∀ x ∈ parsed, ¬keep x → ∀ call ∈ Call.ofTree x.1.path x.2.tree, ∀ c ∈ s.checks,
      ¬call.reaches c) :
    hear (Call.ofParsed parsed) s = hear (Call.ofParsed (parsed.filter keep)) s := by
  have hcons (x : SourceFile × ParsedSource) (rest : List (SourceFile × ParsedSource)) :
      Call.ofParsed (x :: rest) = Call.ofTree x.1.path x.2.tree ++ Call.ofParsed rest := rfl
  induction parsed generalizing s with
  | nil => rfl
  | cons x parsed ih =>
    obtain ⟨hx, hrest⟩ := List.forall_mem_cons.1 h
    rw [hcons, hear_append]
    by_cases hkeep : keep x
    · rw [List.filter_cons_of_pos hkeep, hcons, hear_append]
      -- The tree of `x` may change the checks, but not whom the later calls reach.
      refine Attempt.andThen_congr
        (P := fun s' : Session ν => s'.checks.map Check.design = s.checks.map Check.design)
        (fun _ _ => rfl) (fun s' hs' => ?_) (fun s' hs' => (hear_design _ s').trans hs') s rfl
      exact ih fun y hy hy' call hcall => Check.forall_of_design
        (P := (¬call.reaches ·)) (fun hd hc => by rwa [← Call.reaches_congr hd]) hs'
        (hrest y hy hy' call hcall)
    · rw [List.filter_cons_of_neg hkeep, Attempt.andThen_of_none _ (hear_of_not_reaches (hx hkeep))]
      exact ih hrest

end Run

namespace FilePattern

/-- The files that surveys read the trees of. -/
def surveyedFiles : List FilePattern :=
  [.regex modelFiles, .regex controllerFiles, .regex helperFiles, .regex routeFiles,
    .regex schemaFile, .regex settingFiles]

theorem anyMatch_mono {ps qs : List FilePattern} (h : ps ⊆ qs) {path : Path}
    (hmatch : anyMatch ps path) : anyMatch qs path := by
  obtain ⟨p, hp, hpath⟩ := List.any_eq_true.1 hmatch
  exact List.any_eq_true.2 ⟨p, h hp, hpath⟩

end FilePattern

/-- A check that looks at texts, or at no other trees than those of surveyed files. -/
def Check.LooksAtSurveyed (c : Check ν) : Prop :=
  c.isTextCheck ∨ c.spec.files ⊆ FilePattern.surveyedFiles

theorem Check.LooksAtSurveyed.anyMatch {c : Check ν} (h : c.LooksAtSurveyed)
    (htext : ¬c.isTextCheck) {path : Path} (hpath : c.accepts path) :
    FilePattern.anyMatch FilePattern.surveyedFiles path :=
  FilePattern.anyMatch_mono (h.resolve_left htext) (Bool.and_eq_true_iff.1 hpath).1

theorem Survey.looksAtSurveyed {b : Builtin ν} (hb : b ∈ Builtin.all) (hstage : b.stage = .survey)
    (options : CheckOptions) (ignored : List FilePattern) :
    (b.build options ignored).LooksAtSurveyed := by
  simp only [Builtin.all, List.mem_cons, List.not_mem_nil, or_false] at hb
  rcases hb with rfl | rfl | rfl | rfl | rfl | rfl | rfl | rfl | rfl | rfl | rfl | rfl | rfl | rfl |
    rfl | rfl | rfl | rfl
  all_goals try cases hstage
  · exact .inl rfl
  all_goals
    refine .inr (List.cons_subset.2 ⟨?_, List.nil_subset _⟩)
    simp [FilePattern.surveyedFiles]

theorem CheckSet.survey_looksAtSurveyed [PatternLanguage] {c : Configuration} {s : CheckSet ν}
    (h : ofConfiguration c = .ok s) : ∀ chk ∈ s.survey, chk.LooksAtSurveyed := by
  refine addAll_invariant (P := fun s => ∀ chk ∈ s.survey, chk.LooksAtSurveyed)
    (fun b hb options ignored s hs => ?_) (List.forall_mem_nil _) h
  cases hstage : b.stage with
  | survey =>
    refine List.forall_mem_append.2 ⟨hs, List.forall_mem_singleton.2 ?_⟩
    exact Survey.looksAtSurveyed (List.mem_filter.1 hb).1 hstage options ignored
  | layout => exact hs
  | practice => exact hs

/-- Trees to which the tree checks listen alike may be exchanged in a stage. -/
theorem Bench.stage_congr (files : List SourceFile)
    {parsed parsed' : List (SourceFile × ParsedSource)} {b : Bench ν}
    (h : ∀ s : Session ν, s.checks = b.trees →
      Run.hear (Call.ofParsed parsed) s = Run.hear (Call.ofParsed parsed') s) :
    stage files parsed b = stage files parsed' b := by
  rw [stage_eq, stage_eq]
  refine Attempt.andThen_congr_left ?_ _
  refine Attempt.andThen_congr (P := fun b' : Bench ν => b'.trees = b.trees) (fun _ _ => rfl)
    (fun b' hb' => ?_) (fun b' hb' => hb') b rfl
  have hrun := h ⟨b'.trees, b'.tables, b'.notes⟩ hb'
  simp only [onTrees, hrun]

namespace Analysis

theorem withMigrationsLast_once (parsed : List (SourceFile × ParsedSource)) :
    withMigrationsLast false parsed =
      parsed.filter (!isMigration ·.1) ++ parsed.filter (isMigration ·.1) := rfl

theorem withMigrationsLast_twice (parsed : List (SourceFile × ParsedSource)) :
    withMigrationsLast true parsed = parsed ++ parsed.filter (isMigration ·.1) := rfl

theorem withMigrationsLast_once_perm (parsed : List (SourceFile × ParsedSource)) :
    (withMigrationsLast false parsed).Perm parsed := by
  rw [withMigrationsLast_once]
  exact List.perm_append_comm.trans (List.filter_append_perm _ parsed)

theorem withMigrationsLast_twice_perm (parsed : List (SourceFile × ParsedSource)) :
    (withMigrationsLast true parsed).Perm
      (parsed.flatMap fun x => if isMigration x.1 then [x, x] else [x]) := by
  rw [withMigrationsLast_twice]
  induction parsed with
  | nil => exact .nil
  | cons x parsed ih =>
    rw [List.flatMap_cons, List.cons_append, List.filter_cons]
    by_cases hx : isMigration x.1
    · rw [if_pos hx, if_pos hx]
      exact (List.perm_middle.trans (ih.cons x)).cons x
    · rw [if_neg hx, if_neg hx]
      exact ih.cons x

section Survey
variable {checks : List (Check ν)} {parsed : List (SourceFile × ParsedSource)}
  (hchecks : ∀ c ∈ checks, c.LooksAtSurveyed)
  (hplain : ∀ x ∈ parsed, x.2.tree.isPlain)
  (hapart : ∀ x ∈ parsed, isMigration x.1 →
    ¬FilePattern.anyMatch FilePattern.surveyedFiles x.1.path)
include hchecks hplain hapart

/-- No tree check listens to a migration. -/
theorem not_reaches_migration {x : SourceFile × ParsedSource} (hx : x ∈ parsed)
    (hm : isMigration x.1) :
    ∀ call ∈ Call.ofTree x.1.path x.2.tree, ∀ c ∈ checks.filter (!·.isTextCheck),
      ¬call.reaches c := by
  intro call hcall c hc
  obtain ⟨hmem, htext⟩ := List.mem_filter.1 hc
  refine Call.not_reaches_ofTree (fun hpath => hapart x hx hm ?_) (hplain x hx) call hcall
  exact (hchecks c hmem).anyMatch (by simpa using htext) hpath

/-- With revisited migrations or without, tree checks come to what they come to without
migrations. -/
theorem hear_withMigrationsLast (revisit : Bool) {s : Session ν}
    (hs : s.checks = checks.filter (!·.isTextCheck)) :
    Run.hear (Call.ofParsed (withMigrationsLast revisit parsed)) s =
      Run.hear (Call.ofParsed (parsed.filter (!isMigration ·.1))) s := by
  have hnone : (parsed.filter (isMigration ·.1)).filter (!isMigration ·.1) = [] := by
    rw [List.filter_filter, List.filter_eq_nil_iff]
    simp
  have hrest : (withMigrationsLast revisit parsed).filter (!isMigration ·.1) =
      parsed.filter (!isMigration ·.1) := by
    unfold withMigrationsLast
    rw [List.filter_append, hnone, List.append_nil]
    split
    · rfl
    · rw [List.filter_filter]
      simp only [Bool.and_self]
  rw [← hrest]
  refine Run.hear_ofParsed_filter fun x hx hm => ?_
  have hmem : x ∈ parsed := by
    unfold withMigrationsLast at hx
    grind
  rw [hs]
  exact not_reaches_migration hchecks hplain hapart hmem (by simpa using hm)

theorem surveyStage_revisit (plan : AnalysisPlan) (files : List SourceFile) (before : Bench ν)
    (revisit revisit' : Bool) :
    surveyStage { plan with revisitMigrations := revisit } checks files parsed before =
      surveyStage { plan with revisitMigrations := revisit' } checks files parsed before := by
  refine Bench.stage_congr files fun s hs => ?_
  rw [hear_withMigrationsLast hchecks hplain hapart revisit hs,
    hear_withMigrationsLast hchecks hplain hapart revisit' hs]

end Survey

/-- Plans that lead to the same survey lead to the same result. -/
theorem run_congr_survey {plan plan' : AnalysisPlan} {set : CheckSet ν} {all : List SourceFile}
    {parser : Parser} (hfiles : chosenFiles plan' all = chosenFiles plan all)
    (hstrict : plan'.failOnParseError = plan.failOnParseError)
    (hsurvey : ∀ before, surveyStage plan' set.survey (chosenFiles plan all)
        (parsedFiles parser (chosenFiles plan all)) before =
      surveyStage plan set.survey (chosenFiles plan all)
        (parsedFiles parser (chosenFiles plan all)) before) :
    run plan' set all parser = run plan set all parser := by
  unfold run
  dsimp only
  rw [hfiles, hstrict]
  rcases layoutStage set.layout (chosenFiles plan all) with ⟨layout, _ | e⟩
  · cases hp : parseAll plan.failOnParseError parser (chosenFiles plan all) with
    | error e => rfl
    | ok parsed =>
      obtain rfl := parsed_of_parseAll hp
      simp only [hsurvey]
  · rfl

/-- A survey reads migrations last, or once more at the end. As no survey looks at them, the result
is the same. -/
theorem revisits_unobservable [PatternLanguage] {c : Configuration} {set : CheckSet ν}
    (hset : CheckSet.ofConfiguration c = .ok set) (plan : AnalysisPlan) (all : List SourceFile)
    (parser : Parser)
    (hplain : ∀ x ∈ parsedFiles parser (chosenFiles plan all), x.2.tree.isPlain)
    (hapart : ∀ f ∈ all, isMigration f →
      ¬FilePattern.anyMatch FilePattern.surveyedFiles f.path) :
    (∀ parsed : List (SourceFile × ParsedSource),
      (withMigrationsLast false parsed =
        parsed.filter (!isMigration ·.1) ++ parsed.filter (isMigration ·.1) ∧
        (withMigrationsLast false parsed).Perm parsed) ∧
      withMigrationsLast true parsed = parsed ++ parsed.filter (isMigration ·.1) ∧
        (withMigrationsLast true parsed).Perm
          (parsed.flatMap fun x => if isMigration x.1 then [x, x] else [x])) ∧
    run { plan with revisitMigrations := true } set all parser =
      run { plan with revisitMigrations := false } set all parser := by
  refine ⟨fun parsed => ⟨⟨withMigrationsLast_once parsed, withMigrationsLast_once_perm parsed⟩,
    withMigrationsLast_twice parsed, withMigrationsLast_twice_perm parsed⟩, ?_⟩
  refine run_congr_survey rfl rfl fun before => ?_
  refine surveyStage_revisit (CheckSet.survey_looksAtSurveyed hset) hplain (fun x hx => ?_) plan _ _
    _ _
  obtain ⟨f, hf, hparse⟩ := List.mem_filterMap.1 hx
  have hall : f ∈ all :=
    (List.mem_filter.1 ((inReadingOrder_perm _).subset (List.mem_filter.1 hf).1)).1
  split at hparse
  · cases hparse
    exact hapart f hall
  · cases hparse

/-- A class with a method. -/
def postTree : Node :=
  .ofKind .classDef [.node (.ofKind .constant [.literal (.str "Post")]), .absent,
    .node (.ofKind .methodDef [.node (.ofKind .identifier [.literal (.str "title")])])]

/-- A migration between a model and a controller. -/
def migratedFiles : List SourceFile :=
  [⟨⟨"app/models/post.rb"⟩, ""⟩, ⟨⟨"db/migrate/1_create_posts.rb"⟩, ""⟩,
    ⟨⟨"app/controllers/posts.rb"⟩, ""⟩]

/-- The methods that are known after the analysis of these files. -/
def migratedMethods (set : CheckSet Empty) (revisit : Bool) : Option (List String) :=
  (run ⟨[], [], [], false, revisit⟩ set migratedFiles fun _ _ => .ok ⟨postTree, []⟩).2.toOption.map
    fun r => (r.2.modelMethods.all ++ r.2.controllerMethods.all).map (·.name)

theorem revisits_unobservable_post : ∃ set : CheckSet Empty,
    CheckSet.ofConfiguration {} = .ok set ∧ migratedMethods set true = some ["title", "title"] ∧
    migratedFiles.map isMigration = [false, true, false] ∧
    (∀ parsed : List (SourceFile × ParsedSource),
      (withMigrationsLast false parsed =
        parsed.filter (!isMigration ·.1) ++ parsed.filter (isMigration ·.1) ∧
        (withMigrationsLast false parsed).Perm parsed) ∧
      withMigrationsLast true parsed = parsed ++ parsed.filter (isMigration ·.1) ∧
        (withMigrationsLast true parsed).Perm
          (parsed.flatMap fun x => if isMigration x.1 then [x, x] else [x])) ∧
    run ⟨[], [], [], false, true⟩ set migratedFiles (fun _ _ => .ok ⟨postTree, []⟩) =
      run ⟨[], [], [], false, false⟩ set migratedFiles fun _ _ => .ok ⟨postTree, []⟩ := by
  obtain ⟨set, hset⟩ : ∃ set : CheckSet Empty, CheckSet.ofConfiguration {} = .ok set := ⟨_, rfl⟩
  have hmethods : (CheckSet.ofConfiguration (ν := Empty) {}).toOption.bind
      (migratedMethods · true) = some ["title", "title"] := by decide +kernel
  simp only [hset, Except.toOption, Option.bind_some] at hmethods
  refine ⟨set, hset, hmethods, by decide +kernel, ?_⟩
  refine revisits_unobservable hset ⟨[], [], [], false, true⟩ _ _ (fun x hx => ?_)
    (by decide +kernel)
  obtain ⟨f, -, hparse⟩ := List.mem_filterMap.1 hx
  cases hparse
  rfl

end Analysis
end RailsReview
