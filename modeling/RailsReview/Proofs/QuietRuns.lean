import RailsReview.Proofs.Bench
import RailsReview.Proofs.ClassSurvey
import RailsReview.Proofs.ConfiguredChecks

/-!
# Quiet runs

No check that this library brings along ever fails, and a run of checks that never fail does not
fail either.
-/
namespace RailsReview
variable {ν : Type}

theorem Handler.ReadsFacts.quiet {σ β : Type} {h : Handler ν σ β} (hh : h.ReadsFacts) : h.Quiet :=
  fun site b s t => (hh site b s t).1.2

theorem Handler.MarksUses.quiet {σ β : Type} {h : Handler ν σ β} (hh : h.MarksUses) : h.Quiet :=
  fun site b s t => (hh site b s t).2

theorem Spec.All.mono {σ : Type} {P Q : {β : Type} → Handler ν σ β → Prop} {s : Spec ν σ}
    (h : s.All P) (himp : ∀ {β : Type} (g : Handler ν σ β), P g → Q g) : s.All Q :=
  ⟨fun g hg => himp g.2 (h.onNode g hg), fun g hg => himp g (h.onText g hg),
    fun g hg => himp g (h.atEnd g hg)⟩

namespace Survey
open Handler
variable (ignored : List FilePattern)

theorem quiet_gems : (gems (ν := ν) ignored).Quiet :=
  Spec.All.start |>.withText (quiet_record _)

theorem quiet_settings : (settings (ν := ν) ignored).Quiet :=
  Spec.All.start |>.interestedIn _ |>.on _ _ (quiet_record _)

theorem quiet_routes : (routes (ν := ν) ignored).Quiet :=
  Spec.All.start |>.trackRoutes _ quiet_update |>.interestedIn _ |>.onEach _ _ (quiet_record _)

theorem quiet_schema : (schema (ν := ν) ignored).Quiet :=
  Spec.All.start |>.interestedIn _ |>.on _ _ (quiet_update _) |>.on _ _ (quiet_update _)
    |>.on _ _ (quiet_record _)

theorem quiet_helpers : (helpers (ν := ν) ignored).Quiet :=
  Spec.All.start |>.trackDefinitions _ quiet_update |>.interestedIn _
    |>.on _ _ (quiet_record _) |>.on _ _ (quiet_record _)

theorem quiet_survey {b : Builtin ν} (hb : b ∈ Builtin.all) (hstage : b.stage = .survey)
    (options : CheckOptions) : (b.build options ignored).Quiet := by
  simp only [Builtin.all, List.mem_cons, List.not_mem_nil, or_false] at hb
  rcases hb with rfl | rfl | rfl | rfl | rfl | rfl | rfl | rfl | rfl | rfl | rfl | rfl | rfl | rfl |
    rfl | rfl | rfl | rfl
  all_goals try cases hstage
  · exact quiet_gems ignored
  · exact quiet_settings ignored
  · exact quiet_routes ignored
  · exact quiet_schema ignored
  · exact quiet_models ignored
  · exact quiet_helpers ignored
  · exact quiet_controllers ignored

end Survey

theorem Builtin.quiet {b : Builtin ν} (hb : b ∈ all) (options : CheckOptions)
    (ignored : List FilePattern) : (b.build options ignored).Quiet := by
  by_cases hstage : b.stage = .survey
  · exact Survey.quiet_survey ignored hb hstage options
  · rcases (reporter_of_mem hb hstage options ignored).footprint with hreads | ⟨-, -, hmarks⟩
    · exact hreads.mono fun _ => Handler.ReadsFacts.quiet
    · exact hmarks.mono fun _ => Handler.MarksUses.quiet

theorem CheckSet.quiet_ofConfiguration [PatternLanguage] {c : Configuration} {s : CheckSet ν}
    (h : ofConfiguration c = .ok s) :
    (∀ chk ∈ s.layout, chk.Quiet) ∧ (∀ chk ∈ s.survey, chk.Quiet) ∧
      ∀ chk ∈ s.practice, chk.Quiet := by
  refine addAll_invariant (P := fun s => (∀ chk ∈ s.layout, chk.Quiet) ∧
    (∀ chk ∈ s.survey, chk.Quiet) ∧ ∀ chk ∈ s.practice, chk.Quiet) ?_
    ⟨List.forall_mem_nil _, List.forall_mem_nil _, List.forall_mem_nil _⟩ h
  rintro b hb options ignored s ⟨hlayout, hsurvey, hpractice⟩
  have hone := List.forall_mem_singleton.2 (Builtin.quiet (List.mem_filter.1 hb).1 options ignored)
  cases b.stage with
  | layout => exact ⟨List.forall_mem_append.2 ⟨hlayout, hone⟩, hsurvey, hpractice⟩
  | survey => exact ⟨hlayout, List.forall_mem_append.2 ⟨hsurvey, hone⟩, hpractice⟩
  | practice => exact ⟨hlayout, hsurvey, List.forall_mem_append.2 ⟨hpractice, hone⟩⟩

theorem Check.quiet_congr {c c' : Check ν} (h : c.design = c'.design) (hc : c.Quiet) :
    c'.Quiet := by
  obtain ⟨s, ds, rfl⟩ := Check.eq_of_design_eq h
  exact hc

namespace Run

theorem announceTo_succeeds (call : Call) {cs : List (Check ν)} (hcs : ∀ c ∈ cs, c.Quiet)
    (t : Tables) (notes : List ν) : (announceTo call cs t notes).2 = none := by
  induction cs generalizing t notes with
  | nil => rfl
  | cons c cs ih =>
    obtain ⟨hc, hrest⟩ := List.forall_mem_cons.1 hcs
    by_cases hr : call.reaches c
    · have hquiet := call.answer_quiet hc t
      rcases ha : call.answer c t with ⟨c', t', new, failure⟩
      rw [ha] at hquiet
      obtain ⟨rfl, rfl⟩ := Prod.mk.inj hquiet
      simp only [announceTo, hr, if_true, ha]
      exact ih hrest t' _
    · simp only [announceTo, hr, Bool.false_eq_true, if_false]
      exact ih hrest t notes

/-- Quiet checks hear everything. -/
theorem hear_succeeds (calls : List Call) {s : Session ν} (hs : ∀ c ∈ s.checks, c.Quiet) :
    (hear calls s).2 = none := by
  induction calls generalizing s with
  | nil => rfl
  | cons call calls ih =>
    have hdesign := announce_design call s
    have hfirst : (announce call s).2 = none :=
      announceTo_succeeds call hs s.tables s.notes
    rcases h : announce call s with ⟨s', e⟩
    rw [h] at hdesign hfirst
    obtain rfl : e = none := hfirst
    rw [hear_cons, Attempt.andThen_of_none _ h]
    exact ih (Check.forall_of_design Check.quiet_congr hdesign hs)

end Run

namespace Bench

/-- All checks are quiet. -/
def Quiet (b : Bench ν) : Prop := ∀ c ∈ b.texts ++ b.trees, c.Quiet

/-- What succeeds with quiet checks and leaves them quiet. -/
def Succeeds (r : Attempt RunError (Bench ν)) : Prop :=
  ∀ b : Bench ν, b.Quiet → (r b).2 = none ∧ (r b).1.Quiet

theorem Succeeds.andThen {r q : Attempt RunError (Bench ν)} (hr : Succeeds r) (hq : Succeeds q) :
    Succeeds (r.andThen q) := by
  intro b hb
  obtain ⟨hnone, hquiet⟩ := hr b hb
  rcases h : r b with ⟨b', e⟩
  rw [h] at hnone hquiet
  obtain rfl : e = none := hnone
  rw [Attempt.andThen_of_none _ h]
  exact hq b' hquiet

theorem onTexts_succeeds (calls : List Call) : Succeeds (ν := ν) (onTexts (Run.hear calls)) := by
  intro b hb
  obtain ⟨htexts, htrees⟩ := List.forall_mem_append.1 hb
  have hdesign := Run.hear_design calls (⟨b.texts, b.tables, b.notes⟩ : Session ν)
  refine ⟨Run.hear_succeeds calls htexts, List.forall_mem_append.2 ⟨?_, htrees⟩⟩
  exact Check.forall_of_design Check.quiet_congr hdesign htexts

theorem onTrees_succeeds (calls : List Call) : Succeeds (ν := ν) (onTrees (Run.hear calls)) := by
  intro b hb
  obtain ⟨htexts, htrees⟩ := List.forall_mem_append.1 hb
  have hdesign := Run.hear_design calls (⟨b.trees, b.tables, b.notes⟩ : Session ν)
  refine ⟨Run.hear_succeeds calls htrees, List.forall_mem_append.2 ⟨htexts, ?_⟩⟩
  exact Check.forall_of_design Check.quiet_congr hdesign htrees

theorem stage_succeeds (files : List SourceFile) (parsed : List (SourceFile × ParsedSource)) :
    Succeeds (ν := ν) (stage files parsed) := by
  rw [stage_eq]
  exact ((onTexts_succeeds _).andThen (onTrees_succeeds _)).andThen
    ((onTexts_succeeds _).andThen (onTrees_succeeds _))

theorem quiet_ofChecks {checks : List (Check ν)} (h : ∀ c ∈ checks, c.Quiet) (t : Tables)
    (notes : List ν) : (ofChecks checks t notes).Quiet := by
  intro c hc
  rcases List.mem_append.1 hc with hc | hc
  · exact h c (List.mem_filter.1 hc).1
  · exact h c (List.mem_filter.1 hc).1

end Bench

namespace Analysis
open Bench
variable {checks : List (Check ν)} (hchecks : ∀ c ∈ checks, c.Quiet) (files : List SourceFile)
  (parsed : List (SourceFile × ParsedSource)) (before : Bench ν)
include hchecks

theorem layoutStage_succeeds : (layoutStage checks files).2 = none := by
  have hstart : (⟨checks, [], {}, []⟩ : Bench ν).Quiet := by
    intro c hc
    exact hchecks c (by simpa using hc)
  rw [layoutStage, readTexts_eq, Run.finish_eq, ← Run.hear_singleton]
  exact ((onTexts_succeeds _).andThen (onTexts_succeeds _) _ hstart).1

theorem surveyStage_succeeds (plan : AnalysisPlan) :
    (surveyStage plan checks files parsed before).2 = none :=
  (stage_succeeds files _ _ (quiet_ofChecks hchecks before.tables before.notes)).1

theorem practiceStage_succeeds : (practiceStage checks files parsed before).2 = none :=
  (stage_succeeds files parsed _ (quiet_ofChecks hchecks before.tables before.notes)).1

end Analysis
end RailsReview
