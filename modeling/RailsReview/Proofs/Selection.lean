import RailsReview.Proofs.Analysis
import RailsReview.Proofs.Bench
import RailsReview.Proofs.Footprint
import RailsReview.Proofs.ReportOrder
import RailsReview.Proofs.Suppression

/-!
# Leaving checks out

A run of some of the checks goes along with the run of all: each check that is left comes to the
same findings, because it reads facts only and the others change none.
-/
namespace RailsReview
open Tables
variable {ν : Type}

/-- How the tables of a run of all checks compare to those of a run of the checks that are kept:
they are equal, or, if they cannot be, they agree on the facts. -/
def Tables.Tally (exact : Bool) (t t' : Tables) : Prop :=
  if exact then t = t' else t.SameFacts t'

namespace Tables.Tally
variable {exact : Bool} {t t₁ t' : Tables}

theorem sameFacts (h : t.Tally exact t') : t.SameFacts t' := by
  unfold Tally at h
  split at h
  · rw [h]
    exact .refl t'
  · exact h

theorem refl (exact : Bool) (t : Tables) : t.Tally exact t := by
  unfold Tally
  split
  · rfl
  · exact .refl t

end Tables.Tally

namespace Check
variable {keep : String → Bool} {exact : Bool} {c c' : Check ν}

/-- A check whose runs can be compared: it reads facts only, or it marks uses and the tables can be
equal only if it is kept. Its diagnostics bear its name. -/
structure Comparable (keep : String → Bool) (exact : Bool) (c : Check ν) : Prop where
  footprint : c.ReadsFacts ∨ keep c.name = exact ∧ c.MarksUses
  signed : ∀ d ∈ c.diagnostics, d.check = c.name

theorem footprint_congr (h : c.design = c'.design)
    (hc : c.ReadsFacts ∨ keep c.name = exact ∧ c.MarksUses) :
    c'.ReadsFacts ∨ keep c'.name = exact ∧ c'.MarksUses := by
  obtain ⟨s, ds, rfl⟩ := Check.eq_of_design_eq h
  exact hc

/-- Diagnostics are signed when they are made. -/
theorem signed_answer {c : Check ν} (h : ∀ d ∈ c.diagnostics, d.check = c.name) (t : Tables)
    (call : Call) : ∀ d ∈ (call.answer c t).1.diagnostics, d.check = c.name := by
  have hrun {β : Type} (site : Site) (b : β)
      (pick : {σ : Type} → Spec ν σ → List (Handler ν σ β)) :
      ∀ d ∈ (Run.runCheck site b pick c t).1.diagnostics, d.check = c.name := by
    intro d hd
    rcases List.mem_append.1 hd with hd | hd
    · exact h d hd
    · obtain ⟨f, _, rfl⟩ := List.mem_map.1 hd
      rfl
  cases call with
  | node phase file n => exact hrun _ n (·.handlers phase n.kind)
  | text file content => exact hrun _ content (·.onText)
  | atEnd => exact hrun _ () (·.atEnd)

/-- What a call makes of a check and of the tables. -/
def passed (call : Call) (c : Check ν) (t : Tables) : Check ν × Tables :=
  if call.reaches c then ((call.answer c t).1, (call.answer c t).2.1) else (c, t)

theorem passed_design (call : Call) (c : Check ν) (t : Tables) :
    (passed call c t).1.design = c.design := by
  unfold passed
  split
  · exact Call.answer_design c t call
  · rfl

theorem Comparable.passed (h : c.Comparable keep exact) (t : Tables) (call : Call) :
    (passed call c t).1.Comparable keep exact := by
  have hd := passed_design call c t
  refine ⟨footprint_congr hd.symm h.footprint, ?_⟩
  rw [Check.name_congr hd]
  unfold Check.passed
  split
  · exact signed_answer h.signed t call
  · exact h.signed

/-- No comparable check fails or leaves notes. -/
theorem Comparable.quiet (h : c.Comparable keep exact) (t : Tables) (call : Call) :
    (call.answer c t).2.2 = ([], none) := by
  rcases h.footprint with hr | ⟨_, hm⟩
  · rw [(Call.answer_readsFacts hr call t).1]
  · exact (Call.answer_marksUses hm call t).2

/-- A check that is kept comes to the same in both runs. -/
theorem Comparable.kept (h : c.Comparable keep exact) (hkeep : keep c.name) {t t' : Tables}
    (ht : t.Tally exact t') (call : Call) :
    (Check.passed call c t').1 = (Check.passed call c t).1 ∧
      (Check.passed call c t).2.Tally exact (Check.passed call c t').2 := by
  unfold Check.passed
  split
  · rcases h.footprint with hr | ⟨hexact, _⟩
    · obtain ⟨hquiet, hread⟩ := Call.answer_readsFacts hr call t
      rw [hread t' ht.sameFacts, hquiet]
      exact ⟨rfl, ht⟩
    · rw [hkeep] at hexact
      have heq : t = t' := by
        simpa only [Tally, ← hexact, if_true] using ht
      rw [heq]
      exact ⟨rfl, .refl exact _⟩
  · exact ⟨rfl, ht⟩

/-- A check that is left out changes nothing that the others see. -/
theorem Comparable.left (h : c.Comparable keep exact) (hkeep : ¬keep c.name) {t t' : Tables}
    (ht : t.Tally exact t') (call : Call) : (Check.passed call c t).2.Tally exact t' := by
  unfold Check.passed
  split
  · rcases h.footprint with hr | ⟨hexact, hm⟩
    · rw [(Call.answer_readsFacts hr call t).1]
      exact ht
    · rw [eq_false_of_ne_true hkeep] at hexact
      simp only [Tally, ← hexact, Bool.false_eq_true, if_false] at ht ⊢
      exact (Call.answer_marksUses hm call t).1.symm.trans ht
  · exact ht

/-- The checks that are kept. -/
def keptOf (keep : String → Bool) (cs : List (Check ν)) : List (Check ν) :=
  cs.filter fun c => keep c.name

theorem keptOf_cons_of_pos (cs : List (Check ν)) (h : keep c.name) :
    keptOf keep (c :: cs) = c :: keptOf keep cs := List.filter_cons_of_pos h

theorem keptOf_cons_of_neg (cs : List (Check ν)) (h : ¬keep c.name) :
    keptOf keep (c :: cs) = keptOf keep cs := List.filter_cons_of_neg h

theorem keptOf_append (cs cs' : List (Check ν)) :
    keptOf keep (cs ++ cs') = keptOf keep cs ++ keptOf keep cs' := List.filter_append cs cs'

theorem keptOf_filter (p : Check ν → Bool) (cs : List (Check ν)) :
    (keptOf keep cs).filter p = keptOf keep (cs.filter p) := by
  unfold keptOf
  rw [List.filter_filter, List.filter_filter]
  exact List.filter_congr fun c _ => Bool.and_comm _ _

end Check

/-- `s'` is what the session `s` of all checks is to the checks that are kept. -/
structure Session.Selects (keep : String → Bool) (exact : Bool) (s s' : Session ν) : Prop where
  checks : s'.checks = Check.keptOf keep s.checks
  comparable : ∀ c ∈ s.checks, c.Comparable keep exact
  tables : s.tables.Tally exact s'.tables
  notes : s'.notes = s.notes

namespace Run

variable {keep : String → Bool} {exact : Bool}

/-- A check that neither fails nor leaves notes passes the call on. -/
theorem announceTo_cons {call : Call} {c : Check ν} {t : Tables}
    (h : (call.answer c t).2.2 = ([], none)) (cs : List (Check ν)) (notes : List ν) :
    announceTo call (c :: cs) t notes =
      let passed := Check.passed call c t
      let o := announceTo call cs passed.2 notes
      ({ o.1 with checks := passed.1 :: o.1.checks }, o.2) := by
  unfold Check.passed
  by_cases hr : call.reaches c
  · rcases ha : call.answer c t with ⟨c', t', new, e⟩
    rw [ha] at h
    obtain ⟨rfl, rfl⟩ := Prod.mk.inj h
    simp only [announceTo, hr, if_true, ha, List.append_nil]
  · simp only [announceTo, hr, Bool.false_eq_true, if_false]

theorem announceTo_selects (call : Call) {cs : List (Check ν)}
    (hcs : ∀ c ∈ cs, c.Comparable keep exact) {t t' : Tables} (ht : t.Tally exact t')
    (notes : List ν) :
    let o := announceTo call cs t notes
    let k := announceTo call (Check.keptOf keep cs) t' notes
    o.1.Selects keep exact k.1 ∧ o.2 = none ∧ k.2 = none := by
  induction cs generalizing t t' with
  | nil => exact ⟨⟨rfl, nofun, ht, rfl⟩, rfl, rfl⟩
  | cons c cs ih =>
    have hc := hcs c (by simp)
    have hcs' : ∀ c ∈ cs, c.Comparable keep exact := fun c hc => hcs c (List.mem_cons_of_mem _ hc)
    have hname : (Check.passed call c t).1.name = c.name :=
      Check.name_congr (Check.passed_design call c t)
    rw [announceTo_cons (hc.quiet t call)]
    by_cases hkeep : keep c.name
    · obtain ⟨hsame, htally⟩ := hc.kept hkeep ht call
      obtain ⟨hsel, herr, herr'⟩ := ih hcs' htally
      rw [Check.keptOf_cons_of_pos cs hkeep, announceTo_cons (hc.quiet t' call)]
      refine ⟨⟨?_, ?_, hsel.tables, hsel.notes⟩, herr, herr'⟩
      · rw [Check.keptOf_cons_of_pos _ (by rw [hname]; exact hkeep)]
        exact congrArg₂ List.cons hsame hsel.checks
      · exact List.forall_mem_cons.2 ⟨hc.passed t call, hsel.comparable⟩
    · obtain ⟨hsel, herr, herr'⟩ := ih hcs' (hc.left hkeep ht call)
      rw [Check.keptOf_cons_of_neg cs hkeep]
      refine ⟨⟨?_, ?_, hsel.tables, hsel.notes⟩, herr, herr'⟩
      · rw [Check.keptOf_cons_of_neg _ (by rw [hname]; exact hkeep), hsel.checks]
      · exact List.forall_mem_cons.2 ⟨hc.passed t call, hsel.comparable⟩

theorem announce_selects (call : Call) {s s' : Session ν}
    (h : s.Selects keep exact s') : (announce call s).1.Selects keep exact (announce call s').1 ∧
      (announce call s).2 = none ∧ (announce call s').2 = none := by
  have hto := announceTo_selects call h.comparable h.tables s.notes
  rw [← h.checks] at hto
  unfold announce
  rw [h.notes]
  exact hto

theorem hear_selects (calls : List Call) {s s' : Session ν}
    (h : s.Selects keep exact s') : (hear calls s).1.Selects keep exact (hear calls s').1 ∧
      (hear calls s).2 = none ∧ (hear calls s').2 = none := by
  induction calls generalizing s s' with
  | nil => exact ⟨h, rfl, rfl⟩
  | cons call calls ih =>
    have first := announce_selects call h
    rcases hr : announce call s with ⟨s₁, e⟩
    rcases hr' : announce call s' with ⟨s₁', e'⟩
    rw [hr, hr'] at first
    obtain ⟨hsel, rfl, rfl⟩ := first
    rw [hear_cons, Attempt.andThen_of_none _ hr, Attempt.andThen_of_none _ hr']
    exact ih hsel

end Run

namespace Bench
open Check

/-- `b'` is what the bench `b` of all checks is to the checks that are kept. -/
structure Selects (keep : String → Bool) (exact : Bool) (b b' : Bench ν) : Prop where
  texts : b'.texts = keptOf keep b.texts
  trees : b'.trees = keptOf keep b.trees
  comparable : ∀ c ∈ b.texts ++ b.trees, c.Comparable keep exact
  tables : b.tables.Tally exact b'.tables
  notes : b'.notes = b.notes

/-- Two attempts that fit together: neither fails, and what was a selection stays one. -/
def Together (keep : String → Bool) (exact : Bool) (r : Attempt RunError (Bench ν)) : Prop :=
  ∀ b b', Selects keep exact b b' →
    Selects keep exact (r b).1 (r b').1 ∧ (r b).2 = none ∧ (r b').2 = none

variable {keep : String → Bool} {exact : Bool}

theorem Together.andThen {r q : Attempt RunError (Bench ν)} (hr : Together keep exact r)
    (hq : Together keep exact q) : Together keep exact (r.andThen q) := by
  intro b b' h
  have first := hr b b' h
  rcases h₁ : r b with ⟨b₁, e⟩
  rcases h₁' : r b' with ⟨b₁', e'⟩
  rw [h₁, h₁'] at first
  obtain ⟨hsel, rfl, rfl⟩ := first
  rw [Attempt.andThen_of_none _ h₁, Attempt.andThen_of_none _ h₁']
  exact hq b₁ b₁' hsel

theorem onTexts_together (calls : List Call) :
    Together (ν := ν) keep exact (onTexts (Run.hear calls)) := by
  intro b b' h
  have htexts : Session.Selects keep exact ⟨b.texts, b.tables, b.notes⟩
      ⟨b'.texts, b'.tables, b'.notes⟩ :=
    ⟨h.texts, fun c hc => h.comparable c (List.mem_append_left _ hc), h.tables, h.notes⟩
  obtain ⟨hsel, herr, herr'⟩ := Run.hear_selects calls htexts
  refine ⟨⟨hsel.checks, h.trees, fun c hc => ?_, hsel.tables, hsel.notes⟩, herr, herr'⟩
  rcases List.mem_append.1 hc with hc | hc
  · exact hsel.comparable c hc
  · exact h.comparable c (List.mem_append_right _ hc)

theorem onTrees_together (calls : List Call) :
    Together (ν := ν) keep exact (onTrees (Run.hear calls)) := by
  intro b b' h
  have htrees : Session.Selects keep exact ⟨b.trees, b.tables, b.notes⟩
      ⟨b'.trees, b'.tables, b'.notes⟩ :=
    ⟨h.trees, fun c hc => h.comparable c (List.mem_append_right _ hc), h.tables, h.notes⟩
  obtain ⟨hsel, herr, herr'⟩ := Run.hear_selects calls htrees
  refine ⟨⟨h.texts, hsel.checks, fun c hc => ?_, hsel.tables, hsel.notes⟩, herr, herr'⟩
  rcases List.mem_append.1 hc with hc | hc
  · exact h.comparable c (List.mem_append_left _ hc)
  · exact hsel.comparable c hc

theorem stage_together (files : List SourceFile) (parsed : List (SourceFile × ParsedSource)) :
    Together (ν := ν) keep exact (stage files parsed) := by
  rw [stage_eq]
  exact ((onTexts_together _).andThen (onTrees_together _)).andThen
    ((onTexts_together _).andThen (onTrees_together _))

theorem ofChecks_selects {checks : List (Check ν)} (h : ∀ c ∈ checks, c.Comparable keep exact)
    {t t' : Tables} (ht : t.Tally exact t') (notes : List ν) :
    Selects keep exact (ofChecks checks t notes) (ofChecks (keptOf keep checks) t' notes) := by
  refine ⟨keptOf_filter _ checks, keptOf_filter _ checks, fun c hc => ?_, ht, rfl⟩
  rcases List.mem_append.1 hc with hc | hc
  · exact h c (List.mem_filter.1 hc).1
  · exact h c (List.mem_filter.1 hc).1

theorem keptOf_diagnostics {checks : List (Check ν)} (h : ∀ c ∈ checks, c.Comparable keep exact) :
    (keptOf keep checks).flatMap (·.diagnostics) =
      (checks.flatMap (·.diagnostics)).filter (keep ·.check) := by
  induction checks with
  | nil => rfl
  | cons c cs ih =>
    have hcs := ih fun c hc => h c (List.mem_cons_of_mem _ hc)
    have hsigned := (h c (by simp)).signed
    rw [List.flatMap_cons, List.filter_append, ← hcs]
    by_cases hkeep : keep c.name
    · rw [keptOf_cons_of_pos cs hkeep, List.flatMap_cons, List.filter_eq_self.2]
      intro d hd
      rw [hsigned d hd]
      exact hkeep
    · rw [keptOf_cons_of_neg cs hkeep, List.filter_eq_nil_iff.2, List.nil_append]
      intro d hd
      rw [hsigned d hd]
      exact hkeep

/-- The diagnostics of a selection are those of its checks. -/
theorem Selects.diagnostics {b b' : Bench ν} (h : Selects keep exact b b') :
    b'.diagnostics = b.diagnostics.filter (keep ·.check) := by
  unfold Bench.diagnostics
  rw [h.texts, h.trees, keptOf_diagnostics fun c hc => h.comparable c (List.mem_append_left _ hc),
    keptOf_diagnostics fun c hc => h.comparable c (List.mem_append_right _ hc), List.filter_append]

end Bench

namespace CheckSet
open Check

/-- The set without the checks that report and are not kept. -/
def kept (keep : String → Bool) (s : CheckSet ν) : CheckSet ν :=
  { s with layout := keptOf keep s.layout, practice := keptOf keep s.practice }

/-- A set whose runs can be compared to those of parts of it: at most the reviews of one name mark
uses, and all others read facts only. -/
structure Comparable (marking : String) (s : CheckSet ν) : Prop where
  layout : ∀ c ∈ s.layout, c.ReadsFacts ∧ c.diagnostics = []
  practice : ∀ c ∈ s.practice,
    (c.ReadsFacts ∨ c.name = marking ∧ c.MarksUses) ∧ c.diagnostics = []

variable {marking : String} {s : CheckSet ν} (keep : String → Bool)

theorem Comparable.of_layout (h : s.Comparable marking) :
    ∀ c ∈ s.layout, c.Comparable keep true := by
  intro c hc
  obtain ⟨hreads, hfresh⟩ := h.layout c hc
  exact ⟨.inl hreads, by rw [hfresh]; nofun⟩

theorem Comparable.of_practice (h : s.Comparable marking) :
    ∀ c ∈ s.practice, c.Comparable keep (keep marking) := by
  intro c hc
  obtain ⟨hfootprint, hfresh⟩ := h.practice c hc
  exact ⟨hfootprint.imp_right fun hm => ⟨by rw [hm.1], hm.2⟩, by rw [hfresh]; nofun⟩

end CheckSet

namespace Analysis
open CheckSet Check Bench

theorem layoutStage_selects {marking : String} {set : CheckSet ν} (hset : set.Comparable marking)
    (keep : String → Bool) (files : List SourceFile) :
    let o := layoutStage set.layout files
    let k := layoutStage (set.kept keep).layout files
    Selects keep true o.1 k.1 ∧ o.2 = none ∧ k.2 = none := by
  have hstart : Selects keep true (⟨set.layout, [], {}, []⟩ : Bench ν)
      ⟨(set.kept keep).layout, [], {}, []⟩ :=
    ⟨rfl, rfl, by simpa using hset.of_layout keep, .refl true _, rfl⟩
  have hrun : Together (ν := ν) keep true
      ((Bench.readTexts files).andThen (onTexts Run.finish)) := by
    rw [Bench.readTexts_eq, Run.finish_eq, ← Run.hear_singleton]
    exact (onTexts_together _).andThen (onTexts_together _)
  exact hrun _ _ hstart

theorem practiceStage_selects {marking : String} {set : CheckSet ν}
    (hset : set.Comparable marking) (keep : String → Bool) (files : List SourceFile)
    (parsed : List (SourceFile × ParsedSource)) (before : Bench ν) :
    let o := practiceStage set.practice files parsed before
    let k := practiceStage (set.kept keep).practice files parsed before
    Selects keep (keep marking) o.1 k.1 ∧ o.2 = none ∧ k.2 = none :=
  stage_together files parsed _ _
    (ofChecks_selects (hset.of_practice keep) (.refl _ before.tables) before.notes)

/-- The surveys start from the same tables, so they are the same run. -/
theorem surveyStage_selects {keep : String → Bool} {before before' : Bench ν}
    (h : Selects keep true before before') (plan : AnalysisPlan) (checks : List (Check ν))
    (files : List SourceFile) (parsed : List (SourceFile × ParsedSource)) :
    surveyStage plan checks files parsed before' = surveyStage plan checks files parsed before := by
  have htables : before.tables = before'.tables := h.tables
  unfold surveyStage
  rw [htables, h.notes]

/-- An analysis with the checks of `part` makes the same error as one with those of `full`, or finds
in as many files what that one finds and `p` lets through. -/
def Projects (plan : AnalysisPlan) (all : List SourceFile) (parser : Parser)
    (full part : CheckSet ν) (p : Diagnostic → Bool) : Prop :=
  (∀ e, (run plan full all parser).2 = .error e ↔ (run plan part all parser).2 = .error e) ∧
  ∀ report tables report' tables', (run plan full all parser).2 = .ok (report, tables) →
    (run plan part all parser).2 = .ok (report', tables') →
    report'.filesChecked = report.filesChecked ∧
      report'.diagnostics = report.diagnostics.filter p

/-- Leaving out checks that report is leaving out their diagnostics. -/
theorem kept_projects {marking : String} {set : CheckSet ν} (hset : set.Comparable marking)
    (keep : String → Bool) (plan : AnalysisPlan) (all : List SourceFile) (parser : Parser) :
    Projects plan all parser set (set.kept keep) (keep ·.check) := by
  obtain ⟨hselL, herrL, herrL'⟩ := layoutStage_selects hset keep (chosenFiles plan all)
  rcases hL : layoutStage set.layout (chosenFiles plan all) with ⟨layout, e⟩
  rcases hL' : layoutStage (set.kept keep).layout (chosenFiles plan all) with ⟨layout', e'⟩
  rw [hL, hL'] at hselL
  rw [hL] at herrL
  rw [hL'] at herrL'
  obtain rfl : e = none := herrL
  obtain rfl : e' = none := herrL'
  unfold Projects
  cases hp : parseAll plan.failOnParseError parser (chosenFiles plan all) with
  | error e =>
    rw [run_of_unparsed hL hp, run_of_unparsed hL' hp]
    exact ⟨fun _ => .rfl, nofun⟩
  | ok parsed =>
    have hsame := surveyStage_selects hselL plan set.survey (chosenFiles plan all) parsed
    rcases hS : surveyStage plan set.survey (chosenFiles plan all) parsed layout with
      ⟨survey, _ | e⟩
    · obtain ⟨hselR, herrR, herrR'⟩ :=
        practiceStage_selects hset keep (chosenFiles plan all) parsed survey
      rcases hR : practiceStage set.practice (chosenFiles plan all) parsed survey with
        ⟨practice, e⟩
      rcases hR' : practiceStage (set.kept keep).practice (chosenFiles plan all) parsed survey
        with ⟨practice', e'⟩
      rw [hR, hR'] at hselR
      rw [hR] at herrR
      rw [hR'] at herrR'
      obtain rfl : e = none := herrR
      obtain rfl : e' = none := herrR'
      rw [run_of_finished hL hp hS hR, run_of_finished hL' hp (hsame.trans hS) hR']
      refine ⟨fun _ => ⟨nofun, nofun⟩, ?_⟩
      rintro report tables report' tables' ⟨⟩ ⟨⟩
      refine ⟨rfl, ?_⟩
      rw [hselL.diagnostics, hselR.diagnostics, ← List.filter_append, Suppressions.filter_filter]
      exact Report.sort_filter _ _ _
    · rw [run_of_survey_failed hL hp hS, run_of_survey_failed hL' hp (hsame.trans hS)]
      exact ⟨fun _ => .rfl, nofun⟩

end Analysis
end RailsReview
