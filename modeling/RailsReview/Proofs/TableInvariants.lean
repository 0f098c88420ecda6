import RailsReview.Proofs.Bench
import RailsReview.Proofs.ConfiguredChecks
import RailsReview.Proofs.Handlers
import RailsReview.Proofs.Recording

/-!
# Invariants of the tables

What all handlers of all checks maintain holds after a stage, whether it failed or not. The surveys
maintain that every method of a controller has a name and is kept under its class.
-/
namespace RailsReview
variable {ν σ β : Type} {I : Tables → Prop}

namespace Handler

/-- A handler that keeps a property of the tables. -/
def Maintains (I : Tables → Prop) (h : Handler ν σ β) : Prop :=
  ∀ site b s t, I t → I (h site b s t).tables

theorem maintains_update (f : β → σ → σ) : (update (ν := ν) f).Maintains I := fun _ _ _ _ h => h

theorem maintains_record {f : Site → β → σ → Tables → Tables}
    (h : ∀ site b s t, I t → I (f site b s t)) : (record (ν := ν) f).Maintains I := h

end Handler

def Check.Maintains (I : Tables → Prop) (c : Check ν) : Prop := c.spec.All (Handler.Maintains I)

theorem Check.maintains_congr {c c' : Check ν} (h : c.design = c'.design) (hc : c.Maintains I) :
    c'.Maintains I := by
  obtain ⟨s, ds, rfl⟩ := Check.eq_of_design_eq h
  exact hc

theorem Call.answer_maintains {c : Check ν} (hc : c.Maintains I) (call : Call) {t : Tables}
    (ht : I t) : I (call.answer c t).2.1 := by
  have run {γ : Type} (site : Site) (b : γ)
      (pick : {τ : Type} → Spec ν τ → List (Handler ν τ γ))
      (h : ∀ g ∈ pick c.spec, g.Maintains I) : I (Run.runCheck site b pick c t).2.1 := by
    refine Run.handleAll_invariant (I := fun e => I e.tables) ?_ ht
    exact fun g hg e _ he => h g hg site b e.state e.tables he
  cases call with
  | node phase file n => exact run _ n (·.handlers phase n.kind) (hc.handlers phase n.kind)
  | text file content => exact run _ content (·.onText) hc.onText
  | atEnd => exact run _ () (·.atEnd) hc.atEnd

/-- All checks keep the property, and it holds. -/
structure Session.Maintained (I : Tables → Prop) (s : Session ν) : Prop where
  checks : ∀ c ∈ s.checks, c.Maintains I
  tables : I s.tables

namespace Run

theorem announceTo_maintained (call : Call) {cs : List (Check ν)} (hcs : ∀ c ∈ cs, c.Maintains I)
    {t : Tables} (ht : I t) (notes : List ν) : (announceTo call cs t notes).1.Maintained I := by
  induction cs generalizing t notes with
  | nil => exact ⟨nofun, ht⟩
  | cons c cs ih =>
    have hc := hcs c (by simp)
    have hcs' : ∀ d ∈ cs, d.Maintains I := fun d hd => hcs d (List.mem_cons_of_mem _ hd)
    by_cases hr : call.reaches c
    · have hanswered := Check.maintains_congr (Call.answer_design c t call).symm hc
      have htables := Call.answer_maintains hc call ht
      rcases ha : call.answer c t with ⟨c', t', new, _ | e⟩
      · rw [ha] at hanswered htables
        obtain ⟨hchecks, hlast⟩ := ih hcs' htables (notes ++ new)
        simp only [announceTo, hr, if_true, ha]
        exact ⟨List.forall_mem_cons.2 ⟨hanswered, hchecks⟩, hlast⟩
      · rw [ha] at hanswered htables
        simp only [announceTo, hr, if_true, ha]
        exact ⟨List.forall_mem_cons.2 ⟨hanswered, hcs'⟩, htables⟩
    · obtain ⟨hchecks, hlast⟩ := ih hcs' ht notes
      simp only [announceTo, hr, Bool.false_eq_true, if_false]
      exact ⟨List.forall_mem_cons.2 ⟨hc, hchecks⟩, hlast⟩

theorem hear_maintained (calls : List Call) {s : Session ν} (hs : s.Maintained I) :
    (hear calls s).1.Maintained I := by
  induction calls generalizing s with
  | nil => exact hs
  | cons call calls ih =>
    have first : (announce call s).1.Maintained I :=
      announceTo_maintained call hs.checks hs.tables s.notes
    rw [hear_cons]
    rcases h : announce call s with ⟨s', _ | e⟩
    · rw [h] at first
      rw [Attempt.andThen_of_none _ h]
      exact ih first
    · rw [h] at first
      rw [Attempt.andThen_of_some _ h]
      exact first

end Run

namespace Bench

structure Maintained (I : Tables → Prop) (b : Bench ν) : Prop where
  checks : ∀ c ∈ b.texts ++ b.trees, c.Maintains I
  tables : I b.tables

def Maintaining (I : Tables → Prop) (r : Attempt RunError (Bench ν)) : Prop :=
  ∀ b : Bench ν, b.Maintained I → (r b).1.Maintained I

theorem Maintaining.andThen {r q : Attempt RunError (Bench ν)} (hr : Maintaining I r)
    (hq : Maintaining I q) : Maintaining I (r.andThen q) := by
  intro b hb
  have first := hr b hb
  rcases h : r b with ⟨b', _ | e⟩
  · rw [h] at first
    rw [Attempt.andThen_of_none _ h]
    exact hq b' first
  · rw [h] at first
    rw [Attempt.andThen_of_some _ h]
    exact first

theorem onTexts_maintaining (calls : List Call) :
    Maintaining (ν := ν) I (onTexts (Run.hear calls)) := by
  intro b hb
  obtain ⟨htexts, htrees⟩ := List.forall_mem_append.1 hb.checks
  have hs : (⟨b.texts, b.tables, b.notes⟩ : Session ν).Maintained I := ⟨htexts, hb.tables⟩
  obtain ⟨hchecks, htables⟩ := Run.hear_maintained calls hs
  exact ⟨List.forall_mem_append.2 ⟨hchecks, htrees⟩, htables⟩

theorem onTrees_maintaining (calls : List Call) :
    Maintaining (ν := ν) I (onTrees (Run.hear calls)) := by
  intro b hb
  obtain ⟨htexts, htrees⟩ := List.forall_mem_append.1 hb.checks
  have hs : (⟨b.trees, b.tables, b.notes⟩ : Session ν).Maintained I := ⟨htrees, hb.tables⟩
  obtain ⟨hchecks, htables⟩ := Run.hear_maintained calls hs
  exact ⟨List.forall_mem_append.2 ⟨htexts, hchecks⟩, htables⟩

theorem stage_maintaining (files : List SourceFile) (parsed : List (SourceFile × ParsedSource)) :
    Maintaining (ν := ν) I (stage files parsed) := by
  rw [stage_eq]
  exact ((onTexts_maintaining _).andThen (onTrees_maintaining _)).andThen
    ((onTexts_maintaining _).andThen (onTrees_maintaining _))

end Bench

/-- What all checks of a stage keep holds after it. -/
theorem Bench.stage_ofChecks_maintains {checks : List (Check ν)}
    (hchecks : ∀ c ∈ checks, c.Maintains I) {t : Tables} (ht : I t) (notes : List ν)
    (files : List SourceFile) (parsed : List (SourceFile × ParsedSource)) :
    I (stage files parsed (.ofChecks checks t notes)).1.tables := by
  have hstart : (ofChecks checks t notes).Maintained I := by
    refine ⟨fun c hc => ?_, ht⟩
    rcases List.mem_append.1 hc with hc | hc
    · exact hchecks c (List.mem_filter.1 hc).1
    · exact hchecks c (List.mem_filter.1 hc).1
  exact (stage_maintaining files parsed _ hstart).tables

namespace Analysis
variable {checks : List (Check ν)} (hchecks : ∀ c ∈ checks, c.Maintains I) {before : Bench ν}
  (hbefore : I before.tables)
include hchecks hbefore

theorem surveyStage_maintains (plan : AnalysisPlan) (files : List SourceFile)
    (parsed : List (SourceFile × ParsedSource)) :
    I (surveyStage plan checks files parsed before).1.tables :=
  Bench.stage_ofChecks_maintains hchecks hbefore before.notes files _

theorem practiceStage_maintains (files : List SourceFile)
    (parsed : List (SourceFile × ParsedSource)) :
    I (practiceStage checks files parsed before).1.tables :=
  Bench.stage_ofChecks_maintains hchecks hbefore before.notes files parsed

end Analysis

namespace MethodTable

/-- Every class is there once, and every method has a name and is kept under its class. -/
structure Keyed (t : MethodTable) : Prop where
  sorted : t.methods.entries.Pairwise (·.1 < ·.1)
  records : ∀ e ∈ t.methods.entries, ∀ m ∈ e.2, m.className = e.1 ∧ m.name ≠ ""

theorem keyed_empty : Keyed {} := ⟨.nil, nofun⟩

theorem mem_all {t : MethodTable} {m : MethodRecord} :
    m ∈ t.all ↔ ∃ e ∈ t.methods.entries, m ∈ e.2 := by
  simp only [all, Dictionary.values, List.mem_flatten, List.mem_map, exists_exists_and_eq_and]

theorem Keyed.name_ne {t : MethodTable} (h : t.Keyed) {m : MethodRecord} (hm : m ∈ t.all) :
    m.name ≠ "" := by
  obtain ⟨e, he, hme⟩ := mem_all.1 hm
  exact (h.records e he m hme).2

theorem Keyed.mem_ofClass {t : MethodTable} (h : t.Keyed) {m : MethodRecord} (hm : m ∈ t.all) :
    m ∈ t.ofClass m.className none := by
  obtain ⟨e, he, hme⟩ := mem_all.1 hm
  rw [(h.records e he m hme).1, ofClass, Dictionary.get?, Dictionary.lookup_of_mem h.sorted he]
  exact List.mem_filter.2 ⟨hme, rfl⟩

theorem Keyed.add {t : MethodTable} (h : t.Keyed) (className name : String) (file : Path)
    (line : Nat) (access : Access) : (t.add className name file line access).Keyed := by
  unfold MethodTable.add
  split
  · exact h
  · rename_i hnames
    have hname : name ≠ "" := fun hname => hnames (by simp [hname])
    refine ⟨Dictionary.sorted_alterEntries h.sorted,
      Dictionary.forall_mem_alterEntries h.records ?_ fun ms hms => ?_⟩
    · intro m hm
      obtain rfl : m = ⟨className, name, access, file, line, false⟩ := by
        simpa [declare] using hm
      exact ⟨rfl, hname⟩
    · intro m hm
      unfold declare at hm
      dsimp only [Option.getD_some] at hm
      split at hm
      · exact hms m hm
      · rcases List.mem_append.1 hm with hm | hm
        · exact hms m hm
        · rw [List.mem_singleton.1 hm]
          exact ⟨rfl, hname⟩

theorem Keyed.update {t : MethodTable} (h : t.Keyed) (className name : String)
    {f : MethodRecord → MethodRecord} (hclass : ∀ m, (f m).className = m.className)
    (hname : ∀ m, (f m).name = m.name) : (t.update className name f).Keyed := by
  constructor
  · refine List.pairwise_map.2 (h.sorted.imp fun {e e'} hlt => ?_)
    have hkey (e : String × List MethodRecord) : (if e.1 = className then
        (e.1, e.2.map fun m => if m.name = name then f m else m) else e).1 = e.1 := by
      split <;> rfl
    rw [hkey, hkey]
    exact hlt
  · intro e he m hm
    obtain ⟨e₀, he₀, rfl⟩ := List.mem_map.1 he
    by_cases hkey : e₀.1 = className
    · simp only [if_pos hkey] at hm ⊢
      obtain ⟨m₀, hm₀, rfl⟩ := List.mem_map.1 hm
      by_cases hn : m₀.name = name
      · rw [if_pos hn, hclass, hname]
        exact h.records e₀ he₀ m₀ hm₀
      · rw [if_neg hn]
        exact h.records e₀ he₀ m₀ hm₀
    · simp only [if_neg hkey] at hm ⊢
      exact h.records e₀ he₀ m hm

end MethodTable

namespace Survey
open Handler

/-- Every method of a controller has a name and is kept under its class. -/
def MethodsKeyed (t : Tables) : Prop := t.controllerMethods.Keyed

theorem maintains_spared {h : Handler ν σ β} (hspares : h.Spares (·.controllerMethods)) :
    h.Maintains MethodsKeyed := by
  intro site b s t ht
  have hsame : (h site b s t).tables.controllerMethods = t.controllerMethods := hspares site b s t
  unfold MethodsKeyed
  rw [hsame]
  exact ht

theorem addInherited_keyed (site : Site) (scope : ControllerScope) {t : MethodTable}
    (h : t.Keyed) : (addInherited site scope t).Keyed := by
  unfold addInherited
  split
  · generalize scope.inheritedActions = actions
    induction actions generalizing t with
    | nil => exact h
    | cons action actions ih => exact ih (h.add _ action _ _ _)
  · exact h

theorem maintains_controllers (ignored : List FilePattern) :
    (controllers (ν := ν) ignored).Maintains MethodsKeyed :=
  Spec.All.start |>.trackDefinitions _ maintains_update |>.interestedIn _
    |>.on _ _ (fun _ _ _ _ h => h) |>.on _ _ (maintains_update _)
    |>.on _ _ (maintains_record fun _ _ _ _ h => h.add _ _ _ _ _)
    |>.on _ _ (maintains_update _) |>.on _ _ (maintains_update _)
    |>.on _ _ (maintains_record fun site _ scope _ h => addInherited_keyed site scope h)
    |>.on _ _ (maintains_update _)

theorem maintains_models (ignored : List FilePattern) :
    (models (ν := ν) ignored).Maintains MethodsKeyed := by
  have hdeclared (site : Site) (n : Node) (scope : DefinitionScope) (t : Tables) :
      (addDeclared site n scope t).controllerMethods = t.controllerMethods := by
    unfold addDeclared
    dsimp only
    split_ifs <;> rfl
  exact Spec.All.start |>.trackDefinitions _ maintains_update |>.interestedIn _
    |>.on _ _ (fun _ _ _ _ h => h) |>.on _ _ (fun _ _ _ _ h => h)
    |>.on _ _ (fun _ _ _ _ h => h) |>.on _ _ (fun _ _ _ _ h => h)
    |>.on _ _ (maintains_spared fun site n scope t => hdeclared site n scope t)

theorem maintains_settings (ignored : List FilePattern) :
    (settings (ν := ν) ignored).Maintains MethodsKeyed := by
  refine Spec.All.start |>.interestedIn _ |>.on _ _ (maintains_spared fun site n s t => ?_)
  simp only [record]
  split <;> rfl

theorem maintains_survey {b : Builtin ν} (hb : b ∈ Builtin.all) (hstage : b.stage = .survey)
    (options : CheckOptions) (ignored : List FilePattern) :
    (b.build options ignored).Maintains MethodsKeyed := by
  simp only [Builtin.all, List.mem_cons, List.not_mem_nil, or_false] at hb
  rcases hb with rfl | rfl | rfl | rfl | rfl | rfl | rfl | rfl | rfl | rfl | rfl | rfl | rfl | rfl |
    rfl | rfl | rfl | rfl
  all_goals try cases hstage
  · exact Spec.All.start |>.withText (fun _ _ _ _ h => h)
  · exact maintains_settings ignored
  · exact Spec.All.start |>.trackRoutes _ maintains_update |>.interestedIn _
      |>.onEach _ _ (fun _ _ _ _ h => h)
  · exact Spec.All.start |>.interestedIn _ |>.on _ _ (maintains_update _)
      |>.on _ _ (maintains_update _) |>.on _ _ (fun _ _ _ _ h => h)
  · exact maintains_models ignored
  · exact Spec.All.start |>.trackDefinitions _ maintains_update |>.interestedIn _
      |>.on _ _ (fun _ _ _ _ h => h)
      |>.on _ _ (fun _ _ _ _ h => h)
  · exact maintains_controllers ignored

end Survey

namespace CheckSet

theorem survey_maintains [PatternLanguage] {c : Configuration} {s : CheckSet ν}
    (h : ofConfiguration c = .ok s) :
    ∀ chk ∈ s.survey, chk.Maintains Survey.MethodsKeyed := by
  refine addAll_invariant (P := fun s => ∀ chk ∈ s.survey, chk.Maintains Survey.MethodsKeyed)
    (fun b hb options ignored s hs => ?_) (List.forall_mem_nil _) h
  cases hstage : b.stage with
  | survey =>
    refine List.forall_mem_append.2 ⟨hs, fun chk hchk => ?_⟩
    rw [List.mem_singleton.1 hchk]
    exact Survey.maintains_survey (List.mem_filter.1 hb).1 hstage options ignored
  | layout => exact hs
  | practice => exact hs

end CheckSet
end RailsReview
