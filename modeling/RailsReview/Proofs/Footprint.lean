import RailsReview.CheckSet
import RailsReview.Proofs.Call
import RailsReview.Proofs.Facts

/-!
# Footprints of checks

Most reviews read facts and write nothing. One marks uses, which are no facts. No review leaves a
note or fails. All this is settled handler by handler.
-/
namespace RailsReview
open Tables
variable {ν : Type}

namespace Handler
variable {σ β : Type}

/-- A handler that reads nothing of the tables but facts, and only its state and findings come of
it. -/
def ReadsFacts (h : Handler ν σ β) : Prop :=
  ∀ site b s t, ((h site b s t).tables = t ∧ (h site b s t).notes = [] ∧
    (h site b s t).failure = none) ∧
    ∀ t', t.SameFacts t' → h site b s t' = { h site b s t with tables := t' }

/-- A handler that changes no facts, leaves no notes and never fails. -/
def MarksUses (h : Handler ν σ β) : Prop :=
  ∀ site b s t, t.SameFacts (h site b s t).tables ∧ (h site b s t).notes = [] ∧
    (h site b s t).failure = none

theorem ReadsFacts.marksUses {h : Handler ν σ β} (hh : h.ReadsFacts) : h.MarksUses := by
  intro site b s t
  obtain ⟨⟨htables, hnotes, hfailure⟩, -⟩ := hh site b s t
  exact ⟨by rw [htables]; exact .refl t, hnotes, hfailure⟩

theorem readsFacts_update (f : β → σ → σ) : (update (ν := ν) f).ReadsFacts :=
  fun _ _ _ _ => ⟨⟨rfl, rfl, rfl⟩, fun _ _ => rfl⟩

theorem readsFacts_report {f : Site → β → σ → Tables → List Finding}
    (h : ∀ site b s (t t' : Tables), t.SameFacts t' → f site b s t' = f site b s t) :
    (report (ν := ν) f).ReadsFacts := by
  intro site b s t
  refine ⟨⟨rfl, rfl, rfl⟩, fun t' ht => ?_⟩
  simp only [report, h site b s t t' ht]

theorem marksUses_record {f : Site → β → σ → Tables → Tables}
    (h : ∀ site b s (t : Tables), t.SameFacts (f site b s t)) : (record (ν := ν) f).MarksUses :=
  fun site b s t => ⟨h site b s t, rfl, rfl⟩

theorem marksUses_update (f : β → σ → σ) : (update (ν := ν) f).MarksUses :=
  (readsFacts_update f).marksUses

theorem marksUses_report (f : Site → β → σ → Tables → List Finding) :
    (report (ν := ν) f).MarksUses := fun _ _ _ t => ⟨.refl t, rfl, rfl⟩

end Handler

namespace Spec
variable {σ : Type} {P : {β : Type} → Handler ν σ β → Prop} {s : Spec ν σ}

/-- A property of all handlers of a check. -/
structure All (P : {β : Type} → Handler ν σ β → Prop) (s : Spec ν σ) : Prop where
  onNode : ∀ h ∈ s.onNode, P h.2
  onText : ∀ h ∈ s.onText, P h
  atEnd : ∀ h ∈ s.atEnd, P h

theorem All.start {name : String} {url : Option String} {files ignored : List FilePattern} :
    All P { name, url, files, ignored } :=
  ⟨nofun, nofun, nofun⟩

theorem All.interestedIn (h : s.All P) (kinds : List Kind) : (s.interestedIn kinds).All P :=
  ⟨h.onNode, h.onText, h.atEnd⟩

theorem All.on (h : s.All P) (phase : Phase) (k : Kind) {g : Handler ν σ Node} (hg : P g) :
    (s.on phase k g).All P := by
  refine ⟨fun x hx => ?_, h.onText, h.atEnd⟩
  rcases List.mem_append.1 hx with hx | hx
  · exact h.onNode x hx
  · rw [List.mem_singleton.1 hx]
    exact hg

theorem All.onEach (h : s.All P) (phase : Phase) (kinds : List Kind) {g : Handler ν σ Node}
    (hg : P g) : (s.onEach phase kinds g).All P := by
  unfold Spec.onEach
  induction kinds generalizing s with
  | nil => exact h
  | cons k kinds ih => exact ih (h.on phase k hg)

theorem All.withText (h : s.All P) {g : Handler ν σ String} (hg : P g) : (s.withText g).All P := by
  refine ⟨h.onNode, fun x hx => ?_, h.atEnd⟩
  rcases List.mem_append.1 hx with hx | hx
  · exact h.onText x hx
  · rw [List.mem_singleton.1 hx]
    exact hg

theorem All.withEnd (h : s.All P) {g : Handler ν σ Unit} (hg : P g) : (s.withEnd g).All P := by
  refine ⟨h.onNode, h.onText, fun x hx => ?_⟩
  rcases List.mem_append.1 hx with hx | hx
  · exact h.atEnd x hx
  · rw [List.mem_singleton.1 hx]
    exact hg

theorem All.handlers (h : s.All P) (phase : Phase) (k : Kind) :
    ∀ g ∈ s.handlers phase k, P g := by
  intro g hg
  obtain ⟨x, hx, rfl⟩ := List.mem_map.1 hg
  exact h.onNode x (List.mem_filter.1 hx).1

theorem All.trackClasses (h : s.All P) (scope : Field σ ClassScope)
    (hupdate : ∀ f : Node → σ → σ, P (Handler.update f)) : (s.trackClasses scope).All P :=
  h.interestedIn _ |>.on _ _ (hupdate _) |>.on _ _ (hupdate _) |>.on _ _ (hupdate _)
    |>.on _ _ (hupdate _)

theorem All.trackRoutes (h : s.All P) (scope : Field σ RouteScope)
    (hupdate : ∀ f : Node → σ → σ, P (Handler.update f)) : (s.trackRoutes scope).All P :=
  h.interestedIn _ |>.on _ _ (hupdate _) |>.on _ _ (hupdate _)

end Spec

namespace Check

/-- A check all of whose handlers read facts only. -/
def ReadsFacts (c : Check ν) : Prop := c.spec.All Handler.ReadsFacts

/-- A check none of whose handlers does more than mark uses. -/
def MarksUses (c : Check ν) : Prop := c.spec.All Handler.MarksUses

end Check

namespace Run
variable {σ β : Type}

/-- Handlers that read facts only, one after the other. -/
theorem handleAll_readsFacts (site : Site) (b : β) {hs : List (Handler ν σ β)}
    (h : ∀ g ∈ hs, g.ReadsFacts) {e : Effect ν σ} (hn : e.notes = []) (hf : e.failure = none) :
    ((handleAll site b hs e).tables = e.tables ∧ (handleAll site b hs e).notes = [] ∧
      (handleAll site b hs e).failure = none) ∧
    ∀ t', e.tables.SameFacts t' → handleAll site b hs { e with tables := t' } =
      { handleAll site b hs e with tables := t' } := by
  induction hs generalizing e with
  | nil => exact ⟨⟨rfl, hn, hf⟩, fun _ _ => rfl⟩
  | cons g hs ih =>
    obtain ⟨⟨htables, hnotes, hfailure⟩, hread⟩ := h g (by simp) site b e.state e.tables
    simp only [handleAll, hf]
    obtain ⟨⟨htables', hnotes', hfailure'⟩, hread'⟩ :=
      ih (fun g hg => h g (List.mem_cons_of_mem _ hg))
        (e := { g site b e.state e.tables with
          findings := e.findings ++ (g site b e.state e.tables).findings
          notes := e.notes ++ (g site b e.state e.tables).notes })
        (by simp only [hn, hnotes, List.append_nil]) hfailure
    refine ⟨⟨htables'.trans htables, hnotes', hfailure'⟩, fun t' ht => ?_⟩
    rw [hread t' ht]
    exact hread' t' (by rw [htables]; exact ht)

/-- Handlers that mark uses at most, one after the other. -/
theorem handleAll_marksUses (site : Site) (b : β) {hs : List (Handler ν σ β)}
    (h : ∀ g ∈ hs, g.MarksUses) {e : Effect ν σ} (hn : e.notes = []) (hf : e.failure = none) :
    e.tables.SameFacts (handleAll site b hs e).tables ∧ (handleAll site b hs e).notes = [] ∧
      (handleAll site b hs e).failure = none := by
  induction hs generalizing e with
  | nil => exact ⟨.refl _, hn, hf⟩
  | cons g hs ih =>
    obtain ⟨htables, hnotes, hfailure⟩ := h g (by simp) site b e.state e.tables
    simp only [handleAll, hf]
    obtain ⟨htables', hrest⟩ := ih (fun g hg => h g (List.mem_cons_of_mem _ hg))
      (e := { g site b e.state e.tables with
        findings := e.findings ++ (g site b e.state e.tables).findings
        notes := e.notes ++ (g site b e.state e.tables).notes })
      (by simp only [hn, hnotes, List.append_nil]) hfailure
    exact ⟨htables.trans htables', hrest⟩

end Run

namespace Call

theorem answer_readsFacts {c : Check ν} (hc : c.ReadsFacts) (call : Call) (t : Tables) :
    (call.answer c t).2 = (t, [], none) ∧
      ∀ t', t.SameFacts t' → call.answer c t' = ((call.answer c t).1, t', [], none) := by
  have run {β : Type} (site : Site) (b : β)
      (pick : {σ : Type} → Spec ν σ → List (Handler ν σ β))
      (h : ∀ g ∈ pick c.spec, g.ReadsFacts) :
      (Run.runCheck site b pick c t).2 = (t, [], none) ∧ ∀ t', t.SameFacts t' →
        Run.runCheck site b pick c t' = ((Run.runCheck site b pick c t).1, t', [], none) := by
    obtain ⟨⟨htables, hnotes, hfailure⟩, hread⟩ :=
      Run.handleAll_readsFacts site b h (e := { state := c.state, tables := t }) rfl rfl
    refine ⟨?_, fun t' ht => ?_⟩
    · simp only [Run.runCheck, htables, hnotes, hfailure]
    · have hsame := hread t' ht
      simp only [Run.runCheck, hsame, hnotes, hfailure]
  cases call with
  | node phase file n => exact run _ n (·.handlers phase n.kind) (hc.handlers phase n.kind)
  | text file content => exact run _ content (·.onText) hc.onText
  | atEnd => exact run _ () (·.atEnd) hc.atEnd

theorem answer_marksUses {c : Check ν} (hc : c.MarksUses) (call : Call) (t : Tables) :
    t.SameFacts (call.answer c t).2.1 ∧ (call.answer c t).2.2 = ([], none) := by
  have run {β : Type} (site : Site) (b : β)
      (pick : {σ : Type} → Spec ν σ → List (Handler ν σ β))
      (h : ∀ g ∈ pick c.spec, g.MarksUses) :
      t.SameFacts (Run.runCheck site b pick c t).2.1 ∧
        (Run.runCheck site b pick c t).2.2 = ([], none) := by
    obtain ⟨htables, hnotes, hfailure⟩ :=
      Run.handleAll_marksUses site b h (e := { state := c.state, tables := t }) rfl rfl
    exact ⟨htables, Prod.ext hnotes hfailure⟩
  cases call with
  | node phase file n => exact run _ n (·.handlers phase n.kind) (hc.handlers phase n.kind)
  | text file content => exact run _ content (·.onText) hc.onText
  | atEnd => exact run _ () (·.atEnd) hc.atEnd

end Call

namespace Layout

theorem readsFacts_tab (ignored : List FilePattern) : (tab (ν := ν) ignored).ReadsFacts :=
  Spec.All.start |>.withText (Handler.readsFacts_report fun _ _ _ _ _ _ => rfl)

theorem readsFacts_trailingBlank (ignored : List FilePattern) :
    (trailingBlank (ν := ν) ignored).ReadsFacts :=
  Spec.All.start |>.withText (Handler.readsFacts_report fun _ _ _ _ _ _ => rfl)

theorem readsFacts_lineLength (max : Nat) (ignored : List FilePattern) :
    (lineLength (ν := ν) max ignored).ReadsFacts :=
  Spec.All.start |>.withText (Handler.readsFacts_report fun _ _ _ _ _ _ => rfl)

end Layout

namespace Practice
open Handler

theorem readsFacts_modelLogic (allowed : Nat) (ignored : List FilePattern) :
    (modelLogic (ν := ν) allowed ignored).ReadsFacts :=
  Spec.All.start |>.interestedIn _ |>.on _ _ (readsFacts_report fun _ _ _ _ _ _ => rfl)

theorem needsDelegate_congr {t t' : Tables} (h : t.SameFacts t') (n : Node) :
    needsDelegate t' n = needsDelegate t n := by
  unfold needsDelegate
  rw [h.associations, h.attributes]

theorem readsFacts_demeter (ignored : List FilePattern) :
    (demeter (ν := ν) ignored).ReadsFacts := by
  refine Spec.All.start |>.interestedIn _ |>.on _ _
    (readsFacts_report fun site n _ t t' h => ?_)
  rw [needsDelegate_congr h]

theorem excessRoutes?_congr {t t' : Tables} (h : t.SameFacts t') (n : Node) (scope : RouteScope) :
    excessRoutes? n scope t' = excessRoutes? n scope t := by
  unfold excessRoutes?
  simp only [h.controllers, h.has]

theorem readsFacts_routeOptions (ignored : List FilePattern) :
    (routeOptions (ν := ν) ignored).ReadsFacts := by
  refine Spec.All.start |>.trackRoutes _ readsFacts_update |>.interestedIn _
    |>.onEach _ _ (readsFacts_report fun site n scope t t' h => ?_)
    |>.onEach _ _ (readsFacts_update _)
  exact congrArg (fun m => (Option.map site.finding m).toList) (excessRoutes?_congr h n scope)

theorem readsFacts_nestedRoutes (allowed : Nat) (ignored : List FilePattern) :
    (nestedRoutes (ν := ν) allowed ignored).ReadsFacts :=
  Spec.All.start |>.trackRoutes _ readsFacts_update |>.interestedIn _
    |>.onEach _ _ (readsFacts_report fun _ _ _ _ _ _ => rfl)
    |>.onEach _ _ (readsFacts_update _)

theorem readsFacts_customRoutes (allowed : Nat) (ignored : List FilePattern) :
    (customRoutes (ν := ν) allowed ignored).ReadsFacts :=
  Spec.All.start |>.interestedIn _ |>.on _ _ (readsFacts_report fun _ _ _ _ _ _ => rfl)

theorem readsFacts_dbIndex (ignored : List FilePattern) :
    (dbIndex (ν := ν) ignored).ReadsFacts := by
  refine Spec.All.start |>.interestedIn _
    |>.on _ _ (readsFacts_update _)
    |>.on _ _ ?_
    |>.withEnd (readsFacts_report fun site _ s t t' h => ?_)
  · exact fun _ _ _ _ => ⟨⟨rfl, rfl, rfl⟩, fun _ _ => rfl⟩
  · rw [h.associations]

theorem isApplicationProtected_congr {t t' : Tables} (h : t.SameFacts t') :
    isApplicationProtected t' = isApplicationProtected t := by
  unfold isApplicationProtected
  rw [h.gems, h.settings]

theorem readsFacts_massAssignment (ignored : List FilePattern) :
    (massAssignment (ν := ν) ignored).ReadsFacts := by
  refine Spec.All.start |>.interestedIn _
    |>.on _ _ ?_
    |>.on _ _ (readsFacts_update _)
    |>.onEach _ _ (readsFacts_update _)
    |>.on _ _ (readsFacts_report fun _ _ _ _ _ _ => rfl)
    |>.on _ _ (readsFacts_update _)
  intro site n classes t
  refine ⟨⟨rfl, rfl, rfl⟩, fun t' h => ?_⟩
  have hclass : RecordClass.of t' n = RecordClass.of t n := by
    unfold RecordClass.of
    rw [isApplicationProtected_congr h]
  exact congrArg (fun c => (⟨c :: classes, t', [], [], none⟩ : Effect ν (List RecordClass))) hclass

theorem marksUses_unusedActions (exceptions : List String) (ignored : List FilePattern) :
    (unusedActions (ν := ν) exceptions ignored).MarksUses :=
  Spec.All.start |>.trackClasses _ marksUses_update |>.interestedIn _
    |>.onEach _ _ (marksUses_record fun _ _ _ t => Usage.sameFacts_mark _ _ t)
    |>.interestedIn _
    |>.on _ _ (marksUses_update _)
    |>.on _ _ (marksUses_record fun _ _ s t => sameFacts_markHooks s t)
    |>.on _ _ (marksUses_update _)
    |>.on _ _ (marksUses_record fun _ n _ t => sameFacts_markCommand n _ t)
    |>.on _ _ (marksUses_update _)
    |>.on _ _ (marksUses_update _)
    |>.on _ _ (marksUses_record fun _ n _ t => sameFacts_markCall n _ t)
    |>.on _ _ (marksUses_record fun _ n _ t => sameFacts_markSetter n _ t)
    |>.withEnd (marksUses_record fun _ _ _ t => sameFacts_markRoutes t)
    |>.withEnd (marksUses_report _)

end Practice

namespace Builtin

/-- The one review that marks uses. -/
def markingName : String := "RemoveUnusedMethodsInControllersCheck"

/-- What is known of a check that reports. -/
structure Reporter (c : Check ν) (stage : Stage) (name : String) : Prop where
  named : c.name = name
  fresh : c.diagnostics = []
  footprint : c.ReadsFacts ∨ (stage = .practice ∧ name = markingName ∧ c.MarksUses)

theorem reporter_of_mem {b : Builtin ν} (hb : b ∈ all) (hstage : b.stage ≠ .survey)
    (options : CheckOptions) (ignored : List FilePattern) :
    Reporter (b.build options ignored) b.stage b.name := by
  simp only [all, List.mem_cons, List.not_mem_nil, or_false] at hb
  rcases hb with rfl | rfl | rfl | rfl | rfl | rfl | rfl | rfl | rfl | rfl | rfl | rfl | rfl | rfl |
    rfl | rfl | rfl | rfl
  · exact ⟨rfl, rfl, .inl (Layout.readsFacts_tab _)⟩
  · exact ⟨rfl, rfl, .inl (Layout.readsFacts_trailingBlank _)⟩
  · exact ⟨rfl, rfl, .inl (Layout.readsFacts_lineLength _ _)⟩
  all_goals try exact absurd rfl hstage
  · exact ⟨rfl, rfl, .inl (Practice.readsFacts_modelLogic _ _)⟩
  · exact ⟨rfl, rfl, .inl (Practice.readsFacts_demeter _)⟩
  · exact ⟨rfl, rfl, .inr ⟨rfl, rfl, Practice.marksUses_unusedActions _ _⟩⟩
  · exact ⟨rfl, rfl, .inl (Practice.readsFacts_routeOptions _)⟩
  · exact ⟨rfl, rfl, .inl (Practice.readsFacts_customRoutes _ _)⟩
  · exact ⟨rfl, rfl, .inl (Practice.readsFacts_nestedRoutes _ _)⟩
  · exact ⟨rfl, rfl, .inl (Practice.readsFacts_dbIndex _)⟩
  · exact ⟨rfl, rfl, .inl (Practice.readsFacts_massAssignment _)⟩

end Builtin

end RailsReview
