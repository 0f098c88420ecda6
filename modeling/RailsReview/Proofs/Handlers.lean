import RailsReview.Proofs.Footprint
import RailsReview.Scope.Access

/-!
# Handlers

What handlers do one after the other, and which of them a check has for a kind of node. A check is
put together step by step, so what holds of its handlers is proved along the same steps.
-/
namespace RailsReview
variable {ν σ τ β : Type}

/-- What is put into the part can be read again. -/
def Field.Lawful (f : Field σ τ) : Prop := ∀ v s, f.get (f.set v s) = v

namespace Handler

/-- A handler that leaves a part of the state as it is. -/
def Keeps (part : Field σ τ) (h : Handler ν σ β) : Prop :=
  ∀ site b s t, part.get (h site b s t).state = part.get s

/-- A handler that leaves a part of the tables as it is. -/
def Spares {α : Type} (part : Tables → α) (h : Handler ν σ β) : Prop :=
  ∀ site b s t, part (h site b s t).tables = part t

/-- A handler that never fails and leaves no notes. -/
def Quiet (h : Handler ν σ β) : Prop :=
  ∀ site b s t, (h site b s t).notes = [] ∧ (h site b s t).failure = none

theorem quiet_update (f : β → σ → σ) : (update (ν := ν) f).Quiet := fun _ _ _ _ => ⟨rfl, rfl⟩

theorem quiet_record (f : Site → β → σ → Tables → Tables) : (record (ν := ν) f).Quiet :=
  fun _ _ _ _ => ⟨rfl, rfl⟩

end Handler

namespace Effect

/-- What comes of a handler after other ones. -/
def andThen (e : Effect ν σ) (site : Site) (b : β) (h : Handler ν σ β) : Effect ν σ :=
  let next := h site b e.state e.tables
  { next with findings := e.findings ++ next.findings, notes := e.notes ++ next.notes }

end Effect

namespace Run
variable {site : Site} {b : β} {hs : List (Handler ν σ β)}

theorem handleAll_cons (g : Handler ν σ β) {e : Effect ν σ} (h : e.failure = none) :
    handleAll site b (g :: hs) e = handleAll site b hs (e.andThen site b g) := by
  rw [handleAll, h]
  rfl

theorem handleAll_of_failure (hs : List (Handler ν σ β)) {e : Effect ν σ} {x : CheckError}
    (h : e.failure = some x) : handleAll site b hs e = e := by
  cases hs with
  | nil => rfl
  | cons g hs => rw [handleAll, h]

theorem handleAll_append (hs hs' : List (Handler ν σ β)) (e : Effect ν σ) :
    handleAll site b (hs ++ hs') e = handleAll site b hs' (handleAll site b hs e) := by
  induction hs generalizing e with
  | nil => rfl
  | cons g hs ih =>
    rcases hf : e.failure with _ | x
    · rw [List.cons_append, handleAll_cons g hf, handleAll_cons g hf, ih]
    · rw [handleAll_of_failure _ hf, handleAll_of_failure _ hf, handleAll_of_failure _ hf]

/-- What every handler keeps is kept by all of them. -/
theorem handleAll_invariant {I : Effect ν σ → Prop}
    (h : ∀ g ∈ hs, ∀ e, e.failure = none → I e → I (e.andThen site b g)) {e : Effect ν σ}
    (he : I e) : I (handleAll site b hs e) := by
  induction hs generalizing e with
  | nil => exact he
  | cons g hs ih =>
    rcases hf : e.failure with _ | x
    · rw [handleAll_cons g hf]
      exact ih (fun g hg => h g (List.mem_cons_of_mem _ hg)) (h g (by simp) e hf he)
    · rw [handleAll_of_failure _ hf]
      exact he

theorem handleAll_keeps {part : Field σ τ} (h : ∀ g ∈ hs, g.Keeps part) (e : Effect ν σ) :
    part.get (handleAll site b hs e).state = part.get e.state := by
  refine handleAll_invariant (I := fun e' => part.get e'.state = part.get e.state) ?_ rfl
  intro g hg e' _ hkept
  rw [← hkept]
  exact h g hg site b e'.state e'.tables

theorem handleAll_spares {α : Type} {part : Tables → α} (h : ∀ g ∈ hs, g.Spares part)
    (e : Effect ν σ) : part (handleAll site b hs e).tables = part e.tables := by
  refine handleAll_invariant (I := fun e' => part e'.tables = part e.tables) ?_ rfl
  intro g hg e' _ hspared
  rw [← hspared]
  exact h g hg site b e'.state e'.tables

theorem handleAll_quiet (h : ∀ g ∈ hs, g.Quiet) {e : Effect ν σ} (hn : e.notes = [])
    (hf : e.failure = none) :
    (handleAll site b hs e).notes = [] ∧ (handleAll site b hs e).failure = none := by
  refine handleAll_invariant (I := fun e' => e'.notes = [] ∧ e'.failure = none) ?_ ⟨hn, hf⟩
  rintro g hg e' _ ⟨hnotes, -⟩
  obtain ⟨hnone, hok⟩ := h g hg site b e'.state e'.tables
  refine ⟨?_, hok⟩
  simp only [Effect.andThen, hnotes, hnone, List.append_nil]

end Run

namespace Spec
variable {s : Spec ν σ}

/-- The handlers for a kind of node among some that were added in this order. -/
def addedFor (phase : Phase) (k : Kind) (hs : List ((Phase × Kind) × Handler ν σ Node)) :
    List (Handler ν σ Node) := (hs.filter (·.1 == (phase, k))).map (·.2)

theorem addedFor_append (phase : Phase) (k : Kind)
    (hs hs' : List ((Phase × Kind) × Handler ν σ Node)) :
    addedFor phase k (hs ++ hs') = addedFor phase k hs ++ addedFor phase k hs' := by
  rw [addedFor, List.filter_append, List.map_append]
  rfl

theorem mem_addedFor {phase : Phase} {k : Kind} {hs : List ((Phase × Kind) × Handler ν σ Node)}
    {g : Handler ν σ Node} : g ∈ addedFor phase k hs ↔ ((phase, k), g) ∈ hs := by
  simp [addedFor]

theorem All.trackDefinitions {P : {β : Type} → Handler ν σ β → Prop} (h : s.All P)
    (scope : Field σ DefinitionScope) (hupdate : ∀ f : Node → σ → σ, P (Handler.update f)) :
    (s.trackDefinitions scope).All P :=
  h.trackClasses _ hupdate |>.interestedIn _ |>.onEach _ _ (hupdate _) |>.onEach _ _ (hupdate _)
    |>.onEach _ _ (hupdate _) |>.on _ _ (hupdate _) |>.on _ _ (hupdate _)

section Kinds

theorem mem_addKind {k k' : Kind} {kinds : List Kind} :
    k ∈ addKind kinds k' ↔ k ∈ kinds ∨ k = k' := by
  unfold addKind
  split
  · rename_i h
    have hmem := List.contains_iff_mem.1 h
    exact ⟨.inl, fun hk => hk.elim id fun heq => heq ▸ hmem⟩
  · simp

@[simp] theorem mem_interestedIn {k : Kind} {kinds : List Kind} :
    k ∈ (s.interestedIn kinds).kinds ↔ k ∈ s.kinds ∨ k ∈ kinds := by
  have hfold (l : List Kind) : k ∈ kinds.foldl addKind l ↔ k ∈ l ∨ k ∈ kinds := by
    induction kinds generalizing l with
    | nil => simp
    | cons k' kinds ih => rw [List.foldl_cons, ih, mem_addKind, List.mem_cons, or_assoc]
  exact hfold s.kinds

@[simp] theorem kinds_on (phase : Phase) (k : Kind) (h : Handler ν σ Node) :
    (s.on phase k h).kinds = s.kinds := rfl

@[simp] theorem kinds_onEach (phase : Phase) (kinds : List Kind) (h : Handler ν σ Node) :
    (s.onEach phase kinds h).kinds = s.kinds := by
  unfold onEach
  induction kinds generalizing s with
  | nil => rfl
  | cons k kinds ih => exact ih

theorem kinds_withEnd (h : Handler ν σ Unit) : (s.withEnd h).kinds = s.kinds := rfl

end Kinds

@[simp] theorem handlers_start {name : String} {url : Option String}
    {files ignored : List FilePattern} (phase : Phase) (k : Kind) :
    ({ name, url, files, ignored } : Spec ν σ).handlers phase k = [] := rfl

@[simp] theorem handlers_interestedIn (kinds : List Kind) :
    (s.interestedIn kinds).handlers = s.handlers := rfl

@[simp] theorem handlers_withEnd (h : Handler ν σ Unit) : (s.withEnd h).handlers = s.handlers := rfl

@[simp] theorem handlers_on (phase phase' : Phase) (k k' : Kind) (h : Handler ν σ Node) :
    (s.on phase k h).handlers phase' k' =
      s.handlers phase' k' ++ if phase = phase' ∧ k = k' then [h] else [] := by
  change addedFor phase' k' (s.onNode ++ [((phase, k), h)]) = _
  rw [addedFor_append]
  congr 1
  by_cases hkey : phase = phase' ∧ k = k'
  · simp [addedFor, hkey]
  · rw [if_neg hkey]
    simpa [addedFor] using hkey

@[simp] theorem handlers_onEach (phase phase' : Phase) (kinds : List Kind) (k' : Kind)
    (h : Handler ν σ Node) (hkinds : kinds.Nodup) :
    (s.onEach phase kinds h).handlers phase' k' =
      s.handlers phase' k' ++ if phase = phase' ∧ k' ∈ kinds then [h] else [] := by
  unfold onEach
  induction kinds generalizing s with
  | nil => simp
  | cons k kinds ih =>
    obtain ⟨hfresh, hrest⟩ := List.nodup_cons.1 hkinds
    rw [List.foldl_cons, ih hrest, handlers_on]
    by_cases hphase : phase = phase'
    · by_cases hk : k = k'
      · subst hk
        simp [hphase, hfresh]
      · simp [hphase, hk, Ne.symm hk]
    · simp [hphase]

/-- A property of all handlers for nodes that may depend on what they are for. -/
def AllAt (P : Phase → Kind → Handler ν σ Node → Prop) (s : Spec ν σ) : Prop :=
  ∀ h ∈ s.onNode, P h.1.1 h.1.2 h.2

namespace AllAt
variable {P : Phase → Kind → Handler ν σ Node → Prop}

theorem handlers (h : s.AllAt P) {phase : Phase} {k : Kind} :
    ∀ g ∈ s.handlers phase k, P phase k g :=
  fun _ hg => h _ (mem_addedFor.1 hg)

theorem start {name : String} {url : Option String} {files ignored : List FilePattern} :
    AllAt P { name, url, files, ignored } := nofun

theorem mono {Q : Phase → Kind → Handler ν σ Node → Prop} (h : s.AllAt P)
    (himp : ∀ phase k g, P phase k g → Q phase k g) : s.AllAt Q :=
  fun g hg => himp _ _ _ (h g hg)

theorem interestedIn (h : s.AllAt P) (kinds : List Kind) : (s.interestedIn kinds).AllAt P := h

theorem withEnd (h : s.AllAt P) (g : Handler ν σ Unit) : (s.withEnd g).AllAt P := h

theorem on (h : s.AllAt P) {phase : Phase} {k : Kind} {g : Handler ν σ Node} (hg : P phase k g) :
    (s.on phase k g).AllAt P := by
  intro x hx
  rcases List.mem_append.1 hx with hx | hx
  · exact h x hx
  · rw [List.mem_singleton.1 hx]
    exact hg

theorem onEach (h : s.AllAt P) {phase : Phase} {kinds : List Kind} {g : Handler ν σ Node}
    (hg : ∀ k ∈ kinds, P phase k g) : (s.onEach phase kinds g).AllAt P := by
  unfold Spec.onEach
  induction kinds generalizing s with
  | nil => exact h
  | cons k kinds ih =>
    exact ih (h.on (hg k (by simp))) fun k hk => hg k (List.mem_cons_of_mem _ hk)

theorem trackClasses (h : s.AllAt P) {scope : Field σ ClassScope}
    (hg : ∀ phase k (f : Node → ClassScope → ClassScope),
      P phase k (.update fun n => scope.modify (f n))) : (s.trackClasses scope).AllAt P :=
  h.interestedIn _ |>.on (hg _ _ .enterClass) |>.on (hg _ _ fun _ => .leave)
    |>.on (hg _ _ .enterModule) |>.on (hg _ _ fun _ => .leave)

theorem trackAccess (h : s.AllAt P) {scope : Field σ AccessScope}
    (hg : ∀ phase k (f : Node → AccessScope → AccessScope),
      P phase k (.update fun n => scope.modify (f n))) : (s.trackAccess scope).AllAt P :=
  h.interestedIn _ |>.onEach (fun k _ => hg _ k fun _ => .openSection)
    |>.onEach (fun k _ => hg _ k fun _ => .closeSection) |>.onEach (fun k _ => hg _ k .switchAt)
    |>.on (hg _ _ .beginInline) |>.on (hg _ _ .endInline)

theorem trackRoutes (h : s.AllAt P) {scope : Field σ RouteScope}
    (henter : P .enter .methodAddBlock (.update fun n => scope.modify (.enter n)))
    (hleave : P .exit .methodAddBlock (.update fun _ => scope.modify .leave)) :
    (s.trackRoutes scope).AllAt P :=
  h.interestedIn _ |>.on henter |>.on hleave

end AllAt
end Spec

theorem Call.answer_spares {α : Type} (part : Tables → α) {s : Spec ν σ} {phase : Phase} {n : Node}
    (h : ∀ g ∈ s.handlers phase n.kind, g.Spares part) (file : Path) (st : σ)
    (ds : List Diagnostic) (t : Tables) :
    part ((Call.node phase file n).answer ⟨s, st, ds⟩ t).2.1 = part t :=
  Run.handleAll_spares h { state := st, tables := t }

/-- A check all of whose handlers are quiet. -/
def Check.Quiet (c : Check ν) : Prop := c.spec.All Handler.Quiet

theorem Call.answer_quiet {c : Check ν} (hc : c.Quiet) (call : Call) (t : Tables) :
    (call.answer c t).2.2 = ([], none) := by
  have run {β : Type} (site : Site) (b : β)
      (pick : {σ : Type} → Spec ν σ → List (Handler ν σ β)) (h : ∀ g ∈ pick c.spec, g.Quiet) :
      (Run.runCheck site b pick c t).2.2 = ([], none) := by
    have hstart : ({ state := c.state, tables := t } : Effect ν c.State).failure = none := rfl
    obtain ⟨hnotes, hfailure⟩ := Run.handleAll_quiet h rfl hstart
    exact Prod.ext hnotes hfailure
  cases call with
  | node phase file n => exact run _ n (·.handlers phase n.kind) (hc.handlers phase n.kind)
  | text file content => exact run _ content (·.onText) hc.onText
  | atEnd => exact run _ () (·.atEnd) hc.atEnd

end RailsReview
