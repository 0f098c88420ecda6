import RailsReview.Proofs.Reading

/-!
# Repetition

A file that is sent twice in a row to a survey leaves the tables as sending it once does, if the
facts of the second reading are those of the first one up to the access of methods. Where a survey
tracks classes, the same is open after a file as before it, and the rest follows handler by handler.
-/
namespace RailsReview
variable {ν σ : Type}

/-- What is sent to a survey from a file. -/
inductive Dispatch where
  | tree (path : Path) (root : Node)
  | text (path : Path) (content : String)

namespace Dispatch

def run : Dispatch → Run ν
  | tree path root => Run.tree root path
  | text path content => Run.text path content

def calls : Dispatch → List Call
  | tree path root => Call.ofTree path root
  | text path content => [.text path content]

theorem run_eq (d : Dispatch) : d.run = Run.hear (ν := ν) d.calls := by
  cases d with
  | tree path root => exact Run.tree_eq root path
  | text path content => rw [run, calls, Run.text_eq, Run.hear_singleton]

end Dispatch

/-- Sending anything twice in a row to the check, alone, leaves the tables as sending it once does,
whatever they hold. -/
def Check.Idempotent (c : Check ν) : Prop :=
  ∀ (d : Dispatch) (t : Tables) (notes : List ν), ∃ c₁ c₂ t₁,
    d.run ⟨[c], t, notes⟩ = (⟨[c₁], t₁, notes⟩, none) ∧
    d.run ⟨[c₁], t₁, notes⟩ = (⟨[c₂], t₁, notes⟩, none)

namespace Spec

/-- A second reading after one of these adds nothing, so the check is idempotent in the state. -/
theorem Resumes.idempotent {spec : Spec ν σ} {P : Reading σ → Prop} (h : spec.Resumes P) {s : σ}
    (htext : ∀ file content, ∃ r, (Call.text file content).Reads spec r ∧ P r)
    (hagain : ∀ {r}, P r → ∀ t : Tables,
      (t.record (r s).2).record (r (r s).1).2 = t.record (r s).2) (ds : List Diagnostic) :
    (⟨spec, s, ds⟩ : Check ν).Idempotent := by
  have hheard (d : Dispatch) : ∃ r, spec.Hears d.calls r ∧ P r := by
    cases d with
    | tree path root => exact h.nested (Call.nested_below (root.file?.getD path) root)
    | text path content =>
      by_cases hfile : spec.accepts path
      · obtain ⟨r, hreads, hr⟩ := htext path content
        exact ⟨r, hears_of_reads (fun _ _ => hfile) hreads, hr⟩
      · exact ⟨.done, hears_of_not_reaches fun _ _ => hfile, h.done⟩
  intro d t notes
  obtain ⟨r, hhears, hr⟩ := hheard d
  refine ⟨⟨spec, (r s).1, ds⟩, ⟨spec, (r (r s).1).1, ds⟩, t.record (r s).2, ?_, ?_⟩
  · rw [d.run_eq]
    exact hhears s ds t notes
  · rw [d.run_eq, hhears, hagain hr]

section Tracking
variable {Agree Kept : σ → σ → Prop} {scope : Field σ DefinitionScope}
  (hread : ∀ {s s'}, Agree s s' →
    (scope.get s).classes.enclosures = (scope.get s').classes.enclosures)
  (hwrite : ∀ {s s' d d'}, Agree s s' → d.classes.enclosures = d'.classes.enclosures →
    Agree (scope.set d s) (scope.set d' s'))
  (hkept : ∀ s d, Kept s (scope.set d s))
include hread hwrite hkept

/-- Tracking definitions is steady where agreement is about what is open. -/
theorem steady_definitions {spec : Spec ν σ} (h : spec.AllAt fun _ _ g => g.Steady Agree Kept) :
    (spec.trackDefinitions scope).AllAt fun _ _ g => g.Steady Agree Kept := by
  have classes {f : Node → ClassScope → ClassScope}
      (hf : ∀ n {c c' : ClassScope}, c.enclosures = c'.enclosures →
        (f n c).enclosures = (f n c').enclosures) :
      (Handler.update (ν := ν) fun n => (scope.inside
        ⟨(·.classes), fun c d => { d with classes := c }⟩).modify (f n)).Steady Agree Kept :=
    Handler.steady_update (fun n _ _ hs => hwrite hs (hf n (hread hs))) fun _ s => hkept s _
  have hclass := classes fun n _ _ hc => ClassScope.enclosures_enterClass_congr hc n
  have hmodule := classes fun n _ _ hc => ClassScope.enclosures_enterModule_congr hc n
  have hleave := classes fun _ _ _ hc => ClassScope.enclosures_leave_congr hc
  exact ((h.interestedIn _ |>.on hclass).on hleave |>.on hmodule |>.on hleave).trackAccess
    fun _ _ _ => Handler.steady_update (fun _ _ _ hs => hwrite hs (hread hs)) fun _ s => hkept s _

end Tracking

section Restoring
variable {scope : Field σ ClassScope} {earlier later : List ((Phase × Kind) × Handler ν σ Node)}
  {spec : Spec ν σ} {Agree Kept : σ → σ → Prop}

/-- The same classes and modules are open, and what else is to be kept is kept. -/
def Restores (scope : Field σ ClassScope) (Kept : σ → σ → Prop) (s s' : σ) : Prop :=
  (scope.get s').enclosures = (scope.get s).enclosures ∧ Kept s s'

theorem TracksClasses.reads (h : spec.TracksClasses scope earlier later) {phase : Phase}
    {file : Path} {n : Node} {r : Reading σ} (hr : (Call.node phase file n).Reads spec r) (s : σ) :
    scope.get (r s).1 = (scope.get s).follow phase n := by
  have hanswer := hr s [] {}
  obtain ⟨s', ds', hnew, hscope⟩ := h.answer file s [] {} (by rw [hanswer])
  rw [hanswer] at hnew
  obtain ⟨rfl, -⟩ : (r s).1 = s' ∧ [] = ds' := by simpa using hnew
  exact hscope

variable (refl : ∀ s, Kept s s) (trans : ∀ {s s' s''}, Kept s s' → Kept s' s'' → Kept s s'')
include refl trans

theorem TracksClasses.resumesAt (h : spec.TracksClasses scope earlier later) {n : Node}
    (hsteady : ∀ phase, ∀ g ∈ spec.handlers phase n.kind, g.Steady Agree Kept) (file : Path) :
    ∃ before after,
      spec.ResumesAt (·.Steady Agree (Restores scope Kept)) file n before after := by
  obtain ⟨r, henter, hr⟩ := Call.reads_node refl trans (hsteady .enter) file
  obtain ⟨q, hexit, hq⟩ := Call.reads_node refl trans (hsteady .exit) file
  refine ⟨r, q, henter, hexit, fun {inside} hinside => ?_⟩
  have hkept : inside.Steady Agree Kept := hinside.mono fun h => h.2
  have hrest : (inside.andThen q).Steady Agree Kept := hkept.andThen trans hq
  have hwhole : (r.andThen (inside.andThen q)).Steady Agree Kept := hr.andThen trans hrest
  refine ⟨hwhole.agree, hwhole.facts, fun s => ⟨?_, hwhole.kept s⟩⟩
  have hopen := (hinside.kept (r s).1).1
  rw [h.reads henter] at hopen
  simp only [Reading.andThen]
  rw [h.reads hexit]
  exact ClassScope.enclosures_follow_exit hopen

theorem Tracks.resumes (h : spec.Tracks scope)
    (hsteady : spec.AllAt fun _ _ g => g.Steady Agree Kept) :
    spec.Resumes (·.Steady Agree (Restores scope Kept)) := by
  obtain ⟨later, h⟩ := h
  refine resumes_steady (fun s => ⟨rfl, refl s⟩)
    (fun hs hs' => ⟨hs'.1.trans hs.1, trans hs.2 hs'.2⟩) fun file n _ => ?_
  exact h.resumesAt refl trans (fun _ => hsteady.handlers) file

end Restoring
end Spec
end RailsReview
