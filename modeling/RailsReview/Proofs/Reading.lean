import RailsReview.Proofs.ClassScope
import RailsReview.Proofs.Recording
import RailsReview.Proofs.TreeDelivery

/-!
# Readings

What a survey makes of a call depends on its own state and not on the tables: the call leads to
another state and to facts, which are recorded in whatever tables there are. Two readings of the
same tree from states that agree record the same facts.
-/
namespace RailsReview
variable {ν σ β : Type}

/-- What reading something makes of a state: another state, and facts to record. -/
abbrev Reading (σ : Type) := σ → σ × Facts

namespace Reading

def done : Reading σ := fun s => (s, {})

def andThen (r q : Reading σ) : Reading σ := fun s =>
  ((q (r s).1).1, (r s).2 ++ (q (r s).1).2)

/-- States that agree lead to states that agree and to the same facts, up to the access of methods,
and a state is related to what becomes of it. -/
structure Steady (Agree Kept : σ → σ → Prop) (r : Reading σ) : Prop where
  agree : ∀ {s s'}, Agree s s' → Agree (r s).1 (r s').1
  facts : ∀ {s s'}, Agree s s' → (r s).2.withoutAccess = (r s').2.withoutAccess
  kept : ∀ s, Kept s (r s).1

variable {Agree Kept : σ → σ → Prop} {r q : Reading σ}

theorem Steady.done (refl : ∀ s, Kept s s) : (done : Reading σ).Steady Agree Kept :=
  ⟨id, fun _ => rfl, refl⟩

theorem Steady.mono {Kept' : σ → σ → Prop} (h : r.Steady Agree Kept)
    (himp : ∀ {s s'}, Kept s s' → Kept' s s') : r.Steady Agree Kept' :=
  ⟨h.agree, h.facts, fun s => himp (h.kept s)⟩

theorem Steady.andThen (trans : ∀ {s s' s''}, Kept s s' → Kept s' s'' → Kept s s'')
    (hr : r.Steady Agree Kept) (hq : q.Steady Agree Kept) : (r.andThen q).Steady Agree Kept where
  agree h := hq.agree (hr.agree h)
  facts h := by
    simp only [Reading.andThen, Facts.withoutAccess_append, hr.facts h, hq.facts (hr.agree h)]
  kept s := trans (hr.kept s) (hq.kept _)

/-- What is kept agrees, so a second reading brings the same facts. -/
theorem Steady.record_again (h : r.Steady Agree Kept) (himp : ∀ {s s'}, Kept s s' → Agree s s')
    (s : σ) (t : Tables) : (t.record (r s).2).record (r (r s).1).2 = t.record (r s).2 :=
  Tables.record_again (h.facts (himp (h.kept s))).symm t

end Reading

namespace Handler
variable {Agree Kept : σ → σ → Prop}

/-- A handler that does no more than a reading, of which it takes nothing from the tables. -/
def Reads (h : Handler ν σ β) (r : Site → β → Reading σ) : Prop :=
  ∀ site b s t, h site b s t = { state := (r site b s).1, tables := t.record (r site b s).2 }

def Steady (Agree Kept : σ → σ → Prop) (h : Handler ν σ β) : Prop :=
  ∃ r, h.Reads r ∧ ∀ site b, (r site b).Steady Agree Kept

theorem steady_update {f : β → σ → σ} (hagree : ∀ b s s', Agree s s' → Agree (f b s) (f b s'))
    (hkept : ∀ b s, Kept s (f b s)) : (update (ν := ν) f).Steady Agree Kept :=
  ⟨fun _ b s => (f b s, {}), fun _ _ _ _ => rfl,
    fun _ b => ⟨fun h => hagree b _ _ h, fun _ => rfl, hkept b⟩⟩

theorem steady_record {f : Site → β → σ → Tables → Tables} (found : Site → β → σ → Facts)
    (hf : ∀ site b s t, f site b s t = t.record (found site b s))
    (hfacts : ∀ site b s s', Agree s s' →
      (found site b s).withoutAccess = (found site b s').withoutAccess)
    (refl : ∀ s, Kept s s) : (record (ν := ν) f).Steady Agree Kept := by
  refine ⟨fun site b s => (s, found site b s), fun site b s t => ?_, fun site b => ?_⟩
  · simp only [record, hf]
  · exact ⟨id, fun h => hfacts site b _ _ h, refl⟩

end Handler

/-- What the check makes of a call is the reading, whatever the tables. -/
def Call.Reads (call : Call) (spec : Spec ν σ) (r : Reading σ) : Prop :=
  ∀ s ds t, call.answer ⟨spec, s, ds⟩ t = (⟨spec, (r s).1, ds⟩, t.record (r s).2, [], none)

section Calls
variable {Agree Kept : σ → σ → Prop} (refl : ∀ s, Kept s s)
  (trans : ∀ {s s' s''}, Kept s s' → Kept s' s'' → Kept s s'')
include refl trans

/-- Steady handlers together are a steady reading. -/
theorem Run.handleAll_steady (site : Site) (b : β) {hs : List (Handler ν σ β)}
    (h : ∀ g ∈ hs, g.Steady Agree Kept) :
    ∃ r : Reading σ, (∀ s t, Run.handleAll site b hs { state := s, tables := t } =
      { state := (r s).1, tables := t.record (r s).2 }) ∧ r.Steady Agree Kept := by
  induction hs with
  | nil => exact ⟨.done, fun _ _ => rfl, .done refl⟩
  | cons g hs ih =>
    obtain ⟨hg, hrest⟩ := List.forall_mem_cons.1 h
    obtain ⟨r, hreads, hr⟩ := hg
    obtain ⟨q, hhandled, hq⟩ := ih hrest
    refine ⟨(r site b).andThen q, fun s t => ?_, (hr site b).andThen trans hq⟩
    have hfirst : ({ state := s, tables := t } : Effect ν σ).andThen site b g =
        { state := (r site b s).1, tables := t.record (r site b s).2 } := by
      simp only [Effect.andThen, hreads site b s t, List.append_nil]
    rw [Run.handleAll_cons g rfl, hfirst, hhandled, ← Tables.record_append]
    rfl

theorem Run.runCheck_steady (site : Site) (b : β)
    (pick : {τ : Type} → Spec ν τ → List (Handler ν τ β)) {spec : Spec ν σ}
    (h : ∀ g ∈ pick spec, g.Steady Agree Kept) :
    ∃ r : Reading σ, (∀ s ds t, Run.runCheck site b pick ⟨spec, s, ds⟩ t =
      (⟨spec, (r s).1, ds⟩, t.record (r s).2, [], none)) ∧ r.Steady Agree Kept := by
  obtain ⟨r, hhandled, hr⟩ := Run.handleAll_steady refl trans site b h
  refine ⟨r, fun s ds t => ?_, hr⟩
  simp only [Run.runCheck, hhandled, List.map_nil, List.append_nil]

theorem Call.reads_node {spec : Spec ν σ} {phase : Phase} {n : Node}
    (h : ∀ g ∈ spec.handlers phase n.kind, g.Steady Agree Kept) (file : Path) :
    ∃ r : Reading σ, (Call.node phase file n).Reads spec r ∧ r.Steady Agree Kept :=
  Run.runCheck_steady refl trans _ n (·.handlers phase n.kind) h

theorem Call.reads_text {spec : Spec ν σ} (h : ∀ g ∈ spec.onText, g.Steady Agree Kept)
    (file : Path) (content : String) :
    ∃ r : Reading σ, (Call.text file content).Reads spec r ∧ r.Steady Agree Kept :=
  Run.runCheck_steady refl trans _ content (·.onText) h

end Calls

theorem Call.reads_text_of_nil {spec : Spec ν σ} (h : spec.onText = []) (file : Path)
    (content : String) : (Call.text file content).Reads spec .done := by
  intro s ds t
  simp [Call.answer, Run.runCheck, h, Run.handleAll, Reading.done, Tables.record_nothing]

namespace Spec
variable {spec : Spec ν σ} {calls calls' : List Call} {r q : Reading σ}

/-- What the check, alone, makes of calls is the reading. -/
def Hears (spec : Spec ν σ) (calls : List Call) (r : Reading σ) : Prop :=
  ∀ s ds t notes, Run.hear calls ⟨[⟨spec, s, ds⟩], t, notes⟩ =
    (⟨[⟨spec, (r s).1, ds⟩], t.record (r s).2, notes⟩, none)

theorem hears_nil : spec.Hears [] .done := fun _ _ _ _ => rfl

theorem hears_of_reads {call : Call} (hreach : ∀ s ds, call.reaches (⟨spec, s, ds⟩ : Check ν))
    (hr : call.Reads spec r) : spec.Hears [call] r := by
  intro s ds t notes
  rw [Run.hear_singleton]
  exact Run.announce_single (hreach s ds) (hr s ds t) notes

theorem hears_of_not_reaches {call : Call}
    (hout : ∀ s ds, ¬call.reaches (⟨spec, s, ds⟩ : Check ν)) : spec.Hears [call] .done := by
  intro s ds t notes
  rw [Run.hear_singleton]
  exact Run.announce_single_of_not_reaches (hout s ds) t notes

theorem Hears.append (hr : spec.Hears calls r) (hq : spec.Hears calls' q) :
    spec.Hears (calls ++ calls') (r.andThen q) := by
  intro s ds t notes
  rw [Run.hear_append, Attempt.andThen_of_none _ (hr s ds t notes), hq, ← Tables.record_append]
  rfl

/-- Entering and leaving a node are readings. If what is read in between has the property, then so
has the whole. -/
structure ResumesAt (spec : Spec ν σ) (P : Reading σ → Prop) (file : Path) (n : Node)
    (before after : Reading σ) : Prop where
  enter : (Call.node .enter file n).Reads spec before
  exit : (Call.node .exit file n).Reads spec after
  whole : ∀ {inside : Reading σ}, P inside → P (before.andThen (inside.andThen after))

/-- A check whose readings of whole nodes, one after the other, have a property. Single calls need
not have it. -/
structure Resumes (spec : Spec ν σ) (P : Reading σ → Prop) : Prop where
  done : P .done
  andThen : ∀ {r q}, P r → P q → P (r.andThen q)
  node : ∀ file (n : Node), n.kind ∈ spec.kinds →
    ∃ before after, spec.ResumesAt P file n before after

theorem Resumes.nested {P : Reading σ → Prop} (h : spec.Resumes P) (hcalls : Call.Nested calls) :
    ∃ r : Reading σ, spec.Hears calls r ∧ P r := by
  induction hcalls with
  | nil => exact ⟨.done, hears_nil, h.done⟩
  | @node file n inside rest _ _ hinside hrest =>
    obtain ⟨i, hhearsi, hi⟩ := hinside
    obtain ⟨r, hhearsr, hr⟩ := hrest
    have whole {e q : Reading σ} (henter : spec.Hears [.node .enter file n] e)
        (hexit : spec.Hears [.node .exit file n] q) (hwhole : P (e.andThen (i.andThen q))) :
        ∃ r : Reading σ,
          spec.Hears (.node .enter file n :: (inside ++ .node .exit file n :: rest)) r ∧ P r := by
      refine ⟨(e.andThen (i.andThen q)).andThen r, ?_, h.andThen hwhole hr⟩
      have hheard := (henter.append (hhearsi.append hexit)).append hhearsr
      simpa only [List.append_assoc, List.cons_append, List.nil_append] using hheard
    by_cases hreach : spec.kinds.contains n.kind && spec.accepts file
    · have hkind := List.contains_iff_mem.1 (Bool.and_eq_true_iff.1 hreach).1
      obtain ⟨e, q, hnode⟩ := h.node file n hkind
      exact whole (hears_of_reads (fun _ _ => hreach) hnode.enter)
        (hears_of_reads (fun _ _ => hreach) hnode.exit) (hnode.whole hi)
    · exact whole (hears_of_not_reaches fun _ _ => hreach) (hears_of_not_reaches fun _ _ => hreach)
        (h.andThen h.done (h.andThen hi h.done))

section Steady
variable {Agree Kept : σ → σ → Prop} (refl : ∀ s, Kept s s)
  (trans : ∀ {s s' s''}, Kept s s' → Kept s' s'' → Kept s s'')
include refl trans

theorem resumesAt_of_steady {n : Node}
    (h : ∀ phase, ∀ g ∈ spec.handlers phase n.kind, g.Steady Agree Kept) (file : Path) :
    ∃ before after, spec.ResumesAt (·.Steady Agree Kept) file n before after := by
  obtain ⟨before, henter, hbefore⟩ := Call.reads_node refl trans (h .enter) file
  obtain ⟨after, hexit, hafter⟩ := Call.reads_node refl trans (h .exit) file
  refine ⟨before, after, henter, hexit, fun hinside => ?_⟩
  exact hbefore.andThen trans (hinside.andThen trans hafter)

theorem resumes_steady (h : ∀ file (n : Node), n.kind ∈ spec.kinds →
    ∃ before after, spec.ResumesAt (·.Steady Agree Kept) file n before after) :
    spec.Resumes (·.Steady Agree Kept) :=
  ⟨.done refl, fun hr hq => hr.andThen trans hq, h⟩

end Steady
end Spec
end RailsReview
