import RailsReview.Proofs.Handlers

/-!
# Exchanged nodes

Where every check does the same at two nodes, one may stand for the other in any tree. Where no
check does anything at a node, nothing changes when it is left out. Whole trees are compared along
their calls.
-/
namespace RailsReview
variable {ν σ β : Type}

namespace Handler

/-- A handler that does the same at related nodes. -/
def Respects (R : Node → Node → Prop) (k : Kind) (g : Handler ν σ Node) : Prop :=
  ∀ {n n'}, R n n' → n.kind = k → ∀ site s t, g site n' s t = g site n s t

section Respects
variable {R : Node → Node → Prop} {k : Kind}

theorem respects_update {f : Node → σ → σ} (h : ∀ {n n'}, R n n' → n.kind = k → f n' = f n) :
    (update (ν := ν) f).Respects R k := by
  intro n n' hn hk site s t
  simp only [update, h hn hk]

theorem respects_record {f : Site → Node → σ → Tables → Tables}
    (h : ∀ {n n'}, R n n' → ∀ site, f site n' = f site n) :
    (record (ν := ν) f).Respects R k := by
  intro n n' hn _ site s t
  simp only [record, h hn]

theorem respects_report {f : Site → Node → σ → Tables → List Finding}
    (h : ∀ {n n'}, R n n' → n.kind = k → ∀ site, f site n' = f site n) :
    (report (ν := ν) f).Respects R k := by
  intro n n' hn hk site s t
  simp only [report, h hn hk]

end Respects

/-- A handler that does nothing with what it is given. -/
def IdleAt (b : β) (g : Handler ν σ β) : Prop :=
  ∀ site s t, g site b s t = { state := s, tables := t }

end Handler

namespace Run

theorem handleAll_congr {site : Site} {b b' : β} {hs : List (Handler ν σ β)}
    (h : ∀ g ∈ hs, ∀ s t, g site b' s t = g site b s t) (e : Effect ν σ) :
    handleAll site b' hs e = handleAll site b hs e := by
  induction hs generalizing e with
  | nil => rfl
  | cons g hs ih =>
    obtain ⟨hg, hrest⟩ := List.forall_mem_cons.1 h
    simp only [handleAll, hg, ih hrest]

theorem handleAll_of_idle (site : Site) {b : β} {hs : List (Handler ν σ β)}
    (h : ∀ g ∈ hs, g.IdleAt b) {e : Effect ν σ} (he : e.failure = none) :
    handleAll site b hs e = e := by
  induction hs with
  | nil => rfl
  | cons g hs ih =>
    obtain ⟨hg, hrest⟩ := List.forall_mem_cons.1 h
    have hsame : e.andThen site b g = e := by
      obtain ⟨s, t, findings, notes, failure⟩ := e
      obtain rfl : failure = none := he
      have hnext := hg site s t
      simp only [Effect.andThen, hnext, List.append_nil]
    rw [handleAll_cons g he, hsame, ih hrest]

/-- Calls that every check answers alike may stand for each other. -/
theorem announceTo_congr {call call' : Call} {cs : List (Check ν)}
    (hreaches : ∀ c ∈ cs, call'.reaches c = call.reaches c)
    (hanswer : ∀ c ∈ cs, ∀ t, call'.answer c t = call.answer c t)
    (herror : ∀ check cause, call'.error check cause = call.error check cause) (t : Tables)
    (notes : List ν) : announceTo call' cs t notes = announceTo call cs t notes := by
  induction cs generalizing t notes with
  | nil => rfl
  | cons c cs ih =>
    obtain ⟨hreached, hrest⟩ := List.forall_mem_cons.1 hreaches
    obtain ⟨hanswered, hanswers⟩ := List.forall_mem_cons.1 hanswer
    simp only [announceTo, hreached, hanswered, herror, ih hrest hanswers]

/-- A call that no check does anything at changes nothing. -/
theorem announceTo_of_idle {call : Call} {cs : List (Check ν)}
    (h : ∀ c ∈ cs, call.reaches c → ∀ t, call.answer c t = (c, t, [], none)) (t : Tables)
    (notes : List ν) : announceTo call cs t notes = (⟨cs, t, notes⟩, none) := by
  induction cs with
  | nil => rfl
  | cons c cs ih =>
    obtain ⟨hc, hcs⟩ := List.forall_mem_cons.1 h
    rw [announceTo]
    split
    · rename_i hreached
      simp only [hc hreached, List.append_nil, ih hcs]
    · simp only [ih hcs]

end Run

/-- A check that does the same at two nodes. -/
structure Check.Equates (phase : Phase) (n n' : Node) (c : Check ν) : Prop where
  kinds : c.kinds.contains n'.kind = c.kinds.contains n.kind
  handlers : c.spec.handlers phase n'.kind = c.spec.handlers phase n.kind
  nodes : ∀ g ∈ c.spec.handlers phase n.kind, ∀ site s t, g site n' s t = g site n s t

namespace Call
variable {P : Check ν → Prop}

/-- Calls that are one to all sessions with certain checks. -/
def HeardAlike (P : Check ν → Prop) (calls' calls : List Call) : Prop :=
  ∀ s : Session ν, (∀ c ∈ s.checks, P c) → Run.hear calls' s = Run.hear calls s

namespace HeardAlike
variable {calls calls' calls'' : List Call} {file : Path} {n n' : Node}

theorem refl (calls : List Call) : HeardAlike P calls calls := fun _ _ => rfl

theorem symm (h : HeardAlike P calls' calls) : HeardAlike P calls calls' :=
  fun s hs => (h s hs).symm

theorem trans (h : HeardAlike P calls'' calls') (h' : HeardAlike P calls' calls) :
    HeardAlike P calls'' calls := fun s hs => (h s hs).trans (h' s hs)

theorem node_of_equates {phase : Phase} (hline : n'.line? = n.line?)
    (h : ∀ c : Check ν, P c → c.Equates phase n n') :
    HeardAlike P [.node phase file n'] [.node phase file n] := by
  intro s hs
  rw [Run.hear_singleton, Run.hear_singleton]
  refine Run.announceTo_congr (fun c hc => ?_) (fun c hc t => ?_) (fun check cause => ?_) _ _
  · rw [reaches, reaches, (h c (hs c hc)).kinds]
  · have hhandled (e : Effect ν c.State) :
        Run.handleAll ⟨some file, n.line?⟩ n' (c.spec.handlers phase n.kind) e =
          Run.handleAll ⟨some file, n.line?⟩ n (c.spec.handlers phase n.kind) e :=
      Run.handleAll_congr (fun g hg => (h c (hs c hc)).nodes g hg _) e
    simp only [answer, Run.runCheck, hline, (h c (hs c hc)).handlers, hhandled]
  · simp only [error, hline]

/-- A node that is handled by doing nothing may be left out. -/
theorem node_of_idle {phase : Phase}
    (h : ∀ c : Check ν, P c → n.kind ∈ c.kinds → ∀ g ∈ c.spec.handlers phase n.kind, g.IdleAt n) :
    HeardAlike P [.node phase file n] [] := by
  intro s hs
  rw [Run.hear_singleton]
  refine Run.announceTo_of_idle (fun c hc hreached t => ?_) _ _
  have hkind : n.kind ∈ c.kinds := (reaches_node.1 hreached).1
  have hidle := Run.handleAll_of_idle ⟨some file, n.line?⟩ (h c (hs c hc) hkind)
    (e := { state := c.state, tables := t }) rfl
  simp only [answer, Run.runCheck, hidle, List.map_nil, List.append_nil]

section Design
variable (hP : ∀ {c c' : Check ν}, c.design = c'.design → P c → P c')
include hP

theorem append {l l' : List Call} (h : HeardAlike P calls' calls) (hl : HeardAlike P l' l) :
    HeardAlike P (calls' ++ l') (calls ++ l) := by
  intro s hs
  rw [Run.hear_append, Run.hear_append]
  exact Attempt.andThen_congr (P := fun s : Session ν => ∀ c ∈ s.checks, P c) h hl
    (fun s hs => Check.forall_of_design hP (Run.hear_design calls s) hs) s hs

theorem around (hnode : ∀ phase, HeardAlike P [.node phase file n'] [.node phase file n])
    (h : HeardAlike P calls' calls) :
    HeardAlike P (.node .enter file n' :: (calls' ++ [.node .exit file n']))
      (.node .enter file n :: (calls ++ [.node .exit file n])) :=
  (hnode .enter).append hP (h.append hP (hnode .exit))

/-- Around other calls, too, a node that is handled by doing nothing may be left out. -/
theorem around_idle (hnode : ∀ phase, HeardAlike P [.node phase file n] [])
    (h : HeardAlike P calls' calls) :
    HeardAlike P (.node .enter file n :: (calls' ++ [.node .exit file n])) calls := by
  have hcalls := (hnode .enter).append hP (h.append hP (hnode .exit))
  rwa [List.append_nil] at hcalls

end Design

end HeardAlike

theorem belowSlots_append (file : Path) (slots slots' : List Slot) :
    belowSlots file (slots ++ slots') = belowSlots file slots ++ belowSlots file slots' := by
  induction slots with
  | nil => rfl
  | cons s slots ih =>
    cases s with
    | node n => simp only [List.cons_append, belowSlots, ih, List.append_assoc]
    | literal _ => exact ih
    | absent => exact ih

section Design
variable (hP : ∀ {c c' : Check ν}, c.design = c'.design → P c → P c')
include hP

/-- Slots that make no difference may be left out. -/
theorem heardAlike_filter (keep : Slot → Bool) {file : Path} {slots : List Slot}
    (h : ∀ s ∈ slots, ¬keep s → HeardAlike P (belowSlots file [s]) []) :
    HeardAlike P (belowSlots file slots) (belowSlots file (slots.filter keep)) := by
  induction slots with
  | nil => exact .refl _
  | cons s slots ih =>
    obtain ⟨hs, hrest⟩ := List.forall_mem_cons.1 h
    have hcons (l : List Slot) :
        belowSlots file (s :: l) = belowSlots file [s] ++ belowSlots file l :=
      belowSlots_append file [s] l
    by_cases hkeep : keep s
    · rw [List.filter_cons_of_pos hkeep, hcons slots, hcons (slots.filter keep)]
      exact (HeardAlike.refl _).append hP (ih hrest)
    · rw [List.filter_cons_of_neg hkeep, hcons slots]
      exact (hs hkeep).append hP (ih hrest)

/-- Trees that are heard alike may stand for each other below any node. -/
theorem heardAlike_hole {k : Kind} {m m' : Node} (front : List Slot) {back : List Slot}
    {p : Option Position} {own : Option Path}
    (hnode : ∀ phase file, HeardAlike P [.node phase file (.mk k (front ++ .node m' :: back) p own)]
      [.node phase file (.mk k (front ++ .node m :: back) p own)])
    (hm : ∀ file, HeardAlike P (below file m') (below file m)) (parent : Path) :
    HeardAlike P (below parent (.mk k (front ++ .node m' :: back) p own))
      (below parent (.mk k (front ++ .node m :: back) p own)) := by
  rw [below, below, belowSlots_append, belowSlots_append]
  exact .around hP (fun phase => hnode phase _)
    ((HeardAlike.refl _).append hP ((hm _).append hP (.refl _)))

end Design

end Call
end RailsReview
