import Mathlib.Data.List.Dedup
import RailsReview.Proofs.Call

/-!
# Watched checks

A watched check notes every call that is delivered to it, and whether it failed, and is otherwise
the check it was. What a run of watched checks leaves therefore shows which calls were delivered, to
which checks, in which order and with which outcome, also when the run fails.
-/
namespace RailsReview

/-- A call at the check that is known as `check`. -/
structure Delivery (α : Type) where
  check : α
  call : Call

variable {ν α : Type}

/-- The notes of watched checks: their own ones and what the watch saw, with the failure if there
was one. -/
abbrev Watched (ν α : Type) := ν ⊕ (Delivery α × Option CheckError)

namespace Watched

/-- What the watch saw. -/
def outcomes (notes : List (Watched ν α)) : List (Delivery α × Option CheckError) :=
  notes.filterMap Sum.getRight?

/-- The deliveries that the watch saw. -/
def deliveries (notes : List (Watched ν α)) : List (Delivery α) := (outcomes notes).map (·.1)

/-- The notes that the checks left themselves. -/
def own (notes : List (Watched ν α)) : List ν := notes.filterMap Sum.getLeft?

@[simp] theorem outcomes_append (l r : List (Watched ν α)) :
    outcomes (l ++ r) = outcomes l ++ outcomes r := List.filterMap_append

@[simp] theorem own_append (l r : List (Watched ν α)) : own (l ++ r) = own l ++ own r :=
  List.filterMap_append

@[simp] theorem outcomes_inr_cons (x : Delivery α × Option CheckError) (notes : List ν) :
    outcomes (Sum.inr x :: notes.map Sum.inl) = [x] := by
  simp [outcomes, List.filterMap_map, Function.comp_def]

@[simp] theorem own_inr_cons (x : Delivery α × Option CheckError) (notes : List ν) :
    own (Sum.inr x :: notes.map Sum.inl) = notes := by
  simp [own, List.filterMap_cons, List.filterMap_map, Function.comp_def]

end Watched

/-- One handler that does what a list of them does and notes the call with its outcome. -/
def Handler.watching {σ β : Type} (check : α) (call : Site → β → Call)
    (hs : List (Handler ν σ β)) : Handler (Watched ν α) σ β := fun site b s t =>
  let e := Run.handleAll site b hs { state := s, tables := t }
  { state := e.state, tables := e.tables, findings := e.findings
    notes := .inr (⟨check, call site b⟩, e.failure) :: e.notes.map .inl, failure := e.failure }

namespace Spec
variable {σ : Type}

/-- The same description under a watch. Texts are noted if the check `hears` them. -/
def watched (hears : Bool) (check : α) (s : Spec ν σ) : Spec (Watched ν α) σ :=
  let watch (phase : Phase) (k : Kind) : (Phase × Kind) × Handler (Watched ν α) σ Node :=
    ((phase, k), .watching check (fun site n => .node phase site.path n) (s.handlers phase k))
  { name := s.name, url := s.url, kinds := s.kinds, kinds_nodup := s.kinds_nodup
    files := s.files, ignored := s.ignored
    onNode := s.kinds.map (watch .enter) ++ s.kinds.map (watch .exit)
    onText := if hears || s.isTextCheck then
      [.watching check (fun site content => .text site.path content) s.onText] else []
    atEnd := [.watching check (fun _ _ => .atEnd) s.atEnd] }

theorem handlers_watched (hears : Bool) (check : α) (s : Spec ν σ) (phase : Phase) {k : Kind}
    (hk : k ∈ s.kinds) :
    (s.watched hears check).handlers phase k =
      [.watching check (fun site n => .node phase site.path n) (s.handlers phase k)] := by
  have hone : s.kinds.filter (· == k) = [k] := by
    rw [List.filter_beq, s.kinds_nodup.count, if_pos hk]
    rfl
  have hpick (phase' : Phase) : (s.kinds.filter fun k' => (phase', k') == (phase, k)) =
      if phase' = phase then [k] else [] := by
    split
    · rename_i heq
      rw [← hone]
      exact List.filter_congr fun k' _ => by rw [Bool.eq_iff_iff]; simp [heq]
    · rename_i hne
      simp [hne]
  change ((List.filter _ (_ ++ _)).map _) = _
  simp only [List.filter_append, List.filter_map, Function.comp_def, hpick]
  cases phase <;> rfl

end Spec

namespace Check

/-- The same check under a watch. -/
def watched (hears : Bool) (check : α) (c : Check ν) : Check (Watched ν α) :=
  ⟨c.spec.watched hears check, c.state, c.diagnostics⟩

end Check

theorem Run.runCheck_watched {β : Type} (hears : Bool) (check : α) (site : Site) (b : β)
    (c : Check ν) (t : Tables) (call : Site → β → Call)
    (pick : {σ : Type} → Spec ν σ → List (Handler ν σ β))
    (pick' : {σ : Type} → Spec (Watched ν α) σ → List (Handler (Watched ν α) σ β))
    (h : pick' (c.spec.watched hears check) = [.watching check call (pick c.spec)]) :
    runCheck site b pick' (c.watched hears check) t =
      ((runCheck site b pick c t).1.watched hears check, (runCheck site b pick c t).2.1,
        .inr (⟨check, call site b⟩, (runCheck site b pick c t).2.2.2) ::
          (runCheck site b pick c t).2.2.1.map .inl,
        (runCheck site b pick c t).2.2.2) := by
  have hall : handleAll site b (pick' (c.spec.watched hears check))
      { state := c.state, tables := t } =
        Handler.watching check call (pick c.spec) site b c.state t := by
    rw [h]
    rfl
  simp only [runCheck, Check.watched, hall]
  rfl

namespace Call

/-- Whether the watch on a check sees the call; it may overlook texts given to checks that do not
handle them. -/
def seen (hears : Bool) (c : Check ν) : Call → Bool
  | text _ _ => hears || c.isTextCheck
  | _ => true

theorem seen_congr {hears : Bool} {c c' : Check ν} (h : c.design = c'.design) (call : Call) :
    call.seen hears c = call.seen hears c' := by
  obtain ⟨s, ds, rfl⟩ := Check.eq_of_design_eq h
  cases call <;> rfl

theorem seen_of_design {hears : Bool} {cs cs' : List (Check ν)} {call : Call}
    (h : cs'.map Check.design = cs.map Check.design) (hs : ∀ c ∈ cs, call.seen hears c) :
    ∀ c ∈ cs', call.seen hears c := by
  intro c hc
  have hmem := List.mem_map_of_mem (f := Check.design) hc
  rw [h] at hmem
  obtain ⟨c₀, hc₀, hdesign⟩ := List.mem_map.1 hmem
  rw [← seen_congr hdesign]
  exact hs c₀ hc₀

theorem answer_watched (hears : Bool) (check : α) (c : Check ν) (t : Tables) {call : Call}
    (hr : call.reaches c) (hs : call.seen hears c) :
    call.answer (c.watched hears check) t =
      ((call.answer c t).1.watched hears check, (call.answer c t).2.1,
        .inr (⟨check, call⟩, (call.answer c t).2.2.2) :: (call.answer c t).2.2.1.map .inl,
        (call.answer c t).2.2.2) := by
  cases call with
  | node phase file n =>
    have hk : n.kind ∈ c.spec.kinds := by
      simp only [reaches, Bool.and_eq_true, List.contains_iff_mem] at hr
      exact hr.1
    exact Run.runCheck_watched hears check _ n c t (fun site n => node phase site.path n)
      (·.handlers phase n.kind) (·.handlers phase n.kind)
      (Spec.handlers_watched hears check c.spec phase hk)
  | text file content =>
    have ht : (hears || c.spec.isTextCheck) = true := hs
    exact Run.runCheck_watched hears check _ content c t
      (fun site content => text site.path content) (·.onText) (·.onText)
      (by simp only [Spec.watched, ht, if_true])
  | atEnd =>
    exact Run.runCheck_watched hears check _ () c t (fun _ _ => atEnd) (·.atEnd) (·.atEnd) rfl

/-- The deliveries of a call: to every check that it reaches, in the order of the checks. -/
def toAll (checks : List (Check ν × α)) (call : Call) : List (Delivery α) :=
  (checks.filter fun x => call.reaches x.1).map fun x => ⟨x.2, call⟩

/-- The deliveries of calls made in order. -/
def deliveries (checks : List (Check ν × α)) (calls : List Call) : List (Delivery α) :=
  calls.flatMap (toAll checks)

theorem toAll_cons (c : Check ν) (l : α) (checks : List (Check ν × α)) (call : Call) :
    toAll ((c, l) :: checks) call =
      (if call.reaches c then [⟨l, call⟩] else []) ++ toAll checks call := by
  unfold toAll
  rw [List.filter_cons]
  split <;> rfl

theorem toAll_congr {cs cs' : List (Check ν)} (h : cs.map Check.design = cs'.map Check.design)
    (ls : List α) (call : Call) : toAll (cs.zip ls) call = toAll (cs'.zip ls) call := by
  induction cs generalizing cs' ls with
  | nil => cases cs' with
    | nil => rfl
    | cons => simp at h
  | cons c cs ih => cases cs' with
    | nil => simp at h
    | cons c' cs' =>
      cases ls with
      | nil => simp
      | cons l ls =>
        simp only [List.map_cons, List.cons.injEq] at h
        rw [List.zip_cons_cons, List.zip_cons_cons, toAll_cons, toAll_cons, ih h.2,
          reaches_congr h.1]

theorem deliveries_congr {cs cs' : List (Check ν)}
    (h : cs.map Check.design = cs'.map Check.design) (ls : List α) (calls : List Call) :
    deliveries (cs.zip ls) calls = deliveries (cs'.zip ls) calls := by
  unfold deliveries
  rw [show toAll (cs.zip ls) = toAll (cs'.zip ls) from funext (toAll_congr h ls)]

end Call

namespace Delivery

/-- The error with which a run ends when the delivery fails. -/
def Ends (checks : List (Check ν × α)) (d : Delivery α) (cause : CheckError) (e : RunError) :
    Prop :=
  ∃ c, (c, d.check) ∈ checks ∧ e = d.call.error c.name cause

theorem Ends.mono {checks checks' : List (Check ν × α)} (h : checks ⊆ checks') {d : Delivery α}
    {cause : CheckError} {e : RunError} (he : d.Ends checks cause e) : d.Ends checks' cause e := by
  obtain ⟨c, hc, he⟩ := he
  exact ⟨c, h hc, he⟩

theorem Ends.congr {cs cs' : List (Check ν)} (h : cs.map Check.design = cs'.map Check.design)
    {ls : List α} {d : Delivery α} {cause : CheckError} {e : RunError}
    (he : d.Ends (cs.zip ls) cause e) : d.Ends (cs'.zip ls) cause e := by
  obtain ⟨c, hc, rfl⟩ := he
  obtain ⟨i, hi⟩ := List.getElem?_of_mem hc
  obtain ⟨hci, hli⟩ := List.getElem?_zip_eq_some.1 hi
  have hd : (cs'.map Check.design)[i]? = some c.design := by
    rw [← h, List.getElem?_map, hci]
    rfl
  rw [List.getElem?_map] at hd
  obtain ⟨c', hc', hd⟩ := Option.map_eq_some_iff.1 hd
  refine ⟨c', List.mem_of_getElem? (List.getElem?_zip_eq_some.2 ⟨hc', hli⟩), ?_⟩
  rw [Check.name_congr hd]

end Delivery

/-- The same checks under a watch, each known by its label. -/
def watchAll (hears : Bool) (checks : List (Check ν × α)) : List (Check (Watched ν α)) :=
  checks.map fun x => x.1.watched hears x.2

/-- `w` is the session `s` with all its checks under a watch. -/
structure Session.Watches (hears : Bool) (labels : List α) (s : Session ν)
    (w : Session (Watched ν α)) : Prop where
  length : s.checks.length = labels.length
  checks : w.checks = watchAll hears (s.checks.zip labels)
  tables : w.tables = s.tables
  notes : Watched.own w.notes = s.notes

namespace Run
open Attempt

/-- What the watch logs when a call is announced, and that it changes nothing else. -/
theorem announceTo_watched (hears : Bool) (call : Call) (cs : List (Check ν)) (labels : List α)
    (hl : cs.length = labels.length) (hs : ∀ c ∈ cs, call.seen hears c) (t : Tables)
    (notes : List (Watched ν α)) :
    let o := announceTo call cs t (Watched.own notes)
    let w := announceTo call (watchAll hears (cs.zip labels)) t notes
    o.1.Watches hears labels w.1 ∧ w.2 = o.2 ∧
      Logged (Delivery.Ends (cs.zip labels)) (call.toAll (cs.zip labels))
        (Watched.outcomes notes) (Watched.outcomes w.1.notes) o.2 := by
  induction cs generalizing labels t notes with
  | nil => exact ⟨⟨hl, by simp [announceTo, watchAll], rfl, rfl⟩, rfl, .nil _⟩
  | cons c cs ih =>
    obtain _ | ⟨l, ls⟩ := labels
    · simp at hl
    have hl' : cs.length = ls.length := by simpa using hl
    have hs' : ∀ c ∈ cs, call.seen hears c := fun c hc => hs c (List.mem_cons_of_mem _ hc)
    have hw : watchAll hears ((c :: cs).zip (l :: ls)) =
        c.watched hears l :: watchAll hears (cs.zip ls) := rfl
    have hreach : call.reaches (c.watched hears l) = call.reaches c := by cases call <;> rfl
    have weaken (d : Delivery α) (x : CheckError) (e : RunError) (h : d.Ends (cs.zip ls) x e) :
        d.Ends ((c, l) :: cs.zip ls) x e := h.mono (List.subset_cons_self _ _)
    rw [hw, List.zip_cons_cons, Call.toAll_cons]
    by_cases hr : call.reaches c
    · have hans := Call.answer_watched hears l c t hr (hs c (by simp))
      rcases ha : call.answer c t with ⟨c', t', new, _ | x⟩
      · rw [ha] at hans
        have next := ih ls hl' hs' t' (notes ++ (.inr (⟨l, call⟩, none) :: new.map .inl))
        rw [Watched.own_append, Watched.own_inr_cons, Watched.outcomes_append,
          Watched.outcomes_inr_cons] at next
        simp only [announceTo, hreach, hr, if_true, hans, ha]
        obtain ⟨hwatch, herr, hlog⟩ := next
        refine ⟨⟨?_, ?_, hwatch.tables, hwatch.notes⟩, herr, ?_⟩
        · simpa using hwatch.length
        · rw [hwatch.checks]
          rfl
        · exact (Logged.done _ _).append (hlog.mono weaken)
      · rw [ha] at hans
        simp only [announceTo, hreach, hr, if_true, hans, ha]
        refine ⟨⟨hl, rfl, rfl, by rw [Watched.own_append, Watched.own_inr_cons]⟩, rfl, ?_⟩
        rw [Watched.outcomes_append, Watched.outcomes_inr_cons]
        exact (Logged.failed _ ⟨c, by simp, rfl⟩).cut _
    · have next := ih ls hl' hs' t notes
      simp only [announceTo, hreach, hr, Bool.false_eq_true, if_false, List.nil_append]
      obtain ⟨hwatch, herr, hlog⟩ := next
      refine ⟨⟨?_, ?_, hwatch.tables, hwatch.notes⟩, herr, hlog.mono weaken⟩
      · simpa using hwatch.length
      · rw [hwatch.checks]
        rfl

theorem announce_watched (hears : Bool) (call : Call) (labels : List α) {s : Session ν}
    {w : Session (Watched ν α)} (h : s.Watches hears labels w)
    (hs : ∀ c ∈ s.checks, call.seen hears c) :
    (announce call s).1.Watches hears labels (announce call w).1 ∧
      (announce call w).2 = (announce call s).2 ∧
      Logged (Delivery.Ends (s.checks.zip labels)) (call.toAll (s.checks.zip labels))
        (Watched.outcomes w.notes) (Watched.outcomes (announce call w).1.notes)
        (announce call s).2 := by
  have hto := announceTo_watched hears call s.checks labels h.length hs s.tables w.notes
  rw [h.notes, ← h.checks, ← h.tables] at hto
  rw [announce, announce, ← h.tables]
  exact hto

theorem hear_watched (hears : Bool) (calls : List Call) (labels : List α) {s : Session ν}
    {w : Session (Watched ν α)} (h : s.Watches hears labels w)
    (hs : ∀ call ∈ calls, ∀ c ∈ s.checks, call.seen hears c) :
    (hear calls s).1.Watches hears labels (hear calls w).1 ∧
      (hear calls w).2 = (hear calls s).2 ∧
      Logged (Delivery.Ends (s.checks.zip labels)) (Call.deliveries (s.checks.zip labels) calls)
        (Watched.outcomes w.notes) (Watched.outcomes (hear calls w).1.notes)
        (hear calls s).2 := by
  induction calls generalizing s w with
  | nil => exact ⟨h, rfl, .nil _⟩
  | cons call calls ih =>
    have hd := announce_design call s
    have hdue : Call.deliveries (s.checks.zip labels) (call :: calls) =
        call.toAll (s.checks.zip labels) ++ Call.deliveries (s.checks.zip labels) calls := rfl
    obtain ⟨hwatch, herr, hlog⟩ := announce_watched hears call labels h (hs call (by simp))
    rcases hr : announce call s with ⟨s', _ | e⟩
    · rcases hr' : announce call w with ⟨w', e'⟩
      rw [hr] at hd hwatch herr hlog
      rw [hr'] at hwatch herr hlog
      obtain rfl : e' = none := herr
      have hseen : ∀ call ∈ calls, ∀ c ∈ s'.checks, call.seen hears c := fun call' hcall =>
        Call.seen_of_design hd (hs call' (List.mem_cons_of_mem _ hcall))
      obtain ⟨hwatch', herr', hlog'⟩ := ih hwatch hseen
      rw [hear_cons, hear_cons, andThen_of_none _ hr, andThen_of_none _ hr', hdue]
      refine ⟨hwatch', herr', Logged.append hlog ?_⟩
      rw [← Call.deliveries_congr hd labels]
      exact hlog'.mono fun d x e => Delivery.Ends.congr hd
    · rcases hr' : announce call w with ⟨w', e'⟩
      rw [hr] at hwatch herr hlog
      rw [hr'] at hwatch herr hlog
      obtain rfl : e' = some e := herr
      rw [hear_cons, hear_cons, andThen_of_some _ hr, andThen_of_some _ hr', hdue]
      exact ⟨hwatch, rfl, hlog.cut _⟩

end Run
end RailsReview
