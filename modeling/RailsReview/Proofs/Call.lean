import RailsReview.Check.Bench
import RailsReview.Proofs.Attempt
import RailsReview.Proofs.KindIndex

/-!
# Calls

What happens in a run is that calls go out: a node is entered or left, a text is read, the run
ends. Every call goes to all checks that it reaches, in the order of the checks. Here runs are
brought into this form, in which neither the places of the checks nor their index by kinds nor a
stored list of active checks appear.
-/
namespace RailsReview

inductive Call where
  | node (phase : Phase) (file : Path) (n : Node)
  | text (file : Path) (content : String)
  | atEnd

namespace Check
variable {ν : Type}

/-- What a check is, whatever happened to it in a run. -/
def design (c : Check ν) : (σ : Type) × Spec ν σ := ⟨c.State, c.spec⟩

theorem eq_of_design_eq {c c' : Check ν} (h : c.design = c'.design) :
    ∃ s ds, c' = ⟨c.spec, s, ds⟩ := by
  obtain ⟨spec, s, ds⟩ := c
  obtain ⟨spec', s', ds'⟩ := c'
  cases h
  exact ⟨s', ds', rfl⟩

/-- What a check is decides what holds of the checks of a list. -/
theorem forall_of_design {P : Check ν → Prop} (hP : ∀ {c c' : Check ν}, c.design = c'.design →
    P c → P c') {cs cs' : List (Check ν)} (h : cs'.map design = cs.map design)
    (hcs : ∀ c ∈ cs, P c) : ∀ c ∈ cs', P c := by
  intro c' hc'
  have hmem : c'.design ∈ cs.map design := h ▸ List.mem_map_of_mem hc'
  obtain ⟨c, hc, hsame⟩ := List.mem_map.1 hmem
  exact hP hsame (hcs c hc)

theorem name_congr {c c' : Check ν} (h : c.design = c'.design) : c.name = c'.name := by
  obtain ⟨s, ds, rfl⟩ := Check.eq_of_design_eq h
  rfl

end Check

/-- The file of a node, given that of its parent. -/
def Node.fileBelow (parent : Path) (n : Node) : Path := (n.file?.filter (· != parent)).getD parent

namespace Call
variable {ν : Type}

/-- Whether a check is interested in the call. -/
def reaches (c : Check ν) : Call → Bool
  | node _ file n => c.kinds.contains n.kind && c.accepts file
  | text file _ => c.accepts file
  | atEnd => true

theorem reaches_node {c : Check ν} {phase : Phase} {file : Path} {n : Node} :
    (node phase file n).reaches c ↔ n.kind ∈ c.spec.kinds ∧ c.spec.accepts file := by
  simp [reaches, Check.kinds, Check.accepts]

/-- What a check does at a call. -/
def answer (c : Check ν) (t : Tables) : Call → Check ν × Tables × List ν × Option CheckError
  | node phase file n => Run.runCheck ⟨some file, n.line?⟩ n (·.handlers phase n.kind) c t
  | text file content => Run.runCheck ⟨some file, none⟩ content (·.onText) c t
  | atEnd => Run.runCheck ⟨none, none⟩ () (·.atEnd) c t

/-- The error that ends the run when a check fails at a call. -/
def error (check : String) (cause : CheckError) : Call → RunError
  | node _ file n => .atNode file (n.line?.getD 0) check cause
  | text file _ => .atNode file 0 check cause
  | atEnd => .atEnd check cause

/-- The call to the check at a place. -/
def toPlace (place : Nat) : Call → Run ν
  | node phase file n => Run.deliver phase file n place
  | text file content => Run.step ⟨some file, none⟩ content (·.onText) (.atNode file 0) place
  | atEnd => Run.step ⟨none, none⟩ () (·.atEnd) .atEnd place

/-- The places of the checks that are reached. -/
def places (call : Call) (checks : List (Check ν)) : List Nat :=
  (List.range checks.length).filter fun i => (checks[i]?).any (call.reaches ·)

mutual

/-- The calls of a tree whose parent has the file `parent`: a node is entered, its children follow
from left to right, and it is left. -/
def below (parent : Path) : Node → List Call
  | .mk k slots p own =>
    let n := Node.mk k slots p own
    let file := n.fileBelow parent
    node .enter file n :: (belowSlots file slots ++ [node .exit file n])

def belowSlots (file : Path) : List Slot → List Call
  | [] => []
  | .node n :: rest => below file n ++ belowSlots file rest
  | _ :: rest => belowSlots file rest

end

/-- The calls of a tree that comes from the file `path`. -/
def ofTree (path : Path) (root : Node) : List Call := below (root.file?.getD path) root

theorem answer_design (c : Check ν) (t : Tables) (call : Call) :
    (call.answer c t).1.design = c.design := by
  cases call <;> rfl

theorem reaches_congr {c c' : Check ν} (h : c.design = c'.design) (call : Call) :
    call.reaches c = call.reaches c' := by
  obtain ⟨s, ds, rfl⟩ := Check.eq_of_design_eq h
  cases call <;> rfl

/-- Whom a call reaches depends on the designs of the checks only. -/
theorem places_congr {cs cs' : List (Check ν)}
    (h : cs.map Check.design = cs'.map Check.design) (call : Call) :
    call.places cs = call.places cs' := by
  have hl : cs.length = cs'.length := by simpa using congrArg List.length h
  unfold places
  rw [hl]
  apply List.filter_congr
  intro i _
  have hi : (cs[i]?).map Check.design = (cs'[i]?).map Check.design := by
    rw [← List.getElem?_map, ← List.getElem?_map, h]
  cases hc : cs[i]? with
  | none => cases hc' : cs'[i]? with
    | none => rfl
    | some c' => simp [hc, hc'] at hi
  | some c => cases hc' : cs'[i]? with
    | none => simp [hc, hc'] at hi
    | some c' =>
      simp only [hc, hc', Option.map_some, Option.some.injEq] at hi
      exact reaches_congr hi call

end Call

namespace Run
variable {ν : Type}

/-- Puts a call to the checks of a list, one after the other up to the first failure. -/
def announceTo (call : Call) : List (Check ν) → Tables → List ν → Session ν × Option RunError
  | [], t, notes => (⟨[], t, notes⟩, none)
  | c :: rest, t, notes =>
    if call.reaches c then
      match call.answer c t with
      | (c', t', new, some e) => (⟨c' :: rest, t', notes ++ new⟩, some (call.error c.name e))
      | (c', t', new, none) =>
        let (s, e) := announceTo call rest t' (notes ++ new)
        ({ s with checks := c' :: s.checks }, e)
    else
      let (s, e) := announceTo call rest t notes
      ({ s with checks := c :: s.checks }, e)

/-- Puts a call to all checks that it reaches. -/
def announce (call : Call) : Run ν := fun s => announceTo call s.checks s.tables s.notes

/-- Puts calls to the checks in order. -/
def hear (calls : List Call) : Run ν := .all (calls.map announce)

theorem toPlace_of_some {s : Session ν} {place : Nat} {c : Check ν} (h : s.checks[place]? = some c)
    (call : Call) :
    call.toPlace place s =
      ((⟨s.checks.set place (call.answer c s.tables).1, (call.answer c s.tables).2.1,
        s.notes ++ (call.answer c s.tables).2.2.1⟩ : Session ν),
        (call.answer c s.tables).2.2.2.map (call.error c.name)) := by
  cases call <;> simp only [Call.toPlace, deliver, step, h] <;> rfl

theorem announceTo_append_left (call : Call) (pre rest : List (Check ν)) (t : Tables)
    (notes : List ν) :
    Attempt.all (((rest.zipIdx pre.length).filter fun x => call.reaches x.1).map fun x =>
        call.toPlace x.2) ⟨pre ++ rest, t, notes⟩ =
      (⟨pre ++ (announceTo call rest t notes).1.checks, (announceTo call rest t notes).1.tables,
        (announceTo call rest t notes).1.notes⟩, (announceTo call rest t notes).2) := by
  induction rest generalizing pre t notes with
  | nil => rfl
  | cons c rest ih =>
    have hc : (pre ++ c :: rest)[pre.length]? = some c := by simp
    -- A check that was called joins the front part, whose length is the place of the next one.
    have next (c' : Check ν) (t' : Tables) (notes' : List ν) := ih (pre ++ [c']) t' notes'
    simp only [List.length_append, List.length_singleton, List.append_assoc,
      List.singleton_append] at next
    rw [List.zipIdx_cons]
    by_cases hr : call.reaches c
    · have hstep := toPlace_of_some (s := ⟨pre ++ c :: rest, t, notes⟩) hc call
      rcases ha : call.answer c t with ⟨c', t', new, _ | e⟩
      · simp only [ha, List.set_append_right _ _ (Nat.le_refl _), Nat.sub_self, List.set_cons_zero,
          Option.map_none] at hstep
        simp only [List.filter_cons, hr, if_true, List.map_cons, Attempt.all, announceTo, ha]
        rw [Attempt.andThen_of_none _ hstep, next]
      · simp only [ha, List.set_append_right _ _ (Nat.le_refl _), Nat.sub_self, List.set_cons_zero,
          Option.map_some] at hstep
        simp only [List.filter_cons, hr, if_true, List.map_cons, Attempt.all, announceTo, ha]
        rw [Attempt.andThen_of_some _ hstep]
    · simp only [List.filter_cons, hr, Bool.false_eq_true, if_false, announceTo]
      exact next c t notes

theorem places_eq (call : Call) (checks : List (Check ν)) :
    call.places checks = (checks.zipIdx.filter fun x => call.reaches x.1).map (·.2) := by
  have hrange : List.range checks.length = checks.zipIdx.map (·.2) := by
    rw [List.zipIdx_map_snd, List.range_eq_range']
  unfold Call.places
  rw [hrange, List.filter_map]
  congr 1
  apply List.filter_congr
  intro x hx
  have hplace := List.mem_zipIdx_iff_getElem?.1 hx
  simp [hplace]

/-- Calling the checks that are reached by their places is announcing the call. -/
theorem all_places (call : Call) (s : Session ν) :
    Attempt.all ((call.places s.checks).map call.toPlace) s = announce call s := by
  have h := announceTo_append_left call [] s.checks s.tables s.notes
  rw [places_eq, List.map_map]
  exact h

theorem text_eq (path : Path) (content : String) :
    text path content = announce (ν := ν) (.text path content) := by
  funext s
  exact all_places (.text path content) s

theorem finish_eq : finish = announce (ν := ν) .atEnd := by
  funext s
  rw [← all_places]
  have hp : Call.atEnd.places s.checks = List.range s.checks.length := by
    apply List.filter_eq_self.2
    intro i hi
    simp [List.getElem?_eq_getElem (List.mem_range.1 hi), Call.reaches]
  rw [hp]
  rfl

theorem announceTo_design (call : Call) (cs : List (Check ν)) (t : Tables) (notes : List ν) :
    (announceTo call cs t notes).1.checks.map Check.design = cs.map Check.design := by
  induction cs generalizing t notes with
  | nil => rfl
  | cons c cs ih =>
    by_cases hr : call.reaches c
    · have hd := Call.answer_design c t call
      rcases ha : call.answer c t with ⟨c', t', new, _ | e⟩
      · simp only [ha] at hd
        simp only [announceTo, hr, if_true, ha, List.map_cons, hd, ih]
      · simp only [ha] at hd
        simp only [announceTo, hr, if_true, ha, List.map_cons, hd]
    · simp only [announceTo, hr, Bool.false_eq_true, if_false, List.map_cons, ih]

/-- No call changes what a check is. -/
theorem announce_design (call : Call) (s : Session ν) :
    (announce call s).1.checks.map Check.design = s.checks.map Check.design :=
  announceTo_design call s.checks s.tables s.notes

theorem hear_cons (call : Call) (calls : List Call) :
    hear (call :: calls) = (announce call).andThen (hear (ν := ν) calls) := rfl

theorem hear_append (calls calls' : List Call) :
    hear (calls ++ calls') = (hear calls).andThen (hear (ν := ν) calls') := by
  unfold hear
  rw [List.map_append, Attempt.all_append]

theorem hear_singleton (call : Call) : hear [call] = announce (ν := ν) call :=
  Attempt.all_singleton _

theorem hear_design (calls : List Call) (s : Session ν) :
    (hear calls s).1.checks.map Check.design = s.checks.map Check.design := by
  induction calls generalizing s with
  | nil => rfl
  | cons call calls ih =>
    have hd := announce_design call s
    rw [hear_cons]
    rcases h : announce call s with ⟨s', _ | e⟩
    · rw [h] at hd
      rw [Attempt.andThen_of_none _ h, ih]
      exact hd
    · rw [h] at hd
      rw [Attempt.andThen_of_some _ h]
      exact hd

/-- The active checks that are filed under a kind are those that a call reaches. -/
theorem interested_eq (checks : List (Check ν)) (phase : Phase) (file : Path) (n : Node) :
    ((KindIndex.ofChecks checks).places n.kind).filter (fun i =>
        (activity checks file).getD i false) = (Call.node phase file n).places checks := by
  rw [KindIndex.places_ofChecks, places_eq, List.filter_map, List.filter_filter]
  congr 1
  apply List.filter_congr
  intro x hx
  have hplace := List.mem_zipIdx_iff_getElem?.1 hx
  simp [activity, List.getD_eq_getElem?_getD, hplace, Call.reaches, Bool.and_comm]

/-- Delivering a node to the places found at the start announces it, as long as the checks are what
they were. -/
theorem all_deliver (checks : List (Check ν)) (phase : Phase) (file : Path) (n : Node)
    (s : Session ν) (hs : s.checks.map Check.design = checks.map Check.design) :
    Attempt.all ((((KindIndex.ofChecks checks).places n.kind).filter fun i =>
        (activity checks file).getD i false).map (deliver phase file n)) s =
      announce (.node phase file n) s := by
  rw [interested_eq checks phase, ← Call.places_congr hs]
  exact all_places (.node phase file n) s

/-- The stored activity is never out of date. -/
theorem visit_mk (checks : List (Check ν)) (index : KindIndex) (parent : Path) (k : Kind)
    (slots : List Slot) (p : Option Position) (own : Option Path) :
    let n := Node.mk k slots p own
    let file := n.fileBelow parent
    let interested := (index.places k).filter fun i => (activity checks file).getD i false
    visit checks index parent (activity checks parent) n =
      (Attempt.all (interested.map (deliver .enter file n))).andThen
        ((visitSlots checks index file (activity checks file) slots).andThen
          (Attempt.all (interested.map (deliver .exit file n)))) := by
  simp only [visit, Node.fileBelow, Node.file?]
  cases own.filter (· != parent) <;> rfl

mutual

/-- Visiting a node makes the calls of its tree. -/
theorem visit_eq (checks : List (Check ν)) (parent : Path) :
    ∀ (n : Node) (s : Session ν), s.checks.map Check.design = checks.map Check.design →
      visit checks (.ofChecks checks) parent (activity checks parent) n s =
        hear (Call.below parent n) s
  | .mk k slots p own, s, hs => by
    rw [visit_mk, Call.below, hear_cons, hear_append, hear_singleton]
    refine Attempt.andThen_congr (all_deliver checks .enter _ (.mk k slots p own)) ?_
      (fun s hs => (announce_design _ s).trans hs) s hs
    exact Attempt.andThen_congr (visitSlots_eq checks _ slots)
      (all_deliver checks .exit _ (.mk k slots p own)) (fun s hs => (hear_design _ s).trans hs)

theorem visitSlots_eq (checks : List (Check ν)) (file : Path) :
    ∀ (slots : List Slot) (s : Session ν),
      s.checks.map Check.design = checks.map Check.design →
        visitSlots checks (.ofChecks checks) file (activity checks file) slots s =
          hear (Call.belowSlots file slots) s
  | [], _, _ => rfl
  | .node n :: rest, s, hs => by
    simp only [visitSlots, Call.belowSlots]
    rw [hear_append]
    exact Attempt.andThen_congr (visit_eq checks file n) (visitSlots_eq checks file rest)
      (fun s hs => (hear_design _ s).trans hs) s hs
  | .literal _ :: rest, s, hs => visitSlots_eq checks file rest s hs
  | .absent :: rest, s, hs => visitSlots_eq checks file rest s hs

end

/-- The index of the checks at the start serves for every tree, whatever they have done since. -/
theorem dispatch_eq (root : Node) (path : Path) (checks : List (Check ν)) (s : Session ν)
    (hs : s.checks.map Check.design = checks.map Check.design) :
    dispatch (.ofChecks checks) root path s = hear (Call.ofTree path root) s := by
  have hkinds : checks.map (·.kinds) = s.checks.map (·.kinds) := by
    have hdesign := congrArg (List.map fun d : (σ : Type) × Spec ν σ => d.2.kinds) hs
    rw [List.map_map, List.map_map] at hdesign
    exact hdesign.symm
  rw [dispatch, KindIndex.ofChecks_congr hkinds]
  exact visit_eq s.checks _ root s rfl

theorem tree_eq (root : Node) (path : Path) :
    tree root path = hear (ν := ν) (Call.ofTree path root) := by
  funext s
  exact dispatch_eq root path s.checks s rfl

end Run
end RailsReview
