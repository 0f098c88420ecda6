import Mathlib.Data.List.Nodup
import Mathlib.Logic.Function.Iterate
import RailsReview.Proofs.Hierarchy
import RailsReview.Proofs.Recording

/-!
# The search for subclasses

The classes below a name are found round by round. Each round looks up one of the names that wait,
and the names of the classes it finds wait as well. No class is found twice, so every class that is
found costs one round, however the classes are related, and one more round looks up the name itself.
-/
namespace RailsReview.ClassTable
variable {t : ClassTable} {name : String} {c : ClassRecord}

/-- The table of these definitions, in this order. -/
def ofClasses (definitions : List ClassRecord) : ClassTable := definitions.foldl add {}

theorem nodup_add (h : (t.classes.map (·.qualifiedName)).Nodup) (c : ClassRecord) :
    ((t.add c).classes.map (·.qualifiedName)).Nodup := by
  unfold add
  split
  · exact h
  · rename_i hnew
    rw [List.map_append, List.map_singleton, ← List.concat_eq_append]
    refine List.Nodup.concat (fun hmem => hnew ?_) h
    obtain ⟨d, hd, hname⟩ := List.mem_map.1 hmem
    exact declares_iff.2 ⟨d, hd, hname⟩

/-- No two classes have the same qualified name. -/
theorem nodup_ofClasses (definitions : List ClassRecord) :
    ((ofClasses definitions).classes.map (·.qualifiedName)).Nodup :=
  List.foldlRecOn (motive := fun t => (t.classes.map (·.qualifiedName)).Nodup) definitions add
    List.nodup_nil fun _ h c _ => nodup_add h c

/-- A way from a class up to a name: the superclass of each class on it is the next one, and that of
the last one is the name. -/
structure WayUp (t : ClassTable) (name : String) (c : ClassRecord) (way : List ClassRecord) :
    Prop where
  start : way.head? = some c
  declared : ∀ d ∈ way, d ∈ t.classes
  steps : way.IsChain fun d above => t.superclass d = above.qualifiedName
  goal : way.getLast?.map t.superclass = some name

theorem Below.exists_wayUp (h : t.Below name c) : ∃ way, t.WayUp name c way := by
  induction h with
  | @direct c hc hsuper =>
    exact ⟨[c], rfl, List.forall_mem_singleton.2 hc, List.IsChain.singleton c, congrArg some hsuper⟩
  | @further c above hc hsuper _ ih =>
    obtain ⟨way, hstart, hdeclared, hsteps, hgoal⟩ := ih
    cases way with
    | nil => cases hstart
    | cons d way =>
      obtain rfl : d = above := Option.some.inj hstart
      exact ⟨c :: d :: way, rfl, List.forall_mem_cons.2 ⟨hc, hdeclared⟩,
        List.isChain_cons_cons.2 ⟨hsuper, hsteps⟩, hgoal⟩

theorem WayUp.below {way : List ClassRecord} (h : t.WayUp name c way) : t.Below name c := by
  induction way generalizing c with
  | nil => cases h.start
  | cons d way ih =>
    obtain rfl : d = c := Option.some.inj h.start
    obtain ⟨hd, hdeclared⟩ := List.forall_mem_cons.1 h.declared
    cases way with
    | nil => exact .direct hd (Option.some.inj h.goal)
    | cons above way =>
      obtain ⟨hsuper, hsteps⟩ := List.isChain_cons_cons.1 h.steps
      exact .further hd hsuper (ih ⟨rfl, hdeclared, hsteps, h.goal⟩)

theorem below_iff_exists_wayUp : t.Below name c ↔ ∃ way, t.WayUp name c way :=
  ⟨Below.exists_wayUp, fun ⟨_, h⟩ => h.below⟩

/-- Nothing is found more often than it is there. -/
theorem descend_subperm (rest : List ClassRecord) (pending : List String) :
    (t.descend rest pending).Subperm rest := by
  induction rest, pending using descend.induct t with
  | case1 rest =>
    rw [descend]
    exact List.nil_subperm
  | case2 rest parent pending direct ih =>
    rw [descend]
    have hsplit : (t.directBelow parent rest ++ t.notDirectBelow parent rest).Perm rest :=
      List.filter_append_perm _ rest
    exact ((List.subperm_append_left _).2 ih).trans hsplit.subperm

/-- A search under way: the classes that were found and the names that wait, the next one first. -/
structure Search where
  found : List ClassRecord
  waiting : List String

namespace Search

/-- Looks at one class for the subclasses of a name. -/
def visit (t : ClassTable) (parent : String) (s : Search) (c : ClassRecord) : Search :=
  if t.superclass c = parent ∧ c ∉ s.found then ⟨s.found ++ [c], c.qualifiedName :: s.waiting⟩
  else s

/-- Looks the next name up among all classes. A search in which no name waits is over. -/
def round (t : ClassTable) (s : Search) : Search :=
  match s.waiting with
  | [] => s
  | parent :: waiting => t.classes.foldl (visit t parent) ⟨s.found, waiting⟩

/-- The classes that were not found. -/
def missing (t : ClassTable) (s : Search) : List ClassRecord :=
  t.classes.filter fun c => decide (c ∉ s.found)

/-- Finds these classes. -/
def take (s : Search) (new : List ClassRecord) : Search :=
  ⟨s.found ++ new, (new.map (·.qualifiedName)).reverse ++ s.waiting⟩

theorem take_take (s : Search) (new more : List ClassRecord) :
    (s.take new).take more = s.take (new ++ more) := by
  simp [take]

theorem directBelow_filter (t : ClassTable) (parent : String) (p : ClassRecord → Bool)
    (cs : List ClassRecord) :
    t.directBelow parent (cs.filter p) = cs.filter fun c => t.superclass c == parent && p c :=
  List.filter_filter

/-- Looking through all classes finds the direct subclasses among those that were missing. -/
theorem foldl_visit (t : ClassTable) (parent : String) {cs : List ClassRecord} (hcs : cs.Nodup)
    (s : Search) : cs.foldl (visit t parent) s =
      s.take (t.directBelow parent (cs.filter fun c => decide (c ∉ s.found))) := by
  induction cs generalizing s with
  | nil => simp [take, directBelow]
  | cons c cs ih =>
    obtain ⟨hc, hcs⟩ := List.nodup_cons.1 hcs
    rw [List.foldl_cons, ih hcs, directBelow_filter, directBelow_filter]
    by_cases hnew : t.superclass c = parent ∧ c ∉ s.found
    · have hvisit : visit t parent s c = s.take [c] := if_pos hnew
      have hrest : ∀ d ∈ cs, (t.superclass d == parent && decide (d ∉ s.found ++ [c])) =
          (t.superclass d == parent && decide (d ∉ s.found)) := by
        intro d hd
        have hne : d ≠ c := ne_of_mem_of_not_mem hd hc
        simp [hne]
      rw [hvisit, take_take, List.filter_cons_of_pos (by simpa using hnew)]
      exact congrArg (fun more => s.take (c :: more)) (List.filter_congr hrest)
    · have hvisit : visit t parent s c = s := if_neg hnew
      rw [hvisit, List.filter_cons_of_neg (by simpa using hnew)]

theorem round_eq (hnodup : t.classes.Nodup) (found : List ClassRecord) (parent : String)
    (waiting : List String) :
    let s : Search := ⟨found, waiting⟩
    round t ⟨found, parent :: waiting⟩ = s.take (t.directBelow parent (s.missing t)) :=
  foldl_visit t parent hnodup ⟨found, waiting⟩

/-- After a round the other classes are missing. -/
theorem missing_take (s : Search) (parent : String) :
    (s.take (t.directBelow parent (s.missing t))).missing t =
      t.notDirectBelow parent (s.missing t) := by
  simp only [missing, take, notDirectBelow, directBelow, List.filter_filter]
  refine List.filter_congr fun c hc => ?_
  by_cases hfound : c ∈ s.found <;> by_cases hsuper : t.superclass c = parent <;>
    simp [hc, hfound, hsuper]

/-- A search is over after one round for each name that waits and each class that is still to be
found. -/
theorem iterate_round (hnodup : t.classes.Nodup) (rest : List ClassRecord)
    (waiting : List String) : ∀ found, missing t ⟨found, waiting⟩ = rest →
      (round t)^[(t.descend rest waiting).length + waiting.length] ⟨found, waiting⟩ =
        ⟨found ++ t.descend rest waiting, []⟩ := by
  induction rest, waiting using descend.induct t with
  | case1 rest =>
    intro found _
    rw [descend, List.append_nil]
    rfl
  | case2 rest parent waiting direct ih =>
    intro found hrest
    have hround : round t ⟨found, parent :: waiting⟩ = take ⟨found, waiting⟩ direct := by
      rw [round_eq hnodup]
      exact congrArg (fun cs => take ⟨found, waiting⟩ (t.directBelow parent cs)) hrest
    have hmissing : (take ⟨found, waiting⟩ direct).missing t = t.notDirectBelow parent rest := by
      have hleft := missing_take (t := t) ⟨found, waiting⟩ parent
      rwa [show missing t ⟨found, waiting⟩ = rest from hrest] at hleft
    have hstop := ih (found ++ direct) hmissing
    rw [descend]
    have hrounds (below : List ClassRecord) :
        (direct ++ below).length + (parent :: waiting).length =
          below.length + ((direct.map (·.qualifiedName)).reverse ++ waiting).length + 1 := by
      simp only [List.length_append, List.length_reverse, List.length_map, List.length_cons]
      omega
    rw [hrounds, Function.iterate_succ_apply, hround]
    exact hstop.trans (by rw [List.append_assoc])

end Search

/-- In a table that was built class by class, qualified names are different. The search for the
classes below a name finds exactly those from which a way leads up to it, each of them once. It is
over after one more round than it finds classes, and these are never more than there are. -/
theorem subclasses_closure (definitions : List ClassRecord) (name : String) :
    let t := ofClasses definitions
    (t.classes.map (·.qualifiedName)).Nodup ∧
    ((t.subclasses name).map (·.qualifiedName)).Nodup ∧
    (∀ c, c ∈ t.subclasses name ↔ ∃ way, t.WayUp name c way) ∧
    (Search.round t)^[(t.subclasses name).length + 1] ⟨[], [name]⟩ = ⟨t.subclasses name, []⟩ ∧
    (t.subclasses name).length ≤ t.classes.length := by
  intro t
  have hnames : (t.classes.map (·.qualifiedName)).Nodup := nodup_ofClasses definitions
  have hsub : (t.subclasses name).Subperm t.classes := descend_subperm t.classes [name]
  refine ⟨hnames, ?_, fun c => mem_subclasses_iff.trans below_iff_exists_wayUp, ?_,
    hsub.length_le⟩
  · obtain ⟨found, hperm, hsublist⟩ := hsub
    exact ((hperm.map _).nodup_iff).1 (hnames.sublist (hsublist.map _))
  · refine Search.iterate_round (List.Nodup.of_map _ hnames) t.classes [name] [] ?_
    exact List.filter_eq_self.2 fun c _ => by simp

/-- In a circle of two classes each is below the other and below itself. -/
example :
    let t := ofClasses [⟨"A", "B", []⟩, ⟨"B", "A", []⟩]
    (((Search.round t)^[3] ⟨[], ["A"]⟩).found.map (·.qualifiedName)) = ["B", "A"] := by
  decide +kernel

end RailsReview.ClassTable
