import Mathlib.Data.List.Induction
import RailsReview.Proofs.MethodFamily
import RailsReview.Proofs.UsedMethods

/-!
# The table of methods

A table of methods is changed in seven ways. One of them adds a method, one notes a name, and the
others mark or publish methods that are there. So whatever was done, every method is in the table
once, where it was first defined, no use of it is forgotten, and it is published at most.
-/
namespace RailsReview

/-- What is learned about a method does not concern where it is defined. -/
theorem MethodRecord.Learned.definition {publishing : Bool} {m m' : MethodRecord}
    (h : m.Learned publishing m') : m'.className = m.className ∧ m'.name = m.name ∧
      m'.file = m.file ∧ m'.line = m.line :=
  ⟨congrArg (·.className) h.same, congrArg (·.name) h.same, congrArg (·.file) h.same,
    congrArg (·.line) h.same⟩

namespace MethodTable

/-- The ways to change the methods that are in a table. -/
inductive Change where
  | markUsed (className name : String)
  | markInAncestor (classes : ClassTable) (className name : String)
  | markInSubclasses (classes : ClassTable) (className name : String)
  | publicize (className name : String)
  | markPublic (className name : String)

def Change.apply (t : MethodTable) : Change → MethodTable
  | markUsed className name => t.markUsed className name
  | markInAncestor classes className name => t.markInAncestor classes className name
  | markInSubclasses classes className name => t.markInSubclasses classes className name
  | publicize className name => t.publicize className name
  | markPublic className name => t.markPublic className name

/-- The ways to change a table. -/
inductive Step where
  | add (className name : String) (file : Path) (line : Nat) (access : Access)
  | change (x : Change)
  | noteCall (name : String)

def Step.apply (t : MethodTable) : Step → MethodTable
  | add className name file line access => t.add className name file line access
  | change x => x.apply t
  | noteCall name => t.noteCall name

/-- The table after these steps. -/
def run (steps : List Step) : MethodTable := steps.foldl Step.apply {}

theorem run_append (steps more : List Step) :
    run (steps ++ more) = more.foldl Step.apply (run steps) :=
  List.foldl_append

theorem run_concat (steps : List Step) (s : Step) : run (steps ++ [s]) = s.apply (run steps) :=
  run_append steps [s]

/-- Where a method is defined by a step. -/
def Step.place? (className name : String) : Step → Option (Path × Nat)
  | add c n file line _ => if c = className ∧ n = name then some (file, line) else none
  | _ => none

/-- Where a method was first defined. -/
def firstPlace? (steps : List Step) (className name : String) : Option (Path × Nat) :=
  steps.findSome? (·.place? className name)

/-- The class and the name of a method. -/
def pair (m : MethodRecord) : String × String := (m.className, m.name)

/-- A way to change records that forgets no use and hides no method. -/
def Forgetless (f : String → MethodRecord → MethodRecord) : Prop :=
  ∀ c (m : MethodRecord), m.Learned true (f c m)

theorem exists_mapRecords_update (t : MethodTable) (className name : String)
    {f : MethodRecord → MethodRecord} (hf : ∀ m : MethodRecord, m.Learned true (f m)) :
    ∃ g, Forgetless g ∧ t.update className name f = t.mapRecords g := by
  refine ⟨_, fun c m => ?_, t.update_eq className name f⟩
  split
  · exact hf m
  · exact .refl m

/-- A change goes through the methods one by one. -/
theorem Change.exists_mapRecords (x : Change) (t : MethodTable) :
    ∃ g, Forgetless g ∧ x.apply t = t.mapRecords g := by
  have used (m : MethodRecord) : m.Learned true { m with used := true } :=
    ⟨rfl, fun _ => rfl, .inl rfl⟩
  cases x with
  | markUsed className name => exact exists_mapRecords_update t className name used
  | markInAncestor classes className name =>
    simp only [apply, MethodTable.markInAncestor]
    split
    · exact exists_mapRecords_update t _ name used
    · exact ⟨_, fun _ m => .refl m, t.mapRecords_id.symm⟩
  | markInSubclasses classes className name =>
    have hall : apply t (.markInSubclasses classes className name) =
        ((classes.subclasses className).map (·.qualifiedName)).foldl
          (fun t c => t.markUsed c name) t := by
      rw [List.foldl_map]
      rfl
    refine ⟨_, fun c m => ?_, hall.trans (foldl_markUsed _ t name)⟩
    split
    · exact used m
    · exact .refl m
  | publicize className name =>
    exact exists_mapRecords_update t className name fun m => ⟨rfl, id, .inr ⟨rfl, rfl⟩⟩
  | markPublic className name =>
    refine exists_mapRecords_update t className name fun m => ⟨rfl, fun hm => ?_, .inl rfl⟩
    simp [hm]

theorem mem_all_mapRecords {t : MethodTable} {f : String → MethodRecord → MethodRecord}
    {m : MethodRecord} :
    m ∈ (t.mapRecords f).all ↔ ∃ e ∈ t.methods.entries, ∃ m' ∈ e.2, f e.1 m' = m := by
  rw [mem_all]
  simp only [mapRecords, List.mem_map, exists_exists_and_eq_and]

theorem mem_declare {new m : MethodRecord} {ms : Option (List MethodRecord)} :
    m ∈ declare new ms ↔
      m ∈ ms.getD [] ∨ m = new ∧ ∀ m' ∈ ms.getD [], m'.name ≠ new.name := by
  unfold declare
  dsimp only
  split
  · rename_i hthere
    obtain ⟨m', hm', hname⟩ := List.any_eq_true.1 hthere
    have hnew : ¬∀ m' ∈ ms.getD [], m'.name ≠ new.name :=
      fun hnone => hnone m' hm' (eq_of_beq hname)
    simp only [hnew, and_false, or_false]
  · rename_i hnew
    have hnone : ∀ m' ∈ ms.getD [], m'.name ≠ new.name := by simpa using hnew
    rw [List.mem_append, List.mem_singleton, and_iff_left hnone]

theorem nodup_declare {new : MethodRecord} (ms : Option (List MethodRecord))
    (h : ((ms.getD []).map (·.name)).Nodup) : ((declare new ms).map (·.name)).Nodup := by
  unfold declare
  dsimp only
  split
  · exact h
  · rename_i hnew
    have hnone : new.name ∉ (ms.getD []).map (·.name) := by simpa using hnew
    rw [List.map_append, List.map_singleton, ← List.concat_eq_append]
    exact h.concat hnone

theorem ofClass_eq (t : MethodTable) (className : String) :
    t.ofClass className none = (t.methods.entries.lookup className).getD [] :=
  List.filter_eq_self.2 fun _ _ => rfl

theorem Keyed.mem_ofClass_iff {t : MethodTable} (h : t.Keyed) {className : String}
    {m : MethodRecord} : m ∈ t.ofClass className none ↔ m ∈ t.all ∧ m.className = className := by
  constructor
  · intro hm
    rw [ofClass_eq] at hm
    cases hlookup : t.methods.entries.lookup className with
    | none =>
      rw [hlookup] at hm
      cases hm
    | some ms =>
      rw [hlookup] at hm
      obtain ⟨front, back, hentries, -⟩ := List.lookup_eq_some_iff.1 hlookup
      have hmem : (className, ms) ∈ t.methods.entries := by simp [hentries]
      exact ⟨mem_all.2 ⟨_, hmem, hm⟩, (h.records _ hmem m hm).1⟩
  · rintro ⟨hm, rfl⟩
    exact h.mem_ofClass hm

/-- What is kept of the methods: every class is there once and has a name and a method, and every
method has a name, is kept under its class, and is there once. -/
structure WellKept (t : MethodTable) : Prop extends Keyed t where
  classes : ∀ e ∈ t.methods.entries, e.1 ≠ "" ∧ e.2 ≠ []
  once : ∀ e ∈ t.methods.entries, (e.2.map (·.name)).Nodup

namespace WellKept
variable {t : MethodTable} (h : t.WellKept)

theorem empty : WellKept {} := ⟨keyed_empty, nofun, nofun⟩

include h

theorem mapRecords {f : String → MethodRecord → MethodRecord} (hf : Forgetless f) :
    (t.mapRecords f).WellKept := by
  refine ⟨⟨List.pairwise_map.2 h.sorted, ?_⟩, ?_, ?_⟩
  · intro _ hchanged _ hrecord
    obtain ⟨e, he, rfl⟩ := List.mem_map.1 hchanged
    obtain ⟨m, hm, rfl⟩ := List.mem_map.1 hrecord
    obtain ⟨hclass, hname, -⟩ := (hf e.1 m).definition
    rw [hclass, hname]
    exact h.records e he m hm
  · intro _ hchanged
    obtain ⟨e, he, rfl⟩ := List.mem_map.1 hchanged
    obtain ⟨hkey, hne⟩ := h.classes e he
    exact ⟨hkey, fun hnil => hne (List.map_eq_nil_iff.1 hnil)⟩
  · intro _ hchanged
    obtain ⟨e, he, rfl⟩ := List.mem_map.1 hchanged
    have hnames : (e.2.map (f e.1)).map (·.name) = e.2.map (·.name) := by
      rw [List.map_map]
      exact List.map_congr_left fun m _ => (hf e.1 m).definition.2.1
    exact hnames ▸ h.once e he

theorem add (className name : String) (file : Path) (line : Nat) (access : Access) :
    (t.add className name file line access).WellKept := by
  refine ⟨h.toKeyed.add className name file line access, ?_, ?_⟩
  · unfold MethodTable.add
    split
    · exact h.classes
    · rename_i hnames
      have hclass : className ≠ "" := fun hclass => hnames (by simp [hclass])
      have hne (m : MethodRecord) (ms : Option (List MethodRecord)) : declare m ms ≠ [] := by
        rintro hnil
        simpa [hnil] using any_declare m ms
      exact Dictionary.forall_mem_alterEntries (P := fun e => e.1 ≠ "" ∧ e.2 ≠ []) h.classes
        ⟨hclass, hne _ none⟩ fun ms _ => ⟨hclass, hne _ (some ms)⟩
  · unfold MethodTable.add
    split
    · exact h.once
    · exact Dictionary.forall_mem_alterEntries h.once (nodup_declare none List.nodup_nil)
        fun ms hms => nodup_declare (some ms) hms

theorem apply (s : Step) : (s.apply t).WellKept := by
  cases s with
  | add className name file line access => exact h.add className name file line access
  | change x =>
    obtain ⟨f, hf, heq⟩ := x.exists_mapRecords t
    rw [Step.apply, heq]
    exact h.mapRecords hf
  | noteCall name => exact ⟨⟨h.sorted, h.records⟩, h.classes, h.once⟩

/-- No two records are of the same method. -/
theorem nodup_pairs : (t.all.map pair).Nodup := by
  have hall : t.all.map pair = t.methods.entries.flatMap fun e => e.2.map pair := by
    rw [all, Dictionary.values, List.map_flatten, List.map_map, List.flatMap_def]
    rfl
  rw [hall, List.nodup_flatMap]
  constructor
  · intro e he
    have hnames : ((e.2.map pair).map Prod.snd).Nodup := by
      rw [List.map_map]
      exact h.once e he
    exact List.Nodup.of_map _ hnames
  · refine h.sorted.imp_of_mem fun {e e'} he he' hlt => ?_
    intro x hx hx'
    obtain ⟨m, hm, rfl⟩ := List.mem_map.1 hx
    obtain ⟨m', hm', heq⟩ := List.mem_map.1 hx'
    have hclass : e'.1 = e.1 := by
      rw [← (h.records e he m hm).1, ← (h.records e' he' m' hm').1]
      exact congrArg Prod.fst heq
    exact String.lt_irrefl e.1 (hclass ▸ hlt)

theorem eq_of_pair_eq {m m' : MethodRecord} (hm : m ∈ t.all) (hm' : m' ∈ t.all)
    (heq : pair m = pair m') : m = m' :=
  List.inj_on_of_nodup_map h.nodup_pairs hm hm' heq

theorem names_ne {m : MethodRecord} (hm : m ∈ t.all) : m.className ≠ "" ∧ m.name ≠ "" := by
  obtain ⟨e, he, hme⟩ := mem_all.1 hm
  obtain ⟨hclass, hname⟩ := h.records e he m hme
  exact ⟨hclass ▸ (h.classes e he).1, hname⟩

/-- A method is added if it is not there. -/
theorem mem_all_add {className name : String} (hclass : className ≠ "") (hname : name ≠ "")
    (file : Path) (line : Nat) (access : Access) {m : MethodRecord} :
    m ∈ (t.add className name file line access).all ↔
      m ∈ t.all ∨ m = ⟨className, name, access, file, line, false⟩ ∧
        ∀ m' ∈ t.all, pair m' ≠ (className, name) := by
  let new : MethodRecord := ⟨className, name, access, file, line, false⟩
  have hadd : (t.add className name file line access).methods.entries =
      Dictionary.alterEntries className (declare new) t.methods.entries := by
    simp [MethodTable.add, hclass, hname, Dictionary.alter, new]
  have hothers : (∃ e ∈ t.methods.entries, e.1 ≠ className ∧ m ∈ e.2) ↔
      m ∈ t.all ∧ m.className ≠ className := by
    constructor
    · rintro ⟨e, he, hkey, hm⟩
      rw [(h.records e he m hm).1]
      exact ⟨mem_all.2 ⟨e, he, hm⟩, hkey⟩
    · rintro ⟨hm, hkey⟩
      obtain ⟨e, he, hme⟩ := mem_all.1 hm
      rw [(h.records e he m hme).1] at hkey
      exact ⟨e, he, hkey, hme⟩
  have hown : m ∈ declare new (t.methods.entries.lookup className) ↔
      (m ∈ t.all ∧ m.className = className) ∨ m = new ∧
        ∀ m' ∈ t.all, pair m' ≠ (className, name) := by
    rw [mem_declare, ← ofClass_eq]
    simp [h.mem_ofClass_iff, pair, new]
  have hsplit : m ∈ (t.add className name file line access).all ↔
      (∃ e ∈ t.methods.entries, e.1 ≠ className ∧ m ∈ e.2) ∨
        m ∈ declare new (t.methods.entries.lookup className) := by
    simp only [mem_all, hadd, Dictionary.mem_alterEntries h.sorted, or_and_right, exists_or,
      exists_eq_left, and_assoc]
  rw [hsplit, hothers, hown, ← or_assoc, ← and_or_left, and_iff_left (ne_or_eq _ _)]

end WellKept

theorem Forgetless.mem_all_iff {t : MethodTable} {f : String → MethodRecord → MethodRecord}
    (hf : Forgetless f) {P : MethodRecord → Prop}
    (hP : ∀ {m m' : MethodRecord}, m.Learned true m' → (P m' ↔ P m)) :
    (∃ m ∈ (t.mapRecords f).all, P m) ↔ ∃ m ∈ t.all, P m := by
  simp only [mem_all_mapRecords]
  simp only [mem_all]
  constructor
  · rintro ⟨_, ⟨e, he, m, hm, rfl⟩, hPm⟩
    exact ⟨m, ⟨e, he, hm⟩, (hP (hf e.1 m)).1 hPm⟩
  · rintro ⟨m, ⟨e, he, hm⟩, hPm⟩
    exact ⟨f e.1 m, ⟨e, he, m, hm, rfl⟩, (hP (hf e.1 m)).2 hPm⟩

/-- A step may teach something about a method, but never removes it. -/
theorem Step.exists_learned {t : MethodTable} (h : t.WellKept) (s : Step) {m : MethodRecord}
    (hm : m ∈ t.all) : ∃ m' ∈ (s.apply t).all, m.Learned true m' := by
  cases s with
  | add className name file line access =>
    refine ⟨m, ?_, .refl m⟩
    by_cases hnames : className = "" ∨ name = ""
    · simpa [apply, MethodTable.add, hnames] using hm
    · obtain ⟨hclass, hname⟩ := not_or.1 hnames
      exact (h.mem_all_add hclass hname file line access).2 (.inl hm)
  | change x =>
    obtain ⟨f, hf, heq⟩ := x.exists_mapRecords t
    obtain ⟨e, he, hme⟩ := mem_all.1 hm
    rw [apply, heq]
    exact ⟨f e.1 m, mem_all_mapRecords.2 ⟨e, he, m, hme, rfl⟩, hf e.1 m⟩
  | noteCall name => exact ⟨m, hm, .refl m⟩

/-- Whether a method is in the table, and defined there. -/
def DefinedAt (t : MethodTable) (className name : String) (place : Path × Nat) : Prop :=
  ∃ m ∈ t.all, pair m = (className, name) ∧ (m.file, m.line) = place

theorem forall_not_definedAt_iff {t : MethodTable} {className name : String} :
    (∀ place, ¬t.DefinedAt className name place) ↔
      ∀ m ∈ t.all, pair m ≠ (className, name) := by
  constructor
  · intro h m hm heq
    exact h _ ⟨m, hm, heq, rfl⟩
  · rintro h place ⟨m, hm, heq, -⟩
    exact h m hm heq

/-- Only the first definition of a method counts. -/
theorem Step.definedAt_apply {t : MethodTable} (h : t.WellKept) (s : Step)
    {className name : String} (hclass : className ≠ "") (hname : name ≠ "") (place : Path × Nat) :
    (s.apply t).DefinedAt className name place ↔ t.DefinedAt className name place ∨
      (∀ other, ¬t.DefinedAt className name other) ∧ s.place? className name = some place := by
  cases s with
  | add c n file line access =>
    by_cases hnames : c = "" ∨ n = ""
    · have hother : ¬(c = className ∧ n = name) := by
        rintro ⟨rfl, rfl⟩
        exact hnames.elim hclass hname
      have hnone : (Step.add c n file line access).place? className name = none := if_neg hother
      have hsame : t.add c n file line access = t := by simp [MethodTable.add, hnames]
      simp [apply, hsame, hnone]
    · obtain ⟨hc, hn⟩ := not_or.1 hnames
      rw [forall_not_definedAt_iff]
      simp only [DefinedAt, apply, h.mem_all_add hc hn, or_and_right, exists_or, and_assoc,
        exists_eq_left]
      refine or_congr_right ?_
      by_cases hsame : c = className ∧ n = name
      · obtain ⟨rfl, rfl⟩ := hsame
        have hplace : (Step.add c n file line access).place? c n = some (file, line) :=
          if_pos ⟨rfl, rfl⟩
        have hpair : pair ⟨c, n, access, file, line, false⟩ = (c, n) := rfl
        rw [hplace, Option.some.injEq, and_iff_right hpair]
      · have hnone : (Step.add c n file line access).place? className name = none := if_neg hsame
        have hpair : pair ⟨c, n, access, file, line, false⟩ ≠ (className, name) := fun heq =>
          hsame (Prod.mk.inj heq)
        simp [hnone, hpair]
  | change x =>
    obtain ⟨f, hf, heq⟩ := x.exists_mapRecords t
    have hnone : (Step.change x).place? className name ≠ some place :=
      (Option.some_ne_none place).symm
    rw [or_iff_left fun hnew => hnone hnew.2, apply, heq]
    refine hf.mem_all_iff fun {m m'} hm => ?_
    obtain ⟨hclass, hname, hfile, hline⟩ := hm.definition
    rw [pair, pair, hclass, hname, hfile, hline]
  | noteCall name' =>
    have hnone : (Step.noteCall name').place? className name ≠ some place :=
      (Option.some_ne_none place).symm
    rw [or_iff_left fun hnew => hnone hnew.2]
    rfl

theorem wellKept_run (steps : List Step) : (run steps).WellKept :=
  List.foldlRecOn (motive := WellKept) steps Step.apply .empty fun _ h s _ => h.apply s

/-- A method is in the table if it was defined, where it was defined first. -/
theorem definedAt_run (steps : List Step) {className name : String} (hclass : className ≠ "")
    (hname : name ≠ "") (place : Path × Nat) :
    (run steps).DefinedAt className name place ↔ firstPlace? steps className name = some place := by
  induction steps using List.reverseRecOn generalizing place with
  | nil =>
    refine iff_of_false ?_ nofun
    rintro ⟨m, hm, -⟩
    cases hm
  | append_singleton steps s ih =>
    have hfirst : firstPlace? (steps ++ [s]) className name =
        (firstPlace? steps className name).or (s.place? className name) := by
      simp [firstPlace?, List.findSome?_append]
    rw [run_concat, s.definedAt_apply (wellKept_run steps) hclass hname, hfirst,
      Option.or_eq_some_iff, Option.eq_none_iff_forall_ne_some]
    simp only [ih, ne_eq]

theorem mem_calledNames_run (steps : List Step) (name : String) :
    name ∈ (run steps).calledNames ↔ .noteCall name ∈ steps := by
  induction steps using List.reverseRecOn with
  | nil => exact iff_of_false nofun nofun
  | append_singleton steps s ih =>
    rw [run_concat, List.mem_append, List.mem_singleton, ← ih]
    cases s with
    | add c n file line access =>
      have hsame : ((run steps).add c n file line access).calledNames =
          (run steps).calledNames := by
        unfold MethodTable.add
        split <;> rfl
      simp [Step.apply, hsame]
    | change x =>
      obtain ⟨f, -, heq⟩ := x.exists_mapRecords (run steps)
      simp [Step.apply, heq, mapRecords]
    | noteCall other =>
      have hnote : name ∈ ((run steps).noteCall other).calledNames ↔
          name = other ∨ name ∈ (run steps).calledNames := mem_insertSorted
      simp [Step.apply, hnote, or_comm]

theorem exists_learned_run {steps : List Step} (more : List Step) {m : MethodRecord}
    (hm : m ∈ (run steps).all) : ∃ m' ∈ (run (steps ++ more)).all, m.Learned true m' := by
  induction more using List.reverseRecOn with
  | nil => exact ⟨m, by rwa [List.append_nil], .refl m⟩
  | append_singleton more s ih =>
    obtain ⟨m', hm', hlearned⟩ := ih
    obtain ⟨m'', hm'', hmore⟩ := s.exists_learned (wellKept_run _) hm'
    refine ⟨m'', ?_, hlearned.trans hmore⟩
    rwa [← List.append_assoc, run_concat]

/-- A method that was seen in use is never again among the unused ones. -/
theorem pair_ne_of_mem_unused {steps : List Step} (more : List Step) {m : MethodRecord}
    (hm : m ∈ (run steps).all) (hused : m.used) {access : Option Access} {m' : MethodRecord}
    (hm' : m' ∈ (run (steps ++ more)).unused access) : pair m' ≠ pair m := by
  intro heq
  obtain ⟨later, hlater, hlearned⟩ := exists_learned_run more hm
  obtain ⟨hall, hunused, -⟩ := mem_unused_iff.1 hm'
  obtain ⟨hclass, hname, -⟩ := hlearned.definition
  have hsame : m' = later :=
    (wellKept_run _).eq_of_pair_eq hall hlater (heq.trans (Prod.ext hclass.symm hname.symm))
  rw [hsame, hlearned.used hused] at hunused
  cases hunused

theorem WellKept.exists_used {t : MethodTable} (h : t.WellKept) {className name : String}
    (hthere : t.has className name none) :
    ∃ m ∈ (t.markUsed className name).all, pair m = (className, name) ∧ m.used := by
  obtain ⟨m, hfound⟩ := Option.isSome_iff_exists.1 hthere
  rw [find?] at hfound
  have hname : m.name = name := by simpa using List.find?_some hfound
  obtain ⟨hm, hclass⟩ := h.mem_ofClass_iff.1 (List.mem_of_find?_eq_some hfound)
  obtain ⟨e, he, hme⟩ := mem_all.1 hm
  have hkey : e.1 = className := (h.records e he m hme).1.symm.trans hclass
  refine ⟨{ m with used := true }, ?_, Prod.ext hclass hname, rfl⟩
  rw [markUsed, update_eq]
  exact mem_all_mapRecords.2 ⟨e, he, m, hme, if_pos ⟨hname, hkey⟩⟩

/-- A method that was marked is never again among the unused ones. -/
theorem pair_ne_of_marked {steps more : List Step} {className name : String}
    (hthere : (run steps).has className name none) {access : Option Access} {m : MethodRecord}
    (hm : m ∈ (run (steps ++ .change (.markUsed className name) :: more)).unused access) :
    pair m ≠ (className, name) := by
  obtain ⟨m', hm', hpair, hused⟩ := (wellKept_run steps).exists_used hthere
  have hmarked : m' ∈ (run (steps ++ [.change (.markUsed className name)])).all := by
    rw [run_concat]
    exact hm'
  rw [List.append_cons] at hm
  rw [← hpair]
  exact pair_ne_of_mem_unused more hmarked hused hm

/-- Whatever is done to an empty table of methods, no class and no method in it is without a name,
no class is without a method, and every method is kept under its class, once and where it was first
defined. No use is forgotten, and the access of a method changes to public at most. So the unused
methods are listed once each: those of which no use was seen, with the access that is asked for, but
for public ones whose name was called. What was marked as used is never listed again. -/
theorem registry_invariant (steps : List Step) :
    let t := run steps
    t.WellKept ∧ (t.all.map pair).Nodup ∧
    (∀ className name file line,
      (∃ m ∈ t.all, pair m = (className, name) ∧ (m.file, m.line) = (file, line)) ↔
        className ≠ "" ∧ name ≠ "" ∧ firstPlace? steps className name = some (file, line)) ∧
    (∀ name, name ∈ t.calledNames ↔ .noteCall name ∈ steps) ∧
    (∀ access, ((t.unused access).map pair).Nodup ∧
      ∀ m, m ∈ t.unused access ↔ m ∈ t.all ∧ m.used = false ∧ (∀ a ∈ access, m.access = a) ∧
        ¬(m.access = .public_ ∧ m.name ∈ t.calledNames)) ∧
    (∀ more, ∀ m ∈ t.all, (∃ m' ∈ (run (steps ++ more)).all, m.Learned true m') ∧
      (m.used → ∀ access, ∀ m' ∈ (run (steps ++ more)).unused access, pair m' ≠ pair m)) ∧
    ∀ className name, t.has className name none → ∀ more access,
      ∀ m ∈ (run (steps ++ .change (.markUsed className name) :: more)).unused access,
        pair m ≠ (className, name) := by
  intro t
  have h : t.WellKept := wellKept_run steps
  refine ⟨h, h.nodup_pairs, fun className name file line => ?_, mem_calledNames_run steps,
    fun access => ⟨?_, fun m => mem_unused_iff⟩,
    fun more m hm => ⟨exists_learned_run more hm, fun hused access m' hm' =>
      pair_ne_of_mem_unused more hm hused hm'⟩,
    fun className name hthere more access m hm => ?_⟩
  · constructor
    · rintro ⟨m, hm, hpair, hplace⟩
      obtain ⟨hclass, hname⟩ := h.names_ne hm
      obtain ⟨rfl, rfl⟩ := Prod.mk.inj hpair
      exact ⟨hclass, hname, (definedAt_run steps hclass hname _).1 ⟨m, hm, hpair, hplace⟩⟩
    · rintro ⟨hclass, hname, hfirst⟩
      exact (definedAt_run steps hclass hname _).2 hfirst
  · have hsub : (t.unused access).Sublist t.all := List.filter_sublist
    exact h.nodup_pairs.sublist (hsub.map pair)
  · exact pair_ne_of_marked hthere hm

/-- A class whose method is defined again elsewhere, and a method without a class. -/
def postsSteps : List Step :=
  [.add "PostsController" "show" ⟨"posts.rb"⟩ 2 .public_,
    .add "PostsController" "load" ⟨"posts.rb"⟩ 6 .private_,
    .add "PostsController" "show" ⟨"other.rb"⟩ 40 .private_,
    .add "" "orphan" ⟨"posts.rb"⟩ 1 .public_, .noteCall "show"]

theorem registry_invariant_posts :
    let load : MethodRecord := ⟨"PostsController", "load", .private_, ⟨"posts.rb"⟩, 6, false⟩
    load ∈ (run postsSteps).all ∧ (run postsSteps).has "PostsController" "load" none ∧
    ((run postsSteps).unused none).map pair = [("PostsController", "load")] ∧
    (∃ m ∈ (run postsSteps).all, pair m = ("PostsController", "show") ∧
      (m.file, m.line) = (⟨"posts.rb"⟩, 2)) ∧
    (∃ m' ∈ (run (postsSteps ++ postsSteps)).all, load.Learned true m') ∧
    (∀ m ∈ (run (postsSteps ++ .change (.markUsed "PostsController" "load") ::
      postsSteps)).unused none, pair m ≠ ("PostsController", "load")) ∧
    ∀ m ∈ (run (postsSteps ++ [.change (.markUsed "PostsController" "load")] ++
      postsSteps)).unused (some .private_), pair m ≠ pair load := by
  intro load
  obtain ⟨-, -, hplaces, -, -, hkept, hmarked⟩ := registry_invariant postsSteps
  have hall : (run postsSteps).all =
      [⟨"PostsController", "show", .public_, ⟨"posts.rb"⟩, 2, false⟩, load] := by rfl
  have hload : load ∈ (run postsSteps).all := by simp [hall]
  have hthere : (run postsSteps).has "PostsController" "load" none := by decide +kernel
  have hfirst : firstPlace? postsSteps "PostsController" "show" = some (⟨"posts.rb"⟩, 2) := by rfl
  have hused : { load with used := true } ∈
      (run (postsSteps ++ [.change (.markUsed "PostsController" "load")])).all := by
    have hall' : (run (postsSteps ++ [.change (.markUsed "PostsController" "load")])).all =
        [⟨"PostsController", "show", .public_, ⟨"posts.rb"⟩, 2, false⟩,
          { load with used := true }] := by rfl
    simp [hall']
  exact ⟨hload, hthere, by decide +kernel,
    (hplaces _ _ _ _).2 ⟨by decide, by decide, hfirst⟩, (hkept postsSteps load hload).1,
    hmarked _ _ hthere postsSteps none,
    ((registry_invariant _).2.2.2.2.2.1 postsSteps _ hused).2 rfl (some .private_)⟩

end MethodTable
end RailsReview
