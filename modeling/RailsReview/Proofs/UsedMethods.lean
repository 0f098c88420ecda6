import RailsReview.Proofs.Hierarchy
import RailsReview.Proofs.Marking
import RailsReview.Proofs.TableInvariants

/-!
# Used methods

Once evidence has been taken into account, taking it into account again changes nothing. So whatever
a call may mean is marked by then, and is not among the unused methods.
-/
namespace RailsReview

namespace MethodTable
variable {t : MethodTable} {m : MethodRecord} {className name : String}

theorem mem_unused_iff {access : Option Access} : m ∈ t.unused access ↔
    m ∈ t.all ∧ m.used = false ∧ (∀ a ∈ access, m.access = a) ∧
      ¬(m.access = .public_ ∧ m.name ∈ t.calledNames) := by
  have hcalled : (!t.maybeCalled m) = true ↔ ¬(m.access = .public_ ∧ m.name ∈ t.calledNames) := by
    simp only [maybeCalled, Bool.not_eq_true', ← Bool.not_eq_true, Bool.and_eq_true, beq_iff_eq,
      List.contains_iff_mem]
  have haccess : m.hasAccess access ↔ ∀ a ∈ access, m.access = a := by
    cases access <;> simp [MethodRecord.hasAccess]
  simp only [unused, List.mem_filter, Bool.and_eq_true, hcalled, haccess, Bool.not_eq_true',
    and_assoc]

theorem mem_unused : m ∈ t.unused none ↔
    m ∈ t.all ∧ m.used = false ∧ ¬(m.access = .public_ ∧ m.name ∈ t.calledNames) := by
  simp [mem_unused_iff]

/-- In a table in which all of its marks are made already, the method is used. -/
theorem Keyed.used_of_markUsed (ht : t.Keyed) (hm : m ∈ t.all)
    (h : t.markUsed m.className m.name = t) : m.used = true := by
  obtain ⟨e, he, hme⟩ := mem_all.1 hm
  have hkey : m.className = e.1 := (ht.records e he m hme).1
  have hentries : t.methods.entries.map (fun e => if e.1 = m.className then
      (e.1, e.2.map fun r => if r.name = m.name then { r with used := true } else r) else e) =
        t.methods.entries.map id := by
    rw [List.map_id]
    exact congrArg (·.methods.entries) h
  have hentry := List.map_inj_left.1 hentries e he
  rw [if_pos hkey.symm] at hentry
  have hrecords : e.2.map (fun r => if r.name = m.name then { r with used := true } else r) =
      e.2.map id := by
    rw [List.map_id]
    exact congrArg Prod.snd hentry
  have hrecord := List.map_inj_left.1 hrecords m hme
  rw [if_pos rfl] at hrecord
  exact (congrArg (·.used) hrecord).symm

theorem mem_calledNames_of_noteCall (h : t.noteCall name = t) : name ∈ t.calledNames := by
  have hnames : insertSorted name t.calledNames = t.calledNames := congrArg (·.calledNames) h
  rw [← hnames]
  exact mem_insertSorted.2 (.inl rfl)

theorem Keyed.apply (ht : t.Keyed) (x : Mark) : (Mark.apply t x).Keyed := by
  cases x with
  | used c n => exact ht.update c n (fun _ => rfl) fun _ => rfl
  | public_ c n => exact ht.update c n (fun _ => rfl) fun _ => rfl
  | called n => exact ⟨ht.sorted, ht.records⟩

end MethodTable

namespace Tables
variable {t : Tables} {layer : Layer} {e : Evidence} {found : List Evidence}

theorem keyed_learn (ht : t.controllerMethods.Keyed) (found : List Evidence) :
    (t.learn .controllers found).controllerMethods.Keyed := by
  rw [learn_eq_marks]
  exact List.foldlRecOn _ Mark.apply ht fun _ hms x _ => hms.apply x

/-- What was learned need not be learned again. -/
theorem apply_learn (he : e ∈ found) :
    e.apply layer (t.learn layer found) = t.learn layer found := by
  have hagain : e.apply layer (t.learn layer found) = t.learn layer (found ++ [e]) := by
    rw [learn_append]
    rfl
  rw [hagain]
  apply learn_congr
  intro x
  rw [List.mem_append, List.mem_singleton]
  exact ⟨fun h => h.elim id fun heq => heq ▸ he, .inl⟩

/-- If evidence changes nothing, none of its marks does. -/
theorem apply_mark (h : e.apply layer t = t) {x : Mark} (hx : x ∈ t.marksOf layer e) :
    Mark.apply (t.methodsOf layer) x = t.methodsOf layer := by
  have hall : (t.marksOf layer e).foldl Mark.apply (t.methodsOf layer) = t.methodsOf layer := by
    have hmethods := congrArg (·.methodsOf layer) h
    rwa [apply_eq_marks, methodsOf_withMethods] at hmethods
  have hagain : (t.marksOf layer e ++ [x]).foldl Mark.apply (t.methodsOf layer) =
      (t.marksOf layer e).foldl Mark.apply (t.methodsOf layer) := by
    apply foldl_eq_of_mem_iff Mark.apply_comm Mark.apply_idem
    intro y
    rw [List.mem_append, List.mem_singleton]
    exact ⟨fun hy => hy.elim id fun heq => heq ▸ hx, .inl⟩
  rwa [List.foldl_append, hall] at hagain

/-- A method that a call of its name in a class may be about: the one of the class, of its nearest
ancestor that has one, of a class below, or, as the call may have any receiver, a public one. -/
inductive MayMean (t : Tables) (className : String) (m : MethodRecord) : Prop
  | own : m.className = className → t.MayMean className m
  | ancestor {steps : Nat} : t.controllers.FirstAbove (t.controllerMethods.has · m.name none)
      m.className steps className → t.MayMean className m
  | subclass {c : ClassRecord} : t.controllers.Below className c → m.className = c.qualifiedName →
      t.MayMean className m
  | public_ : m.access = .public_ → t.MayMean className m

/-- No method that a call may be about is unused once the call was noted. -/
theorem not_mayMean {m : MethodRecord} (ht : t.controllerMethods.Keyed)
    (hm : m ∈ t.controllerMethods.unused none) {className : String}
    (h : Evidence.apply .controllers t (.call className m.name) = t) : ¬t.MayMean className m := by
  obtain ⟨hmem, hunused, hcalled⟩ := MethodTable.mem_unused.1 hm
  have hname := ht.name_ne hmem
  have hmarks : t.marksOf .controllers (.call className m.name) =
      (t.controllerMethods.family (some t.controllers) className m.name).map (.used · m.name) ++
        [.called m.name] := by
    rw [marksOf, Evidence.marks, if_neg hname]
    rfl
  have hfamily : m.className ∉
      t.controllerMethods.family (some t.controllers) className m.name := by
    intro hfamily
    have hmark : Mark.apply t.controllerMethods (.used m.className m.name) =
        t.controllerMethods := by
      apply apply_mark h
      rw [hmarks]
      exact List.mem_append_left _ (List.mem_map.2 ⟨_, hfamily, rfl⟩)
    rw [ht.used_of_markUsed hmem hmark] at hunused
    cases hunused
  rintro (hown | habove | ⟨hbelow, hclass⟩ | hpublic)
  · exact hfamily (by rw [hown]; exact List.mem_cons_self)
  · apply hfamily
    refine List.mem_cons_of_mem _ (List.mem_append_left _ ?_)
    rw [habove.find?_ancestors]
    exact List.mem_singleton_self _
  · apply hfamily
    refine List.mem_cons_of_mem _ (List.mem_append_right _ ?_)
    exact List.mem_map.2 ⟨_, hbelow.mem_subclasses, hclass.symm⟩
  · refine hcalled ⟨hpublic, MethodTable.mem_calledNames_of_noteCall ?_⟩
    apply apply_mark (x := .called m.name) h
    rw [hmarks]
    exact List.mem_append_right _ (List.mem_singleton_self _)

end Tables
end RailsReview
