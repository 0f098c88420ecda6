import RailsReview.Proofs.Hierarchy
import RailsReview.Proofs.Marking

/-!
# The family of a called method

A call of a method by its class marks the method in that class, in the first class above it that has
the method, and in all declared classes below it. Here it is shown that these are all the records
that a call changes, however the classes are related.
-/
namespace RailsReview

namespace MethodTable

/-- The table with every record changed, given the class that it is kept under. -/
def mapRecords (t : MethodTable) (f : String → MethodRecord → MethodRecord) : MethodTable :=
  { t with methods := ⟨t.methods.entries.map fun e => (e.1, e.2.map (f e.1))⟩ }

theorem mapRecords_id (t : MethodTable) : t.mapRecords (fun _ m => m) = t := by
  have hentries : t.methods.entries.map (fun e => (e.1, e.2.map fun m => m)) =
      t.methods.entries := by
    simp
  rw [mapRecords, hentries]

theorem mapRecords_mapRecords (t : MethodTable) (f g : String → MethodRecord → MethodRecord) :
    (t.mapRecords f).mapRecords g = t.mapRecords fun c m => g c (f c m) := by
  simp only [mapRecords, List.map_map, Function.comp_def]

theorem update_eq (t : MethodTable) (className name : String) (f : MethodRecord → MethodRecord) :
    t.update className name f =
      t.mapRecords fun c m => if m.name = name ∧ c = className then f m else m := by
  have hentries : (t.methods.modify className fun ms =>
      ms.map fun m => if m.name = name then f m else m).entries =
        t.methods.entries.map fun e =>
          (e.1, e.2.map fun m => if m.name = name ∧ e.1 = className then f m else m) := by
    apply List.map_congr_left
    intro e _
    by_cases hkey : e.1 = className
    · simp only [hkey, if_true, and_true]
    · simp only [hkey, if_false, and_false, List.map_id']
  rw [update, mapRecords, ← hentries]

/-- Marking a method class by class marks it in all of the classes at once. -/
theorem foldl_markUsed (classes : List String) (t : MethodTable) (name : String) :
    classes.foldl (fun t c => t.markUsed c name) t =
      t.mapRecords fun c m =>
        if m.name = name ∧ c ∈ classes then { m with used := true } else m := by
  induction classes generalizing t with
  | nil => simp only [List.foldl_nil, List.not_mem_nil, and_false, if_false, mapRecords_id]
  | cons className classes ih =>
    rw [List.foldl_cons, ih, markUsed, update_eq, mapRecords_mapRecords]
    congr 1
    funext c m
    by_cases hname : m.name = name
    · by_cases hown : c = className
      · by_cases hrest : c ∈ classes <;> simp [hname, hown]
      · simp [hname, hown]
    · simp [hname]

end MethodTable

namespace Tables

/-- The classes in which a call marks the method: the class of the call, the first class on the way
up from it that has the method, and the declared classes below it. The way up ends where a name is
empty, undeclared or met before; helpers have neither classes above nor below. -/
inductive CallMarks (t : Tables) (layer : Layer) (className name : String) : String → Prop
  | own : CallMarks t layer className name className
  | above {classes : ClassTable} {found : String} {steps : Nat} :
      t.classesOf? layer = some classes →
      classes.FirstAbove (fun c => (t.methodsOf layer).has c name none) found steps className →
      CallMarks t layer className name found
  | below {classes : ClassTable} {c : ClassRecord} : t.classesOf? layer = some classes →
      classes.Below className c → CallMarks t layer className name c.qualifiedName

theorem mem_family_iff (t : Tables) (layer : Layer) (className name c : String) :
    c ∈ (t.methodsOf layer).family (t.classesOf? layer) className name ↔
      t.CallMarks layer className name c := by
  cases hclasses : t.classesOf? layer with
  | none =>
    rw [MethodTable.family, List.mem_singleton]
    constructor
    · rintro rfl
      exact .own
    · intro h
      cases h with
      | own => rfl
      | above hsome _ => simp [hclasses] at hsome
      | below hsome _ => simp [hclasses] at hsome
  | some classes =>
    rw [MethodTable.family, List.mem_cons, List.mem_append, Option.mem_toList, List.mem_map]
    constructor
    · rintro (rfl | habove | ⟨sub, hsub, rfl⟩)
      · exact .own
      · obtain ⟨steps, hfirst⟩ := ClassTable.find?_ancestors_eq_some_iff.1 habove
        exact .above hclasses hfirst
      · exact .below hclasses (ClassTable.mem_subclasses_iff.1 hsub)
    · intro h
      cases h with
      | own => exact .inl rfl
      | above hsome hfirst =>
        obtain rfl := Option.some.inj (hclasses.symm.trans hsome)
        exact .inr (.inl hfirst.find?_ancestors)
      | @below _ sub hsome hbelow =>
        obtain rfl := Option.some.inj (hclasses.symm.trans hsome)
        exact .inr (.inr ⟨sub, hbelow.mem_subclasses, rfl⟩)

theorem callMarks_helpers (t : Tables) (className name c : String) :
    t.CallMarks .helpers className name c ↔ c = className := by
  rw [← mem_family_iff]
  exact List.mem_singleton

/-- A call comes to marks in the family of the method and to a note of its name. -/
theorem callMethod_eq_family (t : Tables) (layer : Layer) (className : String) {name : String}
    (hname : name ≠ "") :
    t.callMethod layer className name = t.withMethods layer
      ((((t.methodsOf layer).family (t.classesOf? layer) className name).foldl
        (fun ms c => ms.markUsed c name) (t.methodsOf layer)).noteCall name) := by
  have happly := t.apply_eq_marks layer (.call className name)
  simp only [marksOf, Evidence.marks, if_neg hname, List.foldl_append, List.foldl_map] at happly
  exact happly

open Classical in
/-- A call sets `used` in the records of the method's family and notes the name of the method.
Nothing else in the tables changes. The way up that is searched for the family ends by itself: more
steps lead no further. -/
theorem call_marks_family (t : Tables) (layer : Layer) (className name : String)
    (hname : name ≠ "") :
    (let ms := t.methodsOf layer
      let marked := ms.mapRecords fun c m =>
        if m.name = name ∧ t.CallMarks layer className name c then { m with used := true } else m
      t.callMethod layer className name =
        t.withMethods layer { marked with calledNames := insertSorted name ms.calledNames }) ∧
    (∀ c, t.CallMarks .helpers className name c ↔ c = className) ∧
    ∀ classes, t.classesOf? layer = some classes → ∀ more,
      classes.climb (classes.classes.length + 1 + more) [] (classes.superclassOf? className) =
        classes.ancestors className := by
  refine ⟨?_, t.callMarks_helpers className name,
    fun classes _ more => classes.climb_ancestors className more⟩
  have hrecords : (fun c (m : MethodRecord) =>
      if m.name = name ∧ c ∈ (t.methodsOf layer).family (t.classesOf? layer) className name then
        { m with used := true } else m) =
      fun c m =>
        if m.name = name ∧ t.CallMarks layer className name c then { m with used := true }
        else m := by
    funext c m
    simp only [mem_family_iff]
  rw [callMethod_eq_family t layer className hname, MethodTable.foldl_markUsed, hrecords]
  rfl

/-- Two controllers that are each other's superclass and one below them in a module. All but the
first have a method of one name, and so has a class that is declared nowhere. -/
def cyclicTables : Tables where
  controllers :=
    ((({} : ClassTable).add ⟨"A", "B", []⟩).add ⟨"B", "A", []⟩).add ⟨"C", "::A", ["M"]⟩
  controllerMethods :=
    ((({} : MethodTable).add "B" "run" ⟨"b.rb"⟩ 2 .private_).add "D" "run" ⟨"d.rb"⟩ 2
      .private_).add "M::C" "run" ⟨"c.rb"⟩ 2 .private_

theorem subclasses_cyclicTables :
    (cyclicTables.controllers.subclasses "A").map (·.qualifiedName) = ["B", "M::C", "A"] := by
  have hfirst : cyclicTables.controllers.directBelow "A" cyclicTables.controllers.classes =
      [⟨"B", "A", []⟩, ⟨"C", "::A", ["M"]⟩] := by decide +kernel
  have hrest : cyclicTables.controllers.notDirectBelow "A" cyclicTables.controllers.classes =
      [⟨"A", "B", []⟩] := by decide +kernel
  have hnone : cyclicTables.controllers.directBelow "M::C" [⟨"A", "B", []⟩] = [] ∧
      cyclicTables.controllers.notDirectBelow "M::C" [⟨"A", "B", []⟩] = [⟨"A", "B", []⟩] := by
    decide +kernel
  have hlast : cyclicTables.controllers.directBelow "B" [⟨"A", "B", []⟩] = [⟨"A", "B", []⟩] ∧
      cyclicTables.controllers.notDirectBelow "B" [⟨"A", "B", []⟩] = [] := by
    decide +kernel
  have hnames : (⟨"B", "A", []⟩ : ClassRecord).qualifiedName = "B" ∧
      (⟨"C", "::A", ["M"]⟩ : ClassRecord).qualifiedName = "M::C" ∧
      (⟨"A", "B", []⟩ : ClassRecord).qualifiedName = "A" := by decide +kernel
  have hnil (parent : String) : cyclicTables.controllers.directBelow parent [] = [] ∧
      cyclicTables.controllers.notDirectBelow parent [] = [] := ⟨rfl, rfl⟩
  simp [ClassTable.subclasses, ClassTable.descend, hfirst, hrest, hnone, hlast, hnil, hnames]

theorem call_marks_family_cyclic :
    "run" ≠ "" ∧
    (let ms := cyclicTables.controllerMethods
      let marked := ms.mapRecords fun c m =>
        if c = "B" ∨ c = "M::C" then { m with used := true } else m
      cyclicTables.callMethod .controllers "A" "run" = { cyclicTables with
        controllerMethods := { marked with calledNames := ["run"] } }) := by
  have hfamily : ∀ c, cyclicTables.CallMarks .controllers "A" "run" c ↔
      c ∈ ["A", "B", "B", "M::C", "A"] := by
    intro c
    have habove : (cyclicTables.controllers.ancestors "A").find?
        (cyclicTables.controllerMethods.has · "run" none) = some "B" := by
      decide +kernel
    have hlist : cyclicTables.controllerMethods.family (some cyclicTables.controllers) "A" "run" =
        ["A", "B", "B", "M::C", "A"] := by
      rw [MethodTable.family, habove, subclasses_cyclicTables]
      rfl
    rw [← hlist, ← mem_family_iff]
    rfl
  refine ⟨by decide, ?_⟩
  have hcall := (call_marks_family cyclicTables .controllers "A" "run" (by decide)).1
  simp only [hfamily] at hcall
  rw [hcall]
  rfl

end Tables
end RailsReview
