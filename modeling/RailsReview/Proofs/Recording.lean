import RailsReview.Proofs.Dictionary
import RailsReview.Tables

/-!
# Recording twice

A survey records facts in tables. In some tables the first fact of a kind counts and in others the
last one, but recording the same facts once more never changes anything, whatever was there before.
-/
namespace RailsReview

section Counting
variable {α β γ : Type} {view : α → γ} {add : β → α → β}

/-- What was added stays, and nothing that has the same view is added again. -/
structure FirstCounts (view : α → γ) (add : β → α → β) : Prop where
  again : ∀ b {x x'}, view x = view x' → add (add b x) x' = add b x
  stays : ∀ {b x} y, add b x = b → add (add b y) x = add b y

/-- What is added either has nothing to do with what was added before or replaces it. -/
structure LastCounts (add : β → α → β) : Prop where
  again : ∀ b x, add (add b x) x = add b x
  other : ∀ b x y, add (add b x) y = add (add b y) x ∨ add (add b x) y = add b y

namespace FirstCounts
variable (h : FirstCounts view add) {l l' : List α} {b : β}
include h

theorem stays_foldl {x : α} (hx : add b x = b) (l : List α) :
    add (l.foldl add b) x = l.foldl add b := by
  induction l generalizing b with
  | nil => exact hx
  | cons y l ih => exact ih (h.stays y hx)

theorem again_of_mem {x x' : α} (hview : view x = view x') (hx : x ∈ l) (b : β) :
    add (l.foldl add b) x' = l.foldl add b := by
  induction l generalizing b with
  | nil => cases hx
  | cons y l ih =>
    rcases List.mem_cons.1 hx with rfl | hx
    · exact h.stays_foldl (h.again b hview) l
    · exact ih hx (add b y)

theorem foldl_again (hview : l'.map view = l.map view) (b : β) :
    l'.foldl add (l.foldl add b) = l.foldl add b := by
  have habsorbed : ∀ x' ∈ l', add (l.foldl add b) x' = l.foldl add b := by
    intro x' hx'
    have hmem : view x' ∈ l.map view := hview ▸ List.mem_map_of_mem hx'
    obtain ⟨x, hx, hsame⟩ := List.mem_map.1 hmem
    exact h.again_of_mem hsame hx b
  clear hview
  induction l' with
  | nil => rfl
  | cons x' l' ih =>
    obtain ⟨hx', hl'⟩ := List.forall_mem_cons.1 habsorbed
    rw [List.foldl_cons, hx']
    exact ih hl'

end FirstCounts

namespace LastCounts
variable (h : LastCounts add)
include h

theorem add_foldl_add (b : β) (x : α) (l : List α) :
    add (l.foldl add (add b x)) x = add (l.foldl add b) x := by
  induction l generalizing b with
  | nil => exact h.again b x
  | cons y l ih =>
    rw [List.foldl_cons, List.foldl_cons]
    rcases h.other b x y with hcomm | hreplaced
    · rw [hcomm]
      exact ih (add b y)
    · rw [hreplaced]

/-- What comes once more need not have come before. -/
theorem foldl_foldl_foldl (l m : List α) (b : β) :
    l.foldl add (m.foldl add (l.foldl add b)) = l.foldl add (m.foldl add b) := by
  induction l generalizing m b with
  | nil => rfl
  | cons x l ih =>
    -- The first `x` is dropped in favour of the second one, which then belongs to `m`.
    have hx := h.add_foldl_add b x (l ++ m)
    have hrest := ih (m ++ [x]) b
    simp only [List.foldl_append, List.foldl_cons, List.foldl_nil] at hx hrest ⊢
    rw [hx, hrest]

theorem foldl_again (l : List α) (b : β) : l.foldl add (l.foldl add b) = l.foldl add b :=
  h.foldl_foldl_foldl l [] b

end LastCounts
end Counting

namespace Dictionary
variable {α β γ : Type} {keyOf : β → String} {change : β → Option α → α}

theorem firstCounts_alter {view : β → γ}
    (again : ∀ x x', view x = view x' →
      keyOf x = keyOf x' ∧ ∀ o, change x' (some (change x o)) = change x o)
    (stays : ∀ x y o, change x (some (change y (some (change x o)))) =
      change y (some (change x o))) :
    FirstCounts view fun (d : Dictionary α) x => d.alter (keyOf x) (change x) := by
  constructor
  · intro d x x' hview
    obtain ⟨hkey, hchange⟩ := again x x' hview
    rw [← hkey, alter_alter]
    exact congrArg (d.alter (keyOf x)) (funext hchange)
  · intro d x y hx
    by_cases hkey : keyOf y = keyOf x
    · -- Whatever `y` makes of the value comes after `x` had its share.
      rw [← hx, hkey, alter_alter, alter_alter, alter_alter]
      exact congrArg (d.alter (keyOf x)) (funext (stays x y))
    · rw [alter_comm d hkey, hx]

theorem lastCounts_alter (again : ∀ x o, change x (some (change x o)) = change x o)
    (other : ∀ x y, (∀ o, change y (some (change x o)) = change x (some (change y o))) ∨
      ∀ o, change y (some (change x o)) = change y o) :
    LastCounts fun (d : Dictionary α) x => d.alter (keyOf x) (change x) := by
  constructor
  · intro d x
    rw [alter_alter]
    exact congrArg (d.alter (keyOf x)) (funext (again x))
  · intro d x y
    by_cases hkey : keyOf x = keyOf y
    · rw [hkey, alter_alter, alter_alter]
      exact (other x y).imp (fun h => congrArg (d.alter (keyOf y)) (funext h))
        fun h => congrArg (d.alter (keyOf y)) (funext h)
    · exact .inl (alter_comm d hkey (change x) (change y))

theorem firstCounts_insertNew :
    FirstCounts id fun (d : Dictionary α) (e : String × α) => d.insertNew e.1 e.2 := by
  refine firstCounts_alter (fun e e' h => ?_) fun _ _ _ => rfl
  exact ⟨congrArg (·.1) h, fun _ => rfl⟩

theorem lastCounts_insert :
    LastCounts fun (d : Dictionary α) (e : String × α) => d.insert e.1 e.2 :=
  lastCounts_alter (fun _ _ => rfl) fun _ _ => .inr fun _ => rfl

/-- Insertions into the dictionaries of a dictionary. -/
theorem lastCounts_insertIn : LastCounts fun (d : Dictionary (Dictionary α))
    (e : String × String × α) => d.alter e.1 fun inner => (inner.getD {}).insert e.2.1 e.2.2 := by
  refine lastCounts_alter (fun e inner => lastCounts_insert.again _ e.2) fun e e' => ?_
  by_cases hkey : e.2.1 = e'.2.1
  · refine .inr fun inner => ?_
    simp only [Option.getD_some, insert, hkey, alter_alter]
  · exact .inl fun inner => alter_comm _ hkey _ _

end Dictionary

namespace ClassTable

theorem declares_iff {t : ClassTable} {name : String} :
    t.declares name ↔ ∃ c ∈ t.classes, c.qualifiedName = name := by
  simp [declares, find?, List.find?_isSome]

theorem classes_subset_add (t : ClassTable) (c : ClassRecord) :
    t.classes ⊆ (t.add c).classes := by
  unfold add
  split
  · exact List.Subset.refl _
  · exact List.subset_append_left t.classes [c]

theorem add_eq_self_iff {t : ClassTable} {c : ClassRecord} :
    t.add c = t ↔ t.declares c.qualifiedName := by
  unfold add
  split
  · rename_i h
    exact iff_of_true rfl h
  · rename_i h
    refine iff_of_false (fun heq => ?_) h
    simpa using congrArg (·.classes.length) heq

theorem firstCounts_add : FirstCounts id add := by
  constructor
  · rintro t c _ rfl
    refine add_eq_self_iff.2 ?_
    by_cases h : t.declares c.qualifiedName
    · rwa [add_eq_self_iff.2 h]
    · refine declares_iff.2 ⟨c, ?_, rfl⟩
      simp [add, h]
  · intro t c d h
    obtain ⟨c', hc', hname⟩ := declares_iff.1 (add_eq_self_iff.1 h)
    exact add_eq_self_iff.2 (declares_iff.2 ⟨c', classes_subset_add t d hc', hname⟩)

end ClassTable

namespace ModuleTable

theorem add_eq_self_iff {t : ModuleTable} {name : String} {outer : List String} :
    t.add name outer = t ↔ qualify outer name ∈ t.modules := by
  unfold add declares
  dsimp only
  split
  · rename_i h
    exact iff_of_true rfl (List.contains_iff_mem.1 h)
  · rename_i h
    refine iff_of_false (fun heq => ?_) fun hmem => h (List.contains_iff_mem.2 hmem)
    simpa using congrArg (·.modules.length) heq

theorem modules_subset_add (t : ModuleTable) (name : String) (outer : List String) :
    t.modules ⊆ (t.add name outer).modules := by
  unfold add
  dsimp only
  split
  · exact List.Subset.refl _
  · exact List.subset_append_left t.modules _

theorem firstCounts_add :
    FirstCounts id fun (t : ModuleTable) (m : String × List String) => t.add m.1 m.2 := by
  constructor
  · rintro t m _ rfl
    refine add_eq_self_iff.2 ?_
    by_cases h : qualify m.2 m.1 ∈ t.modules
    · rwa [add_eq_self_iff.2 h]
    · simp [add, declares, h]
  · intro t m m' h
    exact add_eq_self_iff.2 (modules_subset_add t _ _ (add_eq_self_iff.1 h))

end ModuleTable

/-- The record of the method with any access. -/
def MethodRecord.withoutAccess (m : MethodRecord) : MethodRecord := { m with access := .public_ }

namespace MethodTable

theorem declare_eq_self {m : MethodRecord} {ms : List MethodRecord}
    (h : ms.any (·.name == m.name)) : declare m (some ms) = ms := by
  simp only [declare, Option.getD_some, h, if_true]

theorem any_declare (m : MethodRecord) (ms : Option (List MethodRecord)) :
    (declare m ms).any (·.name == m.name) := by
  unfold declare
  dsimp only
  split
  · assumption
  · simp

theorem subset_declare (m : MethodRecord) (ms : List MethodRecord) :
    ms ⊆ declare m (some ms) := by
  unfold declare
  dsimp only
  split
  · exact List.Subset.refl _
  · exact List.subset_append_left ms [m]

/-- Puts a method under its class; no use of it was seen yet. -/
def put (d : Dictionary (List MethodRecord)) (m : MethodRecord) : Dictionary (List MethodRecord) :=
  d.alter m.className (declare { m with used := false })

theorem firstCounts_put : FirstCounts MethodRecord.withoutAccess put := by
  refine Dictionary.firstCounts_alter (fun m m' hview => ?_) fun m m' o => ?_
  · have hname : m.name = m'.name := congrArg (·.name) hview
    refine ⟨congrArg (·.className) hview, fun o => declare_eq_self ?_⟩
    rw [← hname]
    exact any_declare { m with used := false } o
  · obtain ⟨m₀, hm₀, hname⟩ := List.any_eq_true.1 (any_declare { m with used := false } o)
    exact declare_eq_self (List.any_eq_true.2 ⟨m₀, subset_declare _ _ hm₀, hname⟩)

/-- Records a method with the access it comes with. -/
def record (t : MethodTable) (m : MethodRecord) : MethodTable :=
  t.add m.className m.name m.file m.line m.access

theorem record_of_nameless {t : MethodTable} {m : MethodRecord}
    (h : m.className = "" ∨ m.name = "") : t.record m = t := by
  simp [record, add, h]

theorem record_of_named {t : MethodTable} {m : MethodRecord}
    (h : ¬(m.className = "" ∨ m.name = "")) :
    t.record m = ⟨put t.methods m, t.calledNames⟩ := by
  simp [record, add, put, h]

theorem firstCounts_record : FirstCounts MethodRecord.withoutAccess record := by
  constructor
  · intro t m m' hview
    have hclass : m.className = m'.className := congrArg (·.className) hview
    have hname : m.name = m'.name := congrArg (·.name) hview
    by_cases h : m.className = "" ∨ m.name = ""
    · rw [record_of_nameless h, record_of_nameless (by rwa [← hclass, ← hname])]
    · rw [record_of_named h, record_of_named (by rwa [← hclass, ← hname]),
        firstCounts_put.again t.methods hview]
  · intro t m m' h
    by_cases hm : m.className = "" ∨ m.name = ""
    · exact record_of_nameless hm
    · by_cases hm' : m'.className = "" ∨ m'.name = ""
      · rwa [record_of_nameless hm']
      · rw [record_of_named hm] at h
        have hput : put t.methods m = t.methods := congrArg (·.methods) h
        rw [record_of_named hm', record_of_named hm, firstCounts_put.stays m' hput]

end MethodTable

namespace AssociationTable

/-- Records an association of a model. -/
def record (t : AssociationTable) (a : String × String × Association) : AssociationTable :=
  ⟨t.associations.alter a.1 fun d => (d.getD {}).insert a.2.1 a.2.2⟩

theorem lastCounts_record : LastCounts record where
  again t a := congrArg mk (Dictionary.lastCounts_insertIn.again t.associations a)
  other t a a' := (Dictionary.lastCounts_insertIn.other t.associations a a').imp
    (congrArg mk) (congrArg mk)

end AssociationTable

namespace AttributeTable

/-- Records the type of an attribute of a model. -/
def record (t : AttributeTable) (a : String × String × String) : AttributeTable :=
  t.add a.1 a.2.1 a.2.2

theorem lastCounts_record : LastCounts record where
  again t a := congrArg mk (Dictionary.lastCounts_insertIn.again t.attributes a)
  other t a a' := (Dictionary.lastCounts_insertIn.other t.attributes a a').imp
    (congrArg mk) (congrArg mk)

end AttributeTable

/-- What there is to record, table by table. -/
structure Facts where
  models : List ClassRecord := []
  controllers : List ClassRecord := []
  /-- Modules with those around them. -/
  helpers : List (String × List String) := []
  modelMethods : List MethodRecord := []
  controllerMethods : List MethodRecord := []
  helperMethods : List MethodRecord := []
  /-- Models with the names of their associations. -/
  associations : List (String × String × Association) := []
  /-- Models with the names of their attributes. -/
  attributes : List (String × String × String) := []
  gems : List (String × String) := []
  settings : List (String × String) := []

namespace Facts

instance : Append Facts where
  append f g :=
    ⟨f.models ++ g.models, f.controllers ++ g.controllers, f.helpers ++ g.helpers,
      f.modelMethods ++ g.modelMethods, f.controllerMethods ++ g.controllerMethods,
      f.helperMethods ++ g.helperMethods, f.associations ++ g.associations,
      f.attributes ++ g.attributes, f.gems ++ g.gems, f.settings ++ g.settings⟩

/-- The facts but for the access of the methods. -/
def withoutAccess (f : Facts) : Facts :=
  { f with
    modelMethods := f.modelMethods.map (·.withoutAccess)
    controllerMethods := f.controllerMethods.map (·.withoutAccess)
    helperMethods := f.helperMethods.map (·.withoutAccess) }

theorem append_def (f g : Facts) : f ++ g =
    ⟨f.models ++ g.models, f.controllers ++ g.controllers, f.helpers ++ g.helpers,
      f.modelMethods ++ g.modelMethods, f.controllerMethods ++ g.controllerMethods,
      f.helperMethods ++ g.helperMethods, f.associations ++ g.associations,
      f.attributes ++ g.attributes, f.gems ++ g.gems, f.settings ++ g.settings⟩ := rfl

theorem append_assoc (f g h : Facts) : f ++ g ++ h = f ++ (g ++ h) := by
  simp only [append_def, List.append_assoc]

theorem nil_append (f : Facts) : {} ++ f = f := rfl

theorem append_nil (f : Facts) : f ++ {} = f := by
  simp only [append_def, List.append_nil]

theorem withoutAccess_append (f g : Facts) :
    (f ++ g).withoutAccess = f.withoutAccess ++ g.withoutAccess := by
  simp only [append_def, withoutAccess, List.map_append]

end Facts

namespace Tables

/-- Records facts in the order in which they come. -/
def record (t : Tables) (f : Facts) : Tables :=
  { t with
    models := f.models.foldl .add t.models
    controllers := f.controllers.foldl .add t.controllers
    helpers := f.helpers.foldl (fun t m => t.add m.1 m.2) t.helpers
    modelMethods := f.modelMethods.foldl .record t.modelMethods
    controllerMethods := f.controllerMethods.foldl .record t.controllerMethods
    helperMethods := f.helperMethods.foldl .record t.helperMethods
    associations := f.associations.foldl .record t.associations
    attributes := f.attributes.foldl .record t.attributes
    gems := f.gems.foldl (fun d g => d.insertNew g.1 g.2) t.gems
    settings := f.settings.foldl (fun d s => d.insert s.1 s.2) t.settings }

theorem record_nothing (t : Tables) : t.record {} = t := rfl

theorem record_append (t : Tables) (f g : Facts) : t.record (f ++ g) = (t.record f).record g := by
  simp only [record, Facts.append_def, List.foldl_append]

/-- The same facts add nothing to the tables once they are there, even if the methods come with
another access. -/
theorem record_again {f f' : Facts} (h : f'.withoutAccess = f.withoutAccess) (t : Tables) :
    (t.record f).record f' = t.record f := by
  have hmodels : f'.models = f.models := congrArg (·.models) h
  have hcontrollers : f'.controllers = f.controllers := congrArg (·.controllers) h
  have hhelpers : f'.helpers = f.helpers := congrArg (·.helpers) h
  have hassociations : f'.associations = f.associations := congrArg (·.associations) h
  have hattributes : f'.attributes = f.attributes := congrArg (·.attributes) h
  have hgems : f'.gems = f.gems := congrArg (·.gems) h
  have hsettings : f'.settings = f.settings := congrArg (·.settings) h
  simp only [record, hmodels, hcontrollers, hhelpers, hassociations, hattributes, hgems, hsettings,
    ClassTable.firstCounts_add.foldl_again rfl, ModuleTable.firstCounts_add.foldl_again rfl,
    MethodTable.firstCounts_record.foldl_again (congrArg (·.modelMethods) h),
    MethodTable.firstCounts_record.foldl_again (congrArg (·.controllerMethods) h),
    MethodTable.firstCounts_record.foldl_again (congrArg (·.helperMethods) h),
    AssociationTable.lastCounts_record.foldl_again, AttributeTable.lastCounts_record.foldl_again,
    Dictionary.firstCounts_insertNew.foldl_again rfl, Dictionary.lastCounts_insert.foldl_again]

end Tables

end RailsReview
