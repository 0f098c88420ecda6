import RailsReview.Proofs.MethodFamily
import RailsReview.Proofs.Superclass
import RailsReview.Proofs.UsedMethods

/-!
# Calls outside of all classes

A call outside of all classes shows nothing but the name of the method, so it should only be noted.
It is looked up below the class of the empty name, though, and a class without a superclass is found
there, with all that are derived from it. Here it is shown that nothing else goes wrong.
-/
namespace RailsReview

namespace ClassTable
variable {t : ClassTable} {c : ClassRecord}

theorem qualify_ne_empty (modules : List String) {name : String} (h : name ≠ "") :
    qualify modules name ≠ "" := by
  unfold qualify
  split
  · exact h
  · simp [h]

/-- Only a class that is written without a superclass has none. -/
theorem superclass_eq_empty_iff : t.superclass c = "" ↔ c.baseName = "" := by
  constructor
  · intro h
    by_contra hwritten
    rw [superclass, getLastD_superclassCandidates hwritten] at h
    cases hfound : c.superclassCandidates.find? t.declares with
    | none =>
      rw [hfound] at h
      exact hwritten h
    | some name =>
      rw [hfound] at h
      obtain rfl : name = "" := h
      have hmem := List.mem_of_find?_eq_some hfound
      rw [ClassRecord.superclassCandidates, if_neg hwritten] at hmem
      split at hmem
      · exact hwritten (List.mem_singleton.1 hmem).symm
      · rcases List.mem_append.1 hmem with hinside | hlast
        · obtain ⟨depth, -, hname⟩ := List.mem_map.1 hinside
          exact qualify_ne_empty _ hwritten hname
        · exact hwritten (List.mem_singleton.1 hlast).symm
  · intro h
    simp [superclass, ClassRecord.superclassCandidates, h]

/-- Below the empty name are the classes without a superclass and those below them. -/
theorem below_empty_iff : t.Below "" c ↔
    ∃ root ∈ t.classes, root.baseName = "" ∧ (c = root ∨ t.Below root.qualifiedName c) := by
  constructor
  · intro h
    induction h with
    | @direct c hc hsuper => exact ⟨c, hc, superclass_eq_empty_iff.1 hsuper, .inl rfl⟩
    | @further c above hc hsuper _ ih =>
      obtain ⟨root, hroot, hnone, habove⟩ := ih
      refine ⟨root, hroot, hnone, .inr ?_⟩
      rcases habove with rfl | habove
      · exact .direct hc hsuper
      · exact .further hc hsuper habove
  · rintro ⟨root, hroot, hnone, h⟩
    have hbelow : t.Below "" root := .direct hroot (superclass_eq_empty_iff.2 hnone)
    rcases h with rfl | h
    · exact hbelow
    · induction h with
      | direct hc hsuper => exact .further hc hsuper hbelow
      | further hc hsuper _ ih => exact .further hc hsuper ih

end ClassTable

namespace MethodTable

/-- A table to which methods were added and in which marks were made. -/
inductive Built : MethodTable → Prop
  | empty : Built {}
  | add {t : MethodTable} (className name : String) (file : Path) (line : Nat) (access : Access) :
      Built t → Built (t.add className name file line access)
  | mark {t : MethodTable} (x : Mark) : Built t → Built (Mark.apply t x)
  | markPublic {t : MethodTable} (className name : String) :
      Built t → Built (t.markPublic className name)

theorem Built.keyed {t : MethodTable} (h : t.Built) : t.Keyed := by
  induction h with
  | empty => exact keyed_empty
  | add className name file line access _ ih => exact ih.add className name file line access
  | mark x _ ih => exact ih.apply x
  | markPublic className name _ ih => exact ih.update className name (fun _ => rfl) fun _ => rfl

theorem keys_update (t : MethodTable) (className name : String) (f : MethodRecord → MethodRecord) :
    (t.update className name f).methods.keys = t.methods.keys := by
  simp only [Dictionary.keys, update, Dictionary.modify, List.map_map]
  apply List.map_congr_left
  intro e _
  by_cases h : e.1 = className <;> simp [h]

/-- No method is kept under the empty name. -/
theorem Built.key_ne {t : MethodTable} (h : t.Built) : ∀ key ∈ t.methods.keys, key ≠ "" := by
  induction h with
  | empty => nofun
  | @add t className name file line access _ ih =>
    unfold MethodTable.add
    split
    · exact ih
    · rename_i hnames
      have hclass : className ≠ "" := fun h => hnames (by simp [h])
      rw [Dictionary.keys, List.forall_mem_map] at ih ⊢
      exact Dictionary.forall_mem_alterEntries ih hclass fun _ _ => hclass
  | mark x _ ih =>
    cases x with
    | used className name => rwa [Mark.apply, markUsed, keys_update]
    | public_ className name => rwa [Mark.apply, publicize, keys_update]
    | called name => exact ih
  | markPublic className name _ ih => rwa [MethodTable.markPublic, keys_update]

theorem mapRecords_eq_self_iff {t : MethodTable} {f : String → MethodRecord → MethodRecord} :
    t.mapRecords f = t ↔ ∀ e ∈ t.methods.entries, ∀ m ∈ e.2, f e.1 m = m := by
  have hrecords (e : String × List MethodRecord) :
      (e.1, e.2.map (f e.1)) = id e ↔ ∀ m ∈ e.2, f e.1 m = m := by
    have hvalues : e.2.map (f e.1) = e.2 ↔ ∀ m ∈ e.2, f e.1 m = m := by
      conv_lhs => rhs; rw [← List.map_id e.2]
      exact List.map_inj_left
    rw [← hvalues, id, Prod.ext_iff]
    exact and_iff_right rfl
  constructor
  · intro h e he
    have hentries : t.methods.entries.map (fun e => (e.1, e.2.map (f e.1))) =
        t.methods.entries.map id := by
      rw [List.map_id]
      exact congrArg (·.methods.entries) h
    exact (hrecords e).1 (List.map_inj_left.1 hentries e he)
  · intro h
    have hentries : t.methods.entries.map (fun e => (e.1, e.2.map (f e.1))) =
        t.methods.entries := by
      rw [List.map_congr_left fun e he => (hrecords e).2 (h e he), List.map_id]
    rw [mapRecords, hentries]

/-- A name that is noted hides the public methods of that name, and no others. -/
theorem unused_noteCall (t : MethodTable) (name : String) (access : Option Access) :
    (t.noteCall name).unused access =
      (t.unused access).filter fun m => !(m.access == .public_ && m.name == name) := by
  rw [unused, unused, List.filter_filter]
  apply List.filter_congr
  intro m _
  have hcalled : (insertSorted name t.calledNames).contains m.name =
      (m.name == name || t.calledNames.contains m.name) := by
    rw [Bool.eq_iff_iff, List.contains_iff_mem, mem_insertSorted, Bool.or_eq_true, beq_iff_eq,
      List.contains_iff_mem]
  simp only [maybeCalled, noteCall, hcalled]
  cases m.used <;> cases m.hasAccess access <;> cases m.access == .public_ <;>
    cases m.name == name <;> cases t.calledNames.contains m.name <;> rfl

end MethodTable

namespace Tables
variable {t : Tables} {layer : Layer} {name : String}

/-- Notes a call of the method that shows nothing but its name. -/
def noteCall (t : Tables) (layer : Layer) (name : String) : Tables :=
  if name = "" then t else t.withMethods layer ((t.methodsOf layer).noteCall name)

/-- The classes that a call outside of all classes reaches: those without a superclass, those below
them, and, should a class have the empty name, the first class above it that has the method. -/
inductive ReachedOutside (t : Tables) (layer : Layer) (name : String) : String → Prop
  | root {classes : ClassTable} {root : ClassRecord} : t.classesOf? layer = some classes →
      root ∈ classes.classes → root.baseName = "" → ReachedOutside t layer name root.qualifiedName
  | derived {classes : ClassTable} {root c : ClassRecord} : t.classesOf? layer = some classes →
      root ∈ classes.classes → root.baseName = "" → classes.Below root.qualifiedName c →
      ReachedOutside t layer name c.qualifiedName
  | above {classes : ClassTable} {found : String} {steps : Nat} :
      t.classesOf? layer = some classes →
      classes.FirstAbove (fun c => (t.methodsOf layer).has c name none) found steps "" →
      ReachedOutside t layer name found

theorem callMarks_empty_iff {c : String} :
    t.CallMarks layer "" name c ↔ c = "" ∨ t.ReachedOutside layer name c := by
  constructor
  · rintro (_ | ⟨hclasses, hfirst⟩ | ⟨hclasses, hbelow⟩)
    · exact .inl rfl
    · exact .inr (.above hclasses hfirst)
    · obtain ⟨root, hroot, hnone, rfl | hderived⟩ := ClassTable.below_empty_iff.1 hbelow
      · exact .inr (.root hclasses hroot hnone)
      · exact .inr (.derived hclasses hroot hnone hderived)
  · rintro (rfl | ⟨hclasses, hroot, hnone⟩ | ⟨hclasses, hroot, hnone, hbelow⟩ | ⟨hclasses, hfirst⟩)
    · exact .own
    · exact .below hclasses (ClassTable.below_empty_iff.2 ⟨_, hroot, hnone, .inl rfl⟩)
    · exact .below hclasses (ClassTable.below_empty_iff.2 ⟨_, hroot, hnone, .inr hbelow⟩)
    · exact .above hclasses hfirst

open Classical in
/-- A call outside of all classes marks the method in the classes that it reaches. -/
theorem callMethod_empty (hbuilt : (t.methodsOf layer).Built) (hname : name ≠ "") :
    t.callMethod layer "" name = t.withMethods layer
      (((t.methodsOf layer).mapRecords fun c m =>
        if m.name = name ∧ t.ReachedOutside layer name c then { m with used := true }
        else m).noteCall name) := by
  rw [callMethod_eq_family t layer "" hname, MethodTable.foldl_markUsed]
  congr 2
  simp only [MethodTable.mapRecords, MethodTable.mk.injEq, Dictionary.mk.injEq, and_true]
  apply List.map_congr_left
  intro e he
  have hkey : e.1 ≠ "" := hbuilt.key_ne e.1 (List.mem_map_of_mem he)
  simp only [mem_family_iff, callMarks_empty_iff, hkey, false_or]

/-- A call outside of all classes is only noted exactly if all methods that it reaches are used
already. -/
theorem callMethod_empty_eq_iff (hbuilt : (t.methodsOf layer).Built) :
    t.callMethod layer "" name = t.noteCall layer name ↔
      ∀ m ∈ (t.methodsOf layer).all, m.name = name → t.ReachedOutside layer name m.className →
        m.used := by
  classical
  have hkeyed := hbuilt.keyed
  by_cases hname : name = ""
  · subst hname
    refine ⟨fun _ m hm hempty => absurd hempty (hkeyed.name_ne hm), fun _ => ?_⟩
    rw [callMethod, noteCall, if_pos rfl, if_pos rfl]
  · -- Noting the name comes after the marks, so only these can differ.
    have hmarks (f : String → MethodRecord → MethodRecord) :
        t.withMethods layer (((t.methodsOf layer).mapRecords f).noteCall name) =
            t.noteCall layer name ↔
          (t.methodsOf layer).mapRecords f = t.methodsOf layer := by
      rw [noteCall, if_neg hname]
      constructor
      · intro h
        have hnoted : ((t.methodsOf layer).mapRecords f).noteCall name =
            (t.methodsOf layer).noteCall name := by
          simpa using congrArg (·.methodsOf layer) h
        exact congrArg (MethodTable.mk · (t.methodsOf layer).calledNames)
          (congrArg (·.methods) hnoted)
      · intro h
        rw [h]
    rw [callMethod_empty hbuilt hname, hmarks, MethodTable.mapRecords_eq_self_iff]
    have hrecord {c : String} {m : MethodRecord} :
        (if m.name = name ∧ t.ReachedOutside layer name c then { m with used := true } else m) = m ↔
          (m.name = name → t.ReachedOutside layer name c → m.used = true) := by
      split
      · rename_i h
        refine ⟨fun heq _ _ => (congrArg (·.used) heq).symm, fun hused => ?_⟩
        rw [← hused h.1 h.2]
      · rename_i h
        exact iff_of_true rfl fun hm hreached => absurd ⟨hm, hreached⟩ h
    constructor
    · intro h m hm
      obtain ⟨e, he, hme⟩ := MethodTable.mem_all.1 hm
      rw [(hkeyed.records e he m hme).1]
      exact hrecord.1 (h e he m hme)
    · intro h e he m hme
      rw [hrecord, ← (hkeyed.records e he m hme).1]
      exact h m (MethodTable.mem_all.2 ⟨e, he, hme⟩)

/-- Where every class has a name and a superclass, a call outside of all classes reaches none. -/
theorem not_reachedOutside (h : ∀ classes, t.classesOf? layer = some classes →
    ∀ c ∈ classes.classes, c.qualifiedName ≠ "" ∧ c.baseName ≠ "") (c : String) :
    ¬t.ReachedOutside layer name c := by
  rintro (⟨hclasses, hroot, hnone⟩ | ⟨hclasses, hroot, hnone, -⟩ |
    @⟨classes, _, _, hclasses, hfirst⟩)
  · exact (h _ hclasses _ hroot).2 hnone
  · exact (h _ hclasses _ hroot).2 hnone
  · have hempty : "" ∈ classes.classes.map (·.qualifiedName) := by
      cases hfirst with
      | here hsuper => exact ClassTable.mem_names_of_superclassOf? hsuper
      | further hsuper => exact ClassTable.mem_names_of_superclassOf? hsuper
    obtain ⟨c, hc, hname⟩ := List.mem_map.1 hempty
    exact (h _ hclasses c hc).1 hname

theorem noteCall_unused (hkeyed : (t.methodsOf layer).Keyed) (access : Option Access) :
    ((t.noteCall layer name).methodsOf layer).unused access =
      ((t.methodsOf layer).unused access).filter
        fun m => !(m.access == .public_ && m.name == name) := by
  by_cases hname : name = ""
  · rw [noteCall, if_pos hname, eq_comm, List.filter_eq_self]
    intro m hm
    have hne := hkeyed.name_ne (List.mem_filter.1 hm).1
    simp [hname, hne]
  · rw [noteCall, if_neg hname, methodsOf_withMethods, MethodTable.unused_noteCall]

/-- A call outside of all classes is only noted, which hides public methods and no others, unless
a method is reached that was not used before: one of a class that has no superclass, or of a class
derived from such a class. Where every class has a superclass no method is reached. -/
theorem outside_call_noted (t : Tables) (layer : Layer) (name : String)
    (hbuilt : (t.methodsOf layer).Built) :
    (t.callMethod layer "" name = t.noteCall layer name ↔
      ∀ m ∈ (t.methodsOf layer).all, m.name = name → t.ReachedOutside layer name m.className →
        m.used) ∧
    ((∀ classes, t.classesOf? layer = some classes →
        ∀ c ∈ classes.classes, c.qualifiedName ≠ "" ∧ c.baseName ≠ "") →
      t.callMethod layer "" name = t.noteCall layer name) ∧
    ∀ access, ((t.noteCall layer name).methodsOf layer).unused access =
      ((t.methodsOf layer).unused access).filter
        fun m => !(m.access == .public_ && m.name == name) := by
  refine ⟨callMethod_empty_eq_iff hbuilt, fun hclasses => ?_, noteCall_unused hbuilt.keyed⟩
  rw [callMethod_empty_eq_iff hbuilt]
  exact fun m _ _ hreached => absurd hreached (not_reachedOutside hclasses m.className)

/-- A controller with this superclass and a private method. -/
def loaderTables (superclass : String) : Tables where
  controllers := ({} : ClassTable).add ⟨"PostsController", superclass, []⟩
  controllerMethods := ({} : MethodTable).add "PostsController" "load_post"
    ⟨"app/controllers/posts_controller.rb"⟩ 3 .private_

theorem built_loaderTables (superclass : String) :
    ((loaderTables superclass).methodsOf .controllers).Built :=
  MethodTable.Built.empty.add "PostsController" "load_post" ⟨"app/controllers/posts_controller.rb"⟩
    3 .private_

theorem outside_call_noted_derived :
    let t := loaderTables "ApplicationController"
    (t.methodsOf .controllers).Built ∧
      (∀ c ∈ t.controllers.classes, c.qualifiedName ≠ "" ∧ c.baseName ≠ "") ∧
      t.callMethod .controllers "" "load_post" = t.noteCall .controllers "load_post" ∧
      ((t.callMethod .controllers "" "load_post").controllerMethods.unused none).map (·.name) =
        ["load_post"] := by
  intro t
  have hbuilt := built_loaderTables "ApplicationController"
  have hclasses : ∀ c ∈ t.controllers.classes, c.qualifiedName ≠ "" ∧ c.baseName ≠ "" := by
    decide +kernel
  obtain ⟨-, hnoted, hunused⟩ := outside_call_noted t .controllers "load_post" hbuilt
  have hcall := hnoted fun classes hsome => by
    obtain rfl := Option.some.inj hsome
    exact hclasses
  refine ⟨hbuilt, hclasses, hcall, ?_⟩
  rw [hcall]
  decide +kernel

/-- A call outside of all classes can mark a private method. -/
theorem outside_call_marks_private :
    let t := loaderTables ""
    (t.methodsOf .controllers).Built ∧
      t.callMethod .controllers "" "load_post" ≠ t.noteCall .controllers "load_post" ∧
      (t.controllerMethods.all.map fun m => (m.name, m.access, m.used)) =
        [("load_post", .private_, false)] ∧
      ((t.callMethod .controllers "" "load_post").controllerMethods.all.map
        fun m => (m.name, m.access, m.used)) = [("load_post", .private_, true)] := by
  classical
  intro t
  have hbuilt : (t.methodsOf .controllers).Built := built_loaderTables ""
  have hroot : (⟨"PostsController", "", []⟩ : ClassRecord) ∈ t.controllers.classes :=
    List.mem_singleton_self _
  have hreached : t.ReachedOutside .controllers "load_post" "PostsController" :=
    .root rfl hroot rfl
  have hall : t.controllerMethods.all = [⟨"PostsController", "load_post", .private_,
      ⟨"app/controllers/posts_controller.rb"⟩, 3, false⟩] := rfl
  refine ⟨hbuilt, fun hnoted => ?_, rfl, ?_⟩
  · have hused := (callMethod_empty_eq_iff hbuilt).1 hnoted _
      (hall ▸ List.mem_singleton_self _) rfl hreached
    cases hused
  · have hmarked : (t.methodsOf .controllers).mapRecords (fun c m =>
        if m.name = "load_post" ∧ t.ReachedOutside .controllers "load_post" c then
          { m with used := true } else m) =
        ⟨⟨[("PostsController", [⟨"PostsController", "load_post", .private_,
          ⟨"app/controllers/posts_controller.rb"⟩, 3, true⟩])]⟩, []⟩ := by
      have hentries : (t.methodsOf .controllers).methods.entries = [("PostsController",
        [⟨"PostsController", "load_post", .private_, ⟨"app/controllers/posts_controller.rb"⟩, 3,
          false⟩])] := rfl
      rw [MethodTable.mapRecords, hentries]
      simp only [List.map_cons, List.map_nil, hreached, and_self, if_true]
      rfl
    rw [callMethod_empty hbuilt (by decide), hmarked]
    rfl

end Tables
end RailsReview
