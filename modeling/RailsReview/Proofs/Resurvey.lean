import RailsReview.Proofs.ClassSurvey
import RailsReview.Proofs.Repetition
import RailsReview.Survey.Definitions
import RailsReview.Survey.Project

/-!
# Repeated surveys

In a file that is sent to a survey once more, the survey finds no fact that is not in the tables
yet, whatever it saw before, and even if something else was still open in it.
-/
namespace RailsReview
variable {ν : Type}

namespace Survey
open Handler

/-- The same classes and modules are open. -/
def SameOpen (s s' : DefinitionScope) : Prop := s.classes.enclosures = s'.classes.enclosures

theorem steady_tracking {spec : Spec ν DefinitionScope}
    (h : spec.AllAt fun _ _ g => g.Steady SameOpen fun _ _ => True) :
    (spec.trackDefinitions .whole).AllAt fun _ _ g => g.Steady SameOpen fun _ _ => True :=
  Spec.steady_definitions id (fun _ h => h) (fun _ _ => trivial) h

theorem idempotent_definitions {spec : Spec ν DefinitionScope} (htracks : spec.Tracks modelClasses)
    (hsteady : spec.AllAt fun _ _ g => g.Steady SameOpen fun _ _ => True)
    (htext : spec.onText = []) (s : DefinitionScope) (ds : List Diagnostic) :
    (⟨spec, s, ds⟩ : Check ν).Idempotent := by
  have hresumes := htracks.resumes (fun _ => trivial) (fun _ _ => trivial) hsteady
  refine hresumes.idempotent
    (fun _ _ => ⟨.done, Call.reads_text_of_nil htext _ _, hresumes.done⟩) (fun hr => ?_) ds
  exact hr.record_again (fun hkept => hkept.1.symm) s

section Models
variable (ignored : List FilePattern)

/-- What a command in the body of a model declares. -/
def declaredFacts (site : Site) (n : Node) (scope : DefinitionScope) : Facts :=
  let className := scope.classes.className
  let name := n.callArguments.head?
  let message := n.messageText
  if className = "" then {}
  else if definingCommands.contains message then
    let line := ((name.bind Node.line?).or site.line).getD 0
    { modelMethods :=
        [⟨className, Node.textOf name, scope.access.current, site.path, line, false⟩] }
  else if singularAssociations.contains message || collectionAssociations.contains message then
    let target := some (Node.optionText n.options? "class_name")
    { associations := [(className, Node.textOf name,
        ⟨message, AssociationTable.targetClass (Node.textOf name) target⟩)] }
  else if message = "field" then
    { attributes := [(className, Node.textOf name, fieldType n)] }
  else if message = "key" then
    { attributes := [(className, Node.textOf name, Node.textOf n.callArguments[1]?)] }
  else {}

theorem addDeclared_eq (site : Site) (n : Node) (scope : DefinitionScope) (t : Tables) :
    addDeclared site n scope t = t.record (declaredFacts site n scope) := by
  unfold addDeclared declaredFacts
  dsimp only
  split_ifs <;> rfl

theorem declaredFacts_congr {s s' : DefinitionScope} (h : SameOpen s s') (site : Site) (n : Node) :
    (declaredFacts site n s).withoutAccess = (declaredFacts site n s').withoutAccess := by
  unfold declaredFacts
  rw [ClassScope.className_congr h]
  dsimp only
  split_ifs <;> rfl

theorem steady_addDefined (name : Node → Option Node) (access : DefinitionScope → Access) :
    (record (ν := ν) (addDefined name access)).Steady SameOpen fun _ _ => True := by
  refine steady_record (fun site n scope => { modelMethods := [⟨scope.classes.className,
      Node.textOf (name n), access scope, site.path,
      (((name n).bind Node.line?).or site.line).getD 0, false⟩] })
    (fun _ _ _ _ => rfl) (fun site n s s' h => ?_) fun _ => trivial
  rw [ClassScope.className_congr h]
  rfl

theorem steady_models : (models (ν := ν) ignored).spec.AllAt fun _ _ g =>
    g.Steady SameOpen fun _ _ => True := by
  unfold models
  refine steady_tracking .start |>.interestedIn _ |>.on ?_ |>.on (steady_addDefined _ _)
    |>.on (steady_addDefined _ _) |>.on (steady_addDefined _ _) |>.on ?_
  · refine steady_record (fun _ _ scope => { models := scope.classes.class?.toList })
      (fun _ _ scope t => ?_) (fun _ _ s s' h => ?_) fun _ => trivial
    · cases scope.classes.class? <;> rfl
    · rw [ClassScope.class?_congr h]
  · exact steady_record declaredFacts addDeclared_eq
      (fun site n _ _ h => declaredFacts_congr h site n) fun _ => trivial

end Models

section Helpers
variable (ignored : List FilePattern)

theorem tracks_helpers : (helpers (ν := ν) ignored).spec.Tracks modelClasses :=
  Spec.tracks_start (fun _ _ => rfl) |>.trackAccess (fun _ _ _ _ _ => rfl) |>.interestedIn _
    |>.on (fun _ _ _ _ => rfl) |>.on (fun _ _ _ _ => rfl)

/-- The innermost module with those around it. -/
def helper? (scope : ClassScope) : Option (String × List String) :=
  scope.enclosures.head?.map fun e => (e.name, scope.names.dropLast)

theorem addHelper_eq (scope : ClassScope) (t : ModuleTable) :
    addHelper scope t = (helper? scope).toList.foldl (fun t m => t.add m.1 m.2) t := by
  unfold addHelper helper?
  cases scope.enclosures <;> rfl

theorem steady_helpers : (helpers (ν := ν) ignored).spec.AllAt fun _ _ g =>
    g.Steady SameOpen fun _ _ => True := by
  unfold helpers
  refine steady_tracking .start |>.interestedIn _ |>.on ?_ |>.on ?_
  · refine steady_record (fun _ _ scope => { helpers := (helper? scope.classes).toList })
      (fun _ _ scope t => ?_) (fun _ _ s s' h => ?_) fun _ => trivial
    · rw [addHelper_eq]
      rfl
    · rw [helper?, helper?, ClassScope.names_congr h, h]
  · refine steady_record (fun site n scope => { helperMethods := [⟨scope.classes.moduleName,
        Node.textOf n.methodName?, scope.access.current, site.path,
        (n.methodName?.bind Node.line?).getD 0, false⟩] })
      (fun _ _ _ _ => rfl) (fun site n s s' h => ?_) fun _ => trivial
    rw [ClassScope.moduleName_congr h]
    rfl

end Helpers

section Controllers
variable (ignored : List FilePattern)

/-- The same is open and inherits the same, the outermost `outside` classes apart. -/
structure SameInheritance (outside : Nat) (s s' : ControllerScope) : Prop where
  opened : SameOpen s.definitions s'.definitions
  inherits : ∃ inner outer outer', s.inheritances = inner ++ outer ∧
    s'.inheritances = inner ++ outer' ∧ outer.length = outside ∧ outer'.length = outside

namespace SameInheritance
variable {outside : Nat} {s s' : ControllerScope} (h : SameInheritance outside s s')
include h

theorem le_length : outside ≤ s.inheritances.length := by
  obtain ⟨inner, outer, -, hs, -, hlength, -⟩ := h.inherits
  rw [hs, List.length_append, hlength]
  exact Nat.le_add_left outside inner.length

theorem head? (hinside : outside < s.inheritances.length) :
    s.inheritances.head? = s'.inheritances.head? := by
  obtain ⟨inner, outer, outer', hs, hs', hlength, -⟩ := h.inherits
  cases inner with
  | nil =>
    rw [hs, List.nil_append, hlength] at hinside
    exact absurd hinside (Nat.lt_irrefl outside)
  | cons i inner =>
    rw [hs, hs']
    rfl

theorem defined (n : Node) :
    s.definitions.classes.defined n = s'.definitions.classes.defined n := by
  rw [ClassScope.defined, ClassScope.defined, ClassScope.names_congr h.opened]

end SameInheritance

/-- What the outer classes inherit is the same. -/
def OuterKept (s s' : ControllerScope) : Prop :=
  ∃ f, s'.inheritances = s.inheritances.modifyHead f

theorem outerKept_refl (s : ControllerScope) : OuterKept s s :=
  ⟨id, (congrFun List.modifyHead_id s.inheritances).symm⟩

theorem OuterKept.trans {s s' s'' : ControllerScope} (h : OuterKept s s') (h' : OuterKept s' s'') :
    OuterKept s s'' := by
  obtain ⟨f, hf⟩ := h
  obtain ⟨g, hg⟩ := h'
  refine ⟨g ∘ f, ?_⟩
  rw [hg, hf, List.modifyHead_modifyHead]

theorem exists_readCommand (n : Node) : ∃ f, ∀ s : ControllerScope,
    (s.readCommand n).inheritances = s.inheritances.modifyHead f := by
  unfold ControllerScope.readCommand
  split
  · exact ⟨_, fun _ => rfl⟩
  · split
    · exact ⟨_, fun _ => rfl⟩
    · exact ⟨id, fun s => (congrFun List.modifyHead_id s.inheritances).symm⟩

theorem exists_readName (n : Node) : ∃ f, ∀ s : ControllerScope,
    (s.readName n).inheritances = s.inheritances.modifyHead f := by
  unfold ControllerScope.readName
  split
  · exact ⟨_, fun _ => rfl⟩
  · exact ⟨id, fun s => (congrFun List.modifyHead_id s.inheritances).symm⟩

variable {outside : Nat}

theorem steady_inheriting {f : Node → ControllerScope → ControllerScope}
    (hdefinitions : ∀ n s, (f n s).definitions = s.definitions)
    (hinheritances : ∀ n, ∃ g, ∀ s, (f n s).inheritances = s.inheritances.modifyHead g) :
    (update (ν := ν) f).Steady (SameInheritance outside) OuterKept := by
  refine steady_update (fun n s s' h => ⟨?_, ?_⟩) fun n s => ?_
  · rw [hdefinitions, hdefinitions]
    exact h.opened
  · obtain ⟨g, hg⟩ := hinheritances n
    obtain ⟨inner, outer, outer', hs, hs', hlength, hlength'⟩ := h.inherits
    rw [hg, hg, hs, hs']
    cases inner with
    | nil =>
      refine ⟨[], outer.modifyHead g, outer'.modifyHead g, rfl, rfl, ?_, ?_⟩
      · rw [List.length_modifyHead, hlength]
      · rw [List.length_modifyHead, hlength']
    | cons i inner => exact ⟨g i :: inner, outer, outer', rfl, rfl, hlength, hlength'⟩
  · obtain ⟨g, hg⟩ := hinheritances n
    exact ⟨g, hg s⟩

theorem steady_controllers : (controllers (ν := ν) ignored).spec.AllAt fun _ k g =>
    k = .classDef ∨ g.Steady (SameInheritance outside) OuterKept := by
  have tracking {spec : Spec ν ControllerScope}
      (h : spec.AllAt fun _ _ g => g.Steady (SameInheritance outside) OuterKept) :
      (spec.trackDefinitions ⟨(·.definitions), fun d s => { s with definitions := d }⟩).AllAt
        fun _ k g => k = .classDef ∨ g.Steady (SameInheritance outside) OuterKept :=
    (Spec.steady_definitions (·.opened) (fun h hd => ⟨hd, h.inherits⟩)
      (fun s _ => outerKept_refl s) h).mono fun _ _ _ => .inr
  unfold controllers
  refine (tracking .start).interestedIn _ |>.on (.inl rfl) |>.on (.inl rfl) |>.on (.inr ?_)
    |>.on (.inr ?_) |>.on (.inr ?_) |>.on (.inl rfl) |>.on (.inl rfl)
  · refine steady_record (fun site n scope => { controllerMethods :=
        [⟨scope.definitions.classes.className, Node.textOf n.methodName?,
          scope.definitions.access.current, site.path, (n.methodName?.bind Node.line?).getD 0,
          false⟩] }) (fun _ _ _ _ => rfl) (fun site n s s' h => ?_) outerKept_refl
    rw [ClassScope.className_congr h.opened]
    rfl
  · exact steady_inheriting definitions_readCommand exists_readCommand
  · exact steady_inheriting definitions_readName exists_readName

/-- What entering a class comes to. -/
def enteringClass (n : Node) : Reading ControllerScope := fun s =>
  let entered : DefinitionScope :=
    ⟨s.definitions.classes.enterClass n, s.definitions.access.openSection⟩
  ({ s with definitions := entered }.openClass,
    { controllers := [s.definitions.classes.defined n] })

theorem inheritances_enteringClass (n : Node) (s : ControllerScope) :
    (enteringClass n s).1.inheritances =
      ⟨(s.definitions.classes.defined n).baseName == InheritedResources.base, none⟩ ::
        s.inheritances := rfl

/-- The methods that the class that was just left inherits. -/
def inheritedMethods (site : Site) (scope : ControllerScope) : List MethodRecord :=
  match scope.definitions.classes.lastClosed? with
  | some c => scope.inheritedActions.map fun action =>
    ⟨c.qualifiedName, action, .public_, site.path, site.line.getD 0, false⟩
  | none => []

theorem addInherited_eq (site : Site) (scope : ControllerScope) (t : MethodTable) :
    addInherited site scope t = (inheritedMethods site scope).foldl .record t := by
  unfold addInherited inheritedMethods
  cases scope.definitions.classes.lastClosed? with
  | none => rfl
  | some c => rw [List.foldl_map]; rfl

/-- What leaving a class comes to. -/
def leavingClass (site : Site) : Reading ControllerScope := fun s =>
  let left : ControllerScope := { s with
    definitions := ⟨s.definitions.classes.leave, s.definitions.access.closeSection⟩ }
  (left.closeClass, { controllerMethods := inheritedMethods site left })

theorem SameInheritance.entered {s s' : ControllerScope} (h : SameInheritance outside s s')
    (n : Node) : SameInheritance outside (enteringClass n s).1 (enteringClass n s').1 := by
  obtain ⟨inner, outer, outer', hs, hs', hlength, hlength'⟩ := h.inherits
  refine ⟨ClassScope.enclosures_enterClass_congr h.opened n, ?_⟩
  rw [inheritances_enteringClass, inheritances_enteringClass, hs, hs', h.defined n]
  exact ⟨_ :: inner, outer, outer', rfl, rfl, hlength, hlength'⟩

section Leaving
variable {n : Node} {s b : ControllerScope}
  (hb : Spec.Restores controllerClasses OuterKept (enteringClass n s).1 b)
include hb

/-- What was entered is on top again when the class is left. -/
theorem leave_of_restores : b.definitions.classes.leave =
    ⟨s.definitions.classes.enclosures, some (s.definitions.classes.defined n)⟩ :=
  ClassScope.leave_of_class hb.1

theorem inheritances_of_restores : ∃ i, b.inheritances = i :: s.inheritances := by
  obtain ⟨f, hf⟩ := hb.2
  exact ⟨_, hf⟩

theorem inheritances_leavingClass (site : Site) :
    (leavingClass site b).1.inheritances = s.inheritances := by
  obtain ⟨i, hi⟩ := inheritances_of_restores hb
  simp only [leavingClass, ControllerScope.closeClass, hi, List.tail_cons]

theorem enclosures_leavingClass (site : Site) :
    (leavingClass site b).1.definitions.classes.enclosures = s.definitions.classes.enclosures := by
  simp only [leavingClass, ControllerScope.closeClass, leave_of_restores hb]

theorem facts_leavingClass {s' b' : ControllerScope}
    (hb' : Spec.Restores controllerClasses OuterKept (enteringClass n s').1 b')
    (hs : SameInheritance outside s s') (h : SameInheritance outside b b') (site : Site) :
    (leavingClass site b).2 = (leavingClass site b').2 := by
  -- The class itself is never among those that are left out of the comparison.
  have hinside : outside < b.inheritances.length := by
    obtain ⟨i, hi⟩ := inheritances_of_restores hb
    rw [hi, List.length_cons]
    exact Nat.lt_succ_of_le hs.le_length
  simp only [leavingClass, inheritedMethods, leave_of_restores hb, leave_of_restores hb',
    hs.defined n, ControllerScope.inheritedActions, h.head? hinside]

end Leaving

theorem steady_class (n : Node) (site : Site) {inside : Reading ControllerScope}
    (hinside : inside.Steady (SameInheritance outside)
      (Spec.Restores controllerClasses OuterKept)) :
    ((enteringClass n).andThen (inside.andThen (leavingClass site))).Steady
      (SameInheritance outside) (Spec.Restores controllerClasses OuterKept) := by
  have hkept (s : ControllerScope) := hinside.kept (enteringClass n s).1
  refine ⟨fun {s s'} h => ⟨?_, ?_⟩, fun {s s'} h => ?_, fun s => ⟨?_, id, ?_⟩⟩
  · simp only [Reading.andThen, SameOpen, enclosures_leavingClass (hkept _)]
    exact h.opened
  · simp only [Reading.andThen, inheritances_leavingClass (hkept _)]
    exact h.inherits
  · have hclasses : (enteringClass n s).2 = (enteringClass n s').2 := by
      simp only [enteringClass, h.defined n]
    have hmethods := facts_leavingClass (hkept s) (hkept s') h (hinside.agree (h.entered n)) site
    simp only [Reading.andThen, Facts.withoutAccess_append, hclasses,
      hinside.facts (h.entered n), hmethods]
  · exact enclosures_leavingClass (hkept s) site
  · simp only [Reading.andThen, inheritances_leavingClass (hkept _), List.modifyHead_id, id]

theorem resumesAt_class {n : Node} (hclass : n.kind = .classDef) (file : Path) :
    (controllers (ν := ν) ignored).spec.ResumesAt
      (·.Steady (SameInheritance outside) (Spec.Restores controllerClasses OuterKept)) file n
      (enteringClass n) (leavingClass ⟨some file, n.line?⟩) where
  enter s ds t := by
    simp [Call.answer, Run.runCheck, hclass, controllers, Spec.trackDefinitions,
      Spec.trackClasses, Spec.trackAccess, Spec.sectionKinds, Run.handleAll, Handler.update,
      Handler.record, Field.modify, Field.inside, ClassScope.class?_enterClass, enteringClass,
      Tables.record]
  exit s ds t := by
    simp [Call.answer, Run.runCheck, hclass, controllers, Spec.trackDefinitions,
      Spec.trackClasses, Spec.trackAccess, Spec.sectionKinds, Run.handleAll, Handler.update,
      Handler.record, Field.modify, Field.inside, leavingClass, Tables.record, addInherited_eq]
  whole := steady_class n _

theorem resumes_controllers (outside : Nat) : (controllers (ν := ν) ignored).spec.Resumes
    (·.Steady (SameInheritance outside) (Spec.Restores controllerClasses OuterKept)) := by
  obtain ⟨later, htracks⟩ := tracks_controllers (ν := ν) ignored
  refine Spec.resumes_steady (fun s => ⟨rfl, outerKept_refl s⟩)
    (fun h h' => ⟨h'.1.trans h.1, h.2.trans h'.2⟩) fun file n _ => ?_
  by_cases hclass : n.kind = .classDef
  · exact ⟨_, _, resumesAt_class ignored hclass file⟩
  · refine htracks.resumesAt outerKept_refl (fun h h' => h.trans h') (fun phase g hg => ?_) file
    exact ((steady_controllers ignored).handlers g hg).resolve_left hclass

theorem idempotent_controllers (s : ControllerScope) (ds : List Diagnostic) :
    (⟨(controllers ignored).spec, s, ds⟩ : Check ν).Idempotent := by
  -- All that is open in `s` is outside of the file.
  have hresumes := resumes_controllers (ν := ν) ignored s.inheritances.length
  refine hresumes.idempotent (fun _ _ => ⟨.done, Call.reads_text_of_nil rfl _ _, hresumes.done⟩)
    (fun {r} hr t => Tables.record_again (hr.facts ?_).symm t) ds
  obtain ⟨hopen, f, hf⟩ := hr.kept s
  refine ⟨hopen.symm, [], s.inheritances, (r s).1.inheritances, rfl, rfl, rfl, ?_⟩
  rw [hf, List.length_modifyHead]

end Controllers

section Schema
variable (ignored : List FilePattern)

/-- The columns that a call declares, as attributes of the model. -/
def columnFacts (model? : Option String) (n : Node) : Facts :=
  { attributes := model?.elim [] fun model =>
      (Schema.columns n).map fun c => (model, c.name, c.type) }

theorem addColumns_eq (model? : Option String) (n : Node) (t : Tables) :
    { t with attributes := addColumns model? n t.attributes } =
      t.record (columnFacts model? n) := by
  unfold addColumns columnFacts Tables.record
  cases model? with
  | none => rfl
  | some model =>
    simp only [Option.elim_some, List.foldl_map]
    rfl

/-- What entering a block comes to. -/
def enteringBlock (n : Node) : Reading (Option String) := fun s =>
  (if createsTable n then some (modelOf n) else s, {})

/-- What leaving a block comes to. -/
def leavingBlock (n : Node) : Reading (Option String) := fun s =>
  (if createsTable n then none else s, {})

/-- A table that was open is still open or has given way to none. Where it gave way, what follows is
what would have been found without it; where it did not, nothing would have been found. -/
def GivesWay (r : Reading (Option String)) : Prop :=
  ∀ s, (∃ f, (r s).2 = f ++ (r none).2) ∧ ((r s).1 = none ∨ (r s).1 = s ∧ (r none).2 = {})

namespace GivesWay
variable {r q : Reading (Option String)}

theorem fst_none (hr : GivesWay r) : (r none).1 = none := (hr none).2.elim id (·.1)

theorem done : GivesWay .done := fun _ => ⟨⟨{}, rfl⟩, .inr ⟨rfl, rfl⟩⟩

theorem andThen (hr : GivesWay r) (hq : GivesWay q) : GivesWay (r.andThen q) := by
  intro s
  obtain ⟨⟨f, hf⟩, hstate⟩ := hr s
  simp only [Reading.andThen, hr.fst_none]
  rcases hstate with hnone | ⟨hsame, hnothing⟩
  · rw [hnone, hf, Facts.append_assoc]
    exact ⟨⟨f, rfl⟩, .inl hq.fst_none⟩
  · obtain ⟨⟨g, hg⟩, hstate⟩ := hq s
    rw [hsame, hg, hnothing, Facts.nil_append]
    exact ⟨⟨(r s).2 ++ g, (Facts.append_assoc _ _ _).symm⟩, hstate⟩

theorem block (n : Node) (hr : GivesWay r) :
    GivesWay ((enteringBlock n).andThen (r.andThen (leavingBlock n))) := by
  intro s
  by_cases hcreates : createsTable n
  · simp only [Reading.andThen, enteringBlock, leavingBlock, hcreates, if_true]
    exact ⟨⟨{}, (Facts.nil_append _).symm⟩, .inl trivial⟩
  · have henter : enteringBlock n = .done := by
      funext s
      simp only [enteringBlock, hcreates, Bool.false_eq_true, if_false, Reading.done]
    have hleave : leavingBlock n = .done := by
      funext s
      simp only [leavingBlock, hcreates, Bool.false_eq_true, if_false, Reading.done]
    rw [henter, hleave]
    exact done.andThen (hr.andThen done) s

theorem record_again (hr : GivesWay r) (s : Option String) (t : Tables) :
    (t.record (r s).2).record (r (r s).1).2 = t.record (r s).2 := by
  obtain ⟨⟨f, hf⟩, hnone | ⟨hsame, -⟩⟩ := hr s
  · rw [hnone, hf, Tables.record_append, Tables.record_again rfl]
  · rw [hsame, Tables.record_again rfl]

end GivesWay

theorem resumesAt_block {n : Node} (hblock : n.kind = .methodAddBlock) (file : Path) :
    (schema (ν := ν) ignored).spec.ResumesAt GivesWay file n (enteringBlock n)
      (leavingBlock n) where
  enter s ds t := by
    simp [Call.answer, Run.runCheck, hblock, schema, Run.handleAll, Handler.update, enteringBlock,
      Tables.record_nothing]
  exit s ds t := by
    simp [Call.answer, Run.runCheck, hblock, schema, Run.handleAll, Handler.update, leavingBlock,
      Tables.record_nothing]
  whole := .block n

theorem resumesAt_column {n : Node} (hcall : n.kind = .commandCall) (file : Path) :
    (schema (ν := ν) ignored).spec.ResumesAt GivesWay file n (fun s => (s, columnFacts s n))
      .done where
  enter s ds t := by
    simp [Call.answer, Run.runCheck, hcall, schema, Run.handleAll, Handler.record, addColumns_eq]
  exit s ds t := by
    simp [Call.answer, Run.runCheck, hcall, schema, Run.handleAll, Reading.done,
      Tables.record_nothing]
  whole hr := by
    have hcolumn : GivesWay fun s => (s, columnFacts s n) :=
      fun s => ⟨⟨columnFacts s n, (Facts.append_nil _).symm⟩, .inr ⟨rfl, rfl⟩⟩
    exact hcolumn.andThen (hr.andThen .done)

theorem resumes_schema : (schema (ν := ν) ignored).spec.Resumes GivesWay := by
  refine ⟨.done, .andThen, fun file n hkind => ?_⟩
  have hkinds : n.kind = .methodAddBlock ∨ n.kind = .commandCall := by
    simpa [schema] using hkind
  rcases hkinds with hblock | hcall
  · exact ⟨_, _, resumesAt_block ignored hblock file⟩
  · exact ⟨_, _, resumesAt_column ignored hcall file⟩

theorem idempotent_schema (s : Option String) (ds : List Diagnostic) :
    (⟨(schema ignored).spec, s, ds⟩ : Check ν).Idempotent :=
  (resumes_schema ignored).idempotent (fun _ _ => ⟨.done, Call.reads_text_of_nil rfl _ _, .done⟩)
    (fun hr => hr.record_again s) ds

end Schema

section Stateless
variable (ignored : List FilePattern)

/-- A survey without a state of its own. -/
theorem idempotent_unit {spec : Spec ν Unit}
    (h : spec.All fun g => g.Steady (fun _ _ => True) fun _ _ => True) (s : Unit)
    (ds : List Diagnostic) : (⟨spec, s, ds⟩ : Check ν).Idempotent := by
  have hresumes : spec.Resumes (·.Steady (fun _ _ => True) fun _ _ => True) := by
    refine Spec.resumes_steady (fun _ => trivial) (fun _ _ => trivial) fun file n _ => ?_
    exact Spec.resumesAt_of_steady (fun _ => trivial) (fun _ _ => trivial)
      (fun phase => h.handlers phase n.kind) file
  exact hresumes.idempotent
    (Call.reads_text (fun _ => trivial) (fun _ _ => trivial) h.onText)
    (fun hr => hr.record_again id s) ds

theorem steady_settings : (settings (ν := ν) ignored).spec.All fun g =>
    g.Steady (fun _ _ => True) fun _ _ => True := by
  refine Spec.All.start |>.interestedIn _ |>.on _ _ ?_
  refine steady_record (fun _ n _ => { settings := (setting? n).toList }) (fun _ n _ t => ?_)
    (fun _ _ _ _ _ => rfl) fun _ => trivial
  cases setting? n <;> rfl

theorem steady_gems : (gems (ν := ν) ignored).spec.All fun g =>
    g.Steady (fun _ _ => True) fun _ _ => True := by
  refine Spec.All.start |>.withText ?_
  exact steady_record (fun _ content _ => { gems := lockedGems content }) (fun _ _ _ _ => rfl)
    (fun _ _ _ _ _ => rfl) fun _ => trivial

end Stateless

/-- The surveys that record each fact once, however often they find it. The survey of routes is not
among them: it lists a route as often as it is declared. -/
def recording (ignored : List FilePattern) : List (Check ν) :=
  [models ignored, controllers ignored, helpers ignored, schema ignored, settings ignored,
    gems ignored]

end Survey

open Survey

/-- Sending a tree or a text twice in a row to one of these surveys leaves the tables as sending it
once does, whatever they hold. The survey may be in any state that files sent before have led to,
and in any other. -/
theorem resurvey_changes_nothing (ignored : List FilePattern) {c₀ c : Check ν}
    (h₀ : c₀ ∈ recording ignored) (hc : c₀.design = c.design) : c.Idempotent := by
  obtain ⟨s, ds, rfl⟩ := Check.eq_of_design_eq hc
  simp only [recording, List.mem_cons, List.not_mem_nil, or_false] at h₀
  rcases h₀ with rfl | rfl | rfl | rfl | rfl | rfl
  · exact idempotent_definitions (tracks_models ignored) (steady_models ignored) rfl s ds
  · exact idempotent_controllers ignored s ds
  · exact idempotent_definitions (tracks_helpers ignored) (steady_helpers ignored) rfl s ds
  · exact idempotent_schema ignored s ds
  · exact idempotent_unit (steady_settings ignored) s ds
  · exact idempotent_unit (steady_gems ignored) s ds

/-- A survey of controllers that was stopped in the middle of one. -/
def stoppedControllers : Check Empty where
  spec := (controllers []).spec
  state :=
    { definitions :=
        { classes := ⟨[.class_ ⟨"DraftsController", InheritedResources.base, []⟩], none⟩ }
      inheritances := [{ inherits := true }] }

def postsFile : Path := ⟨"app/controllers/posts_controller.rb"⟩

theorem resurvey_changes_nothing_stopped :
    controllers [] ∈ recording (ν := Empty) [] ∧
    (controllers []).design = stoppedControllers.design ∧
    ∃ c₁ c₂ t,
      Run.tree adminModule postsFile ⟨[stoppedControllers], {}, []⟩ = (⟨[c₁], t, []⟩, none) ∧
      Run.tree adminModule postsFile ⟨[c₁], t, []⟩ = (⟨[c₂], t, []⟩, none) ∧
      t.controllerMethods.has "DraftsController::Admin::PostsController" "show" none := by
  have hmem : controllers [] ∈ recording (ν := Empty) [] := by simp [recording]
  have hdesign : (controllers []).design = stoppedControllers.design := rfl
  obtain ⟨c₁, c₂, t, honce, hagain⟩ :=
    resurvey_changes_nothing [] hmem hdesign (.tree postsFile adminModule) {} []
  have hhas : (Run.tree adminModule postsFile
      ⟨[stoppedControllers], {}, []⟩).1.tables.controllerMethods.has
        "DraftsController::Admin::PostsController" "show" none := by decide +kernel
  rw [show Run.tree adminModule postsFile ⟨[stoppedControllers], {}, []⟩ = _ from honce] at hhas
  exact ⟨hmem, hdesign, c₁, c₂, t, honce, hagain, hhas⟩

end RailsReview
