import Mathlib.Data.List.TakeWhile
import RailsReview.Proofs.ClassScope
import RailsReview.Proofs.Recording
import RailsReview.Survey.Definitions

/-!
# Lexical surveys

The surveys of controllers and of models register every class, and every method under the class
around its definition, as the tree has it.
-/
namespace RailsReview
variable {ν : Type}

namespace MethodTable

theorem has_add (t : MethodTable) {className name : String} (hclass : className ≠ "")
    (hname : name ≠ "") (file : Path) (line : Nat) (access : Access) :
    (t.add className name file line access).has className name none := by
  have hdeclared (m : MethodRecord) (ms : Option (List MethodRecord)) :
      ((declare m ms).find? (·.name == m.name)).isSome :=
    List.find?_isSome.2 (List.any_eq_true.1 (any_declare m ms))
  obtain ⟨old, hold⟩ := t.methods.get?_alter_self className
    (declare ⟨className, name, access, file, line, false⟩)
  have hall (ms : List MethodRecord) : ms.filter (·.hasAccess none) = ms :=
    List.filter_eq_self.2 fun _ _ => rfl
  simp only [add, hclass, hname, decide_false, Bool.or_self, Bool.false_eq_true, if_false, has,
    find?, ofClass, hold, Option.getD_some, hall]
  exact hdeclared ⟨className, name, access, file, line, false⟩ old

end MethodTable

namespace Run

/-- A quiet check alone hears everything. -/
theorem hear_quiet {σ : Type} {spec : Spec ν σ} (hc : spec.All Handler.Quiet) (calls : List Call)
    (st : σ) (ds : List Diagnostic) (t : Tables) (notes : List ν) : ∃ st' ds' t',
      hear calls ⟨[⟨spec, st, ds⟩], t, notes⟩ = (⟨[⟨spec, st', ds'⟩], t', notes⟩, none) := by
  induction calls generalizing st ds t with
  | nil => exact ⟨st, ds, t, rfl⟩
  | cons call calls ih =>
    rw [hear_cons]
    by_cases hr : call.reaches (⟨spec, st, ds⟩ : Check ν)
    · obtain ⟨st', ds', hdesign⟩ := Check.eq_of_design_eq (call.answer_design ⟨spec, st, ds⟩ t).symm
      have hanswer : call.answer ⟨spec, st, ds⟩ t =
          (⟨spec, st', ds'⟩, (call.answer ⟨spec, st, ds⟩ t).2.1, [], none) :=
        Prod.ext hdesign (Prod.ext rfl (call.answer_quiet (c := ⟨spec, st, ds⟩) hc t))
      rw [Attempt.andThen_of_none _ (announce_single hr hanswer notes)]
      exact ih st' ds' _
    · rw [Attempt.andThen_of_none _ (announce_single_of_not_reaches hr t notes)]
      exact ih st ds t

end Run

namespace Survey

/-- What a survey makes of a node that it enters inside of others: a class is registered, and a
method is recorded under the class around it, if there is one. -/
structure Records (classes : Tables → ClassTable) (methods : Tables → MethodTable)
    (line : Node → Nat) (file : Path) (outer : List Node) (n : Node) (t t' : Tables) : Prop where
  class_ : n.kind = .classDef → classes t' = (classes t).add (n.classIn outer)
  other : n.kind ≠ .classDef → classes t' = classes t
  method : n.kind = .methodDef → (∃ m ∈ outer, m.kind = .classDef) → ∃ access, methods t' =
    (methods t).add (Node.enclosingClass outer) (Node.textOf n.methodName?) file (line n) access
  recorded : n.kind = .methodDef → Node.enclosingClass outer ≠ "" →
    Node.textOf n.methodName? ≠ "" →
      (methods t').has (Node.enclosingClass outer) (Node.textOf n.methodName?) none
  outside : n.kind = .methodDef → (∀ m ∈ outer, m.kind ≠ .classDef) → methods t' = methods t

/-- A survey that, alone and after any trees, takes each node of an accepted file for what it is in
its tree. -/
def RecordsLexically (c : Check ν) (classes : Tables → ClassTable) (methods : Tables → MethodTable)
    (line : Node → Nat) : Prop :=
  ∀ (t : Tables) (notes : List ν) (trees : List (Path × Node)), (∀ x ∈ trees, x.2.isPlain) →
    ∀ (path : Path) (root : Node), root.isPlain → c.accepts path →
      ∀ made outer phase n rest,
        Call.around path [] root = made ++ (outer, .node phase path n) :: rest →
        ∃ c₁ t₁ c₂ t₂,
          Run.hear (Call.ofTrees trees ++ made.map (·.2)) ⟨[c], t, notes⟩ =
            (⟨[c₁], t₁, notes⟩, none) ∧
          Run.announce (.node phase path n) ⟨[c₁], t₁, notes⟩ = (⟨[c₂], t₂, notes⟩, none) ∧
          (phase = .enter → Records classes methods line path outer n t₁ t₂) ∧
          (phase = .exit → classes t₂ = classes t₁)

section General
variable {σ : Type} {spec : Spec ν σ} {scope : Field σ ClassScope} {classes : Tables → ClassTable}
  {methods : Tables → MethodTable} {line : Node → Nat}

/-- What is to be known of a survey that records classes and methods by its scope. -/
structure Recorder (spec : Spec ν σ) (scope : Field σ ClassScope) (classes : Tables → ClassTable)
    (methods : Tables → MethodTable) (line : Node → Nat) : Prop where
  quiet : spec.All Handler.Quiet
  tracks : spec.Tracks scope
  methodKind : .methodDef ∈ spec.kinds
  spares : spec.AllAt fun phase k h => phase = .enter ∧ k = .classDef ∨ h.Spares classes
  class_ : ∀ (n : Node) file st ds t, n.kind = .classDef →
    classes ((Call.node .enter file n).answer (⟨spec, st, ds⟩ : Check ν) t).2.1 =
      (classes t).add ((scope.get st).defined n)
  method : ∀ (n : Node) file st ds t, n.kind = .methodDef → ∃ access,
    methods ((Call.node .enter file n).answer (⟨spec, st, ds⟩ : Check ν) t).2.1 =
      (methods t).add (scope.get st).className (Node.textOf n.methodName?) file (line n) access

namespace Recorder

theorem classes_answer (h : Recorder spec scope classes methods line) {phase : Phase} {n : Node}
    (hkey : phase = .enter → n.kind ≠ .classDef) (file : Path) (st : σ) (ds : List Diagnostic)
    (t : Tables) :
    classes ((Call.node phase file n).answer (⟨spec, st, ds⟩ : Check ν) t).2.1 = classes t := by
  refine Call.answer_spares classes (fun g hg => ?_) file st ds t
  rcases h.spares.handlers g hg with ⟨hphase, hkind⟩ | hspares
  · exact absurd hkind (hkey hphase)
  · exact hspares

theorem records (h : Recorder spec scope classes methods line) {st : σ} {outer : List Node}
    (hopen : (scope.get st).enclosures = Node.enclosures outer) (file : Path) (n : Node)
    (ds : List Diagnostic) (t : Tables) : Records classes methods line file outer n t
      ((Call.node .enter file n).answer (⟨spec, st, ds⟩ : Check ν) t).2.1 := by
  have hname := ClassScope.className_of_enclosures hopen
  refine ⟨fun hkind => ?_, fun hkind => ?_, fun hkind _ => ?_, fun hkind hclass hmethod => ?_,
    fun hkind hout => ?_⟩
  · rw [h.class_ n file st ds t hkind, ClassScope.defined, ClassScope.names_of_enclosures hopen]
    rfl
  · exact h.classes_answer (fun _ => hkind) file st ds t
  · rw [← hname]
    exact h.method n file st ds t hkind
  · obtain ⟨access, hadd⟩ := h.method n file st ds t hkind
    rw [hadd, hname]
    exact MethodTable.has_add _ hclass hmethod file _ access
  · obtain ⟨access, hmethod⟩ := h.method n file st ds t hkind
    rw [hmethod, hname, Node.enclosingClass_of_outside hout]
    rfl

theorem recordsLexically (h : Recorder spec scope classes methods line) {st : σ}
    (hst : (scope.get st).enclosures = []) :
    RecordsLexically (⟨spec, st, []⟩ : Check ν) classes methods line := by
  obtain ⟨later, htracks⟩ := h.tracks
  intro t notes trees hplain path root hroot hfile made outer phase n rest hcalls
  obtain ⟨st₁, ds₁, t₁, hrun⟩ :=
    Run.hear_quiet h.quiet (Call.ofTrees trees ++ made.map (·.2)) st [] t notes
  have hlexical := Call.lexical_around path [] root
  rw [hcalls] at hlexical
  have hopen := htracks.enclosures_hear hfile hplain hlexical.upTo hst hrun
  by_cases hr : (Call.node phase path n).reaches (⟨spec, st₁, ds₁⟩ : Check ν)
  · have hanswer : (Call.node phase path n).answer ⟨spec, st₁, ds₁⟩ t₁ = (_, _, [], none) :=
      Prod.ext rfl (Prod.ext rfl (Call.answer_quiet (c := ⟨spec, st₁, ds₁⟩) h.quiet _ t₁))
    refine ⟨_, t₁, _, _, hrun, Run.announce_single hr hanswer notes, ?_, ?_⟩
    · rintro rfl
      exact h.records hopen path n ds₁ t₁
    · rintro rfl
      have hexit : Phase.exit = .enter → n.kind ≠ .classDef := nofun
      exact h.classes_answer hexit path st₁ ds₁ t₁
  · refine ⟨_, t₁, _, t₁, hrun, Run.announce_single_of_not_reaches hr t₁ notes, fun _ => ?_,
      fun _ => rfl⟩
    have hother : n.kind ∉ spec.kinds := fun hmem =>
      hr (Call.reaches_node.2 ⟨hmem, hfile⟩)
    have hclass : n.kind ≠ .classDef := fun heq => hother (heq ▸ htracks.classKind)
    have hmethod : n.kind ≠ .methodDef := fun heq => hother (heq ▸ h.methodKind)
    exact ⟨fun heq => absurd heq hclass, fun _ => rfl, fun heq => absurd heq hmethod,
      fun heq => absurd heq hmethod, fun heq => absurd heq hmethod⟩

end Recorder
end General

section Controllers
variable (ignored : List FilePattern)

theorem quiet_controllers : (controllers (ν := ν) ignored).Quiet :=
  Spec.All.start |>.trackDefinitions _ Handler.quiet_update |>.interestedIn _
    |>.on _ _ (Handler.quiet_record _) |>.on _ _ (Handler.quiet_update _)
    |>.on _ _ (Handler.quiet_record _) |>.on _ _ (Handler.quiet_update _)
    |>.on _ _ (Handler.quiet_update _) |>.on _ _ (Handler.quiet_record _)
    |>.on _ _ (Handler.quiet_update _)

/-- The class scope in the state of the survey. -/
def controllerClasses : Field ControllerScope ClassScope :=
  Field.inside ⟨(·.definitions), fun d s => { s with definitions := d }⟩
    ⟨(·.classes), fun c d => { d with classes := c }⟩

theorem definitions_readCommand (n : Node) (s : ControllerScope) :
    (s.readCommand n).definitions = s.definitions := by
  unfold ControllerScope.readCommand
  split
  · rfl
  · split
    · rfl
    · rfl

theorem definitions_readName (n : Node) (s : ControllerScope) :
    (s.readName n).definitions = s.definitions := by
  unfold ControllerScope.readName
  split
  · rfl
  · rfl

theorem tracks_controllers : (controllers (ν := ν) ignored).spec.Tracks controllerClasses :=
  Spec.tracks_start (fun _ _ => rfl) |>.trackAccess (fun _ _ _ _ _ => rfl) |>.interestedIn _
    |>.on (fun _ _ _ _ => rfl) |>.on (fun _ _ _ _ => rfl) |>.on (fun _ _ _ _ => rfl)
    |>.on (fun _ n s _ => congrArg (·.classes) (definitions_readCommand n s))
    |>.on (fun _ n s _ => congrArg (·.classes) (definitions_readName n s))
    |>.on (fun _ _ _ _ => rfl) |>.on (fun _ _ _ _ => rfl)

theorem spares_controllers : (controllers (ν := ν) ignored).spec.AllAt fun phase k h =>
    phase = .enter ∧ k = .classDef ∨ h.Spares (·.controllers) := by
  unfold controllers
  exact Spec.AllAt.trackClasses nofun (fun _ _ _ => .inr fun _ _ _ _ => rfl)
    |>.trackAccess (fun _ _ _ => .inr fun _ _ _ _ => rfl) |>.interestedIn _
    |>.on (.inl ⟨rfl, rfl⟩) |>.on (.inl ⟨rfl, rfl⟩) |>.on (.inr fun _ _ _ _ => rfl)
    |>.on (.inr fun _ _ _ _ => rfl) |>.on (.inr fun _ _ _ _ => rfl)
    |>.on (.inr fun _ _ _ _ => rfl) |>.on (.inr fun _ _ _ _ => rfl)

/-- What the survey records at a definition. -/
theorem method_controllers (n : Node) (file : Path) (st : ControllerScope) (ds : List Diagnostic)
    (t : Tables) (hkind : n.kind = .methodDef) :
    ((Call.node .enter file n).answer (⟨(controllers ignored).spec, st, ds⟩ : Check ν)
      t).2.1.controllerMethods =
        t.controllerMethods.add st.definitions.classes.className (Node.textOf n.methodName?) file
          ((n.methodName?.bind Node.line?).getD 0) st.definitions.access.current := by
  simp [Call.answer, Run.runCheck, hkind, controllers, Spec.trackDefinitions, Spec.trackClasses,
    Spec.trackAccess, Spec.sectionKinds, Run.handleAll, Handler.record, addControllerMethod,
    Site.path, Field.inside]

theorem recorder_controllers : Recorder (controllers (ν := ν) ignored).spec controllerClasses
    (·.controllers) (·.controllerMethods)
      fun n => (n.methodName?.bind Node.line?).getD 0 where
  quiet := quiet_controllers ignored
  tracks := tracks_controllers ignored
  methodKind := by simp [controllers, Spec.trackDefinitions]
  spares := spares_controllers ignored
  class_ n file st ds t hkind := by
    simp [Call.answer, Run.runCheck, hkind, controllers, Spec.trackDefinitions, Spec.trackClasses,
      Spec.trackAccess, Spec.sectionKinds, Run.handleAll, Handler.update, Handler.record,
      Field.modify, Field.inside, ClassScope.class?_enterClass, controllerClasses]
  method n file st ds t hkind :=
    ⟨st.definitions.access.current, method_controllers ignored n file st ds t hkind⟩

end Controllers

section Models
variable (ignored : List FilePattern)

theorem quiet_models : (models (ν := ν) ignored).Quiet :=
  Spec.All.start |>.trackDefinitions _ Handler.quiet_update |>.interestedIn _
    |>.on _ _ (Handler.quiet_record _) |>.on _ _ (Handler.quiet_record _)
    |>.on _ _ (Handler.quiet_record _) |>.on _ _ (Handler.quiet_record _)
    |>.on _ _ (Handler.quiet_record _)

/-- The class scope in the state of the survey. -/
def modelClasses : Field DefinitionScope ClassScope :=
  Field.whole.inside ⟨(·.classes), fun c d => { d with classes := c }⟩

theorem tracks_models : (models (ν := ν) ignored).spec.Tracks modelClasses :=
  Spec.tracks_start (fun _ _ => rfl) |>.trackAccess (fun _ _ _ _ _ => rfl) |>.interestedIn _
    |>.on (fun _ _ _ _ => rfl) |>.on (fun _ _ _ _ => rfl) |>.on (fun _ _ _ _ => rfl)
    |>.on (fun _ _ _ _ => rfl) |>.on (fun _ _ _ _ => rfl)

theorem models_addDeclared (site : Site) (n : Node) (scope : DefinitionScope) (t : Tables) :
    (addDeclared site n scope t).models = t.models := by
  unfold addDeclared
  dsimp only
  split_ifs <;> rfl

theorem spares_models : (models (ν := ν) ignored).spec.AllAt fun phase k h =>
    phase = .enter ∧ k = .classDef ∨ h.Spares (·.models) := by
  unfold models
  exact Spec.AllAt.trackClasses nofun (fun _ _ _ => .inr fun _ _ _ _ => rfl)
    |>.trackAccess (fun _ _ _ => .inr fun _ _ _ _ => rfl) |>.interestedIn _
    |>.on (.inl ⟨rfl, rfl⟩) |>.on (.inr fun _ _ _ _ => rfl) |>.on (.inr fun _ _ _ _ => rfl)
    |>.on (.inr fun _ _ _ _ => rfl)
    |>.on (.inr fun site n scope t => models_addDeclared site n scope t)

/-- What the survey records at a definition. -/
theorem method_models (n : Node) (file : Path) (st : DefinitionScope) (ds : List Diagnostic)
    (t : Tables) (hkind : n.kind = .methodDef) :
    ((Call.node .enter file n).answer (⟨(models ignored).spec, st, ds⟩ : Check ν)
      t).2.1.modelMethods =
        t.modelMethods.add st.classes.className (Node.textOf n.methodName?) file
          (((n.methodName?.bind Node.line?).or n.line?).getD 0) st.access.current := by
  simp [Call.answer, Run.runCheck, hkind, models, Spec.trackDefinitions, Spec.trackClasses,
    Spec.trackAccess, Spec.sectionKinds, Run.handleAll, Handler.record, addDefined,
    addModelMethod, Site.path, Field.inside, Field.whole]

theorem recorder_models : Recorder (models (ν := ν) ignored).spec modelClasses (·.models)
    (·.modelMethods) fun n => ((n.methodName?.bind Node.line?).or n.line?).getD 0 where
  quiet := quiet_models ignored
  tracks := tracks_models ignored
  methodKind := by simp [models, Spec.trackDefinitions]
  spares := spares_models ignored
  class_ n file st ds t hkind := by
    simp [Call.answer, Run.runCheck, hkind, models, Spec.trackDefinitions, Spec.trackClasses,
      Spec.trackAccess, Spec.sectionKinds, Run.handleAll, Handler.update, Handler.record,
      Field.modify, Field.inside, Field.whole, ClassScope.class?_enterClass, modelClasses]
  method n file st ds t hkind :=
    ⟨st.access.current, method_models ignored n file st ds t hkind⟩

end Models
end Survey

namespace Spec
variable {σ : Type}

/-- What a call of a node has come to when it gets to the handlers after `before`. -/
def reached (before : List ((Phase × Kind) × Handler ν σ Node)) (phase : Phase) (file : Path)
    (n : Node) (st : σ) (t : Tables) : Effect ν σ :=
  Run.handleAll ⟨some file, n.line?⟩ n (addedFor phase n.kind before)
    { state := st, tables := t }

/-- A check, at its place in any run, that is told of the nodes of any trees: before and after them
nothing is open, and each handler `g` among `later` sees the scope of the tree. -/
def SeesLexically (spec : Spec ν σ) (scope : Field σ ClassScope)
    (earlier later : List ((Phase × Kind) × Handler ν σ Node)) : Prop :=
  ∀ (i : Nat) (s : Session ν), TracksClasses.Inside spec scope i [] s →
    ∀ trees : List (Path × Node), (∀ x ∈ trees, x.2.isPlain) →
      (∀ s', Run.hear (Call.ofTrees trees) s = (s', none) →
        TracksClasses.Inside spec scope i [] s') ∧
      ∀ (path : Path) (root : Node), root.isPlain → spec.accepts path →
        ∀ made outer phase n rest,
          Call.around path [] root = made ++ (outer, .node phase path n) :: rest →
          ∀ s', Run.hear (Call.ofTrees trees ++ made.map (·.2)) s = (s', none) →
            ∃ st ds, s'.checks[i]? = some ⟨spec, st, ds⟩ ∧
              ∀ before g after, later = before ++ ((phase, n.kind), g) :: after → ∀ t,
                let e := reached (earlier ++ (classHandlers scope ++ before)) phase path n st t
                e.failure = none →
                  (scope.get e.state).names = Node.scopeNames (phase.openAfter outer n) ∧
                  (phase = .exit → n.kind = .classDef →
                    (scope.get e.state).lastClosed? = some (n.classIn outer))

theorem TracksClasses.seesLexically {spec : Spec ν σ} {scope : Field σ ClassScope}
    {earlier later : List ((Phase × Kind) × Handler ν σ Node)}
    (h : spec.TracksClasses scope earlier later) : spec.SeesLexically scope earlier later := by
  intro i s hs trees hplain
  refine ⟨fun s' hrun => h.hear_trees hplain hs hrun, ?_⟩
  intro path root hroot hfile made outer phase n rest hcalls s' hrun
  obtain ⟨mid, htrees, hmade⟩ := Run.hear_of_append _ hrun
  have hlexical := Call.lexical_around path [] root
  rw [hcalls] at hlexical
  obtain ⟨st, ds, hcheck, hopen⟩ :=
    h.hear hfile hlexical.upTo (h.hear_trees hplain hs htrees) hmade
  refine ⟨st, ds, hcheck, ?_⟩
  intro before g after hlater t e hok
  have hscope : scope.get e.state = (scope.get st).follow phase n :=
    h.seen _ phase n hlater st t hok
  rw [hscope]
  refine ⟨ClassScope.names_of_enclosures (ClassScope.follow_enclosures hopen), ?_⟩
  rintro rfl hclass
  rw [ClassScope.follow_exit_class hopen hclass]

end Spec

open Survey

/-- The scope of a check that tracks classes is that of the tree, at every handler added after the
tracking. So the surveys of controllers and models register every class and record every method
under the class around it. -/
theorem class_scope_lexical :
    (∀ {ν σ : Type} {spec : Spec ν σ} {scope : Field σ ClassScope}
      {earlier later : List ((Phase × Kind) × Handler ν σ Node)},
      spec.TracksClasses scope earlier later → spec.SeesLexically scope earlier later) ∧
    (∀ {ν : Type} (ignored : List FilePattern),
      RecordsLexically (controllers (ν := ν) ignored) (·.controllers) (·.controllerMethods)
        fun n => (n.methodName?.bind Node.line?).getD 0) ∧
    ∀ {ν : Type} (ignored : List FilePattern),
      RecordsLexically (models (ν := ν) ignored) (·.models) (·.modelMethods)
        fun n => ((n.methodName?.bind Node.line?).or n.line?).getD 0 :=
  ⟨fun h => h.seesLexically, fun ignored => (recorder_controllers ignored).recordsLexically rfl,
    fun ignored => (recorder_models ignored).recordsLexically rfl⟩

/-- A method of a controller in a module. -/
def showMethod : Node := .ofKind .methodDef [.node (.ofKind .identifier [.literal (.str "show")])]

def postsController : Node :=
  .ofKind .classDef [.node (.ofKind .constant [.literal (.str "PostsController")]), .absent,
    .node showMethod]

def adminModule : Node :=
  .ofKind .moduleDef [.node (.ofKind .constant [.literal (.str "Admin")]), .node postsController]

theorem class_scope_lexical_admin :
    (∃ later, (controllers (ν := Empty) []).spec.TracksClasses controllerClasses [] later ∧
      (controllers (ν := Empty) []).spec.SeesLexically controllerClasses [] later) ∧
    ∃ c₁ t₁ c₂ t₂ access,
      Run.announce (.node .enter ⟨"app/controllers/posts_controller.rb"⟩ showMethod)
        ⟨[c₁], t₁, []⟩ = ((⟨[c₂], t₂, []⟩ : Session Empty), none) ∧
      t₂.controllerMethods = t₁.controllerMethods.add "Admin::PostsController" "show"
        ⟨"app/controllers/posts_controller.rb"⟩ 0 access := by
  obtain ⟨later, htracks⟩ := tracks_controllers (ν := Empty) []
  refine ⟨⟨later, htracks, class_scope_lexical.1 htracks⟩, ?_⟩
  obtain ⟨c₁, t₁, c₂, t₂, -, hcall, henter, -⟩ :=
    class_scope_lexical.2.1 (ν := Empty) [] {} [] [] nofun
      ⟨"app/controllers/posts_controller.rb"⟩ adminModule rfl (by decide +kernel)
      ((Call.around ⟨"app/controllers/posts_controller.rb"⟩ [] adminModule).take 6)
      [postsController, adminModule] .enter showMethod
      ((Call.around ⟨"app/controllers/posts_controller.rb"⟩ [] adminModule).drop 7) rfl
  obtain ⟨access, hmethod⟩ := (henter rfl).method rfl ⟨postsController, by simp, rfl⟩
  exact ⟨c₁, t₁, c₂, t₂, access, hcall, hmethod⟩

end RailsReview
