import RailsReview.Proofs.AccessScope
import RailsReview.Proofs.QuietRuns
import RailsReview.Proofs.Resurvey

/-!
# Access of methods

The surveys record a method with the access of its section. Of the statements before it in a body,
and of what stands between the name of a class and its body, the last access word counts, however
deep it is inside of them. Where none of them hides a word that is not a statement itself, it is the
last bare word among the statements.
-/
namespace RailsReview
open Spec

/-- A statement in the body of a class, a module or a singleton class. The header is what comes
before the body, such as the name of the class and its superclass. -/
structure BodyStatement where
  holder : Node
  header : List Slot
  body : Node
  footer : List Slot
  list : Node
  /-- What follows the statements, such as a rescue clause. -/
  clauses : List Slot
  before : List Slot
  statement : Node
  after : List Slot
  opens : holder.opensSection
  holder_slots : holder.slots = header ++ .node body :: footer
  body_kind : body.kind = .bodyStatement
  body_slots : body.slots = .node list :: clauses
  list_kind : list.kind = .list
  list_slots : list.slots = before ++ .node statement :: after

namespace Call

theorem around_eq (file : Path) (outer : List Node) (n : Node) :
    around file outer n = (outer, .node .enter file n) ::
      (aroundSlots file (n :: outer) n.slots ++ [(outer, .node .exit file n)]) := by
  cases n
  rfl

theorem aroundSlots_append (file : Path) (outer : List Node) (slots more : List Slot) :
    aroundSlots file outer (slots ++ more) =
      aroundSlots file outer slots ++ aroundSlots file outer more := by
  induction slots with
  | nil => rfl
  | cons slot slots ih =>
    cases slot with
    | node n => rw [List.cons_append, aroundSlots, aroundSlots, ih, List.append_assoc]
    | literal l => exact ih
    | absent => exact ih

end Call

namespace BodyStatement

/-- The nodes around the statement, given those around the definition. -/
def ancestors (b : BodyStatement) (outer : List Node) : List Node :=
  b.list :: b.body :: b.holder :: outer

/-- The access after everything that comes before the statement in its definition. -/
def access (b : BodyStatement) : Access :=
  Access.public_.after (Node.switchesIn b.header ++ Node.switchesIn b.before)

/-- The access after the statements before it that are bare access words. -/
def ownAccess (b : BodyStatement) : Access :=
  Access.public_.after ((b.before.filterMap Slot.node?).filterMap Node.bareAccess?)

/-- No access word is hidden before the statement. -/
structure Plain (b : BodyStatement) : Prop where
  header : Node.switchesIn b.header = []
  before : ∀ n ∈ b.before.filterMap Slot.node?, n.switches = n.bareAccess?.toList

theorem access_eq_ownAccess {b : BodyStatement} (h : b.Plain) : b.access = b.ownAccess := by
  have hwords : Node.switchesIn b.before =
      (b.before.filterMap Slot.node?).filterMap Node.bareAccess? := by
    rw [Node.switchesIn_eq, List.filterMap_eq_flatMap_toList Node.bareAccess?]
    exact List.flatMap_congr h.before
  rw [access, ownAccess, h.header, hwords, List.nil_append]

section Calls
variable (b : BodyStatement) (file : Path) (outer : List Node)

/-- The calls of the definition up to the statement. -/
def leadIn : List (List Node × Call) :=
  (outer, .node .enter file b.holder) ::
    (Call.aroundSlots file (b.holder :: outer) b.header ++
      (b.holder :: outer, .node .enter file b.body) ::
        (b.body :: b.holder :: outer, .node .enter file b.list) ::
          Call.aroundSlots file (b.ancestors outer) b.before)

/-- The calls of the definition after the statement. -/
def leadOut : List (List Node × Call) :=
  Call.aroundSlots file (b.ancestors outer) b.after ++
    (b.body :: b.holder :: outer, .node .exit file b.list) ::
      (Call.aroundSlots file (b.body :: b.holder :: outer) b.clauses ++
        (b.holder :: outer, .node .exit file b.body) ::
          (Call.aroundSlots file (b.holder :: outer) b.footer ++
            [(outer, .node .exit file b.holder)]))

theorem around_holder : Call.around file outer b.holder =
    b.leadIn file outer ++
      (Call.around file (b.ancestors outer) b.statement ++ b.leadOut file outer) := by
  rw [Call.around_eq file outer b.holder, b.holder_slots, Call.aroundSlots_append,
    Call.aroundSlots, Call.around_eq file _ b.body, b.body_slots, Call.aroundSlots,
    Call.around_eq file _ b.list, b.list_slots, Call.aroundSlots_append, Call.aroundSlots]
  simp [leadIn, leadOut, ancestors]

variable {b file outer}

/-- The section that is open at the statement. -/
theorem sections_leadIn {accepts : Path → Bool} (hfile : accepts file) (s : AccessScope) :
    (s.hearAll accepts ((b.leadIn file outer).map (·.2))).sections = b.access :: s.sections := by
  have hopen : (s.follow .enter b.holder).sections = .public_ :: s.sections := by
    rw [AccessScope.follow, if_pos b.opens, AccessScope.sections_openSection]
  have hheader := AccessScope.sections_aroundSlots hfile (b.holder :: outer) s.sections b.header
    _ _ hopen
  have hbefore := AccessScope.sections_aroundSlots hfile (b.ancestors outer) s.sections b.before
    _ _ hheader
  have hbody : b.body.kind ∉ sectionKinds ++ [.variableCall, .varRef, .command] := by
    rw [b.body_kind]
    decide
  have hlist : b.list.kind ∉ sectionKinds ++ [.variableCall, .varRef, .command] := by
    rw [b.list_kind]
    decide
  have hcalls : s.hearAll accepts ((b.leadIn file outer).map (·.2)) =
      ((s.follow .enter b.holder).hearAll accepts
        ((Call.aroundSlots file (b.holder :: outer) b.header).map (·.2))).hearAll accepts
          ((Call.aroundSlots file (b.ancestors outer) b.before).map (·.2)) := by
    simp [leadIn, AccessScope.hearAll, AccessScope.hear, hfile, AccessScope.follow_other hbody,
      AccessScope.follow_other hlist]
  rw [hcalls, hbefore, access, Access.after_append]

/-- The access at the statement, if no definition that is being made comes with one. -/
theorem current_leadIn {accepts : Path → Bool} (hfile : accepts file) {s : AccessScope}
    {made : List (List Node × Call)} (hs : s.InlineOf [])
    (hcalls : Call.Lexical file [] (made ++ b.leadIn file outer) (b.ancestors outer))
    (houter : ∀ m ∈ outer, m.kind = .command → AccessScope.inlineAccess? m = none) :
    (s.hearAll accepts ((made ++ b.leadIn file outer).map (·.2))).current = b.access := by
  have hinline := AccessScope.inlineOf_hearAll hcalls hfile hs
  have hnone : (s.hearAll accepts ((made ++ b.leadIn file outer).map (·.2))).inline? = none := by
    refine Option.not_isSome_iff_eq_none.1 fun hsome => ?_
    obtain ⟨m, hm, hcommand, hdefines⟩ := hinline hsome
    have hopens := b.opens
    rcases List.mem_cons.1 hm with rfl | hm
    · simp [b.list_kind] at hcommand
    · rcases List.mem_cons.1 hm with rfl | hm
      · simp [b.body_kind] at hcommand
      · rcases List.mem_cons.1 hm with rfl | hm
        · rw [Node.opensSection, hcommand] at hopens
          cases hopens
        · rw [houter m hm hcommand] at hdefines
          cases hdefines
  rw [AccessScope.current, hnone, List.map_append, AccessScope.hearAll_append,
    sections_leadIn hfile]
  rfl

end Calls
end BodyStatement

namespace Survey
variable {ν : Type}

/-- A survey that, alone and after any trees, records each method among the statements of a body
with the access after what comes before it. -/
def RecordsInSections (c : Check ν) (methods : Tables → MethodTable)
    (owner : List Node → String) (line : Node → Nat) : Prop :=
  ∀ (t : Tables) (notes : List ν) (trees : List (Path × Node)), (∀ x ∈ trees, x.2.isPlain) →
    ∀ (path : Path) (root : Node), root.isPlain → c.accepts path →
      ∀ (b : BodyStatement) (outer : List Node) (made rest : List (List Node × Call)),
        Call.around path [] root = made ++ (Call.around path outer b.holder ++ rest) →
        b.statement.kind = .methodDef →
        (∀ m ∈ outer, m.kind = .command → AccessScope.inlineAccess? m = none) →
        ∃ c₁ t₁ c₂ t₂,
          Run.hear (Call.ofTrees trees ++ (made ++ b.leadIn path outer).map (·.2))
            ⟨[c], t, notes⟩ = (⟨[c₁], t₁, notes⟩, none) ∧
          Run.announce (.node .enter path b.statement) ⟨[c₁], t₁, notes⟩ =
            (⟨[c₂], t₂, notes⟩, none) ∧
          methods t₂ = (methods t₁).add (owner (b.ancestors outer))
            (Node.textOf b.statement.methodName?) path (line b.statement) b.access

/-- What is to be known of a survey that records methods by its scopes. -/
structure SectionRecorder {σ : Type} (spec : Spec ν σ) (classes : Field σ ClassScope)
    (access : Field σ AccessScope) (methods : Tables → MethodTable) (owner : List Node → String)
    (line : Node → Nat) : Prop where
  quiet : spec.All Handler.Quiet
  tracks : spec.Tracks classes
  tracksAccess : spec.TracksAccess access
  methodKind : .methodDef ∈ spec.kinds
  method : ∀ (n : Node) file st ds t outer, n.kind = .methodDef →
    (classes.get st).enclosures = Node.enclosures outer →
      methods ((Call.node .enter file n).answer (⟨spec, st, ds⟩ : Check ν) t).2.1 =
        (methods t).add (owner outer) (Node.textOf n.methodName?) file (line n)
          (access.get st).current

theorem SectionRecorder.recordsInSections {σ : Type} {spec : Spec ν σ}
    {classes : Field σ ClassScope} {access : Field σ AccessScope} {methods : Tables → MethodTable}
    {owner : List Node → String} {line : Node → Nat}
    (h : SectionRecorder spec classes access methods owner line) {st : σ}
    (hclasses : (classes.get st).enclosures = []) (haccess : (access.get st).inline? = none) :
    RecordsInSections (⟨spec, st, []⟩ : Check ν) methods owner line := by
  obtain ⟨later, htracks⟩ := h.tracks
  intro t notes trees hplain path root hroot hfile b outer made rest hcalls hmethod houter
  have hlexical : Call.Lexical path [] (made ++ b.leadIn path outer) (b.ancestors outer) := by
    have hall := Call.lexical_around path [] root
    rw [hcalls, b.around_holder, Call.around_eq path _ b.statement] at hall
    simp only [List.append_assoc, List.cons_append] at hall
    rw [← List.append_assoc] at hall
    exact hall.upTo
  have hnodes : ∀ call ∈ Call.ofTrees trees ++ (made ++ b.leadIn path outer).map (·.2),
      ∃ phase file n, call = .node phase file n := by
    intro call hcall
    rcases List.mem_append.1 hcall with hcall | hcall
    · exact Call.exists_node_of_mem_ofTrees hcall
    · obtain ⟨x, hx, rfl⟩ := List.mem_map.1 hcall
      obtain ⟨phase, n, hnode⟩ := hlexical.exists_node hx
      exact ⟨phase, path, n, hnode⟩
  obtain ⟨st₁, ds₁, t₁, hrun, hscope⟩ := h.tracksAccess.hear h.quiet hnodes st [] t notes
  have hopen := htracks.enclosures_hear hfile hplain hlexical hclasses hrun
  have htrees : ((access.get st).hearAll spec.accepts (Call.ofTrees trees)).InlineOf [] :=
    AccessScope.inlineOf_trees hplain fun hsome => by simp [haccess] at hsome
  have hcurrent : (access.get st₁).current = b.access := by
    rw [hscope, AccessScope.hearAll_append]
    exact BodyStatement.current_leadIn hfile htrees hlexical houter
  have hreaches : (Call.node .enter path b.statement).reaches (⟨spec, st₁, ds₁⟩ : Check ν) :=
    Call.reaches_node.2 ⟨hmethod ▸ h.methodKind, hfile⟩
  refine ⟨_, t₁, _, _, hrun, Run.announce_single hreaches
    (Run.answer_alone h.quiet .enter path b.statement st₁ ds₁ t₁) notes, ?_⟩
  rw [← hcurrent]
  exact h.method b.statement path st₁ ds₁ t₁ _ hmethod hopen

variable (ignored : List FilePattern)

/-- The access scope in the state of the survey. -/
def controllerAccess : Field ControllerScope AccessScope :=
  Field.inside ⟨(·.definitions), fun d s => { s with definitions := d }⟩
    ⟨(·.access), fun a d => { d with access := a }⟩

theorem sectionRecorder_controllers : SectionRecorder (controllers (ν := ν) ignored).spec
    controllerClasses controllerAccess (·.controllerMethods) Node.enclosingClass
      fun n => (n.methodName?.bind Node.line?).getD 0 where
  quiet := quiet_controllers ignored
  tracks := tracks_controllers ignored
  tracksAccess :=
    (Spec.AllAt.trackClasses nofun fun _ _ _ _ _ _ _ => rfl).tracksAccess (fun _ _ => rfl)
      |>.interestedIn _ |>.on (fun _ _ _ _ => rfl) |>.on (fun _ _ _ _ => rfl)
      |>.on (fun _ _ _ _ => rfl)
      |>.on (fun _ n s _ => congrArg (·.access) (definitions_readCommand n s))
      |>.on (fun _ n s _ => congrArg (·.access) (definitions_readName n s))
      |>.on (fun _ _ _ _ => rfl) |>.on (fun _ _ _ _ => rfl)
  methodKind := (recorder_controllers (ν := ν) ignored).methodKind
  method n file st ds t outer hkind hopen := by
    rw [← ClassScope.className_of_enclosures hopen]
    exact method_controllers ignored n file st ds t hkind

/-- The access scope in the state of the surveys of models and helpers. -/
def definitionAccess : Field DefinitionScope AccessScope :=
  Field.whole.inside ⟨(·.access), fun a d => { d with access := a }⟩

theorem sectionRecorder_models : SectionRecorder (models (ν := ν) ignored).spec modelClasses
    definitionAccess (·.modelMethods) Node.enclosingClass
      fun n => ((n.methodName?.bind Node.line?).or n.line?).getD 0 where
  quiet := quiet_models ignored
  tracks := tracks_models ignored
  tracksAccess :=
    (Spec.AllAt.trackClasses nofun fun _ _ _ _ _ _ _ => rfl).tracksAccess (fun _ _ => rfl)
      |>.interestedIn _ |>.on (fun _ _ _ _ => rfl) |>.on (fun _ _ _ _ => rfl)
      |>.on (fun _ _ _ _ => rfl) |>.on (fun _ _ _ _ => rfl) |>.on (fun _ _ _ _ => rfl)
  methodKind := (recorder_models (ν := ν) ignored).methodKind
  method n file st ds t outer hkind hopen := by
    rw [← ClassScope.className_of_enclosures hopen]
    exact method_models ignored n file st ds t hkind

theorem sectionRecorder_helpers : SectionRecorder (helpers (ν := ν) ignored).spec modelClasses
    definitionAccess (·.helperMethods) (fun outer => "::".intercalate (Node.scopeNames outer))
      fun n => (n.methodName?.bind Node.line?).getD 0 where
  quiet := quiet_helpers ignored
  tracks := tracks_helpers ignored
  tracksAccess :=
    (Spec.AllAt.trackClasses nofun fun _ _ _ _ _ _ _ => rfl).tracksAccess (fun _ _ => rfl)
      |>.interestedIn _ |>.on (fun _ _ _ _ => rfl) |>.on (fun _ _ _ _ => rfl)
  methodKind := by simp [helpers, Spec.trackDefinitions]
  method n file st ds t outer hkind hopen := by
    rw [← ClassScope.names_of_enclosures hopen]
    simp [Call.answer, Run.runCheck, hkind, helpers, Spec.trackDefinitions, Spec.trackClasses,
      Spec.trackAccess, Spec.sectionKinds, Run.handleAll, Handler.record, addHelperMethod,
      Site.path, Field.inside, Field.whole, definitionAccess, modelClasses, ClassScope.moduleName]

/-- The surveys record a method with the access after all words that come before it in its section,
wherever they stand. Where no word is hidden in another statement, only the statements that are
words themselves count. -/
theorem access_by_section {ν : Type} (ignored : List FilePattern) :
    RecordsInSections (controllers (ν := ν) ignored) (·.controllerMethods) Node.enclosingClass
      (fun n => (n.methodName?.bind Node.line?).getD 0) ∧
    RecordsInSections (models (ν := ν) ignored) (·.modelMethods) Node.enclosingClass
      (fun n => ((n.methodName?.bind Node.line?).or n.line?).getD 0) ∧
    RecordsInSections (helpers (ν := ν) ignored) (·.helperMethods)
      (fun outer => "::".intercalate (Node.scopeNames outer))
      (fun n => (n.methodName?.bind Node.line?).getD 0) ∧
    ∀ b : BodyStatement, b.Plain → b.access = b.ownAccess :=
  ⟨(sectionRecorder_controllers ignored).recordsInSections rfl rfl,
    (sectionRecorder_models ignored).recordsInSections rfl rfl,
    (sectionRecorder_helpers ignored).recordsInSections rfl rfl,
    fun _ => BodyStatement.access_eq_ownAccess⟩

def bodyOf (statements : List Node) : Node :=
  .ofKind .bodyStatement [.node (.ofKind .list (statements.map .node))]

/-- A bare access word. -/
def accessWord (word : String) : Node :=
  .ofKind .variableCall [.node (.ofKind .identifier [.literal (.str word)])]

def methodOf (name : String) (statements : List Node) : Node :=
  .ofKind .methodDef [.node (.ofKind .identifier [.literal (.str name)]), .absent,
    .node (bodyOf statements)]

/-- A model with two statements, of which the second one defines a method. -/
def titleAfter (first : Node) : BodyStatement where
  holder := .ofKind .classDef [.node (.ofKind .constant [.literal (.str "Post")]), .absent,
    .node (bodyOf [first, methodOf "title" []])]
  header := [.node (.ofKind .constant [.literal (.str "Post")]), .absent]
  body := bodyOf [first, methodOf "title" []]
  footer := []
  list := .ofKind .list [.node first, .node (methodOf "title" [])]
  clauses := []
  before := [.node first]
  statement := methodOf "title" []
  after := []
  opens := rfl
  holder_slots := rfl
  body_kind := rfl
  body_slots := rfl
  list_kind := rfl
  list_slots := rfl

def postFile : Path := ⟨"app/models/post.rb"⟩

theorem access_by_section_private :
    let b := titleAfter (accessWord "private")
    b.Plain ∧ b.ownAccess = .private_ ∧ b.access = b.ownAccess ∧
      ∃ c₁ t₁ c₂ t₂,
        Run.announce (.node .enter postFile b.statement) ⟨[c₁], t₁, []⟩ =
          ((⟨[c₂], t₂, []⟩ : Session Empty), none) ∧
        t₂.modelMethods = t₁.modelMethods.add "Post" "title" postFile 0 .private_ := by
  intro b
  have hplain : b.Plain := ⟨rfl, fun n hn => by rw [List.mem_singleton.1 hn]; rfl⟩
  have hcalls : Call.around postFile [] b.holder =
      [] ++ (Call.around postFile [] b.holder ++ []) := (List.append_nil _).symm
  obtain ⟨-, hmodels, -, hown⟩ := access_by_section (ν := Empty) []
  obtain ⟨c₁, t₁, c₂, t₂, -, hcall, hmethods⟩ := hmodels {} [] [] nofun postFile b.holder rfl
    (by decide +kernel) b [] [] [] hcalls rfl nofun
  exact ⟨hplain, rfl, hown b hplain, c₁, t₁, c₂, t₂, hcall, hmethods⟩

/-- An access word in the body of a method changes the access of the next method. -/
theorem access_word_in_method :
    let b := titleAfter (methodOf "visibility" [accessWord "private"])
    b.ownAccess = .public_ ∧
      ((Run.tree (ν := Empty) b.holder postFile ⟨[models []], {}, []⟩).1.tables.modelMethods.all.map
        fun m => (m.className, m.name, m.access)) =
          [("Post", "visibility", .public_), ("Post", "title", .private_)] := by
  decide +kernel

end Survey
end RailsReview
