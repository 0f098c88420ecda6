import RailsReview.Proofs.ClassScope
import RailsReview.Proofs.Marking

/-!
# What a tree teaches about uses

The review of unused methods learns from every tree a list of evidence that depends on the tree
alone: not on the tables, nor on what was read before. Whatever a node uses by name is part of it,
in the class around the node.
-/
namespace RailsReview
open Tables

/-- A change of the tables that comes down to evidence about controllers, the same for all
tables. -/
def Learns (f : Tables → Tables) : Prop := ∃ found, ∀ t, f t = t.learn .controllers found

namespace Learns

theorem id : Learns fun t => t := ⟨[], fun _ => rfl⟩

theorem comp {f g : Tables → Tables} (hf : Learns f) (hg : Learns g) : Learns fun t => g (f t) := by
  obtain ⟨found, hf⟩ := hf
  obtain ⟨more, hg⟩ := hg
  refine ⟨found ++ more, fun t => ?_⟩
  change g (f t) = _
  rw [hg, hf, learn_append]

theorem foldl {β : Type} {f : Tables → β → Tables} (hf : ∀ b, Learns (f · b)) (l : List β) :
    Learns (l.foldl f ·) := by
  induction l with
  | nil => exact .id
  | cons b l ih => exact (hf b).comp ih

theorem callMethod (className name : String) :
    Learns (Tables.callMethod · .controllers className name) :=
  ⟨[.call className name], fun _ => rfl⟩

end Learns

theorem Usage.mark_eq (className : String) (used : List String) (t : Tables) :
    mark .controllers className used t = t.learn .controllers (used.map (.call className)) := by
  unfold mark learn
  rw [List.foldl_map]
  rfl

/-- How many of the nodes are class definitions. -/
def Node.classDepth (outer : List Node) : Nat := outer.countP (·.kind == .classDef)

namespace Practice
open Learns

theorem publicizeAll_eq (className : String) (methods : List Node) (t : Tables) :
    publicizeAll className methods t =
      t.learn .controllers (methods.map fun m => .publish className m.text) := by
  unfold publicizeAll
  induction methods generalizing t with
  | nil => rfl
  | cons m methods ih =>
    exact ih { t with controllerMethods := t.controllerMethods.publicize className m.text }

theorem learns_publicizeAll (className : String) (methods : List Node) :
    Learns (publicizeAll className methods) := ⟨_, publicizeAll_eq className methods⟩

theorem learns_markCell (arguments : List Node) : Learns (markCell arguments) := by
  unfold markCell
  split
  · exact callMethod _ _
  · exact .id

theorem learns_markDelegated (moduleName : String) (arguments : List Node) :
    Learns (markDelegated moduleName arguments) := by
  unfold markDelegated
  split
  · split
    · exact learns_publicizeAll _ _
    · exact .id
  · exact .id

theorem learns_markCommand (n : Node) (classes : ClassScope) : Learns (markCommand n classes) := by
  unfold markCommand
  dsimp only
  split
  · exact learns_markCell _
  · exact callMethod _ _
  · exact learns_publicizeAll _ _
  · exact learns_markDelegated _ _
  · exact .id

theorem learns_markCall (n : Node) (classes : ClassScope) : Learns (markCall n classes) := by
  unfold markCall
  dsimp only
  split
  · exact learns_markCell _
  · exact callMethod _ _
  · exact .id

theorem learns_markSetter (n : Node) (classes : ClassScope) : Learns (markSetter n classes) := by
  unfold markSetter
  split
  · split
    · exact callMethod _ _
    · exact .id
  · exact .id

theorem learns_markHooks (s : UsageScope) : Learns (markHooks s) := by
  unfold markHooks
  split
  · split
    · exact .foldl (fun name => callMethod _ name) _
    · exact .id
  · exact .id

end Practice

namespace Practice
variable {ν : Type}

/-- A handler that teaches something and may change what the innermost class inherits. The class
that was left last makes no difference. -/
def Teaches (h : Handler ν UsageScope Node) : Prop :=
  ∀ n es ih, ∃ found ih', ih'.length = ih.length ∧ ∀ site l t,
    h site n ⟨⟨es, l⟩, ih⟩ t =
      { state := ⟨⟨es, l⟩, ih'⟩, tables := t.learn .controllers found }

theorem teaches_record {f : Node → ClassScope → Tables → Tables} (hf : ∀ n c, Learns (f n c))
    (hlast : ∀ n es l, f n ⟨es, l⟩ = f n ⟨es, none⟩) :
    Teaches (ν := ν) (.record fun _ n s t => f n s.classes t) := by
  intro n es ih
  obtain ⟨found, hfound⟩ := hf n ⟨es, none⟩
  refine ⟨found, ih, rfl, fun site l t => ?_⟩
  simp only [Handler.record, hlast n es l, hfound]

theorem teaches_read (message : Node → String) :
    Teaches (ν := ν) (.update fun n => .read (message n)) := by
  intro n es ih
  by_cases h : InheritedResources.isInheriting (message n)
  · refine ⟨[], ih.modifyHead fun _ => true, by simp, fun site l t => ?_⟩
    simp only [Handler.update, UsageScope.read, h, if_true]
    rfl
  · refine ⟨[], ih, rfl, fun site l t => ?_⟩
    simp only [Handler.update, UsageScope.read, h, Bool.false_eq_true, if_false]
    rfl

/-- The handler for the uses of a node. -/
def useHandler : Handler ν UsageScope Node :=
  .record fun _ n s => Usage.mark .controllers s.classes.className (Usage.namesAt n)

theorem teaches_useHandler : Teaches (ν := ν) useHandler := by
  have hlearns (n : Node) (c : ClassScope) :
      Learns (Usage.mark .controllers c.className (Usage.namesAt n)) :=
    ⟨_, fun t => Usage.mark_eq c.className (Usage.namesAt n) t⟩
  exact teaches_record hlearns fun _ _ _ => rfl

/-- Handlers that teach something, one after the other. -/
theorem handleAll_teaches {hs : List (Handler ν UsageScope Node)} (h : ∀ g ∈ hs, Teaches g)
    (n : Node) (es : List Enclosure) (ih : List Bool) :
    ∃ found ih', ih'.length = ih.length ∧
      (useHandler ∈ hs → ∀ name ∈ Usage.namesAt n,
        .call (ClassScope.mk es none).className name ∈ found) ∧
      ∀ site l t, Run.handleAll site n hs { state := ⟨⟨es, l⟩, ih⟩, tables := t } =
        { state := ⟨⟨es, l⟩, ih'⟩, tables := t.learn .controllers found } := by
  induction hs generalizing ih with
  | nil => exact ⟨[], ih, rfl, nofun, fun _ _ _ => rfl⟩
  | cons g hs hrest =>
    have hg : ∃ found ih', ih'.length = ih.length ∧ (useHandler = g → ∀ name ∈ Usage.namesAt n,
        .call (ClassScope.mk es none).className name ∈ found) ∧ ∀ site l t,
          g site n ⟨⟨es, l⟩, ih⟩ t =
            { state := ⟨⟨es, l⟩, ih'⟩, tables := t.learn .controllers found } := by
      by_cases huse : useHandler = g
      · subst huse
        refine ⟨(Usage.namesAt n).map (.call (ClassScope.mk es none).className), ih, rfl,
          fun _ name hname => List.mem_map_of_mem hname, fun site l t => ?_⟩
        simp only [useHandler, Handler.record, Usage.mark_eq]
        rfl
      · obtain ⟨found, ih', hlength, heffect⟩ := h g (by simp) n es ih
        exact ⟨found, ih', hlength, fun heq => absurd heq huse, heffect⟩
    obtain ⟨found, ih₁, hlength, huse, heffect⟩ := hg
    obtain ⟨more, ih₂, hlength', huse', heffect'⟩ :=
      hrest (fun g hg => h g (List.mem_cons_of_mem _ hg)) ih₁
    refine ⟨found ++ more, ih₂, hlength'.trans hlength, fun hmem name hname => ?_,
      fun site l t => ?_⟩
    · rcases List.mem_cons.1 hmem with heq | hmem
      · exact List.mem_append_left _ (huse heq name hname)
      · exact List.mem_append_right _ (huse' hmem name hname)
    · rw [Run.handleAll_cons g rfl, learn_append, ← heffect' site l (t.learn .controllers found)]
      simp only [Effect.andThen, heffect]
      rfl

section Nodes
variable (exceptions : List String) (ignored : List FilePattern)

/-- What the review of unused methods is before it runs. -/
def unusedSpec : Spec ν UsageScope := (unusedActions exceptions ignored).spec

/-- Apart from what keeps track of classes, every handler of the review teaches something. -/
theorem teaches_unusedActions : (unusedSpec (ν := ν) exceptions ignored).AllAt fun _ k g =>
    k = .classDef ∨ k = .moduleDef ∨ Teaches g := by
  unfold unusedSpec unusedActions
  exact Spec.AllAt.interestedIn nofun _
    |>.on (.inl rfl) |>.on (.inl rfl) |>.on (.inr (.inl rfl)) |>.on (.inr (.inl rfl))
    |>.interestedIn _ |>.onEach (fun _ _ => .inr (.inr teaches_useHandler)) |>.interestedIn _
    |>.on (.inl rfl) |>.on (.inl rfl) |>.on (.inl rfl)
    |>.on (.inr (.inr (teaches_record learns_markCommand fun _ _ _ => rfl)))
    |>.on (.inr (.inr (teaches_read _)))
    |>.on (.inr (.inr (teaches_read _)))
    |>.on (.inr (.inr (teaches_record learns_markCall fun _ _ _ => rfl)))
    |>.on (.inr (.inr (teaches_record learns_markSetter fun _ _ _ => rfl)))
    |>.withEnd _ |>.withEnd _

theorem useHandler_mem {k : Kind} (hk : k ∈ Usage.kinds) :
    useHandler ∈ (unusedSpec (ν := ν) exceptions ignored).handlers .enter k := by
  have hnodup : Usage.kinds.Nodup := by decide
  simp [unusedSpec, unusedActions, Spec.trackUses, Spec.trackClasses, hnodup, hk, useHandler]

theorem handlers_class (phase : Phase) :
    (unusedSpec (ν := ν) exceptions ignored).handlers phase .classDef =
      match phase with
      | .enter => [.update fun n s => { s with classes := s.classes.enterClass n },
        .update UsageScope.openClass]
      | .exit => [.update fun _ s => { s with classes := s.classes.leave },
        .record fun _ _ s t => markHooks s t, .update fun _ s => s.closeClass] := by
  have hnodup : Usage.kinds.Nodup := by decide
  have hkind : Kind.classDef ∉ Usage.kinds := by decide
  cases phase
  · simp [unusedSpec, unusedActions, Spec.trackUses, Spec.trackClasses, hnodup, hkind]
    rfl
  · simp [unusedSpec, unusedActions, Spec.trackUses, Spec.trackClasses, hnodup, hkind]
    rfl

theorem handlers_module (phase : Phase) :
    (unusedSpec (ν := ν) exceptions ignored).handlers phase .moduleDef =
      match phase with
      | .enter => [.update fun n s => { s with classes := s.classes.enterModule n }]
      | .exit => [.update fun _ s => { s with classes := s.classes.leave }] := by
  have hnodup : Usage.kinds.Nodup := by decide
  have hkind : Kind.moduleDef ∉ Usage.kinds := by decide
  cases phase
  · simp [unusedSpec, unusedActions, Spec.trackUses, Spec.trackClasses, hnodup, hkind]
    rfl
  · simp [unusedSpec, unusedActions, Spec.trackUses, Spec.trackClasses, hnodup, hkind]
    rfl

/-- What the review makes of a node: evidence, whatever the tables say and whichever class was left
last, and the scope of the tree. -/
def HandlesAt (phase : Phase) (outer : List Node) (n : Node) : Prop :=
  ∀ ih : List Bool, ih.length = Node.classDepth (phase.openBefore outer n) →
    ∃ found ih', ih'.length = Node.classDepth (phase.openAfter outer n) ∧
      (phase = .enter → ∀ name ∈ Usage.namesAt n,
        .call (Node.enclosingClass outer) name ∈ found) ∧
      ∀ l, ∃ l', ∀ site t, Run.handleAll site n
          ((unusedSpec (ν := ν) exceptions ignored).handlers phase n.kind)
          { state := ⟨⟨Node.enclosures (phase.openBefore outer n), l⟩, ih⟩, tables := t } =
        { state := ⟨⟨Node.enclosures (phase.openAfter outer n), l'⟩, ih'⟩
          tables := t.learn .controllers found }

variable {outer : List Node} {n : Node}

theorem namesAt_of_not_mem (hkind : n.kind ∉ Usage.kinds) : Usage.namesAt n = [] := by
  have hnone : Usage.expressions n = [] := by
    unfold Usage.expressions
    split
    all_goals first | rfl | simp_all [Usage.kinds]
  rw [Usage.namesAt, hnone]
  rfl

/-- Where no handler does more than keep track of classes, the scope follows the tree. -/
theorem follow_eq (phase : Phase) (outer : List Node) (n : Node) (l : Option ClassRecord) :
    ∃ l', (ClassScope.mk (Node.enclosures (phase.openBefore outer n)) l).follow phase n =
      ⟨Node.enclosures (phase.openAfter outer n), l'⟩ := by
  have hopen (s : ClassScope) (hs : s.enclosures = Node.enclosures (phase.openBefore outer n)) :
      (s.follow phase n).enclosures = Node.enclosures (phase.openAfter outer n) :=
    ClassScope.follow_enclosures hs
  exact ⟨_, by rw [← hopen ⟨Node.enclosures (phase.openBefore outer n), l⟩ rfl]⟩

theorem handlesAt_class (hkind : n.kind = .classDef) (phase : Phase) :
    HandlesAt (ν := ν) exceptions ignored phase outer n := by
  intro ih hlength
  have hdepth : Node.classDepth (n :: outer) = Node.classDepth outer + 1 := by
    simp [Node.classDepth, hkind]
  have hnone : Usage.namesAt n = [] := namesAt_of_not_mem (by simp [hkind, Usage.kinds])
  rw [hnone, hkind, handlers_class]
  cases phase with
  | enter =>
    refine ⟨[], (Text.withoutRoot (Node.textOf n.baseClass?) == InheritedResources.base) :: ih, ?_,
      fun _ => List.forall_mem_nil _, fun l => ?_⟩
    · simpa [Phase.openBefore, Phase.openAfter, hdepth] using hlength
    · obtain ⟨l', hscope⟩ := follow_eq .enter outer n l
      simp only [ClassScope.follow, hkind] at hscope
      refine ⟨l', fun site t => ?_⟩
      simp only [Run.handleAll, Handler.update, hscope, UsageScope.openClass]
      rfl
  | exit =>
    have hscope (l : Option ClassRecord) :
        (ClassScope.mk (Node.enclosures (n :: outer)) l).leave =
          ⟨Node.enclosures outer, some (n.classIn outer)⟩ := by
      have hleft := ClassScope.follow_exit_class (s := ⟨Node.enclosures (n :: outer), l⟩) rfl hkind
      simp only [ClassScope.follow, hkind] at hleft
      exact hleft
    obtain ⟨found, hfound⟩ :=
      learns_markHooks ⟨⟨Node.enclosures outer, some (n.classIn outer)⟩, ih⟩
    refine ⟨found, ih.tail, ?_, fun _ => List.forall_mem_nil _,
      fun l => ⟨some (n.classIn outer), fun site t => ?_⟩⟩
    · have hlength' : ih.length = Node.classDepth outer + 1 := hlength.trans hdepth
      simp [hlength', Phase.openAfter]
    · simp only [Run.handleAll, Handler.update, Handler.record, hscope, hfound, Phase.openBefore]
      rfl

theorem handlesAt_module (hkind : n.kind = .moduleDef) (phase : Phase) :
    HandlesAt (ν := ν) exceptions ignored phase outer n := by
  intro ih hlength
  have hdepth : Node.classDepth (n :: outer) = Node.classDepth outer := by
    simp [Node.classDepth, hkind]
  have hnone : Usage.namesAt n = [] := namesAt_of_not_mem (by simp [hkind, Usage.kinds])
  rw [hnone, hkind, handlers_module]
  refine ⟨[], ih, ?_, fun _ => List.forall_mem_nil _, fun l => ?_⟩
  · cases phase with
    | enter => exact hlength.trans hdepth.symm
    | exit => exact hlength.trans hdepth
  · obtain ⟨l', hscope⟩ := follow_eq phase outer n l
    refine ⟨l', fun site t => ?_⟩
    cases phase with
    | enter =>
      simp only [ClassScope.follow, hkind] at hscope
      simp only [Run.handleAll, Handler.update, hscope]
      rfl
    | exit =>
      simp only [ClassScope.follow, hkind] at hscope
      simp only [Run.handleAll, Handler.update, hscope]
      rfl

theorem handlesAt_other (hclass : n.kind ≠ .classDef) (hmodule : n.kind ≠ .moduleDef)
    (phase : Phase) : HandlesAt (ν := ν) exceptions ignored phase outer n := by
  intro ih hlength
  have hdepth : Node.classDepth (n :: outer) = Node.classDepth outer := by
    simp [Node.classDepth, hclass]
  have hteach : ∀ g ∈ (unusedSpec (ν := ν) exceptions ignored).handlers phase n.kind,
      Teaches g := by
    intro g hg
    rcases (teaches_unusedActions exceptions ignored).handlers g hg with h | h | h
    · exact absurd h hclass
    · exact absurd h hmodule
    · exact h
  obtain ⟨found, ih', hlength', huse, heffect⟩ :=
    handleAll_teaches hteach n (Node.enclosures (phase.openBefore outer n)) ih
  refine ⟨found, ih', ?_, ?_, fun l => ?_⟩
  · cases phase with
    | enter => exact (hlength'.trans hlength).trans hdepth.symm
    | exit => exact (hlength'.trans hlength).trans hdepth
  · rintro rfl name hname
    have hkind : n.kind ∈ Usage.kinds := by
      by_contra hkind
      rw [namesAt_of_not_mem hkind] at hname
      cases hname
    have hcall := huse (useHandler_mem exceptions ignored hkind) name hname
    have hclass' : (ClassScope.mk (Node.enclosures outer) none).className =
        Node.enclosingClass outer := ClassScope.className_of_enclosures rfl
    rwa [Phase.openBefore, hclass'] at hcall
  · obtain ⟨l', hscope⟩ := follow_eq phase outer n l
    rw [ClassScope.follow_other hclass hmodule] at hscope
    refine ⟨l', fun site t => ?_⟩
    rw [← hscope]
    exact heffect site l t

theorem handlesAt (phase : Phase) (outer : List Node) (n : Node) :
    HandlesAt (ν := ν) exceptions ignored phase outer n := by
  by_cases hclass : n.kind = .classDef
  · exact handlesAt_class exceptions ignored hclass phase
  · by_cases hmodule : n.kind = .moduleDef
    · exact handlesAt_module exceptions ignored hmodule phase
    · exact handlesAt_other exceptions ignored hclass hmodule phase

/-- The review in the middle of a run, inside of `outer`. -/
def reviewIn (outer : List Node) (l : Option ClassRecord) (ih : List Bool) (ds : List Diagnostic) :
    Check ν :=
  ⟨unusedSpec exceptions ignored, ⟨⟨Node.enclosures outer, l⟩, ih⟩, ds⟩

section Runs
variable {file : Path} {first mid last : List Node} {calls calls' : List Call}
  {ih ih₁ ih₂ : List Bool} {found more : List Evidence}

/-- The calls lead the review from one place to another and teach it the evidence, whatever the
tables say. -/
def Leads (calls : List Call) (first : List Node) (ih : List Bool) (last : List Node)
    (ih' : List Bool) (found : List Evidence) : Prop :=
  ∀ l, ∃ l', ∀ t ds notes,
    Run.hear calls ⟨[reviewIn (ν := ν) exceptions ignored first l ih ds], t, notes⟩ =
      (⟨[reviewIn exceptions ignored last l' ih' ds], t.learn .controllers found, notes⟩, none)

variable {exceptions ignored}

theorem Leads.append (h : Leads (ν := ν) exceptions ignored calls first ih mid ih₁ found)
    (h' : Leads (ν := ν) exceptions ignored calls' mid ih₁ last ih₂ more) :
    Leads (ν := ν) exceptions ignored (calls ++ calls') first ih last ih₂ (found ++ more) := by
  intro l
  obtain ⟨l₁, h⟩ := h l
  obtain ⟨l₂, h'⟩ := h' l₁
  refine ⟨l₂, fun t ds notes => ?_⟩
  rw [Run.hear_append, Attempt.andThen_of_none _ (h t ds notes), h', Tables.learn_append]

theorem Leads.nil (outer : List Node) (ih : List Bool) :
    Leads (ν := ν) exceptions ignored [] outer ih outer ih [] := fun l => ⟨l, fun _ _ _ => rfl⟩

/-- A call teaches the names that its node uses, in the class around it. -/
theorem leads_node (hfile : (unusedSpec (ν := ν) exceptions ignored).accepts file) (phase : Phase)
    (outer : List Node) (n : Node)
    (hlength : ih.length = Node.classDepth (phase.openBefore outer n)) :
    ∃ found ih', ih'.length = Node.classDepth (phase.openAfter outer n) ∧
      (phase = .enter → ∀ name ∈ Usage.namesAt n,
        .call (Node.enclosingClass outer) name ∈ found) ∧
      Leads (ν := ν) exceptions ignored [.node phase file n] (phase.openBefore outer n) ih
        (phase.openAfter outer n) ih' found := by
  have hreaches (st : UsageScope) (ds : List Diagnostic) :
      (Call.node phase file n).reaches (⟨unusedSpec exceptions ignored, st, ds⟩ : Check ν) ↔
        n.kind ∈ (unusedSpec (ν := ν) exceptions ignored).kinds := by
    rw [Call.reaches_node, and_iff_left hfile]
  unfold Leads
  rw [Run.hear_singleton]
  by_cases hkind : n.kind ∈ (unusedSpec (ν := ν) exceptions ignored).kinds
  · obtain ⟨found, ih', hlength', huse, heffect⟩ :=
      handlesAt (ν := ν) exceptions ignored phase outer n ih hlength
    refine ⟨found, ih', hlength', huse, fun l => ?_⟩
    obtain ⟨l', heffect⟩ := heffect l
    refine ⟨l', fun t ds notes => Run.announce_single ((hreaches _ _).2 hkind) ?_ notes⟩
    simp only [Call.answer, reviewIn, Run.runCheck, heffect, List.map_nil, List.append_nil]
  · have hkinds : n.kind ≠ .classDef ∧ n.kind ≠ .moduleDef ∧ n.kind ∉ Usage.kinds := by
      refine ⟨fun h => hkind ?_, fun h => hkind ?_, fun h => hkind ?_⟩
      all_goals simp [unusedSpec, unusedActions, Spec.trackUses, Spec.trackClasses,
        Spec.kinds_withEnd, h]
    obtain ⟨hclass, hmodule, huses⟩ := hkinds
    have hdepth : Node.classDepth (n :: outer) = Node.classDepth outer := by
      simp [Node.classDepth, hclass]
    rw [namesAt_of_not_mem huses]
    refine ⟨[], ih, ?_, fun _ => List.forall_mem_nil _, fun l => ?_⟩
    · cases phase with
      | enter => exact hlength.trans hdepth.symm
      | exit => exact hlength.trans hdepth
    · obtain ⟨l', hscope⟩ := follow_eq phase outer n l
      rw [ClassScope.follow_other hclass hmodule] at hscope
      refine ⟨l', fun t ds notes => ?_⟩
      unfold reviewIn
      rw [← hscope]
      exact Run.announce_single_of_not_reaches (fun h => hkind ((hreaches _ _).1 h)) t notes

theorem leads_lexical (hfile : (unusedSpec (ν := ν) exceptions ignored).accepts file)
    {calls : List (List Node × Call)} (h : Call.Lexical file first calls last)
    (hlength : ih.length = Node.classDepth first) :
    ∃ found ih', ih'.length = Node.classDepth last ∧
      (∀ x ∈ calls.filterMap Call.occurrence?, ∀ name ∈ Usage.namesAt x.2,
        .call (Node.enclosingClass x.1) name ∈ found) ∧
      Leads (ν := ν) exceptions ignored (calls.map (·.2)) first ih last ih' found := by
  induction h generalizing ih with
  | nil outer => exact ⟨[], ih, hlength, nofun, .nil outer ih⟩
  | @enter outer n rest _ _ hrest =>
    obtain ⟨found, ih₁, hlength₁, huse, hcall⟩ :=
      leads_node (ν := ν) hfile .enter outer n hlength
    obtain ⟨more, ih₂, hlength₂, huses, hcalls⟩ := hrest hlength₁
    refine ⟨found ++ more, ih₂, hlength₂, fun x hx name hname => ?_, hcall.append hcalls⟩
    rcases List.mem_cons.1 hx with rfl | hx
    · exact List.mem_append_left _ (huse rfl name hname)
    · exact List.mem_append_right _ (huses x hx name hname)
  | @exit outer n rest _ _ hrest =>
    obtain ⟨found, ih₁, hlength₁, -, hcall⟩ :=
      leads_node (ν := ν) hfile .exit outer n hlength
    obtain ⟨more, ih₂, hlength₂, huses, hcalls⟩ := hrest hlength₁
    refine ⟨found ++ more, ih₂, hlength₂, fun x hx name hname => ?_, hcall.append hcalls⟩
    exact List.mem_append_right _ (huses x hx name hname)

variable (exceptions ignored) in
/-- What a tree teaches: if its file is accepted, every use of a name in the class around it. -/
structure Lesson (x : Path × Node) (found : List Evidence) : Prop where
  uses : (unusedSpec (ν := ν) exceptions ignored).accepts x.1 →
    ∀ y ∈ x.2.occurrences [], ∀ name ∈ Usage.namesAt y.2,
      .call (Node.enclosingClass y.1) name ∈ found
  leads : Leads (ν := ν) exceptions ignored (Call.ofTree x.1 x.2) [] [] [] [] found

variable (exceptions ignored)

theorem exists_lesson {x : Path × Node} (hroot : x.2.isPlain) :
    ∃ found, Lesson (ν := ν) exceptions ignored x found := by
  by_cases hfile : (unusedSpec (ν := ν) exceptions ignored).accepts x.1
  · obtain ⟨found, ih', hlength, huses, hcalls⟩ :=
      leads_lexical hfile (Call.lexical_around x.1 [] x.2) (List.length_nil (α := Bool))
    obtain rfl : ih' = [] := List.length_eq_zero_iff.1 hlength
    rw [Call.around_occurrences] at huses
    rw [← Call.ofTree_of_isPlain x.1 hroot] at hcalls
    exact ⟨found, fun _ => huses, hcalls⟩
  · refine ⟨[], fun h => absurd h hfile, fun l => ⟨l, fun t ds notes => ?_⟩⟩
    have hout : ∀ call ∈ Call.ofTree x.1 x.2,
        ¬call.reaches (reviewIn (ν := ν) exceptions ignored [] l [] ds) :=
      Call.not_reaches_ofTree hfile hroot
    exact Run.hear_single_of_not_reaches hout t notes

/-- Each tree teaches the review its lesson, wherever it comes. -/
theorem exists_lessons : ∃ learned : Path × Node → List Evidence,
    (∀ x, x.2.isPlain → Lesson (ν := ν) exceptions ignored x (learned x)) ∧
    ∀ trees : List (Path × Node), (∀ x ∈ trees, x.2.isPlain) →
      Leads (ν := ν) exceptions ignored (Call.ofTrees trees) [] [] [] []
        (trees.flatMap learned) := by
  have hone (x : Path × Node) :
      ∃ found, x.2.isPlain → Lesson (ν := ν) exceptions ignored x found := by
    by_cases hroot : x.2.isPlain
    · obtain ⟨found, h⟩ := exists_lesson (ν := ν) exceptions ignored hroot
      exact ⟨found, fun _ => h⟩
    · exact ⟨[], fun h => absurd h hroot⟩
  choose learned hlearned using hone
  refine ⟨learned, hlearned, fun trees hplain => ?_⟩
  induction trees with
  | nil => exact .nil [] []
  | cons x trees ih =>
    have hrest := ih fun y hy => hplain y (List.mem_cons_of_mem _ hy)
    exact (hlearned x (hplain x (by simp))).leads.append hrest

end Runs

end Nodes

end Practice
end RailsReview
