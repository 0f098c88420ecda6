import Mathlib.Data.List.TakeWhile
import RailsReview.Proofs.Handlers
import RailsReview.Proofs.Lexical

/-!
# The class around a node

What a check that tracks classes holds open is what is open in the tree: the classes and modules
among the ancestors of the node. Its other handlers must leave the scope alone, and may do anything
else, even fail.
-/
namespace RailsReview

namespace Node

/-- The name of the scope that a class or module definition opens. -/
def scopeName? (n : Node) : Option String :=
  match n.kind with
  | .classDef => some (textOf n.className?)
  | .moduleDef => some (textOf n.moduleName?)
  | _ => none

/-- The names of the classes and modules among nodes that are given from the innermost outwards; the
outermost name comes first. -/
def scopeNames (outer : List Node) : List String := (outer.filterMap scopeName?).reverse

/-- The class that a node defines inside of others. -/
def classIn (outer : List Node) (n : Node) : ClassRecord :=
  ⟨textOf n.className?, textOf n.baseClass?, scopeNames outer⟩

/-- The names from the outermost to the innermost class, joined; without a class nothing. -/
def enclosingClass (outer : List Node) : String :=
  "::".intercalate (scopeNames (outer.dropWhile (·.kind != .classDef)))

/-- The classes and modules among nodes as a scope holds them. -/
def enclosures : List Node → List Enclosure
  | [] => []
  | n :: outer =>
    match n.kind with
    | .classDef => .class_ (n.classIn outer) :: enclosures outer
    | .moduleDef => .module_ (textOf n.moduleName?) :: enclosures outer
    | _ => enclosures outer

section Enclosures
variable {n : Node} {outer : List Node}

theorem enclosures_class (h : n.kind = .classDef) :
    enclosures (n :: outer) = .class_ (n.classIn outer) :: enclosures outer := by
  rw [enclosures, h]

theorem enclosures_module (h : n.kind = .moduleDef) :
    enclosures (n :: outer) = .module_ (textOf n.moduleName?) :: enclosures outer := by
  rw [enclosures, h]

theorem enclosures_other (hclass : n.kind ≠ .classDef) (hmodule : n.kind ≠ .moduleDef) :
    enclosures (n :: outer) = enclosures outer := by
  rw [enclosures]
  split
  · contradiction
  · contradiction
  · rfl

theorem scopeName?_class (h : n.kind = .classDef) : n.scopeName? = some (textOf n.className?) := by
  rw [scopeName?, h]

theorem scopeName?_module (h : n.kind = .moduleDef) :
    n.scopeName? = some (textOf n.moduleName?) := by
  rw [scopeName?, h]

theorem scopeName?_other (hclass : n.kind ≠ .classDef) (hmodule : n.kind ≠ .moduleDef) :
    n.scopeName? = none := by
  rw [scopeName?]
  split
  · contradiction
  · contradiction
  · rfl

end Enclosures

theorem enclosingClass_of_outside {outer : List Node} (h : ∀ m ∈ outer, m.kind ≠ .classDef) :
    enclosingClass outer = "" := by
  have hnone : outer.dropWhile (·.kind != .classDef) = [] :=
    List.dropWhile_eq_nil_iff.2 fun m hm => by simpa using h m hm
  rw [enclosingClass, hnone]
  rfl

theorem map_name_enclosures (outer : List Node) :
    (enclosures outer).map Enclosure.name = outer.filterMap scopeName? := by
  induction outer with
  | nil => rfl
  | cons n outer ih =>
    by_cases hclass : n.kind = .classDef
    · rw [enclosures_class hclass, List.map_cons, ih,
        List.filterMap_cons_some (scopeName?_class hclass)]
      rfl
    · by_cases hmodule : n.kind = .moduleDef
      · rw [enclosures_module hmodule, List.map_cons, ih,
          List.filterMap_cons_some (scopeName?_module hmodule)]
        rfl
      · rw [enclosures_other hclass hmodule, ih,
          List.filterMap_cons_none (scopeName?_other hclass hmodule)]

end Node

theorem qualify_eq (modules : List String) (name : String) :
    qualify modules name = "::".intercalate (modules ++ [name]) := by
  cases modules with
  | nil => exact String.intercalate_singleton.symm
  | cons m modules =>
    rw [String.intercalate_append_of_ne_nil (List.cons_ne_nil m modules) (List.cons_ne_nil name []),
      String.intercalate_singleton]
    rfl

namespace ClassScope
open Node
variable {s : ClassScope} {n : Node} {outer : List Node}

theorem names_of_enclosures (h : s.enclosures = Node.enclosures outer) :
    s.names = scopeNames outer := by
  rw [names, h, map_name_enclosures, scopeNames]

theorem className_of_enclosures (h : s.enclosures = Node.enclosures outer) :
    s.className = enclosingClass outer := by
  simp only [className, class?, h]
  induction outer generalizing s with
  | nil => rfl
  | cons n outer ih =>
    by_cases hclass : n.kind = .classDef
    · have hstop : (n :: outer).dropWhile (·.kind != .classDef) = n :: outer :=
        List.dropWhile_cons_of_neg (by simp [hclass])
      have hnames : scopeNames (n :: outer) = scopeNames outer ++ [textOf n.className?] := by
        rw [scopeNames, List.filterMap_cons_some (scopeName?_class hclass), List.reverse_cons]
        rfl
      rw [enclosures_class hclass, enclosingClass, hstop, hnames, ← qualify_eq]
      rfl
    · have hskip : enclosingClass (n :: outer) = enclosingClass outer := by
        rw [enclosingClass, List.dropWhile_cons_of_pos (by simp [hclass])]
        rfl
      have hrest := @ih ⟨Node.enclosures outer, none⟩ rfl
      by_cases hmodule : n.kind = .moduleDef
      · rw [enclosures_module hmodule, hskip]
        exact hrest
      · rw [enclosures_other hclass hmodule, hskip]
        exact hrest

theorem class?_enterClass (n : Node) (s : ClassScope) :
    (s.enterClass n).class? = some (s.defined n) := rfl

/-- What becomes of the scope at a node. -/
def follow (phase : Phase) (n : Node) (s : ClassScope) : ClassScope :=
  match phase, n.kind with
  | .enter, .classDef => s.enterClass n
  | .enter, .moduleDef => s.enterModule n
  | .exit, .classDef => s.leave
  | .exit, .moduleDef => s.leave
  | _, _ => s

theorem follow_other (hclass : n.kind ≠ .classDef) (hmodule : n.kind ≠ .moduleDef) (phase : Phase)
    (s : ClassScope) : s.follow phase n = s := by
  unfold follow
  split
  all_goals first | contradiction | rfl

theorem follow_exit_class (h : s.enclosures = Node.enclosures (n :: outer))
    (hclass : n.kind = .classDef) :
    s.follow .exit n = ⟨Node.enclosures outer, some (n.classIn outer)⟩ := by
  rw [enclosures_class hclass] at h
  simp only [follow, hclass, leave, h]
  rfl

theorem follow_enclosures {phase : Phase}
    (h : s.enclosures = Node.enclosures (phase.openBefore outer n)) :
    (s.follow phase n).enclosures = Node.enclosures (phase.openAfter outer n) := by
  by_cases hclass : n.kind = .classDef
  · cases phase with
    | enter =>
      rw [Phase.openAfter, enclosures_class hclass,
        ← show s.enclosures = Node.enclosures outer from h]
      simp only [follow, hclass, enterClass, defined, classIn, names_of_enclosures h,
        Phase.openBefore]
    | exit => rw [follow_exit_class h hclass, Phase.openAfter]
  · by_cases hmodule : n.kind = .moduleDef
    · cases phase with
      | enter =>
        rw [Phase.openAfter, enclosures_module hmodule,
          ← show s.enclosures = Node.enclosures outer from h]
        simp only [follow, hmodule, enterModule]
      | exit =>
        rw [Phase.openBefore, enclosures_module hmodule] at h
        simp only [follow, hmodule, leave, h, Phase.openAfter]
    · rw [follow_other hclass hmodule, h]
      cases phase with
      | enter => exact (enclosures_other hclass hmodule).symm
      | exit => exact enclosures_other hclass hmodule

section Congruence
variable {s' : ClassScope}

theorem class?_congr (h : s.enclosures = s'.enclosures) : s.class? = s'.class? := by
  rw [class?, class?, h]

theorem names_congr (h : s.enclosures = s'.enclosures) : s.names = s'.names := by
  rw [names, names, h]

theorem className_congr (h : s.enclosures = s'.enclosures) : s.className = s'.className := by
  rw [className, className, class?_congr h]

theorem moduleName_congr (h : s.enclosures = s'.enclosures) : s.moduleName = s'.moduleName := by
  rw [moduleName, moduleName, names_congr h]

theorem enclosures_enterClass_congr (h : s.enclosures = s'.enclosures) (n : Node) :
    (s.enterClass n).enclosures = (s'.enterClass n).enclosures := by
  simp only [enterClass, defined, names_congr h, h]

theorem enclosures_enterModule_congr (h : s.enclosures = s'.enclosures) (n : Node) :
    (s.enterModule n).enclosures = (s'.enterModule n).enclosures := by
  simp only [enterModule, h]

theorem enclosures_leave (s : ClassScope) : s.leave.enclosures = s.enclosures.tail := by
  unfold leave
  split
  · rename_i h
    rw [h]
    rfl
  · rename_i h
    rw [h]
    rfl

theorem enclosures_leave_congr (h : s.enclosures = s'.enclosures) :
    s.leave.enclosures = s'.leave.enclosures := by
  rw [enclosures_leave, enclosures_leave, h]

theorem leave_of_class {c : ClassRecord} {rest : List Enclosure}
    (h : s.enclosures = .class_ c :: rest) : s.leave = ⟨rest, some c⟩ := by
  simp [leave, h, Enclosure.class?]

/-- Leaving a node undoes what entering it did, if the same is open again. -/
theorem enclosures_follow_exit {n : Node}
    (h : s'.enclosures = (s.follow .enter n).enclosures) :
    (s'.follow .exit n).enclosures = s.enclosures := by
  by_cases hclass : n.kind = .classDef
  · simp only [follow, hclass] at h ⊢
    rw [enclosures_leave, h]
    rfl
  · by_cases hmodule : n.kind = .moduleDef
    · simp only [follow, hmodule] at h ⊢
      rw [enclosures_leave, h]
      rfl
    · rw [follow_other hclass hmodule] at h ⊢
      exact h

end Congruence

end ClassScope

namespace Spec
variable {ν σ : Type}

/-- The handlers that keep track of classes. -/
def classHandlers (scope : Field σ ClassScope) : List ((Phase × Kind) × Handler ν σ Node) :=
  [((.enter, .classDef), .update fun n => scope.modify (.enterClass n)),
    ((.exit, .classDef), .update fun _ => scope.modify .leave),
    ((.enter, .moduleDef), .update fun n => scope.modify (.enterModule n)),
    ((.exit, .moduleDef), .update fun _ => scope.modify .leave)]

theorem trackClasses_onNode (scope : Field σ ClassScope) (s : Spec ν σ) :
    (s.trackClasses scope).onNode = s.onNode ++ classHandlers scope := by
  simp only [trackClasses, on, interestedIn, classHandlers, List.append_assoc,
    List.cons_append, List.nil_append]

/-- A check that tracks classes: which handlers were added before that and which after it. None of
them touches the scope. -/
structure TracksClasses (scope : Field σ ClassScope)
    (earlier later : List ((Phase × Kind) × Handler ν σ Node)) (s : Spec ν σ) : Prop where
  onNode : s.onNode = earlier ++ (classHandlers scope ++ later)
  classKind : .classDef ∈ s.kinds
  moduleKind : .moduleDef ∈ s.kinds
  lawful : scope.Lawful
  kept : ∀ h ∈ earlier ++ later, h.2.Keeps scope

variable {scope : Field σ ClassScope} {earlier later : List ((Phase × Kind) × Handler ν σ Node)}
  {spec : Spec ν σ} {site : Site} {phase : Phase} {n : Node}

/-- The tracking itself, at a node. -/
theorem handleAll_classHandlers (hscope : scope.Lawful) {e : Effect ν σ} (he : e.failure = none) :
    scope.get (Run.handleAll site n (addedFor phase n.kind (classHandlers scope)) e).state =
      (scope.get e.state).follow phase n := by
  by_cases hclass : n.kind = .classDef
  · cases phase <;>
      simp [addedFor, classHandlers, ClassScope.follow, hclass, Run.handleAll, he, Handler.update,
        Field.modify, hscope _ _]
  · by_cases hmodule : n.kind = .moduleDef
    · cases phase <;>
        simp [addedFor, classHandlers, ClassScope.follow, hmodule, Run.handleAll, he,
          Handler.update, Field.modify, hscope _ _]
    · have hnone : addedFor phase n.kind (classHandlers (ν := ν) scope) = [] := by
        have hclass' : Kind.classDef ≠ n.kind := Ne.symm hclass
        have hmodule' : Kind.moduleDef ≠ n.kind := Ne.symm hmodule
        simp [addedFor, classHandlers, hclass', hmodule']
      rw [hnone, ClassScope.follow_other hclass hmodule]
      rfl

namespace TracksClasses

/-- The scope that a handler sees that was added after the tracking and after `before`. -/
theorem seen (h : spec.TracksClasses scope earlier later) (site : Site) (phase : Phase) (n : Node)
    {before after : List ((Phase × Kind) × Handler ν σ Node)} (hlater : later = before ++ after)
    (st : σ) (t : Tables) :
    let e := Run.handleAll site n
      (addedFor phase n.kind (earlier ++ (classHandlers scope ++ before)))
      { state := st, tables := t }
    e.failure = none → scope.get e.state = (scope.get st).follow phase n := by
  intro e he
  have hkept {hs : List ((Phase × Kind) × Handler ν σ Node)} (hs' : hs ⊆ earlier ++ later) :
      ∀ g ∈ addedFor phase n.kind hs, g.Keeps scope := fun g hg =>
    h.kept _ (hs' (mem_addedFor.1 hg))
  have hearlier := hkept (List.subset_append_left earlier later)
  have hbefore : ∀ g ∈ addedFor phase n.kind before, g.Keeps scope := by
    apply hkept
    rw [hlater]
    exact List.subset_append_of_subset_right _ (List.subset_append_left before after)
  simp only [e, addedFor_append, Run.handleAll_append] at he ⊢
  rw [Run.handleAll_keeps hbefore]
  rcases hf : (Run.handleAll site n (addedFor phase n.kind earlier)
      { state := st, tables := t }).failure with _ | x
  · rw [handleAll_classHandlers h.lawful hf, Run.handleAll_keeps hearlier]
  · rw [Run.handleAll_of_failure _ hf, Run.handleAll_of_failure _ hf, hf] at he
    cases he

/-- What the check makes of its scope at a call. -/
theorem answer (h : spec.TracksClasses scope earlier later) (file : Path) (st : σ)
    (ds : List Diagnostic) (t : Tables)
    (hok : ((Call.node phase file n).answer ⟨spec, st, ds⟩ t).2.2.2 = none) :
    ∃ st' ds', ((Call.node phase file n).answer ⟨spec, st, ds⟩ t).1 = ⟨spec, st', ds'⟩ ∧
      scope.get st' = (scope.get st).follow phase n := by
  have hall := h.seen ⟨some file, n.line?⟩ phase n (List.append_nil later).symm st t
  rw [← h.onNode] at hall
  exact ⟨_, _, rfl, hall hok⟩

/-- The check at a place has open what `outer` says. -/
def Inside (spec : Spec ν σ) (scope : Field σ ClassScope) (i : Nat) (outer : List Node)
    (s : Session ν) : Prop :=
  ∃ st ds, s.checks[i]? = some ⟨spec, st, ds⟩ ∧ (scope.get st).enclosures = Node.enclosures outer

variable {i : Nat} {file : Path} {outer : List Node} {s s' : Session ν}

theorem announce (h : spec.TracksClasses scope earlier later) (hfile : spec.accepts file)
    {st : σ} {ds : List Diagnostic} (hc : s.checks[i]? = some ⟨spec, st, ds⟩)
    (hrun : Run.announce (.node phase file n) s = (s', none)) :
    ∃ st' ds', s'.checks[i]? = some ⟨spec, st', ds'⟩ ∧
      scope.get st' = (scope.get st).follow phase n := by
  rcases Run.announce_at hc hrun with ⟨hout, hsame⟩ | ⟨-, t, hok, hnew⟩
  · have hkind : n.kind ∉ spec.kinds := by
      intro hmem
      apply hout
      exact Call.reaches_node.2 ⟨hmem, hfile⟩
    have hclass : n.kind ≠ .classDef := fun heq => hkind (heq ▸ h.classKind)
    have hmodule : n.kind ≠ .moduleDef := fun heq => hkind (heq ▸ h.moduleKind)
    exact ⟨st, ds, hsame, by rw [ClassScope.follow_other hclass hmodule]⟩
  · obtain ⟨st', ds', hanswer, hscope⟩ := h.answer file st ds t hok
    exact ⟨st', ds', by rw [hnew, hanswer], hscope⟩

/-- Through all calls of an accepted file the check has open what is open in the tree. -/
theorem hear (h : spec.TracksClasses scope earlier later) (hfile : spec.accepts file)
    {first last : List Node} {calls : List (List Node × Call)}
    (hcalls : Call.Lexical file first calls last) (hs : Inside spec scope i first s)
    (hrun : Run.hear (calls.map (·.2)) s = (s', none)) : Inside spec scope i last s' := by
  refine Run.hear_lexical ?_ hcalls hs hrun
  rintro phase outer n s s' ⟨st, ds, hc, hopen⟩ hstep
  obtain ⟨st', ds', hc', hscope⟩ := h.announce hfile hc hstep
  refine ⟨st', ds', hc', ?_⟩
  rw [hscope]
  exact ClassScope.follow_enclosures hopen

/-- After every tree nothing is open. -/
theorem hear_trees (h : spec.TracksClasses scope earlier later) {trees : List (Path × Node)}
    (hplain : ∀ x ∈ trees, x.2.isPlain) (hs : Inside spec scope i [] s)
    (hrun : Run.hear (Call.ofTrees trees) s = (s', none)) : Inside spec scope i [] s' := by
  induction trees generalizing s with
  | nil =>
    obtain rfl : s = s' := congrArg Prod.fst hrun
    exact hs
  | cons x trees ih =>
    obtain ⟨mid, hfirst, hrest⟩ := Run.hear_of_append (Call.ofTree x.1 x.2) hrun
    have hroot := hplain x (by simp)
    refine ih (fun y hy => hplain y (List.mem_cons_of_mem _ hy)) ?_ hrest
    by_cases hfile : spec.accepts x.1
    · rw [Call.ofTree_of_isPlain x.1 hroot] at hfirst
      exact h.hear hfile (Call.lexical_around x.1 [] x.2) hs hfirst
    · obtain ⟨st, ds, hc, hopen⟩ := hs
      have hout := Call.not_reaches_ofTree (c := ⟨spec, st, ds⟩) hfile hroot
      exact ⟨st, ds, Run.hear_at_of_not_reaches hc hout hfirst, hopen⟩

/-- In the middle of a tree, after other ones, a check alone has open what is open in the tree. -/
theorem enclosures_hear (h : spec.TracksClasses scope earlier later) (hfile : spec.accepts file)
    {trees : List (Path × Node)} (hplain : ∀ x ∈ trees, x.2.isPlain)
    {calls : List (List Node × Call)} (hcalls : Call.Lexical file [] calls outer) {st st' : σ}
    (hst : (scope.get st).enclosures = []) {ds ds' : List Diagnostic} {t t' : Tables}
    {notes notes' : List ν} (hrun : Run.hear (Call.ofTrees trees ++ calls.map (·.2))
      ⟨[⟨spec, st, ds⟩], t, notes⟩ = (⟨[⟨spec, st', ds'⟩], t', notes'⟩, none)) :
    (scope.get st').enclosures = Node.enclosures outer := by
  obtain ⟨mid, htrees, hmade⟩ := Run.hear_of_append _ hrun
  have hstart : Inside spec scope 0 [] ⟨[⟨spec, st, ds⟩], t, notes⟩ := ⟨st, ds, rfl, hst⟩
  obtain ⟨st₁, ds₁, hcheck, hopen⟩ := h.hear hfile hcalls (h.hear_trees hplain hstart htrees) hmade
  obtain ⟨rfl, -⟩ : st' = st₁ ∧ ds' = ds₁ := by simpa using hcheck
  exact hopen

end TracksClasses

/-- A check that begins with tracking classes. -/
def Tracks (scope : Field σ ClassScope) (spec : Spec ν σ) : Prop :=
  ∃ later, spec.TracksClasses scope [] later

theorem tracks_start {name : String} {url : Option String} {files ignored : List FilePattern}
    (hscope : scope.Lawful) :
    Tracks scope (({ name, url, files, ignored } : Spec ν σ).trackClasses scope) := by
  refine ⟨[], ?_, ?_, ?_, hscope, nofun⟩
  · rw [trackClasses_onNode, List.append_nil, List.nil_append]
  · simp [trackClasses]
  · simp [trackClasses]

namespace Tracks

theorem interestedIn (h : spec.Tracks scope) (kinds : List Kind) :
    (spec.interestedIn kinds).Tracks scope := by
  obtain ⟨later, h⟩ := h
  exact ⟨later, h.onNode, mem_interestedIn.2 (.inl h.classKind),
    mem_interestedIn.2 (.inl h.moduleKind), h.lawful, h.kept⟩

theorem on (h : spec.Tracks scope) {phase : Phase} {k : Kind} {g : Handler ν σ Node}
    (hg : g.Keeps scope) : (spec.on phase k g).Tracks scope := by
  obtain ⟨later, h⟩ := h
  refine ⟨later ++ [((phase, k), g)], ?_, h.classKind, h.moduleKind, h.lawful, ?_⟩
  · simp only [Spec.on, h.onNode, List.append_assoc]
  · intro x hx
    rw [← List.append_assoc] at hx
    rcases List.mem_append.1 hx with hx | hx
    · exact h.kept x hx
    · rw [List.mem_singleton.1 hx]
      exact hg

theorem onEach (h : spec.Tracks scope) {phase : Phase} {kinds : List Kind} {g : Handler ν σ Node}
    (hg : g.Keeps scope) : (spec.onEach phase kinds g).Tracks scope := by
  unfold Spec.onEach
  induction kinds generalizing spec with
  | nil => exact h
  | cons k kinds ih => exact ih (h.on hg)

theorem trackAccess (h : spec.Tracks scope) {access : Field σ AccessScope}
    (hg : ∀ f : Node → AccessScope → AccessScope,
      (Handler.update (ν := ν) fun n => access.modify (f n)).Keeps scope) :
    (spec.trackAccess access).Tracks scope :=
  h.interestedIn _ |>.onEach (hg fun _ => .openSection) |>.onEach (hg fun _ => .closeSection)
    |>.onEach (hg .switchAt) |>.on (hg .beginInline) |>.on (hg .endInline)

end Tracks
end Spec
end RailsReview
