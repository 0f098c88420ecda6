import RailsReview.Practice.MassAssignment
import RailsReview.Proofs.Descendants
import RailsReview.Proofs.Handlers

/-!
# Protection by the nearest class

A declaration protects the class it stands in, not the classes around that one. The review keeps a
frame for every open class and marks the innermost; in the end a class is protected by exactly the
declarations that have no other class between them and it.
-/
namespace RailsReview

namespace Node

mutual

/-- The nodes of a tree in the order in which they are left, each after the nodes below it. -/
def postorder : Node → List Node
  | .mk k slots p own => postorderIn slots ++ [.mk k slots p own]

def postorderIn : List Slot → List Node
  | [] => []
  | .node n :: rest => postorder n ++ postorderIn rest
  | _ :: rest => postorderIn rest

end

mutual

theorem postorder_perm : ∀ n : Node, (postorder n).Perm n.preorder
  | .mk k slots p own => by
    rw [postorder, preorder, occurrences, List.map_cons, nodes_occurrencesIn _ [] slots]
    exact (List.perm_append_singleton _ _).trans ((postorderIn_perm slots).cons _)

theorem postorderIn_perm :
    ∀ slots : List Slot, (postorderIn slots).Perm ((occurrencesIn [] slots).map (·.2))
  | [] => .refl _
  | .node n :: rest => by
    rw [postorderIn, occurrencesIn, List.map_append]
    exact (postorder_perm n).append (postorderIn_perm rest)
  | .literal _ :: rest => postorderIn_perm rest
  | .absent :: rest => postorderIn_perm rest

end

end Node

namespace Practice
open Node
variable {ν : Type}

/-- Whether a node is a declaration that protects the class it stands in. -/
def protects (n : Node) : Bool :=
  match n.kind with
  | .command => includesProtection n || protectingCalls.contains n.messageText
  | .variableCall | .varRef => protectingCalls.contains n.text
  | _ => false

/-- Whether a node protects what is around all of its ancestors, as none of them is a class. -/
def reachesOut (x : List Node × Node) : Bool := protects x.2 && !x.1.any (·.kind == .classDef)

/-- Whether a declaration in a class protects it, as there is no other class in between. -/
def isProtectedInside (c : Node) : Bool := (occurrencesIn [] c.slots).any reachesOut

/-- Whether a class of records is left without protection. -/
def isUnprotected (t : Tables) (n : Node) : Bool :=
  n.kind == .classDef && recordBases.contains (Text.withoutRoot (textOf n.baseClass?)) &&
    !isApplicationProtected t && !isProtectedInside n

/-- What the review reports of a class. -/
def unprotectedFinding (file : Path) (n : Node) : Finding :=
  Site.finding ⟨some file, n.line?⟩ "protect mass assignment"

/-- The innermost class as protected, if something protects it. -/
def protectIf (protecting : Bool) (classes : List RecordClass) : List RecordClass :=
  if protecting then protect classes else classes

theorem protectIf_protectIf (a b : Bool) (classes : List RecordClass) :
    protectIf b (protectIf a classes) = protectIf (a || b) classes := by
  cases a with
  | false => rfl
  | true => cases b with
    | false => rfl
    | true => cases classes with
      | nil => rfl
      | cons c classes => rfl

section Protection
variable {outer : List Node}

/-- Nothing in a class protects what is around it. -/
theorem any_reachesOut_eq_false (h : outer.any (·.kind == .classDef)) (slots : List Slot) :
    (occurrencesIn outer slots).any reachesOut = false := by
  refine List.any_eq_false.2 fun x hx hprotects => ?_
  obtain ⟨c, hc, hclass⟩ := List.any_eq_true.1 h
  have hinside : x.1.any (·.kind == .classDef) :=
    List.any_eq_true.2 ⟨c, subset_of_mem_occurrencesIn outer slots x hx hc, hclass⟩
  rw [reachesOut, hinside, Bool.not_true, Bool.and_false] at hprotects
  cases hprotects

end Protection

section Steps
variable (ignored : List FilePattern) (t : Tables) (notes : List ν)

/-- The review alone inside of these classes, with these findings made. -/
def guarding (classes : List RecordClass) (found : List Finding) : Session ν :=
  let check := massAssignment ignored
  ⟨[⟨check.spec, classes, found.map check.diagnostic⟩], t, notes⟩

theorem kinds_massAssignment : (massAssignment (ν := ν) ignored).spec.kinds =
    [.classDef, .command, .variableCall, .varRef] := rfl

/-- The open classes after entering a node. -/
def entering (n : Node) (classes : List RecordClass) : List RecordClass :=
  if n.kind = .classDef then RecordClass.of t n :: classes else protectIf (protects n) classes

/-- The open classes after leaving a node. -/
def leaving (n : Node) (classes : List RecordClass) : List RecordClass :=
  if n.kind = .classDef then classes.tail else classes

/-- What is reported of the innermost class when a node is left. -/
def leavingFindings (file : Path) (n : Node) (classes : List RecordClass) : List Finding :=
  if n.kind = .classDef ∧ isOpen classes then [unprotectedFinding file n] else []

theorem kind_ne_of_not_mem {n : Node} (h : n.kind ∉ (massAssignment (ν := ν) ignored).spec.kinds) :
    n.kind ≠ .classDef ∧ protects n = false := by
  simp only [kinds_massAssignment, List.mem_cons, List.not_mem_nil, or_false, not_or] at h
  obtain ⟨hclass, hcommand, hcall, href⟩ := h
  refine ⟨hclass, ?_⟩
  unfold protects
  split
  · contradiction
  · contradiction
  · contradiction
  · rfl

section Handled
variable {n : Node} (hkind : n.kind ∈ (massAssignment (ν := ν) ignored).spec.kinds)
  (classes : List RecordClass)
include hkind

theorem handleAll_entering (site : Site) :
    Run.handleAll site n ((massAssignment (ν := ν) ignored).spec.handlers .enter n.kind)
        { state := classes, tables := t } =
      { state := entering t n classes, tables := t } := by
  simp only [kinds_massAssignment, List.mem_cons, List.not_mem_nil, or_false] at hkind
  rcases hkind with hkind | hkind | hkind | hkind
  · rw [entering, if_pos hkind, hkind]
    rfl
  · rw [entering, protects, hkind]
    rfl
  · rw [entering, protects, hkind]
    rfl
  · rw [entering, protects, hkind]
    rfl

theorem handleAll_leaving (file : Path) :
    Run.handleAll ⟨some file, n.line?⟩ n
        ((massAssignment (ν := ν) ignored).spec.handlers .exit n.kind)
        { state := classes, tables := t } =
      { state := leaving n classes, tables := t, findings := leavingFindings file n classes } := by
  simp only [kinds_massAssignment, List.mem_cons, List.not_mem_nil, or_false] at hkind
  rw [leaving, leavingFindings]
  rcases hkind with hkind | hkind | hkind | hkind
  · simp [massAssignment, hkind, Run.handleAll, Handler.report, Handler.update, unprotectedFinding]
  · rw [hkind]
    rfl
  · rw [hkind]
    rfl
  · rw [hkind]
    rfl

end Handled

section Announced
variable {file : Path} (hfile : (massAssignment (ν := ν) ignored).accepts file) (n : Node)
  (classes : List RecordClass) (found : List Finding)
include hfile

theorem reaches_guarding (phase : Phase) (ds : List Diagnostic) :
    (Call.node phase file n).reaches (⟨(massAssignment ignored).spec, classes, ds⟩ : Check ν) ↔
      n.kind ∈ (massAssignment (ν := ν) ignored).spec.kinds :=
  Call.reaches_node.trans (and_iff_left hfile)

theorem announce_enter_guarding :
    Run.announce (.node .enter file n) (guarding (ν := ν) ignored t notes classes found) =
      (guarding ignored t notes (entering t n classes) found, none) := by
  by_cases hkind : n.kind ∈ (massAssignment (ν := ν) ignored).spec.kinds
  · refine Run.announce_single ((reaches_guarding ignored hfile n classes _ _).2 hkind) ?_ notes
    rw [Call.answer, Run.runCheck, handleAll_entering ignored t hkind, List.map_nil,
      List.append_nil]
  · obtain ⟨hclass, hprotects⟩ := kind_ne_of_not_mem ignored hkind
    rw [entering, if_neg hclass, hprotects]
    refine Run.announce_single_of_not_reaches ?_ t notes
    rwa [reaches_guarding ignored hfile]

theorem announce_exit_guarding :
    Run.announce (.node .exit file n) (guarding (ν := ν) ignored t notes classes found) =
      (guarding ignored t notes (leaving n classes)
        (found ++ leavingFindings file n classes), none) := by
  by_cases hkind : n.kind ∈ (massAssignment (ν := ν) ignored).spec.kinds
  · refine Run.announce_single ((reaches_guarding ignored hfile n classes _ _).2 hkind) ?_ notes
    rw [Call.answer, Run.runCheck, handleAll_leaving ignored t hkind, List.map_append]
    rfl
  · obtain ⟨hclass, -⟩ := kind_ne_of_not_mem ignored hkind
    rw [leaving, if_neg hclass, leavingFindings, if_neg fun h => hclass h.1, List.append_nil]
    refine Run.announce_single_of_not_reaches ?_ t notes
    rwa [reaches_guarding ignored hfile]

end Announced
end Steps

/-- What is reported in a tree. -/
def unprotectedFindings (t : Tables) (file : Path) (nodes : List Node) : List Finding :=
  (nodes.filter (isUnprotected t)).map (unprotectedFinding file)

theorem unprotectedFindings_append (t : Tables) (file : Path) (nodes nodes' : List Node) :
    unprotectedFindings t file (nodes ++ nodes') =
      unprotectedFindings t file nodes ++ unprotectedFindings t file nodes' := by
  rw [unprotectedFindings, List.filter_append, List.map_append]
  rfl

theorem reachesOut_class {n : Node} (h : n.kind = .classDef) (outer : List Node) :
    reachesOut (outer, n) = false := by
  rw [reachesOut, protects, h]
  rfl

theorem leaving_class {n : Node} (h : n.kind = .classDef) (protecting : Bool) (c : RecordClass)
    (classes : List RecordClass) : leaving n (protectIf protecting (c :: classes)) = classes := by
  rw [leaving, if_pos h]
  cases protecting with
  | false => rfl
  | true => rfl

theorem isOpen_protectIf (protecting : Bool) (c : RecordClass) (classes : List RecordClass) :
    isOpen (protectIf protecting (c :: classes)) =
      (c.isRecord && !c.isProtected && !protecting) := by
  cases protecting with
  | false => exact (Bool.and_true _).symm
  | true =>
    rw [Bool.not_true, Bool.and_false]
    exact Bool.and_false _

/-- A class is reported when it is left, if nothing in it has protected it by then. -/
theorem leavingFindings_class {t : Tables} {n : Node} (h : n.kind = .classDef) (file : Path)
    (classes : List RecordClass) :
    leavingFindings file n (protectIf (isProtectedInside n) (RecordClass.of t n :: classes)) =
      unprotectedFindings t file [n] := by
  have hopen : isOpen (protectIf (isProtectedInside n) (RecordClass.of t n :: classes)) =
      isUnprotected t n := by
    rw [isOpen_protectIf, isUnprotected, h, beq_self_eq_true, Bool.true_and, RecordClass.of]
  rw [leavingFindings, hopen, unprotectedFindings]
  by_cases hreported : isUnprotected t n
  · rw [if_pos ⟨h, hreported⟩, List.filter_cons_of_pos hreported]
    rfl
  · rw [if_neg fun hboth => hreported hboth.2, List.filter_cons_of_neg hreported]
    rfl

theorem leavingFindings_other {t : Tables} {n : Node} (h : n.kind ≠ .classDef) (file : Path)
    (classes : List RecordClass) :
    leavingFindings file n classes = unprotectedFindings t file [n] := by
  have hunreported : ¬isUnprotected t n := by
    rw [isUnprotected, beq_eq_false_iff_ne.2 h, Bool.false_and, Bool.false_and, Bool.false_and]
    exact Bool.false_ne_true
  rw [leavingFindings, if_neg fun hboth => h hboth.1, unprotectedFindings,
    List.filter_cons_of_neg hunreported]
  rfl

section Trees
variable {ignored : List FilePattern} {t : Tables} {notes : List ν} {file : Path}

mutual

/-- A tree protects the class around it by what it has outside of its own classes, and each of its
own classes is reported if it needs protection. -/
theorem hear_below_guarding (hfile : (massAssignment (ν := ν) ignored).accepts file) :
    ∀ n : Node, n.isPlain → ∀ outer : List Node, outer.any (·.kind == .classDef) = false →
      ∀ (classes : List RecordClass) (found : List Finding),
    Run.hear (Call.below file n) (guarding (ν := ν) ignored t notes classes found) =
      (guarding ignored t notes (protectIf ((occurrences outer n).any reachesOut) classes)
        (found ++ unprotectedFindings t file n.postorder), none)
  | .mk k slots p own, hplain, outer, houter, classes, found => by
    simp only [Node.isPlain, Bool.and_eq_true, Option.isNone_iff_eq_none] at hplain
    obtain ⟨rfl, hslots⟩ := hplain
    rw [occurrences, List.any_cons, postorder, unprotectedFindings_append, ← List.append_assoc]
    have henter := announce_enter_guarding ignored t notes hfile (.mk k slots p none) classes found
    -- What stands in a class sees no class around it but that one.
    by_cases hclass : (Node.mk k slots p none).kind = .classDef
    · have hinside := hear_belowSlots_guarding hfile slots hslots [] rfl
        (RecordClass.of t (.mk k slots p none) :: classes) found
      have hexit := announce_exit_guarding ignored t notes hfile (.mk k slots p none)
        (protectIf (isProtectedInside (.mk k slots p none))
          (RecordClass.of t (.mk k slots p none) :: classes))
        (found ++ unprotectedFindings t file (postorderIn slots))
      have haround : (Node.mk k slots p none :: outer).any (·.kind == .classDef) := by
        rw [List.any_cons, hclass, beq_self_eq_true, Bool.true_or]
      rw [entering, if_pos hclass] at henter
      rw [leaving_class hclass, leavingFindings_class hclass] at hexit
      rw [reachesOut_class hclass, any_reachesOut_eq_false haround]
      exact Run.hear_below henter hinside hexit
    · have haround : (Node.mk k slots p none :: outer).any (·.kind == .classDef) = false := by
        rw [List.any_cons, houter, beq_eq_false_iff_ne.2 hclass, Bool.or_false]
      have hinside := hear_belowSlots_guarding hfile slots hslots _ haround
        (protectIf (protects (.mk k slots p none)) classes) found
      have hexit := announce_exit_guarding ignored t notes hfile (.mk k slots p none)
        (protectIf (protects (.mk k slots p none) ||
          (occurrencesIn (.mk k slots p none :: outer) slots).any reachesOut) classes)
        (found ++ unprotectedFindings t file (postorderIn slots))
      rw [protectIf_protectIf] at hinside
      rw [entering, if_neg hclass] at henter
      rw [leaving, if_neg hclass, leavingFindings_other hclass] at hexit
      rw [reachesOut, houter, Bool.not_false, Bool.and_true]
      exact Run.hear_below henter hinside hexit

theorem hear_belowSlots_guarding (hfile : (massAssignment (ν := ν) ignored).accepts file) :
    ∀ slots : List Slot, Node.arePlain slots → ∀ outer : List Node,
      outer.any (·.kind == .classDef) = false →
      ∀ (classes : List RecordClass) (found : List Finding),
    Run.hear (Call.belowSlots file slots) (guarding (ν := ν) ignored t notes classes found) =
      (guarding ignored t notes (protectIf ((occurrencesIn outer slots).any reachesOut) classes)
        (found ++ unprotectedFindings t file (postorderIn slots)), none)
  | [], _, outer, _, classes, found => by
    rw [postorderIn, unprotectedFindings, List.filter_nil, List.map_nil, List.append_nil]
    rfl
  | .node n :: rest, hplain, outer, houter, classes, found => by
    simp only [Node.arePlain, Bool.and_eq_true] at hplain
    rw [Call.belowSlots, Run.hear_append,
      Attempt.andThen_of_none _ (hear_below_guarding hfile n hplain.1 outer houter classes found),
      hear_belowSlots_guarding hfile rest hplain.2 outer houter, protectIf_protectIf,
      occurrencesIn, List.any_append, postorderIn, unprotectedFindings_append, List.append_assoc]
  | .literal _ :: rest, hplain, outer, houter, classes, found =>
    hear_belowSlots_guarding hfile rest hplain outer houter classes found
  | .absent :: rest, hplain, outer, houter, classes, found =>
    hear_belowSlots_guarding hfile rest hplain outer houter classes found

end

end Trees

/-- The review reports, once and at its line, every class of records that neither the application
protects nor a declaration whose nearest class it is. -/
theorem unprotected_classes_reported (ignored : List FilePattern) (t : Tables) (notes : List ν)
    (trees : List (Path × Node)) (hplain : ∀ x ∈ trees, x.2.isPlain) :
    let check := massAssignment (ν := ν) ignored
    Attempt.all (trees.map fun x => Run.tree x.2 x.1) ⟨[check], t, notes⟩ =
      (⟨[{ check with
        diagnostics := ((trees.filter fun x => check.accepts x.1).flatMap fun x =>
          (x.2.postorder.filter (isUnprotected t)).map
            (unprotectedFinding x.1)).map check.diagnostic }], t, notes⟩, none) ∧
      ∀ n : Node, n.postorder.Perm n.preorder := by
  intro check
  refine ⟨?_, postorder_perm⟩
  rw [Run.trees_eq]
  refine Run.hear_ofTrees (guarding ignored t notes []) ?_ ?_ []
  · intro x hx hfile found
    rw [Call.ofTree_of_isPlain x.1 (hplain x hx), Call.around_calls x.1 [] x.2 (hplain x hx),
      hear_below_guarding hfile x.2 (hplain x hx) [] rfl]
    have hnone (b : Bool) : protectIf b [] = [] := by cases b <;> rfl
    rw [hnone]
    rfl
  · intro x hx hfile found
    exact Run.hear_single_of_not_reaches (c := ⟨check.spec, [], found.map check.diagnostic⟩)
      (Call.not_reaches_ofTree hfile (hplain x hx)) t notes

/-- A class of records, written on a line. -/
def recordClass (line : Nat) (name : String) (body : List Node) : Node :=
  let word (k : Kind) (s : String) (p : Option Position) := Node.mk k [.literal (.str s)] p none
  .ofKind .classDef [.node (.ofKind .constRef [.node (word .constant name (some ⟨line, 6⟩))]),
    .node (.ofKind .varRef [.node (word .constant "ApplicationRecord" none)]),
    .node (.ofKind .list (body.map .node))]

/-- What protects a class does not protect the class around it. -/
theorem unprotected_classes_reported_drafts :
    let devise := Node.ofKind .variableCall [.node (.ofKind .identifier [.literal (.str "devise")])]
    let trees := [((⟨"app/models/post.rb"⟩ : Path),
      recordClass 1 "Post" [recordClass 2 "Draft" [devise], recordClass 5 "Note" []])]
    (∀ x ∈ trees, x.2.isPlain) ∧
      (Attempt.all (trees.map fun x => Run.tree x.2 x.1)
        (⟨[massAssignment []], {}, []⟩ : Session Empty)).1.diagnostics.map (·.lines) =
          [[5], [1]] := by
  intro devise trees
  have hplain : ∀ x ∈ trees, x.2.isPlain := by decide +kernel
  refine ⟨hplain, ?_⟩
  rw [(unprotected_classes_reported (ν := Empty) [] {} [] trees hplain).1]
  decide +kernel

end Practice
end RailsReview
