import Mathlib.Data.List.Permutation
import RailsReview.Proofs.Watch

/-!
# Deliveries of a tree

Sending a tree to checks delivers it by plain recursion over the tree. Every check is told of the
nodes that it accepts and of no other: it enters and leaves each once, in proper nesting, whatever
other checks there are.
-/
namespace RailsReview

namespace Node

mutual

/-- The nodes of a tree, each with its file and before the nodes below it. -/
def located (parent : Path) : Node → List (Path × Node)
  | .mk k slots p own =>
    let n := Node.mk k slots p own
    (n.fileBelow parent, n) :: locatedSlots (n.fileBelow parent) slots

def locatedSlots (file : Path) : List Slot → List (Path × Node)
  | [] => []
  | .node n :: rest => located file n ++ locatedSlots file rest
  | _ :: rest => locatedSlots file rest

end

end Node

namespace Call
variable {ν α : Type}

/-- The node that a call enters, with its file. -/
def entered? : Call → Option (Path × Node)
  | node .enter file n => some (file, n)
  | _ => none

/-- The node that a call leaves, with its file. -/
def left? : Call → Option (Path × Node)
  | node .exit file n => some (file, n)
  | _ => none

/-- Every node that is entered is left, after the nodes that were entered meanwhile. -/
inductive Nested : List Call → Prop
  | nil : Nested []
  | node (file : Path) (n : Node) {inside rest : List Call} : Nested inside → Nested rest →
      Nested (node .enter file n :: (inside ++ node .exit file n :: rest))

theorem Nested.append {l r : List Call} (hl : Nested l) (hr : Nested r) : Nested (l ++ r) := by
  induction hl with
  | nil => exact hr
  | node file n hi _ _ ih =>
    rw [List.cons_append, List.append_assoc, List.cons_append]
    exact .node file n hi ih

/-- A check reacts to the entering of a node exactly when it reacts to its leaving. -/
theorem Nested.filter_reaches (c : Check ν) {l : List Call} (h : Nested l) :
    Nested (l.filter (·.reaches c)) := by
  induction h with
  | nil => exact .nil
  | node file n _ _ hi hr =>
    by_cases hc : (Call.node .enter file n).reaches c
    · have hc' : (Call.node .exit file n).reaches c = true := hc
      rw [List.filter_cons_of_pos hc, List.filter_append, List.filter_cons_of_pos hc']
      exact .node file n hi hr
    · have hc' : ¬(Call.node .exit file n).reaches c = true := hc
      rw [List.filter_cons_of_neg hc, List.filter_append, List.filter_cons_of_neg hc']
      exact hi.append hr

theorem Nested.exists_node {l : List Call} (h : Nested l) {call : Call} (hc : call ∈ l) :
    ∃ phase file n, call = .node phase file n := by
  induction h with
  | nil => simp at hc
  | node file n _ _ hi hr =>
    rcases List.mem_cons.1 hc with rfl | hc
    · exact ⟨_, _, _, rfl⟩
    · rcases List.mem_append.1 hc with hc | hc
      · exact hi hc
      · rcases List.mem_cons.1 hc with rfl | hc
        · exact ⟨_, _, _, rfl⟩
        · exact hr hc

/-- As many nodes are left as are entered, and they are the same. -/
theorem Nested.left_perm_entered {l : List Call} (h : Nested l) :
    (l.filterMap left?).Perm (l.filterMap entered?) := by
  induction h with
  | nil => exact .refl _
  | node file n _ _ hi hr =>
    simp only [List.filterMap_cons, entered?, left?, List.filterMap_append]
    exact List.perm_middle.trans ((hi.append hr).cons _)

mutual

theorem nested_below (parent : Path) : ∀ n : Node, Nested (below parent n)
  | .mk _ slots _ _ => .node _ _ (nested_belowSlots _ slots) .nil

theorem nested_belowSlots (file : Path) : ∀ slots : List Slot, Nested (belowSlots file slots)
  | [] => .nil
  | .node n :: rest => (nested_below file n).append (nested_belowSlots file rest)
  | .literal _ :: rest => nested_belowSlots file rest
  | .absent :: rest => nested_belowSlots file rest

end

mutual

theorem entered_below (parent : Path) :
    ∀ n : Node, (below parent n).filterMap entered? = n.located parent
  | .mk k slots p own => by
    simp only [below, List.filterMap_cons, entered?, List.filterMap_append, List.filterMap_nil,
      List.append_nil, Node.located]
    rw [entered_belowSlots _ slots]

theorem entered_belowSlots (file : Path) :
    ∀ slots : List Slot, (belowSlots file slots).filterMap entered? = Node.locatedSlots file slots
  | [] => rfl
  | .node n :: rest => by
    simp only [belowSlots, List.filterMap_append, Node.locatedSlots]
    rw [entered_below file n, entered_belowSlots file rest]
  | .literal _ :: rest => entered_belowSlots file rest
  | .absent :: rest => entered_belowSlots file rest

end

/-- The nodes entered by a check are those it accepts. -/
theorem entered_filter_reaches (c : Check ν) (calls : List Call) :
    (calls.filter (·.reaches c)).filterMap entered? =
      (calls.filterMap entered?).filter fun x => c.kinds.contains x.2.kind && c.accepts x.1 := by
  rw [List.filterMap_filter, List.filter_filterMap]
  apply List.filterMap_congr
  intro call _
  match call with
  | node .enter file n => rfl
  | node .exit file n => simp only [entered?, ite_self, Option.filter]
  | text file content => simp only [entered?, ite_self, Option.filter]
  | atEnd => simp only [entered?, ite_self, Option.filter]

/-- Of the deliveries of a call, one goes to the check at a place, if the call reaches it. -/
theorem toAll_zipIdx (checks : List (Check ν)) (k : Nat) {i : Nat} {c : Check ν}
    (h : checks[i]? = some c) (call : Call) :
    (toAll (checks.zipIdx k) call).filter (·.check == k + i) =
      if call.reaches c then [⟨k + i, call⟩] else [] := by
  induction checks generalizing k i with
  | nil => simp at h
  | cons d checks ih =>
    rw [List.zipIdx_cons, toAll_cons, List.filter_append]
    cases i with
    | zero =>
      obtain rfl : d = c := by simpa using h
      have hrest : (toAll (checks.zipIdx (k + 1)) call).filter (·.check == k + 0) = [] := by
        rw [List.filter_eq_nil_iff]
        intro x hx
        obtain ⟨y, hy, rfl⟩ := List.mem_map.1 hx
        have hplace := (List.mem_zipIdx (List.mem_filter.1 hy).1).1
        simp only [beq_iff_eq]
        omega
      rw [hrest, List.append_nil]
      split <;> simp
    | succ i =>
      have hd : (if call.reaches d then [(⟨k, call⟩ : Delivery Nat)] else []).filter
          (·.check == k + (i + 1)) = [] := by
        split <;> simp
      have hplace : k + (i + 1) = k + 1 + i := by omega
      rw [hd, List.nil_append, hplace]
      exact ih (k + 1) (by simpa using h)

/-- What a check receives depends on the calls and on the check. -/
theorem received_zipIdx (checks : List (Check ν)) (k : Nat) {i : Nat} {c : Check ν}
    (h : checks[i]? = some c) (calls : List Call) :
    ((deliveries (checks.zipIdx k) calls).filter (·.check == k + i)).map (·.call) =
      calls.filter (·.reaches c) := by
  unfold deliveries
  induction calls with
  | nil => rfl
  | cons call calls ih =>
    rw [List.flatMap_cons, List.filter_append, List.map_append, toAll_zipIdx checks k h,
      List.filter_cons, ih]
    split <;> rfl

end Call

variable {ν : Type}

/-- The session with all its checks under a watch, each known by its place. -/
def Session.watched (s : Session ν) : Session (Watched ν Nat) :=
  ⟨watchAll false s.checks.zipIdx, s.tables, s.notes.map .inl⟩

theorem Session.watches_watched (s : Session ν) :
    s.Watches false (List.range s.checks.length) s.watched where
  length := (List.length_range).symm
  checks := by rw [List.range_eq_range', ← List.zipIdx_eq_zip_range']; rfl
  tables := rfl
  notes := by simp [watched, Watched.own, List.filterMap_map, Function.comp_def]

theorem Session.outcomes_watched (s : Session ν) : Watched.outcomes s.watched.notes = [] := by
  simp [watched, Watched.outcomes, List.filterMap_map, Function.comp_def]

/-- A tree is delivered by plain recursion over it, and each check receives of it what it accepts.
The watch that shows this changes nothing else, and nothing happens besides. -/
theorem tree_deliveries (s : Session ν) (root : Node) (path : Path)
    (h : (Run.tree root path s).2 = none) :
    let file := root.file?.getD path
    let seen := Run.tree root path s.watched
    Run.tree root path s = Run.hear (Call.below file root) s ∧
    (seen.2 = none ∧
      (Run.tree root path s).1.Watches false (List.range s.checks.length) seen.1) ∧
    Watched.deliveries seen.1.notes =
      Call.deliveries s.checks.zipIdx (Call.below file root) ∧
    ∀ i c, s.checks[i]? = some c →
      let received := ((Watched.deliveries seen.1.notes).filter (·.check == i)).map (·.call)
      received = (Call.below file root).filter (·.reaches c) ∧ Call.Nested received ∧
      received.filterMap Call.entered? =
        (root.located file).filter (fun x => c.kinds.contains x.2.kind && c.accepts x.1) ∧
      (received.filterMap Call.left?).Perm (received.filterMap Call.entered?) := by
  intro file seen
  have hnodes : ∀ call ∈ Call.ofTree path root, ∀ c ∈ s.checks, call.seen false c := by
    intro call hcall c _
    obtain ⟨phase, f, n, rfl⟩ := (Call.nested_below file root).exists_node hcall
    rfl
  have hrun := Run.hear_watched false (Call.ofTree path root) _ s.watches_watched hnodes
  have hzip : s.checks.zip (List.range s.checks.length) = s.checks.zipIdx := by
    rw [List.range_eq_range', ← List.zipIdx_eq_zip_range']
  rw [← Run.tree_eq, ← Run.tree_eq, hzip, h] at hrun
  obtain ⟨hwatch, hnone, hlog⟩ := hrun
  have hlog : Watched.deliveries seen.1.notes =
      Call.deliveries s.checks.zipIdx (Call.below file root) := by
    rw [s.outcomes_watched] at hlog
    unfold Watched.deliveries
    rw [show Watched.outcomes seen.1.notes = _ from hlog, List.nil_append, List.map_map]
    exact List.map_id _
  refine ⟨by rw [Run.tree_eq]; rfl, ⟨hnone, hwatch⟩, hlog, ?_⟩
  intro i c hc received
  have hreceived : received = (Call.below file root).filter (·.reaches c) := by
    have hplace := Call.received_zipIdx s.checks 0 hc (Call.below file root)
    rw [Nat.zero_add, ← hlog] at hplace
    exact hplace
  have hnested : Call.Nested received := by
    rw [hreceived]
    exact (Call.nested_below file root).filter_reaches c
  refine ⟨hreceived, hnested, ?_, hnested.left_perm_entered⟩
  rw [hreceived, Call.entered_filter_reaches, Call.entered_below]

/-- A definition, and one that was brought along from a model. -/
def bundledTree : Node :=
  .ofKind .program [.node (.ofKind .methodDef []),
    .node ((Node.ofKind .methodDef []).withFile ⟨"app/models/post.rb"⟩)]

/-- A check of the definitions in models and one of all definitions. -/
def definitionChecks : Session Empty where
  checks :=
    [{ spec := Spec.interestedIn { name := "Models", files := [.regex FilePattern.modelFiles] }
        [.methodDef]
       state := () },
      { spec := Spec.interestedIn { name := "All", files := [.all] } [.methodDef], state := () }]

theorem tree_deliveries_bundled :
    let plain := Node.ofKind .methodDef []
    let brought := plain.withFile ⟨"app/models/post.rb"⟩
    (Run.tree bundledTree ⟨"lib/bundle.rb"⟩ definitionChecks).2 = none ∧
    Watched.deliveries
        (Run.tree bundledTree ⟨"lib/bundle.rb"⟩ definitionChecks.watched).1.notes =
      [⟨1, .node .enter ⟨"lib/bundle.rb"⟩ plain⟩, ⟨1, .node .exit ⟨"lib/bundle.rb"⟩ plain⟩,
        ⟨0, .node .enter ⟨"app/models/post.rb"⟩ brought⟩,
        ⟨1, .node .enter ⟨"app/models/post.rb"⟩ brought⟩,
        ⟨0, .node .exit ⟨"app/models/post.rb"⟩ brought⟩,
        ⟨1, .node .exit ⟨"app/models/post.rb"⟩ brought⟩] := by
  have h : (Run.tree bundledTree ⟨"lib/bundle.rb"⟩ definitionChecks).2 = none :=
    Option.isNone_iff_eq_none.1 (by decide +kernel)
  refine ⟨h, (tree_deliveries definitionChecks bundledTree ⟨"lib/bundle.rb"⟩ h).2.2.1.trans ?_⟩
  cbv

end RailsReview
