import RailsReview.Proofs.Handlers
import RailsReview.Proofs.SchemaReading
import RailsReview.Proofs.UsageOrder

/-!
# Keys without an index

The review of keys puts together at the end what it has read of the nodes of a tree. Its findings
are the keys that no index covers, and their order is that of the columns.
-/
namespace RailsReview

namespace Practice.SchemaScope
open Schema

section Verdict
variable (file : Path) (parts : List Part) (table? : Option String)
  (associations : AssociationTable)

end Verdict

end Practice.SchemaScope

namespace Practice
open Schema SchemaScope
variable {ν : Type}

section Runs
variable (ignored : List FilePattern) (t : Tables) (notes : List ν)

/-- The review when this has been read. -/
def gatherer (s : SchemaScope) : Check ν := ⟨(dbIndex ignored).spec, s, []⟩

/-- The review alone. -/
def gathering (s : SchemaScope) : Session ν := ⟨[gatherer ignored s], t, notes⟩

theorem handlers_dbIndex (phase : Phase) (k : Kind) :
    (dbIndex (ν := ν) ignored).spec.handlers phase k =
      (if phase = .enter ∧ k = .command then [Handler.update readCommand] else []) ++
        if phase = .enter ∧ k = .commandCall then
          [fun site n s t => { state := s.readCall site n, tables := t }]
        else [] := by
  simp only [dbIndex, Spec.handlers_on, Spec.handlers_interestedIn, Spec.handlers_withEnd,
    Spec.handlers_start, List.nil_append, eq_comm]

/-- A node that is no command does not reach the review. -/
theorem announce_gathering_other {n : Node} (hkind : n.kind ∉ [Kind.command, .commandCall])
    (phase : Phase) (file : Path) (s : SchemaScope) :
    Run.announce (.node phase file n) (gathering ignored t notes s) =
      (gathering ignored t notes s, none) := by
  refine Run.announce_single_of_not_reaches (fun h => ?_) t notes
  obtain ⟨hmem, -⟩ := Call.reaches_node.1 h
  exact hkind hmem

section Steps
variable {file : Path} (hfile : (dbIndex (ν := ν) ignored).accepts file) (s : SchemaScope)
include hfile

theorem announce_gathering_enter (n : Node) :
    Run.announce (.node .enter file n) (gathering ignored t notes s) =
      (gathering ignored t notes (s.follow file n), none) := by
  by_cases hkind : n.kind ∈ [Kind.command, .commandCall]
  · have hreaches : (Call.node .enter file n).reaches (gatherer (ν := ν) ignored s) :=
      Call.reaches_node.2 ⟨hkind, hfile⟩
    refine Run.announce_single hreaches ?_ notes
    rcases List.mem_pair.1 hkind with hkind | hkind
    · have hfollow : s.follow file n = readCommand n s := by simp only [follow, hkind]
      rw [hfollow]
      simp only [gatherer, Call.answer, Run.runCheck, handlers_dbIndex, hkind]
      rfl
    · have hfollow : s.follow file n = s.readCall ⟨some file, n.line?⟩ n := by
        simp only [follow, hkind]
      rw [hfollow]
      simp only [gatherer, Call.answer, Run.runCheck, handlers_dbIndex, hkind]
      rfl
  · rw [follow_of_not_declares file s (mt kind_of_declares hkind)]
    exact announce_gathering_other ignored t notes hkind .enter file s

theorem announce_gathering_exit (n : Node) :
    Run.announce (.node .exit file n) (gathering ignored t notes s) =
      (gathering ignored t notes s, none) := by
  by_cases hkind : n.kind ∈ [Kind.command, .commandCall]
  · have hreaches : (Call.node .exit file n).reaches (gatherer (ν := ν) ignored s) :=
      Call.reaches_node.2 ⟨hkind, hfile⟩
    refine Run.announce_single hreaches ?_ notes
    simp only [gatherer, Call.answer, Run.runCheck, handlers_dbIndex]
    rfl
  · exact announce_gathering_other ignored t notes hkind .exit file s

/-- The review follows the nodes in the order in which they are entered. -/
theorem hear_gathering {calls : List (List Node × Call)}
    (hnodes : ∀ x ∈ calls, ∃ phase n, x.2 = .node phase file n) :
    Run.hear (calls.map (·.2)) (gathering ignored t notes s) =
      (gathering ignored t notes
        (((calls.filterMap Call.occurrence?).map (·.2)).foldl (follow file) s), none) := by
  induction calls generalizing s with
  | nil => rfl
  | cons x calls ih =>
    have hrest := fun s => ih s fun y hy => hnodes y (.tail _ hy)
    obtain ⟨outer, call⟩ := x
    obtain ⟨phase, n, rfl⟩ := hnodes _ (.head _)
    rw [List.map_cons, Run.hear_cons]
    cases phase with
    | enter =>
      rw [Attempt.andThen_of_none _ (announce_gathering_enter ignored t notes hfile s n), hrest]
      rfl
    | exit =>
      rw [Attempt.andThen_of_none _ (announce_gathering_exit ignored t notes hfile s n), hrest]
      rfl

end Steps
end Runs

/-- A call such as `t.integer "post_id"`, written on a line. -/
def columnOn (line : Nat) (type name : String) : Node :=
  let word (k : Kind) (s : String) (p : Option Position) := Node.mk k [.literal (.str s)] p none
  .ofKind .commandCall [.node (.ofKind .varRef [.node (word .identifier "t" (some ⟨line, 2⟩))]),
    .absent, .node (word .identifier type none),
    .node (.ofKind .list [.node (.ofKind .symbolLiteral [.node (word .identifier name none)])])]

/-- A command such as `add_index "comments", "user_id"`. -/
def commandOf (message : String) (arguments : List String) : Node :=
  let word (s : String) := Node.ofKind .identifier [.literal (.str s)]
  .ofKind .command [.node (word message),
    .node (.ofKind .list (arguments.map fun s => .node (word s)))]

def schemaFile : Path := ⟨"db/schema.rb"⟩

end Practice
end RailsReview
