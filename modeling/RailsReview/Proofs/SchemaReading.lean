import RailsReview.Proofs.SchemaParts

/-!
# Reading a schema

The review of keys reads tables, columns and indexes node by node. Whatever a node adds is put
behind what was read before, so that all nodes of a tree come to what its parts declare.
-/
namespace RailsReview

namespace Practice.SchemaScope
open Schema

/-- What a node adds to what was read. -/
def follow (file : Path) (s : SchemaScope) (n : Node) : SchemaScope :=
  match n.kind with
  | .command => readCommand n s
  | .commandCall => s.readCall ⟨some file, n.line?⟩ n
  | _ => s

/-- What was read, with some more columns and indexes. An index without columns does not count. -/
def add (s : SchemaScope) (columns : List KeyColumn) (indexes : List (String × List String)) :
    SchemaScope :=
  { s with
    columns := s.columns ++ columns
    indexes := s.indexes ++ indexes.filter (!·.2.isEmpty) }

section Adding
variable (s : SchemaScope)

end Adding

section Reading
variable (s : SchemaScope) (file : Path) (table : String) (call : Node)

end Reading

section Gathering
variable (file : Path)

theorem follow_of_not_declares (s : SchemaScope) {n : Node} (h : ¬declares n) :
    s.follow file n = s := by
  unfold follow
  split
  · rename_i hkind
    have hmessages : n.messageText ≠ "create_table" ∧ n.messageText ≠ "add_index" := by
      simpa [declares, hkind] using h
    rw [readCommand, if_neg hmessages.1, if_neg hmessages.2]
  · rename_i hkind
    exact absurd (by simp [declares, hkind]) h
  · rfl

end Gathering

end Practice.SchemaScope
end RailsReview
