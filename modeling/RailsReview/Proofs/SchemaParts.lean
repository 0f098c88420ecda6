import Mathlib.Data.List.Perm.Subperm
import RailsReview.Practice.DbIndex
import RailsReview.Proofs.Lexical
import RailsReview.Proofs.Pieces

/-!
# Parts of a schema

A schema is made of tables and of indexes that stand outside of them, in any order. Each part
declares columns and indexes. Whether a column is a key that no index covers is a matter of all
parts together.
-/
namespace RailsReview

namespace Text

end Text

namespace Practice

end Practice

namespace Schema
open Node Practice

/-- The name of the table that a command is about. -/
def tableName (command : Node) : String := textOf command.callArguments.head?

/-- The names that a call in the block of a table gives. -/
def callNames (call : Node) : List String := call.positionals.map text

def isSet (key : String) (call : Node) : Bool := optionText call.options? key == "true"

/-- The columns of a reference, that of the key first. -/
def referenceColumns (call : Node) (name : String) : List String :=
  if isSet "polymorphic" call then [name ++ "_id", name ++ "_type"] else [name ++ "_id"]

/-- The columns that a call declares with a type that keys can have. -/
def keyColumns (call : Node) : List String :=
  if isReference call.messageText then
    (callNames call).flatMap fun name => (referenceColumns call name).reverse
  else if call.messageText ∈ keyTypes then callNames call
  else []

/-- A column of the table that a call declares. -/
def columnAt (file : Path) (table : String) (call : Node) (name : String) : KeyColumn :=
  ⟨table, name, file, call.line?.getD 0⟩

/-- The indexes that a call declares. -/
def callIndexes (call : Node) : List (List String) :=
  if call.messageText = "index" then [listOf call.callArguments.head?]
  else if isReference call.messageText && isSet "index" call then
    (callNames call).map (referenceColumns call)
  else []

/-- A table with the calls in its block, or an index outside of the tables. -/
inductive Part where
  | table (head : Node) (calls : List Node)
  | index (command : Node)

namespace Part

def nodes : Part → List Node
  | table head calls => head :: calls
  | index command => [command]

/-- What the nodes of a part are: the head of a table and an index outside of it are commands, and
the calls in a block are calls without parentheses, such as `t.integer "post_id"`. -/
inductive Valid : Part → Prop
  | table {head : Node} {calls : List Node} : head.kind = .command →
      head.messageText = "create_table" → (∀ call ∈ calls, call.kind = .commandCall) →
      Valid (.table head calls)
  | index {command : Node} : command.kind = .command → command.messageText = "add_index" →
      Valid (.index command)

/-- The tables that a part creates. -/
def tables : Part → List String
  | table head _ => [tableName head]
  | index _ => []

/-- The columns that a part declares, one for each declaration, at the line of the call. -/
def columns (file : Path) : Part → List KeyColumn
  | table head calls => calls.flatMap fun call =>
    (keyColumns call).map (columnAt file (tableName head) call)
  | index _ => []

/-- The indexes that a part declares, with the table of each. -/
def indexes : Part → List (String × List String)
  | table head calls => calls.flatMap fun call => (callIndexes call).map (tableName head, ·)
  | index command => [(tableName command, listOf command.callArguments[1]?)]

end Part

/-- The nodes that declare a table, an index or something in the block of a table. -/
def declares (n : Node) : Bool :=
  n.kind == .commandCall ||
    n.kind == .command && ["create_table", "add_index"].contains n.messageText

theorem kind_of_declares {n : Node} (h : declares n) : n.kind ∈ [Kind.command, .commandCall] := by
  rcases Bool.or_eq_true_iff.1 h with h | h
  · exact List.mem_pair.2 (.inr (eq_of_beq h))
  · exact List.mem_pair.2 (.inl (eq_of_beq (Bool.and_eq_true_iff.1 h).1))

/-- The declarations in a tree, in the order of the source. -/
def declared (root : Node) : List Node := ((root.occurrences []).map (·.2)).filter declares

section Keys
variable (parts : List Part) (associations : AssociationTable) (table column : String)

/-- The table has a column of that name and of a type that keys can have. -/
def HasColumn (name : String) : Prop :=
  ∃ head calls call, .table head calls ∈ parts ∧ tableName head = table ∧ call ∈ calls ∧
    name ∈ keyColumns call

def Creates : Prop := ∃ part ∈ parts, table ∈ part.tables

/-- The key to which a column belongs: with the column of the type if there is one, and by itself
if it leads to a table of the schema. -/
inductive KeyOf : List String → Prop
  | typed (base : String) : column = base ++ "_id" → HasColumn parts table (base ++ "_type") →
      KeyOf [column, base ++ "_type"]
  | plain (base : String) : column = base ++ "_id" → ¬HasColumn parts table (base ++ "_type") →
      Creates parts (SchemaScope.referencedTable associations table base) → KeyOf [column]

end Keys

namespace KeyOf
variable {parts : List Part} {associations : AssociationTable} {table column : String}
  {key : List String}

theorem nodup (h : KeyOf parts associations table column key) : key.Nodup := by
  cases h with
  | typed base hname _ =>
    have hne : column ≠ base ++ "_type" := by
      rw [hname]
      intro hsame
      have hlists := congrArg String.toList hsame
      rw [String.toList_append, String.toList_append] at hlists
      exact absurd (List.append_cancel_left hlists) (by decide)
    simp [hne]
  | plain => simp

theorem ne_nil (h : KeyOf parts associations table column key) : key ≠ [] := by
  cases h with
  | typed => exact List.cons_ne_nil _ _
  | plain => exact List.cons_ne_nil _ _

end KeyOf

section Congr
variable {parts parts' : List Part} (h : ∀ part, part ∈ parts' ↔ part ∈ parts)
include h

theorem hasColumn_congr (table name : String) :
    HasColumn parts' table name ↔ HasColumn parts table name := by
  simp only [HasColumn, h]

theorem creates_congr (table : String) : Creates parts' table ↔ Creates parts table := by
  simp only [Creates, h]

theorem KeyOf.congr {associations : AssociationTable} {table column : String} {key : List String}
    (hkey : KeyOf parts associations table column key) :
    KeyOf parts' associations table column key := by
  cases hkey with
  | typed base hname htype => exact .typed base hname ((hasColumn_congr h table _).2 htype)
  | plain base hname htype hcreated =>
    exact .plain base hname (mt (hasColumn_congr h table _).1 htype)
      ((creates_congr h _).2 hcreated)

end Congr

/-- A part as a tree. -/
def Part.tree : Part → Node
  | .table head calls => .ofKind .methodAddBlock [.node head,
    .node (.ofKind .doBlock [.absent, .node (.ofKind .list (calls.map .node))])]
  | .index command => command

/-- A schema as a tree, with its parts one after the other. -/
def program (parts : List Part) : Node :=
  .ofKind .program [.node (.ofKind .list (parts.map fun part => .node part.tree))]

theorem Part.Valid.declares_of_mem {part : Part} (h : part.Valid) :
    ∀ n ∈ part.nodes, declares n := by
  cases h with
  | table hhead hcreate hcalls =>
    refine List.forall_mem_cons.2 ⟨by simp [declares, hhead, hcreate], fun call hcall => ?_⟩
    simp [declares, hcalls call hcall]
  | index hkind hmessage =>
    exact List.forall_mem_singleton.2 (by simp [declares, hkind, hmessage])

end Schema
end RailsReview
