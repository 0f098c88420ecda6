import RailsReview.Check.Basic
import RailsReview.Survey.Project
import RailsReview.Text.Basic

/-!
# Foreign keys without an index

A foreign key should have an index. A column is one when it ends in `_id` and leads to a table of
the schema, or when a type column comes with it, in which case the index has to cover both.
-/
namespace RailsReview.Practice

/-- A column that may be a foreign key, with the place of its declaration. -/
structure KeyColumn where
  table : String
  name : String
  file : Path
  line : Nat
  deriving Repr

/-- What was read of a schema. -/
structure SchemaScope where
  /-- The table whose creation was seen last. -/
  table? : Option String := none
  tables : List String := []
  columns : List KeyColumn := []
  /-- Tables with the columns of an index on them, in order. -/
  indexes : List (String × List String) := []

/-- The types a foreign key can have. -/
def keyTypes : List String := ["integer", "bigint", "string", "uuid"]

def withoutIdEnding? (name : String) : Option String :=
  (Text.afterStart? "_id".toList.reverse name.toList.reverse).map fun back =>
    String.ofList back.reverse

/-- The column that tells to which model a polymorphic reference leads. -/
def typeColumn (idColumn : String) : String :=
  String.ofList (Text.dropUnits "_id".toList.reverse idColumn.toList.reverse).reverse ++ "_type"

namespace SchemaScope

def addIndex (table : String) (columns : List String) (s : SchemaScope) : SchemaScope :=
  if columns.isEmpty then s else { s with indexes := s.indexes ++ [(table, columns)] }

def addColumn (c : KeyColumn) (s : SchemaScope) : SchemaScope :=
  { s with columns := s.columns ++ [c] }

/-- Adds a column that a call in the block of `table` declares. -/
def declare (site : Site) (n : Node) (table : String) (s : SchemaScope) (c : Schema.Column) :
    SchemaScope :=
  let options := n.options?
  let column (name : String) : KeyColumn := ⟨table, name, site.path, n.line?.getD 0⟩
  let isSet (key : String) : Bool := Node.optionText options key == "true"
  if !keyTypes.contains c.type then s
  else if !Schema.isReference n.messageText then s.addColumn (column c.name)
  else
    let types := if isSet "polymorphic" then [typeColumn c.name] else []
    let s := types.foldl (fun s t => s.addColumn (column t)) s
    let s := if isSet "index" then s.addIndex table (c.name :: types) else s
    s.addColumn (column c.name)

/-- Reads a call on a table. -/
def readCall (site : Site) (n : Node) (s : SchemaScope) : SchemaScope :=
  match s.table? with
  | none => s
  | some table =>
    if n.messageText = "index" then s.addIndex table (Node.listOf n.callArguments.head?)
    else (Schema.columns n).foldl (declare site n table) s

def readCommand (n : Node) (s : SchemaScope) : SchemaScope :=
  let table := Node.textOf n.callArguments.head?
  if n.messageText = "create_table" then
    { s with table? := some table, tables := s.tables ++ [table] }
  else if n.messageText = "add_index" then s.addIndex table (Node.listOf n.callArguments[1]?)
  else s

/-- Whether an index on the table starts with the columns of `key`, in any order. -/
def isIndexed (s : SchemaScope) (table : String) (key : List String) : Bool :=
  s.indexes.any fun (t, index) =>
    t == table && decide (key.length ≤ index.length)
      && key.all (index.take key.length).contains

def hasColumn (s : SchemaScope) (table name : String) : Bool :=
  s.columns.any fun c => c.table == table && c.name == name

/-- The table a reference leads to, by the association of that name or by the name itself. -/
def referencedTable (associations : AssociationTable) (table reference : String) : String :=
  match associations.classNameOf? (Inflection.classify table) reference with
  | some c => Inflection.tableize (Text.replace "::" "" c)
  | none => Inflection.pluralize reference

/-- The columns that an index has to start with, if the column is a foreign key. -/
def keyOf? (s : SchemaScope) (associations : AssociationTable) (c : KeyColumn) :
    Option (List String) :=
  (withoutIdEnding? c.name).bind fun reference =>
    let type := reference ++ "_type"
    if s.hasColumn c.table type then some [c.name, type]
    else if s.tables.contains (referencedTable associations c.table reference) then some [c.name]
    else none

def finding? (s : SchemaScope) (associations : AssociationTable) (c : KeyColumn) :
    Option Finding :=
  (s.keyOf? associations c).bind fun key =>
    if s.isIndexed c.table key then none
    else
      some ⟨"always add db index (" ++ c.table ++ " => [" ++ ", ".intercalate key ++ "])", c.file,
        [c.line]⟩

end SchemaScope

def dbIndex {ν : Type} (ignored : List FilePattern) : Check ν :=
  let start : Spec ν SchemaScope :=
    { name := "AlwaysAddDbIndexCheck"
      url := some "https://rails-bestpractices.com/posts/2010/07/24/always-add-db-index/"
      files := [.regex FilePattern.schemaFile]
      ignored := ignored }
  ⟨(start.interestedIn [.command, .commandCall])
    |>.on .enter .command (.update SchemaScope.readCommand)
    |>.on .enter .commandCall (fun site n s t => { state := s.readCall site n, tables := t })
    |>.withEnd (.report fun _ _ s t => s.columns.filterMap (s.finding? t.associations)), {}, []⟩

end RailsReview.Practice
