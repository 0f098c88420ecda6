import RailsReview.Check.Basic
import RailsReview.Routing.Declaration
import RailsReview.Scope.Route
import RailsReview.Text.Basic
import RailsReview.Tree.Text

/-!
# Surveys of the project

What the files of a project say outside of its classes. The lock file of the gems names each gem on
a line of its own, after four spaces, with its version in parentheses. An assignment such as
`config.active_record.x = true` in a settings file is recorded under the name after `config.`, and
every target of a route declaration in the namespaces around it. In a schema, calls such as
`t.string "title"` inside of a `create_table` block declare columns of the type that is their
message; they are recorded as attributes of the model that belongs to the table.
-/
namespace RailsReview.Survey

/-- The text in front of a closing parenthesis at the end. -/
def closed? (cs : List Char) : Option (List Char) :=
  match cs.reverse with
  | ')' :: back => some back.reverse
  | _ => none

/-- Reads a line such as `    rails (7.0.1)`. -/
def gem? (line : List Char) : Option (String × String) :=
  (Text.afterStart? "    ".toList line).bind fun cs =>
    let name := cs.takeWhile fun c => c != ' ' && c != '('
    ((Text.afterStart? " (".toList (cs.drop name.length)).bind closed?).bind fun version =>
      if name.isEmpty || version.isEmpty || version.contains ')' then none
      else some (String.ofList name, String.ofList version)

/-- The gems of a lock file, in the order of its lines. -/
def lockedGems (content : String) : List (String × String) :=
  (Text.lines content).filterMap fun line => gem? (Text.dropEndWhile (· == '\r') line)

def gems {ν : Type} (ignored : List FilePattern) : Check ν :=
  let start : Spec ν Unit :=
    { name := "GemfilePrepare"
      files := [.regex FilePattern.gemLockFile]
      ignored := ignored }
  ⟨start.withText (.record fun _ content _ t =>
    { t with gems := (lockedGems content).foldl (fun gems g => gems.insertNew g.1 g.2) t.gems }),
    (), []⟩

/-- The setting that an assignment makes, with its value. -/
def setting? (n : Node) : Option (String × String) :=
  (n.leftValue?.filter (·.kind == .field)).bind fun target =>
    (Text.afterStart? "config.".toList target.text.toList).map fun name =>
      (String.ofList name, Node.textOf n.rightValue?)

def settings {ν : Type} (ignored : List FilePattern) : Check ν :=
  let start : Spec ν Unit :=
    { name := "ConfigPrepare"
      files := [.regex FilePattern.settingFiles]
      ignored := ignored }
  ⟨(start.interestedIn [.assign]).on .enter .assign (.record fun _ n _ t =>
    match setting? n with
    | some (name, value) => { t with settings := t.settings.insert name value }
    | none => t), (), []⟩

/-- Adds the routes that a node declares. -/
def addRoutes (n : Node) (scope : RouteScope) (t : RouteTable) : RouteTable :=
  (Routing.targets scope.controller? n).foldl
    (fun t target => t.add scope.namespaces target.controller target.action) t

def routes {ν : Type} (ignored : List FilePattern) : Check ν :=
  let start : Spec ν RouteScope :=
    { name := "RoutePrepare"
      files := [.regex FilePattern.routeFiles]
      ignored := ignored }
  ⟨((start.trackRoutes .whole).interestedIn Routing.callKinds).onEach .enter Routing.callKinds
    (.record fun _ n scope t => { t with routes := addRoutes n scope t.routes }), {}, []⟩

end RailsReview.Survey

namespace RailsReview.Schema

structure Column where
  name : String
  type : String
  deriving DecidableEq, Repr

/-- Whether a column is a reference to a row of another table. -/
def isReference (message : String) : Bool := message == "references" || message == "belongs_to"

/-- The columns that a call declares. -/
def columns (n : Node) : List Column :=
  let message := n.messageText
  let names := n.positionals.map Node.text
  if message = "timestamps" then [⟨"created_at", "datetime"⟩, ⟨"updated_at", "datetime"⟩]
  else if isReference message then names.map fun name => ⟨name ++ "_id", "integer"⟩
  else if message = "index" then []
  else names.map (⟨·, message⟩)

end RailsReview.Schema

namespace RailsReview.Survey

def createsTable (n : Node) : Bool := n.messageText == "create_table"

/-- The model of the table that a block creates. -/
def modelOf (n : Node) : String := Inflection.classify (Node.textOf n.callArguments.head?)

/-- Adds the columns that a call declares to the attributes of the model. -/
def addColumns (model? : Option String) (n : Node) (t : AttributeTable) : AttributeTable :=
  match model? with
  | some model => (Schema.columns n).foldl (fun t c => t.add model c.name c.type) t
  | none => t

def schema {ν : Type} (ignored : List FilePattern) : Check ν :=
  let start : Spec ν (Option String) :=
    { name := "SchemaPrepare"
      files := [.regex FilePattern.schemaFile]
      ignored := ignored }
  ⟨(start.interestedIn [.methodAddBlock, .commandCall])
    |>.on .enter .methodAddBlock (.update fun n model? =>
      if createsTable n then some (modelOf n) else model?)
    |>.on .exit .methodAddBlock (.update fun n model? => if createsTable n then none else model?)
    |>.on .enter .commandCall (.record fun _ n model? t =>
      { t with attributes := addColumns model? n t.attributes }), none, []⟩

end RailsReview.Survey
