import RailsReview.Inflection.Number
import RailsReview.Tree.Text

/-!
# Route declarations

Routes are declared by calls without a receiver, such as `resources :posts, only: [:index]`. A call
may be written with or without parentheses. Its names are the arguments in front of the options.
Every declaration routes to some actions of some controllers. A `Target` is such a pair, in which
the namespaces around the declaration do not count yet.
-/
namespace RailsReview.Routing

/-- The kinds of node that may declare routes. -/
def callKinds : List Kind := [.command, .methodAddArg]

/-- The calls that declare a route for one request method, and the general one. -/
def verbs : List String := ["get", "post", "put", "patch", "delete", "match"]

/-- What a singular resource can do. -/
def singularActions : List String := ["show", "new", "create", "edit", "update", "destroy"]

def pluralActions : List String := "index" :: singularActions

def defaultActions (message : String) : List String :=
  if message = "resource" then singularActions else pluralActions

def isResource (message : String) : Bool := message == "resources" || message == "resource"

def isRouteCall (n : Node) : Bool :=
  match n.kind with
  | .command => true
  | .methodAddArg => Node.isKind .functionCall (n.slot? 0)
  | _ => false

/-- The texts of the arguments in front of the options. -/
def names (n : Node) : List String := (n.positionals.map Node.text).filter (· ≠ "")

/-- The actions that `only` leaves. -/
def restrictTo (defaults chosen : List String) : List String :=
  match chosen with
  | ["all"] => defaults
  | ["none"] => []
  | _ => chosen

/-- The actions that `except` leaves. -/
def without (defaults excluded : List String) : List String :=
  if excluded.contains "all" then [] else defaults.filter (!excluded.contains ·)

/-- The actions that a resource is given; `only` counts more than `except`. -/
def resourceActions (message : String) (options : Option Node) : List String :=
  match Node.option? options "only", Node.option? options "except" with
  | some only, _ => restrictTo (defaultActions message) only.stringList
  | none, some except => without (defaultActions message) except.stringList
  | none, none => defaultActions message

/-- The controller that a resource is routed to. -/
def resourceController (name : String) (options : Option Node) : String :=
  let named := Node.optionText options "controller"
  if named = "" then Inflection.pluralize name else named

structure Target where
  controller : String
  action : String
  deriving DecidableEq, Repr

namespace Target

/-- Reads `controller#action`. -/
def ofText? (text : String) : Option Target :=
  (Text.splitFirst? '#' text.toList).map fun (controller, action) =>
    ⟨String.ofList controller, String.ofList action⟩

/-- Reads `controller/action`; a dynamic segment leads to no fixed target. -/
def ofPath? (path : String) : Option Target :=
  (Text.splitLast? '/' path.toList).bind fun (controller, action) =>
    if controller.contains ':' || action.contains ':' then none
    else some ⟨String.ofList controller, String.ofList action⟩

end Target

/-- A text that says something. -/
def nonempty? (text : String) : Option String := if text = "" then none else some text

/-- The first name of a declaration, without slashes in front. -/
def firstPath? (n : Node) : Option String :=
  (names n).head?.map fun name => String.ofList (Text.dropLeading '/' name.toList)

/-- The target that the options name in one text: under `to`, or else under any key. -/
def namedTarget? (options : Option Node) : Option Target :=
  let values := (options.elim [] Node.hashValues).map Node.textOf
  ((nonempty? (Node.optionText options "to")).or (values.find? (·.contains '#'))).bind
    Target.ofText?

/-- The target of a declaration for one request method. `current?` is the controller of the resource
around it. -/
def verbTarget? (current? : Option String) (n : Node) : Option Target :=
  let options := n.options?
  let controller := nonempty? (Node.optionText options "controller")
  let action := nonempty? (Node.optionText options "action")
  match namedTarget? options with
  | some target => some target
  | none =>
    if controller.isSome || action.isSome then
      (controller.or current?).bind fun c => (action.or (firstPath? n)).map (⟨c, ·⟩)
    else
      match current? with
      | some c => (firstPath? n).map (⟨c, ·⟩)
      | none => (firstPath? n).bind Target.ofPath?

def rootTarget? (n : Node) : Option Target :=
  ((nonempty? (Node.optionText n.options? "to")).or (names n).head?).bind Target.ofText?

/-- The actions that a resource adds to the usual ones. -/
def extraActions (options : Option Node) : List String :=
  ["member", "collection"].flatMap fun key => (Node.option? options key).elim [] Node.hashKeys

/-- The targets of a resource declaration, name by name. -/
def resourceTargets (n : Node) : List Target :=
  (names n).flatMap fun name =>
    (resourceActions n.messageText n.options? ++ extraActions n.options?).map
      (⟨resourceController name n.options?, ·⟩)

/-- The targets of any route declaration. -/
def targets (current? : Option String) (n : Node) : List Target :=
  if !isRouteCall n then []
  else if isResource n.messageText then resourceTargets n
  else if verbs.contains n.messageText then (verbTarget? current? n).toList
  else if n.messageText = "root" then (rootTarget? n).toList
  else []

end RailsReview.Routing
