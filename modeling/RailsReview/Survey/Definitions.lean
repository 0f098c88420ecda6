import RailsReview.Routing.Declaration
import RailsReview.Scope.Access
import RailsReview.Tree.Text

/-!
# Surveys of definitions

Helper modules, model classes and controllers are recorded with the methods they define: models also
by `scope` and aliases, and together with their associations and the attributes they declare
themselves. A controller may inherit the actions of a resource instead of defining them, by its
superclass or by `inherit_resources`; `actions` narrows what it inherits.
-/
namespace RailsReview.Survey

/-- Adds the innermost module to the helpers. -/
def addHelper (scope : ClassScope) (t : ModuleTable) : ModuleTable :=
  match scope.enclosures with
  | [] => t
  | e :: _ => t.add e.name scope.names.dropLast

def addHelperMethod (site : Site) (n : Node) (scope : DefinitionScope) (t : MethodTable) :
    MethodTable :=
  let name := n.methodName?
  t.add scope.classes.moduleName (Node.textOf name) site.path ((name.bind Node.line?).getD 0)
    scope.access.current

def helpers {ν : Type} (ignored : List FilePattern) : Check ν :=
  let start : Spec ν DefinitionScope :=
    { name := "HelperPrepare"
      files := [.regex FilePattern.helperFiles]
      ignored := ignored }
  ⟨((start.trackDefinitions .whole).interestedIn [.moduleDef, .methodDef])
    |>.on .enter .moduleDef (.record fun _ _ scope t =>
      { t with helpers := addHelper scope.classes t.helpers })
    |>.on .enter .methodDef (.record fun site n scope t =>
      { t with helperMethods := addHelperMethod site n scope t.helperMethods }), {}, []⟩

/-- Commands that define a method named by their first argument. -/
def definingCommands : List String := ["scope", "named_scope", "alias_method"]

/-- Records a method at its name, or where the check is if the name has no line. -/
def addModelMethod (site : Site) (className : String) (name : Option Node) (access : Access)
    (t : Tables) : Tables :=
  let line := ((name.bind Node.line?).or site.line).getD 0
  { t with modelMethods := t.modelMethods.add className (Node.textOf name) site.path line access }

def addAssociation (className kind : String) (n : Node) (t : Tables) : Tables :=
  let target := some (Node.optionText n.options? "class_name")
  let name := Node.textOf n.callArguments.head?
  { t with associations := t.associations.add className name kind target }

def addAttribute (className type : String) (n : Node) (t : Tables) : Tables :=
  let name := Node.textOf n.callArguments.head?
  { t with attributes := t.attributes.add className name type }

/-- The type of a field; without one it is a text. -/
def fieldType (n : Node) : String :=
  let type := Node.optionText n.options? "type"
  if type = "" then "String" else type

/-- Records what a command in the body of a model declares. -/
def addDeclared (site : Site) (n : Node) (scope : DefinitionScope) (t : Tables) : Tables :=
  let className := scope.classes.className
  let message := n.messageText
  if className = "" then t
  else if definingCommands.contains message then
    addModelMethod site className n.callArguments.head? scope.access.current t
  else if singularAssociations.contains message || collectionAssociations.contains message then
    addAssociation className message n t
  else if message = "field" then addAttribute className (fieldType n) n t
  else if message = "key" then addAttribute className (Node.textOf n.callArguments[1]?) n t
  else t

/-- Records the method that a node defines under the name `name`. -/
def addDefined (name : Node → Option Node) (access : DefinitionScope → Access) (site : Site)
    (n : Node) (scope : DefinitionScope) (t : Tables) : Tables :=
  addModelMethod site scope.classes.className (name n) (access scope) t

def models {ν : Type} (ignored : List FilePattern) : Check ν :=
  let start : Spec ν DefinitionScope :=
    { name := "ModelPrepare"
      files := [.regex FilePattern.modelFiles]
      ignored := ignored }
  ⟨((start.trackDefinitions .whole).interestedIn
      [.classDef, .methodDef, .singletonDef, .command, .aliasDef])
    |>.on .enter .classDef (.record fun _ _ scope t =>
      { t with models := scope.classes.class?.elim t.models t.models.add })
    |>.on .enter .methodDef (.record (addDefined Node.methodName? (·.access.current)))
    |>.on .enter .singletonDef (.record (addDefined Node.methodName? fun _ => .public_))
    |>.on .enter .aliasDef (.record (addDefined Node.newName? (·.access.current)))
    |>.on .enter .command (.record addDeclared), {}, []⟩

end RailsReview.Survey

namespace RailsReview.InheritedResources

/-- The superclass from which the actions are inherited. -/
def base : String := "InheritedResources::Base"

/-- The call that inherits the actions into any controller. -/
def isInheriting (message : String) : Bool := message == "inherit_resources"

/-- Methods of the controller that the inherited actions call. -/
def hooks : List String :=
  ["resource", "collection", "begin_of_association_chain", "build_resource"]

/-- The actions named by a call such as `actions :index` or `actions :all, except: [:destroy]`. -/
def declaredActions (n : Node) : List String :=
  let names := n.positionals.map Node.text
  if names.contains "all" then
    let excluded := Node.listOf (Node.option? n.options? "except")
    Routing.pluralActions.filter (!excluded.contains ·)
  else names

end RailsReview.InheritedResources

namespace RailsReview.Survey

/-- What an open controller inherits. -/
structure Inheritance where
  inherits : Bool := false
  /-- The inherited actions; all of them when none are named. -/
  actions? : Option (List String) := none
  deriving DecidableEq, Repr

structure ControllerScope where
  definitions : DefinitionScope := {}
  /-- One for every open class, the innermost first. -/
  inheritances : List Inheritance := []
  deriving DecidableEq, Repr

namespace ControllerScope

/-- Begins with what the superclass says. -/
def openClass (s : ControllerScope) : ControllerScope :=
  let inherits := s.definitions.classes.class?.any (·.baseName == InheritedResources.base)
  { s with inheritances := { inherits := inherits } :: s.inheritances }

def closeClass (s : ControllerScope) : ControllerScope :=
  { s with inheritances := s.inheritances.tail }

def modifyInnermost (f : Inheritance → Inheritance) (s : ControllerScope) : ControllerScope :=
  { s with inheritances := s.inheritances.modifyHead f }

def inherit (s : ControllerScope) : ControllerScope :=
  s.modifyInnermost fun i => { i with inherits := true }

/-- Takes a command in a controller's body into account. -/
def readCommand (n : Node) (s : ControllerScope) : ControllerScope :=
  if InheritedResources.isInheriting n.messageText then s.inherit
  else if n.messageText = "actions" then
    s.modifyInnermost fun i => { i with actions? := some (InheritedResources.declaredActions n) }
  else s

def readName (n : Node) (s : ControllerScope) : ControllerScope :=
  if InheritedResources.isInheriting n.text then s.inherit else s

/-- The actions that the innermost class inherits. -/
def inheritedActions (s : ControllerScope) : List String :=
  match s.inheritances.head? with
  | some i => if i.inherits then i.actions?.getD Routing.pluralActions else []
  | none => []

end ControllerScope

def addControllerMethod (site : Site) (n : Node) (scope : DefinitionScope) (t : MethodTable) :
    MethodTable :=
  let name := n.methodName?
  t.add scope.classes.className (Node.textOf name) site.path ((name.bind Node.line?).getD 0)
    scope.access.current

/-- Records the inherited actions of the class that was just left as methods of its own. -/
def addInherited (site : Site) (scope : ControllerScope) (t : MethodTable) : MethodTable :=
  match scope.definitions.classes.lastClosed? with
  | some c =>
    scope.inheritedActions.foldl
      (fun t action => t.add c.qualifiedName action site.path (site.line.getD 0) .public_) t
  | none => t

def controllers {ν : Type} (ignored : List FilePattern) : Check ν :=
  let start : Spec ν ControllerScope :=
    { name := "ControllerPrepare"
      files := [.regex FilePattern.controllerFiles]
      ignored := ignored }
  let definitions : Field ControllerScope DefinitionScope :=
    ⟨(·.definitions), fun d s => { s with definitions := d }⟩
  ⟨((start.trackDefinitions definitions).interestedIn
      [.classDef, .methodDef, .command, .variableCall, .varRef])
    |>.on .enter .classDef (.record fun _ _ scope t =>
      { t with
        controllers := scope.definitions.classes.class?.elim t.controllers t.controllers.add })
    |>.on .enter .classDef (.update fun _ scope => scope.openClass)
    |>.on .enter .methodDef (.record fun site n scope t =>
      { t with
        controllerMethods := addControllerMethod site n scope.definitions t.controllerMethods })
    |>.on .enter .command (.update ControllerScope.readCommand)
    |>.on .enter .variableCall (.update ControllerScope.readName)
    |>.on .exit .classDef (.record fun site _ scope t =>
      { t with controllerMethods := addInherited site scope t.controllerMethods })
    |>.on .exit .classDef (.update fun _ scope => scope.closeClass), {}, []⟩

end RailsReview.Survey
