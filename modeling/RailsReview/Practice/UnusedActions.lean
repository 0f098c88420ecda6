import RailsReview.Survey.Definitions
import RailsReview.Text.Basic
import RailsReview.Usage

/-!
# Unused methods of controllers

A method of a controller is reported when no route leads to it and no controller, helper or view
was seen to use it.
-/
namespace RailsReview.Practice

structure UsageScope where
  classes : ClassScope := {}
  /-- Whether each open class inherits its actions, the innermost first. -/
  inherits : List Bool := []
  deriving DecidableEq, Repr

namespace UsageScope

def openClass (n : Node) (s : UsageScope) : UsageScope :=
  let base := Text.withoutRoot (Node.textOf n.baseClass?)
  { s with inherits := (base == InheritedResources.base) :: s.inherits }

def closeClass (s : UsageScope) : UsageScope := { s with inherits := s.inherits.tail }

/-- Takes a call of `message` in the class body into account. -/
def read (message : String) (s : UsageScope) : UsageScope :=
  if InheritedResources.isInheriting message then
    { s with inherits := s.inherits.modifyHead fun _ => true }
  else s

end UsageScope

def markUse (className name : String) (t : Tables) : Tables :=
  t.callMethod .controllers className name

/-- What `render_cell :posts, :show` uses. -/
def markCell (arguments : List Node) (t : Tables) : Tables :=
  match arguments with
  | cell :: action :: _ => markUse (Inflection.classify (cell.text ++ "_cell")) action.text t
  | _ => t

def publicizeAll (className : String) (methods : List Node) (t : Tables) : Tables :=
  let published := methods.foldl (fun ms m => ms.publicize className m.text) t.controllerMethods
  { t with controllerMethods := published }

/-- The controller that belongs to a helper. -/
def controllerOfHelper (name : String) : String := Text.replace "Helper" "Controller" name

/-- What `delegate :a, :b, to: :controller` exposes. -/
def markDelegated (moduleName : String) (arguments : List Node) (t : Tables) : Tables :=
  match arguments.getLast? with
  | some last =>
    if last.kind == .bareAssocHash && Node.textOf (last.hashValue? "to") == "controller" then
      publicizeAll (controllerOfHelper moduleName) arguments.dropLast t
    else t
  | none => t

/-- Marks what a command uses besides its message and arguments. -/
def markCommand (n : Node) (classes : ClassScope) (t : Tables) : Tables :=
  let arguments := n.callArguments
  match n.messageText with
  | "render_cell" => markCell arguments t
  | "render" =>
    markUse classes.className (Node.textOf (arguments.head?.bind (·.hashValue? "state"))) t
  | "helper_method" => publicizeAll classes.className arguments t
  | "delegate" => markDelegated classes.moduleName arguments t
  | _ => t

/-- Marks what a call with parentheses uses besides. -/
def markCall (n : Node) (classes : ClassScope) (t : Tables) : Tables :=
  let arguments := n.callArguments
  match n.messageText with
  | "render_cell" => markCell arguments t
  | "render_state" => markUse classes.className (Node.textOf arguments.head?) t
  | _ => t

/-- Marks the setter that an assignment to a bare name may call. -/
def markSetter (n : Node) (classes : ClassScope) (t : Tables) : Tables :=
  match n.leftValue? with
  | some target =>
    if target.kind == .varField then markUse classes.className (target.text ++ "=") t else t
  | none => t

/-- Marks what the inherited actions of the class that was just left call. -/
def markHooks (s : UsageScope) (t : Tables) : Tables :=
  match s.classes.lastClosed? with
  | some c =>
    if s.inherits.headD false then
      InheritedResources.hooks.foldl (fun t name => markUse c.qualifiedName name t) t
    else t
  | none => t

/-- The methods that a route leads to; the action `*` stands for all of its controller. -/
def routedMethods (t : Tables) (r : Route) : List String :=
  if r.action = "*" then (t.controllerMethods.ofClass r.controllerClass none).map (·.name)
  else [r.action]

def markRoute (t : Tables) (r : Route) : Tables :=
  (routedMethods t r).foldl (fun t name => markUse r.controllerClass name t) t

def markRoutes (t : Tables) : Tables := t.routes.routes.foldl markRoute t

/-- Methods that the framework calls. -/
def frameworkMethods : List String := ["*#rescue_action", "*#default_url_options"]

/-- Whether an entry such as `PostsController#show` or `*#show` is about a method. A class stands
for its direct subclasses too. -/
def isException (controllers : ClassTable) (m : MethodRecord) (entry : String) : Bool :=
  let (className, name) := match Text.splitFirst? '#' entry.toList with
    | some (c, m) => (String.ofList c, String.ofList m)
    | none => (entry, "*")
  (name == "*" || name == m.name)
    && (className == "*" || className == m.className
      || controllers.superclassOf? m.className == some className)

/-- The methods to report. -/
def unusedMethods (exceptions : List String) (ignored : List FilePattern) (t : Tables) :
    List MethodRecord :=
  (t.controllerMethods.unused none).filter fun m =>
    !FilePattern.anyMatch ignored m.file
      && !(exceptions ++ frameworkMethods).any (isException t.controllers m)

def unusedFinding (m : MethodRecord) : Finding :=
  ⟨"remove unused methods (" ++ m.className ++ "#" ++ m.name ++ ")", m.file, [m.line]⟩

def unusedActions {ν : Type} (exceptions : List String) (ignored : List FilePattern) : Check ν :=
  let start : Spec ν UsageScope :=
    { name := "RemoveUnusedMethodsInControllersCheck"
      url := some
        "https://rails-bestpractices.com/posts/2010/12/04/remove-unused-methods-in-controllers/"
      files := [.regex FilePattern.controllerFiles, .regex FilePattern.viewFiles,
        .regex FilePattern.helperFiles]
      ignored := ignored }
  let classes : Field UsageScope ClassScope := ⟨(·.classes), fun c s => { s with classes := c }⟩
  ⟨(((start.trackClasses classes).trackUses .controllers classes).interestedIn
      [.classDef, .command, .variableCall, .methodAddArg, .assign])
    |>.on .enter .classDef (.update UsageScope.openClass)
    |>.on .exit .classDef (.record fun _ _ s t => markHooks s t)
    |>.on .exit .classDef (.update fun _ s => s.closeClass)
    |>.on .enter .command (.record fun _ n s t => markCommand n s.classes t)
    |>.on .enter .command (.update fun n => .read n.messageText)
    |>.on .enter .variableCall (.update fun n => .read n.text)
    |>.on .enter .methodAddArg (.record fun _ n s t => markCall n s.classes t)
    |>.on .enter .assign (.record fun _ n s t => markSetter n s.classes t)
    |>.withEnd (.record fun _ _ _ t => markRoutes t)
    |>.withEnd (.report fun _ _ _ t => (unusedMethods exceptions ignored t).map unusedFinding),
    {}, []⟩

end RailsReview.Practice
