import RailsReview.Inflection.ClassName

/-!
# Routes

A route leads to an action of a controller. The controller may be written as a path, as a class name
or with separate namespaces; `Route.of` brings these to one form.
-/
namespace RailsReview

structure Route where
  namespaces : List String
  controller : String
  action : String
  deriving DecidableEq, Repr

namespace Route

/-- A controller's class name without its ending. -/
def withoutControllerEnding (name : String) : String :=
  match Text.afterStart? "Controller".toList.reverse name.toList.reverse with
  | some rest => String.ofList rest.reverse
  | none => name

/-- The path segments of a controller name. -/
def segments (controller : String) : List String :=
  (Text.split '/' (Inflection.underscore (withoutControllerEnding controller))).filter (· ≠ "")

def of (namespaces : List String) (controller action : String) : Route :=
  let parts := segments controller
  ⟨namespaces.filter (· ≠ "") ++ parts.dropLast, parts.getLastD "", action⟩

/-- The class that holds the action. -/
def controllerClass (r : Route) : String :=
  "::".intercalate
    (r.namespaces.map Inflection.camelize ++ [Inflection.camelize r.controller ++ "Controller"])

def text (r : Route) : String := r.controllerClass ++ "#" ++ r.action

end Route

/-- All routes, in the order in which they were declared. -/
structure RouteTable where
  routes : List Route := []
  deriving DecidableEq, Repr

namespace RouteTable

/-- A route without controller or action is left out. -/
def add (t : RouteTable) (namespaces : List String) (controller action : String) : RouteTable :=
  if controller = "" || action = "" then t else ⟨t.routes ++ [.of namespaces controller action]⟩

def ofController (t : RouteTable) (controllerClass : String) : List Route :=
  t.routes.filter (·.controllerClass == controllerClass)

def hasAction (t : RouteTable) (controllerClass action : String) : Bool :=
  (t.ofController controllerClass).any (·.action == action)

end RouteTable

end RailsReview
