import RailsReview.Check.Basic
import RailsReview.Routing.Declaration
import RailsReview.Scope.Route

/-!
# Practices of routes

Reviews of the resources that route files declare. A block with many routes besides the usual ones
hides another resource; the routes in the blocks of nested resources count for those. Resources are
reported when they are nested too deep, and when they generate actions that their controller lacks.
-/
namespace RailsReview.Practice

def defaultCustomRoutes : Nat := 3

def isResourceBlock (n : Node) : Bool :=
  n.kind == .methodAddBlock && Routing.isResource n.messageText

def isVerbCommand (n : Node) : Bool := n.kind == .command && Routing.verbs.contains n.messageText

mutual

/-- The routes for request methods below a node, outside of nested resources. -/
def verbCount : Node → Nat
  | .mk _ slots _ _ => verbCountSlots slots

def verbCountSlots : List Slot → Nat
  | [] => 0
  | .node n :: rest =>
    (if isResourceBlock n then 0 else if isVerbCommand n then 1 + verbCount n else verbCount n)
      + verbCountSlots rest
  | _ :: rest => verbCountSlots rest

end

/-- The routes that the options of a call declare. -/
def optionCount (n : Node) : Nat :=
  let routesUnder (key : String) : Nat := (Node.option? n.options? key).elim 0 Node.hashSize
  routesUnder "member" + routesUnder "collection"

/-- The custom routes of a call with its block. -/
def customRouteCount (n : Node) : Nat := (n.slot? 0).elim 0 optionCount + n.block?.elim 0 verbCount

def customRoutes {ν : Type} (allowed : Nat) (ignored : List FilePattern) : Check ν :=
  let start : Spec ν Unit :=
    { name := "OveruseRouteCustomizationsCheck"
      url := some "https://rails-bestpractices.com/posts/2010/07/22/overuse-route-customizations/"
      files := [.regex FilePattern.routeFiles]
      ignored := ignored }
  let message := "overuse route customizations (customize_count > " ++ toString allowed ++ ")"
  ⟨(start.interestedIn [.methodAddBlock]).on .enter .methodAddBlock (.report fun site n _ _ =>
    if n.messageText == "resources" && decide (allowed < customRouteCount n) then
      [site.finding message]
    else []), (), []⟩

def defaultNesting : Nat := 2

/-- Whether a node declares a resource. -/
def declaresResource (n : Node) : Bool :=
  Routing.isRouteCall n && Routing.isResource n.messageText

/-- The route scope after a node of a route file. -/
def visitResource (n : Node) (scope : RouteScope) : RouteScope :=
  if declaresResource n then scope.visitResource.2 else scope

def isTooDeep (allowed : Nat) (n : Node) (scope : RouteScope) : Bool :=
  declaresResource n && scope.visitResource.1.any (allowed ≤ ·) && !scope.inShallow

def nestedRoutes {ν : Type} (allowed : Nat) (ignored : List FilePattern) : Check ν :=
  let start : Spec ν RouteScope :=
    { name := "NeedlessDeepNestingCheck"
      url := some "https://rails-bestpractices.com/posts/2010/07/22/needless-deep-nesting/"
      files := [.regex FilePattern.routeFiles]
      ignored := ignored }
  let message := "needless deep nesting (nested_count > " ++ toString allowed ++ ")"
  ⟨((start.trackRoutes .whole).interestedIn Routing.callKinds)
    |>.onEach .enter Routing.callKinds (.report fun site n scope _ =>
      if isTooDeep allowed n scope then [site.finding message] else [])
    |>.onEach .enter Routing.callKinds (.update visitResource), {}, []⟩

def symbols (names : List String) : String := ", ".intercalate (names.map (":" ++ ·))

/-- The shorter one of the two options that leave the implemented actions. -/
def suggestion (defaults implemented : List String) : String :=
  let excluded := defaults.filter (!implemented.contains ·)
  if excluded.length < implemented.length then "except: [" ++ symbols excluded ++ "]"
  else "only: [" ++ symbols implemented ++ "]"

/-- The class of the controller that a resource is routed to. -/
def resourceClass (scope : RouteScope) (name : String) (n : Node) : String :=
  (Route.of scope.namespaces (Routing.resourceController name n.options?) "").controllerClass

/-- The path of a resource below the open blocks; the declaration that a block belongs to is one of
them already. -/
def resourcePath (scope : RouteScope) (name : String) : List String :=
  scope.namespaces ++ scope.resourceNames ++ if scope.visitResource.1.isNone then [] else [name]

/-- The message about a declaration that generates more than its controller has. -/
def excessRoutes? (n : Node) (scope : RouteScope) (t : Tables) : Option String :=
  ((Routing.names n).head?.filter fun _ => declaresResource n).bind fun name =>
    let controller := resourceClass scope name n
    let actions := Routing.resourceActions n.messageText n.options?
    let isImplemented (a : String) : Bool := t.controllerMethods.has controller a none
    if !t.controllers.declares controller || actions.all isImplemented then none
    else
      some ("restrict auto-generated routes " ++ "/".intercalate (resourcePath scope name) ++ " ("
        ++ suggestion (Routing.defaultActions n.messageText) (actions.filter isImplemented) ++ ")")

def routeOptions {ν : Type} (ignored : List FilePattern) : Check ν :=
  let start : Spec ν RouteScope :=
    { name := "RestrictAutoGeneratedRoutesCheck"
      url := some
        "https://rails-bestpractices.com/posts/2011/08/19/restrict-auto-generated-routes/"
      files := [.regex FilePattern.routeFiles]
      ignored := ignored }
  ⟨((start.trackRoutes .whole).interestedIn Routing.callKinds)
    |>.onEach .enter Routing.callKinds (.report fun site n scope t =>
      ((excessRoutes? n scope t).map site.finding).toList)
    |>.onEach .enter Routing.callKinds (.update visitResource), {}, []⟩

end RailsReview.Practice
