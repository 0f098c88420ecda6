import RailsReview.Check.Basic
import RailsReview.Routing.Declaration

/-!
# Open route blocks

Inside of the block of a `namespace`, `scope`, `resources` or `resource` call, routes are declared
relative to it. A check keeps the open blocks in a `RouteScope`, which `trackRoutes` maintains.
-/
namespace RailsReview

inductive RouteBlock where
  /-- A namespace; without a name it adds nothing to the routes inside. -/
  | space (name : String)
  | resource (name controller : String) (shallow headSeen : Bool)
  | other
  deriving DecidableEq, Repr

namespace RouteBlock

/-- The block of a call; `n` is the call with its block. -/
def of (n : Node) : RouteBlock :=
  let head := n.slot? 0
  let options := head.bind Node.options?
  let name := (head.elim [] Routing.names).headD ""
  let message := n.messageText
  if message = "namespace" then space name
  else if message = "scope" then space (Node.optionText options "module")
  else if Routing.isResource message then
    resource name (Routing.resourceController name options)
      (Node.optionText options "shallow" == "true") false
  else other

def namespace? : RouteBlock → Option String
  | space name => if name = "" then none else some name
  | _ => none

def resourceName? : RouteBlock → Option String
  | resource name _ _ _ => some name
  | _ => none

def isShallow : RouteBlock → Bool
  | resource _ _ shallow _ => shallow
  | _ => false

end RouteBlock

structure RouteScope where
  /-- The open blocks, the innermost first. -/
  blocks : List RouteBlock := []
  deriving DecidableEq, Repr

namespace RouteScope

/-- The open namespaces, the outermost first. -/
def namespaces (s : RouteScope) : List String := (s.blocks.filterMap RouteBlock.namespace?).reverse

/-- The open resources, the outermost first. -/
def resourceNames (s : RouteScope) : List String :=
  (s.blocks.filterMap RouteBlock.resourceName?).reverse

def depth (s : RouteScope) : Nat := s.resourceNames.length

def inShallow (s : RouteScope) : Bool := s.blocks.any RouteBlock.isShallow

/-- The controller of the innermost resource, unless a namespace was opened inside of it. -/
def innermostController? : List RouteBlock → Option String
  | [] => none
  | .resource _ controller _ _ :: _ => some controller
  | .space name :: rest => if name = "" then innermostController? rest else none
  | .other :: rest => innermostController? rest

def controller? (s : RouteScope) : Option String := innermostController? s.blocks

/-- How deep a resource declaration is nested, and the scope after it. The first declaration in a
resource's block is the one the block belongs to, and has no depth. -/
def visitResource (s : RouteScope) : Option Nat × RouteScope :=
  match s.blocks with
  | .resource name controller shallow false :: rest =>
    (none, ⟨.resource name controller shallow true :: rest⟩)
  | _ => (some s.depth, s)

def enter (n : Node) (s : RouteScope) : RouteScope := ⟨.of n :: s.blocks⟩

def leave (s : RouteScope) : RouteScope := ⟨s.blocks.tail⟩

end RouteScope

namespace Spec

variable {ν σ : Type}

def trackRoutes (scope : Field σ RouteScope) (s : Spec ν σ) : Spec ν σ :=
  (s.interestedIn [.methodAddBlock])
    |>.on .enter .methodAddBlock (.update fun n => scope.modify (.enter n))
    |>.on .exit .methodAddBlock (.update fun _ => scope.modify .leave)

end Spec

end RailsReview
