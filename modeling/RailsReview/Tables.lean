import RailsReview.Table.Methods
import RailsReview.Table.Models
import RailsReview.Table.Routes

/-!
# Tables

The facts that are collected from an application before its practices are reviewed.
-/
namespace RailsReview

structure Tables where
  routes : RouteTable := {}
  models : ClassTable := {}
  mailers : ClassTable := {}
  controllers : ClassTable := {}
  helpers : ModuleTable := {}
  modelMethods : MethodTable := {}
  controllerMethods : MethodTable := {}
  helperMethods : MethodTable := {}
  associations : AssociationTable := {}
  attributes : AttributeTable := {}
  /-- Locked versions; the first one of a gem counts. -/
  gems : Dictionary String := {}
  settings : Dictionary String := {}
  deriving Repr

/-- The part of an application whose methods are meant. -/
inductive Layer where
  | models
  | controllers
  | helpers
  deriving DecidableEq, Repr

namespace Tables

def methodsOf (t : Tables) : Layer → MethodTable
  | .models => t.modelMethods
  | .controllers => t.controllerMethods
  | .helpers => t.helperMethods

def withMethods (t : Tables) (layer : Layer) (ms : MethodTable) : Tables :=
  match layer with
  | .models => { t with modelMethods := ms }
  | .controllers => { t with controllerMethods := ms }
  | .helpers => { t with helperMethods := ms }

/-- The classes among which methods are inherited; helpers have none. -/
def classesOf? (t : Tables) : Layer → Option ClassTable
  | .models => some t.models
  | .controllers => some t.controllers
  | .helpers => none

/-- Notes a call of the method by its class: the method is used there, in the nearest ancestor that
has it, and in every class below, where it may be overridden. -/
def callMethod (t : Tables) (layer : Layer) (className name : String) : Tables :=
  if name = "" then t
  else
    let own := (t.methodsOf layer).markUsed className name
    let family := match t.classesOf? layer with
      | some classes =>
        (own.markInAncestor classes className name).markInSubclasses classes className name
      | none => own
    t.withMethods layer (family.noteCall name)

end Tables

end RailsReview
