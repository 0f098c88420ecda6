import RailsReview.Check.Basic

/-!
# Open classes and modules

A check that wants to know in which class it is keeps a `ClassScope` in its state. `trackClasses`
adds the handlers that keep it up to date; handlers added later see the scope with the class just
entered, or without the class just left.
-/
namespace RailsReview

inductive Enclosure where
  | module_ (name : String)
  | class_ (c : ClassRecord)
  deriving DecidableEq, Repr

namespace Enclosure

def name : Enclosure → String
  | module_ name => name
  | class_ c => c.name

def class? : Enclosure → Option ClassRecord
  | module_ _ => none
  | class_ c => some c

end Enclosure

structure ClassScope where
  /-- What is open, the innermost first. -/
  enclosures : List Enclosure := []
  /-- The class that was left last. -/
  lastClosed? : Option ClassRecord := none
  deriving DecidableEq, Repr

namespace ClassScope

/-- The names of all that is open, the outermost first. -/
def names (s : ClassScope) : List String := (s.enclosures.map Enclosure.name).reverse

/-- The innermost class. -/
def class? (s : ClassScope) : Option ClassRecord := s.enclosures.findSome? Enclosure.class?

/-- The qualified name of the innermost class; outside of classes the empty text. -/
def className (s : ClassScope) : String := (s.class?.map ClassRecord.qualifiedName).getD ""

/-- The superclass of the innermost class as written. -/
def baseName (s : ClassScope) : String := (s.class?.map ClassRecord.baseName).getD ""

/-- The qualified name of the innermost class or module. -/
def moduleName (s : ClassScope) : String := "::".intercalate s.names

/-- The class that a node defines here. -/
def defined (s : ClassScope) (n : Node) : ClassRecord :=
  ⟨Node.textOf n.className?, Node.textOf n.baseClass?, s.names⟩

def enterClass (n : Node) (s : ClassScope) : ClassScope :=
  { s with enclosures := .class_ (s.defined n) :: s.enclosures }

def enterModule (n : Node) (s : ClassScope) : ClassScope :=
  { s with enclosures := .module_ (Node.textOf n.moduleName?) :: s.enclosures }

def leave (s : ClassScope) : ClassScope :=
  match s.enclosures with
  | [] => s
  | e :: rest => ⟨rest, e.class?.or s.lastClosed?⟩

end ClassScope

namespace Spec

variable {ν σ : Type}

def trackClasses (scope : Field σ ClassScope) (s : Spec ν σ) : Spec ν σ :=
  (s.interestedIn [.classDef, .moduleDef])
    |>.on .enter .classDef (.update fun n => scope.modify (.enterClass n))
    |>.on .exit .classDef (.update fun _ => scope.modify .leave)
    |>.on .enter .moduleDef (.update fun n => scope.modify (.enterModule n))
    |>.on .exit .moduleDef (.update fun _ => scope.modify .leave)

end Spec

end RailsReview
