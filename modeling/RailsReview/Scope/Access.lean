import RailsReview.Check.Basic
import RailsReview.Scope.Class

/-!
# Access sections and definitions

Every class, module and singleton class opens a public section, which a bare `private`, `protected`
or `public` switches. Such a word in front of a definition is about that definition only. A check
that records methods needs the section and the class around a definition.
-/
namespace RailsReview

structure AccessScope where
  /-- The access of the open sections, the innermost first. -/
  sections : List Access := []
  /-- The access of the definition that is being made, if it comes with one. -/
  inline? : Option Access := none
  deriving DecidableEq, Repr

namespace AccessScope

/-- The access of a method that is defined here. -/
def current (s : AccessScope) : Access := s.inline?.getD (s.sections.headD .public_)

def openSection (s : AccessScope) : AccessScope := { s with sections := .public_ :: s.sections }

def closeSection (s : AccessScope) : AccessScope := { s with sections := s.sections.tail }

def switch (a : Access) (s : AccessScope) : AccessScope :=
  { s with sections := a :: s.sections.tail }

/-- Switches the section if the node is a bare access word. -/
def switchAt (n : Node) (s : AccessScope) : AccessScope :=
  (Access.ofName? n.text).elim s s.switch

def isDefinition (n : Node) : Bool := n.kind == .methodDef || n.kind == .singletonDef

/-- The access that a command gives to the definition it is given. -/
def inlineAccess? (n : Node) : Option Access :=
  if n.callArguments.head?.any isDefinition then Access.ofName? (Node.textOf n.message?) else none

def beginInline (n : Node) (s : AccessScope) : AccessScope :=
  match inlineAccess? n with
  | some a => { s with inline? := some a }
  | none => s

def endInline (n : Node) (s : AccessScope) : AccessScope :=
  if (inlineAccess? n).isSome then { s with inline? := none } else s

end AccessScope

namespace Spec

variable {ν σ : Type}

/-- The kinds that open a section of their own. -/
def sectionKinds : List Kind := [.classDef, .moduleDef, .singletonClass]

def trackAccess (scope : Field σ AccessScope) (s : Spec ν σ) : Spec ν σ :=
  (s.interestedIn (sectionKinds ++ [.variableCall, .varRef, .command]))
    |>.onEach .enter sectionKinds (.update fun _ => scope.modify .openSection)
    |>.onEach .exit sectionKinds (.update fun _ => scope.modify .closeSection)
    |>.onEach .enter [.variableCall, .varRef] (.update fun n => scope.modify (.switchAt n))
    |>.on .enter .command (.update fun n => scope.modify (.beginInline n))
    |>.on .exit .command (.update fun n => scope.modify (.endInline n))

end Spec

structure DefinitionScope where
  classes : ClassScope := {}
  access : AccessScope := {}
  deriving DecidableEq, Repr

namespace Spec

variable {ν σ : Type}

def trackDefinitions (scope : Field σ DefinitionScope) (s : Spec ν σ) : Spec ν σ :=
  (s.trackClasses (scope.inside ⟨(·.classes), fun c d => { d with classes := c }⟩))
    |>.trackAccess (scope.inside ⟨(·.access), fun a d => { d with access := a }⟩)

end Spec

end RailsReview
