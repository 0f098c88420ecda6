import RailsReview.Check.Basic
import RailsReview.Text.Basic
import RailsReview.Tree.Text

/-!
# Mass assignment

A class of records is reported when nothing protects its columns from being assigned by a request:
neither the application as a whole nor a declaration in the class.
-/
namespace RailsReview.Practice

def recordBases : List String := ["ActiveRecord::Base", "ApplicationRecord"]

def protectingCalls : List String :=
  ["attr_accessible", "attr_protected", "devise", "acts_as_authentic"]

/-- The module whose inclusion protects a class. -/
def protectingModule : String := "ActiveModel::ForbiddenAttributesProtection"

/-- The number in front of the first point of a version. -/
def majorVersion? (version : String) : Option Nat :=
  Text.natBelow? 0x100000000 (version.toList.takeWhile (· != '.'))

/-- The major version of the framework, by the first gem that tells. -/
def frameworkVersion? (gems : Dictionary String) : Option Nat :=
  ["activerecord", "rails"].findSome? fun gem => (gems.get? gem).bind majorVersion?

/-- Whether gems or settings protect the whole application. -/
def isApplicationProtected (t : Tables) : Bool :=
  t.gems.contains "strong_parameters"
    || ((frameworkVersion? t.gems).any (4 ≤ ·) && !t.gems.contains "protected_attributes")
    || t.settings.get? "active_record.whitelist_attributes" == some "true"

/-- What is known of an open class. -/
structure RecordClass where
  isRecord : Bool
  isProtected : Bool
  deriving DecidableEq, Repr

namespace RecordClass

def of (t : Tables) (n : Node) : RecordClass :=
  ⟨recordBases.contains (Text.withoutRoot (Node.textOf n.baseClass?)), isApplicationProtected t⟩

end RecordClass

/-- Marks the innermost class as protected. -/
def protect (classes : List RecordClass) : List RecordClass :=
  classes.modifyHead fun c => { c with isProtected := true }

def includesProtection (n : Node) : Bool :=
  n.messageText == "include" && n.callArguments.any (·.text == protectingModule)

def protectByCommand (n : Node) (classes : List RecordClass) : List RecordClass :=
  if includesProtection n || protectingCalls.contains n.messageText then protect classes
  else classes

def protectByName (n : Node) (classes : List RecordClass) : List RecordClass :=
  if protectingCalls.contains n.text then protect classes else classes

/-- Whether the innermost class is left without protection. -/
def isOpen (classes : List RecordClass) : Bool :=
  classes.head?.any fun c => c.isRecord && !c.isProtected

def massAssignment {ν : Type} (ignored : List FilePattern) : Check ν :=
  let start : Spec ν (List RecordClass) :=
    { name := "ProtectMassAssignmentCheck"
      url := some "https://rails-bestpractices.com/posts/2012/03/06/protect-mass-assignment/"
      files := [.regex FilePattern.modelFiles]
      ignored := ignored }
  ⟨(start.interestedIn [.classDef, .command, .variableCall, .varRef])
    |>.on .enter .classDef (fun _ n classes t =>
      { state := RecordClass.of t n :: classes, tables := t })
    |>.on .enter .command (.update protectByCommand)
    |>.onEach .enter [.variableCall, .varRef] (.update protectByName)
    |>.on .exit .classDef (.report fun site _ classes _ =>
      if isOpen classes then [site.finding "protect mass assignment"] else [])
    |>.on .exit .classDef (.update fun _ classes => classes.tail), [], []⟩

end RailsReview.Practice
