import RailsReview.Dictionary
import RailsReview.Path
import RailsReview.Table.Classes

/-!
# Methods

Every method is recorded under its class, with its access level and whether a use of it was seen.
A public method may also be used in a way that does not show its class, so the names that were
called anywhere are kept as well.
-/
namespace RailsReview

inductive Access where
  | public_
  | protected_
  | private_
  deriving DecidableEq, Repr, Inhabited

namespace Access

def name : Access → String
  | public_ => "public"
  | protected_ => "protected"
  | private_ => "private"

def ofName? (s : String) : Option Access :=
  [public_, protected_, private_].find? (·.name == s)

end Access

structure MethodRecord where
  className : String
  name : String
  access : Access
  file : Path
  line : Nat
  used : Bool
  deriving Repr

def MethodRecord.hasAccess (m : MethodRecord) (access : Option Access) : Bool :=
  access.all (m.access == ·)

structure MethodTable where
  methods : Dictionary (List MethodRecord) := {}
  /-- Names that were called somewhere, in order. -/
  calledNames : List String := []
  deriving Repr

namespace MethodTable

def all (t : MethodTable) : List MethodRecord := t.methods.values.flatten

def ofClass (t : MethodTable) (className : String) (access : Option Access) : List MethodRecord :=
  ((t.methods.get? className).getD []).filter (·.hasAccess access)

def find? (t : MethodTable) (className name : String) (access : Option Access) :
    Option MethodRecord :=
  (t.ofClass className access).find? (·.name == name)

def has (t : MethodTable) (className name : String) (access : Option Access) : Bool :=
  (t.find? className name access).isSome

def declare (m : MethodRecord) (ms : Option (List MethodRecord)) : List MethodRecord :=
  let ms := ms.getD []
  if ms.any (·.name == m.name) then ms else ms ++ [m]

/-- Records a method; its first definition counts, and nameless ones are left out. -/
def add (t : MethodTable) (className name : String) (file : Path) (line : Nat) (access : Access) :
    MethodTable :=
  if className = "" || name = "" then t
  else
    let m : MethodRecord := ⟨className, name, access, file, line, false⟩
    { t with methods := t.methods.alter className (declare m) }

/-- Changes the method of that class and name. -/
def update (t : MethodTable) (className name : String) (f : MethodRecord → MethodRecord) :
    MethodTable :=
  { t with methods := t.methods.modify className fun ms =>
      ms.map fun m => if m.name = name then f m else m }

def markUsed (t : MethodTable) (className name : String) : MethodTable :=
  t.update className name fun m => { m with used := true }

/-- Marks the method in the nearest ancestor that has it. -/
def markInAncestor (t : MethodTable) (classes : ClassTable) (className name : String) :
    MethodTable :=
  match (classes.ancestors className).find? fun c => t.has c name none with
  | some c => t.markUsed c name
  | none => t

/-- Marks the method in every class below. -/
def markInSubclasses (t : MethodTable) (classes : ClassTable) (className name : String) :
    MethodTable :=
  (classes.subclasses className).foldl (fun t c => t.markUsed c.qualifiedName name) t

def publicize (t : MethodTable) (className name : String) : MethodTable :=
  t.update className name fun m => { m with access := .public_ }

/-- Marks the method if it is public. -/
def markPublic (t : MethodTable) (className name : String) : MethodTable :=
  t.update className name fun m => { m with used := m.used || m.access == .public_ }

def noteCall (t : MethodTable) (name : String) : MethodTable :=
  { t with calledNames := insertSorted name t.calledNames }

/-- Whether a public method may be meant by a call that does not show its class. -/
def maybeCalled (t : MethodTable) (m : MethodRecord) : Bool :=
  m.access == .public_ && t.calledNames.contains m.name

/-- The methods of which no use was seen. -/
def unused (t : MethodTable) (access : Option Access) : List MethodRecord :=
  t.all.filter fun m => !m.used && m.hasAccess access && !t.maybeCalled m

end MethodTable

end RailsReview
