import RailsReview.Text.Basic

/-!
# Classes and modules

A class is known by its qualified name. Its superclass is written relative to the modules around it:
the innermost module that declares such a class is meant, and the name itself when none does.
-/
namespace RailsReview

/-- A class definition: its own name, its superclass as written and the modules around it. -/
structure ClassRecord where
  name : String
  base : String
  modules : List String
  deriving DecidableEq, Repr

def qualify (modules : List String) (name : String) : String :=
  if modules.isEmpty then name else "::".intercalate modules ++ "::" ++ name

namespace ClassRecord

def qualifiedName (c : ClassRecord) : String := qualify c.modules c.name

/-- The rest of an absolute name. -/
def absolute? (name : String) : Option String :=
  (Text.afterStart? [':', ':'] name.toList).map String.ofList

/-- The superclass as written, without the mark of an absolute name. -/
def baseName (c : ClassRecord) : String := (absolute? c.base).getD c.base

/-- The qualified names that the superclass may have, the likeliest first. -/
def superclassCandidates (c : ClassRecord) : List String :=
  if c.baseName = "" then []
  else if (absolute? c.base).isSome then [c.baseName]
  else
    ((List.range c.modules.length).reverse.map fun depth =>
      qualify (c.modules.take (depth + 1)) c.baseName) ++ [c.baseName]

end ClassRecord

/-- All classes, in the order of their definition, each qualified name once. -/
structure ClassTable where
  classes : List ClassRecord := []
  deriving DecidableEq, Repr

namespace ClassTable

def find? (t : ClassTable) (name : String) : Option ClassRecord :=
  t.classes.find? (·.qualifiedName == name)

def declares (t : ClassTable) (name : String) : Bool := (t.find? name).isSome

/-- The first definition of a class counts. -/
def add (t : ClassTable) (c : ClassRecord) : ClassTable :=
  if t.declares c.qualifiedName then t else ⟨t.classes ++ [c]⟩

def superclass (t : ClassTable) (c : ClassRecord) : String :=
  (c.superclassCandidates.find? t.declares).getD (c.superclassCandidates.getLastD "")

def superclassOf? (t : ClassTable) (name : String) : Option String :=
  (t.find? name).map t.superclass

/-- The names on the way up from `current`, until one is empty, undeclared or met before. At most
one of them is undeclared, so one more than the number of classes bounds the steps. -/
def climb (t : ClassTable) : Nat → List String → Option String → List String
  | 0, _, _ => []
  | _, _, none => []
  | steps + 1, seen, some current =>
    if current = "" || seen.contains current then []
    else current :: climb t steps (current :: seen) (t.superclassOf? current)

/-- The superclass of `name`, its superclass, and so on. -/
def ancestors (t : ClassTable) (name : String) : List String :=
  t.climb (t.classes.length + 1) [] (t.superclassOf? name)

/-- The classes of `rest` whose superclass is `parent`. -/
def directBelow (t : ClassTable) (parent : String) (rest : List ClassRecord) : List ClassRecord :=
  rest.filter (t.superclass · == parent)

/-- The other classes of `rest`. -/
def notDirectBelow (t : ClassTable) (parent : String) (rest : List ClassRecord) :
    List ClassRecord :=
  rest.filter (!t.superclass · == parent)

theorem length_directBelow_add (t : ClassTable) (parent : String) (rest : List ClassRecord) :
    (t.directBelow parent rest).length + (t.notDirectBelow parent rest).length = rest.length := by
  induction rest with
  | nil => rfl
  | cons c rest ih =>
    simp only [directBelow, notDirectBelow, List.filter_cons] at *
    split <;> simp_all <;> omega

/-- The classes of `rest` below the pending names. A name's direct subclasses are taken out of
`rest` and wait to be looked up themselves, the last one first. -/
def descend (t : ClassTable) (rest : List ClassRecord) (pending : List String) :
    List ClassRecord :=
  match pending with
  | [] => []
  | parent :: pending =>
    let direct := t.directBelow parent rest
    direct ++ t.descend (t.notDirectBelow parent rest)
      ((direct.map (·.qualifiedName)).reverse ++ pending)
termination_by rest.length + pending.length
decreasing_by
  have h := length_directBelow_add t parent rest
  simp only [List.length_append, List.length_map, List.length_reverse, List.length_cons] at *
  omega

/-- All classes below `name`. -/
def subclasses (t : ClassTable) (name : String) : List ClassRecord := t.descend t.classes [name]

end ClassTable

/-- The qualified names of modules, in the order of their definition, each once. -/
structure ModuleTable where
  modules : List String := []
  deriving DecidableEq, Repr

namespace ModuleTable

def declares (t : ModuleTable) (name : String) : Bool := t.modules.contains name

def add (t : ModuleTable) (name : String) (outer : List String) : ModuleTable :=
  let qualified := qualify outer name
  if t.declares qualified then t else ⟨t.modules ++ [qualified]⟩

end ModuleTable

end RailsReview
