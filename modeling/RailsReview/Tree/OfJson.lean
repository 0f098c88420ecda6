import RailsReview.Json.Parser
import RailsReview.Json.Printer
import RailsReview.Tree.Node

/-!
# Trees from s-expressions

A list that starts with a string is a node of that kind; any other list is an untagged one. A token
ends with its line and column when its last item is a list of two unsigned integers.
-/
namespace RailsReview

inductive TreeError where
  /-- The text is no JSON, or a field is missing or mistyped. -/
  | notJson
  | notAList (found : Json)
  | noTree

def TreeError.message : TreeError → String
  | notJson => "invalid tree JSON"
  | notAList found => "malformed tree: expected an array at the root, found " ++ found.compact
  | noTree => "malformed tree: parser produced no tree"

namespace Node

def positionOf? : Json → Option Position
  | .arr [line, column] => line.nat?.bind fun l => column.nat?.map fun c => ⟨l, c⟩
  | _ => none

/-- The position that ends the items of a token. -/
def tokenPosition? (kind : Kind) (items : List Json) : Option Position :=
  if kind.isToken then items.getLast?.bind positionOf? else none

/-- A node from its kind and all its items, the last of which may be the position. -/
def assemble (kind : Kind) (position? : Option Position) (slots : List Slot) : Node :=
  match position? with
  | some p => mk kind slots.dropLast (some p) none
  | none => mk kind slots none none

mutual

def ofItems : List Json → Node
  | .str tag :: rest =>
    assemble (.ofTag tag) (tokenPosition? (.ofTag tag) rest) (slotsOf rest)
  | items => mk .list (slotsOf items) none none

def slotsOf : List Json → List Slot
  | [] => []
  | v :: rest => slotOf v :: slotsOf rest

def slotOf : Json → Slot
  | .null => .absent
  | .bool b => .literal (.bool b)
  | .int i =>
    if i < 0x8000000000000000 then .literal (.int i)
    else .literal (.float (Float.ofInt i).toBits)
  | .float bits => .literal (.float bits)
  | .str s => .literal (.str s)
  | .arr items => .node (ofItems items)
  | .obj _ => .absent

end

def ofJson : Json → Except TreeError Node
  | .arr items => .ok (ofItems items)
  | v => .error (.notAList v)

def ofText (text : String) : Except TreeError Node :=
  match Json.parse? Json.nestingLimit text with
  | some v => ofJson v
  | none => .error .notJson

end Node

end RailsReview
