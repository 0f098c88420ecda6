import RailsReview.Path
import RailsReview.Tree.Kind

/-!
# Syntax nodes

A node has a kind and an ordered list of slots; a slot holds a node, a literal, or nothing. Tokens
carry their position. A node may name the file it came from; nodes below it belong to the same file.
-/
namespace RailsReview

inductive Literal where
  | str (s : String)
  | int (i : Int)
  /-- A double, by its IEEE-754 bits. -/
  | float (bits : UInt64)
  | bool (b : Bool)
  deriving DecidableEq, Repr

structure Position where
  line : Nat
  column : Nat
  deriving DecidableEq, Repr

mutual

inductive Node where
  | mk (kind : Kind) (slots : List Slot) (position? : Option Position) (file? : Option Path)

inductive Slot where
  | node (n : Node)
  | literal (l : Literal)
  | absent

end

/-- Literals are alike when they have the same value; the two zeros of a double do. -/
def Literal.alike : Literal → Literal → Bool
  | float a, float b => a == b || (a <<< 1 == 0 && b <<< 1 == 0)
  | a, b => a == b

namespace Slot

def node? : Slot → Option Node
  | node n => some n
  | _ => none

def literal? : Slot → Option Literal
  | literal l => some l
  | _ => none

end Slot

namespace Node

instance : Inhabited Node := ⟨.mk .list [] none none⟩

def kind : Node → Kind
  | mk k _ _ _ => k

def slots : Node → List Slot
  | mk _ slots _ _ => slots

/-- The position written on the node itself. -/
def position? : Node → Option Position
  | mk _ _ position? _ => position?

/-- The file named on the node itself. -/
def file? : Node → Option Path
  | mk _ _ _ file? => file?

def withFile (path : Path) : Node → Node
  | mk k slots position? _ => mk k slots position? (some path)

def ofKind (k : Kind) (slots : List Slot) : Node := mk k slots none none

/-- The nodes among the slots, in order. -/
def children (n : Node) : List Node := n.slots.filterMap Slot.node?

mutual

/-- The same tree without positions and file names. -/
def strip : Node → Node
  | mk k slots _ _ => mk k (stripSlots slots) none none

def stripSlots : List Slot → List Slot
  | [] => []
  | .node n :: rest => .node (strip n) :: stripSlots rest
  | .literal l :: rest => .literal l :: stripSlots rest
  | .absent :: rest => .absent :: stripSlots rest

end

mutual

/-- Nodes are alike when they agree in kind, position, file and every slot. -/
def alike : Node → Node → Bool
  | mk k s p f, mk k' s' p' f' => k == k' && p == p' && f == f' && alikeSlots s s'

def alikeSlots : List Slot → List Slot → Bool
  | [], [] => true
  | .node n :: rest, .node n' :: rest' => alike n n' && alikeSlots rest rest'
  | .literal l :: rest, .literal l' :: rest' => l.alike l' && alikeSlots rest rest'
  | .absent :: rest, .absent :: rest' => alikeSlots rest rest'
  | _, _ => false

end

mutual

/-- The number of nodes in the tree. -/
def size : Node → Nat
  | mk _ slots _ _ => sizeSlots slots + 1

def sizeSlots : List Slot → Nat
  | [] => 0
  | .node n :: rest => size n + sizeSlots rest
  | _ :: rest => sizeSlots rest

end

end Node

end RailsReview
