import RailsReview.Tree.Part

/-!
# Conditions

A condition built with boolean operators is flattened into its operands. An operand may be missing
from the tree; it then keeps its place as `none`.
-/
namespace RailsReview.Node

/-- The operator of a binary or unary expression, kept as a literal or as a token. -/
def operatorIn? (slots : List Slot) (i : Nat) : Option String :=
  match slots[i]? with
  | some (.literal (.str op)) => some op
  | some (.node n) => n.tokenText?
  | _ => none

def operator? (n : Node) : Option String :=
  match n.kind with
  | .binary => operatorIn? n.slots 1
  | .unary => operatorIn? n.slots 0
  | _ => none

def isBooleanOperator (op : String) : Bool :=
  op == "&&" || op == "||" || op == "and" || op == "or"

/-- Whether the node joins two conditions. -/
def isCombinator (n : Node) : Bool :=
  n.kind == .binary && n.operator?.any isBooleanOperator

mutual

def allConditions : Node → List (Option Node)
  | mk k slots p f =>
    if isCombinator (mk k slots p f) then conditionsAt slots 0 ++ conditionsAt slots 2
    else [some (mk k slots p f)]

/-- The conditions in the operand at a place. -/
def conditionsAt : List Slot → Nat → List (Option Node)
  | .node n :: _, 0 => n.allConditions
  | _ :: rest, i + 1 => conditionsAt rest i
  | _, _ => [none]

end

end RailsReview.Node
