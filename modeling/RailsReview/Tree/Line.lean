import RailsReview.Tree.Part

/-!
# The line of a node

Only tokens know their line. Most nodes begin where their first child does; the others take the
line of their last child that has one, and an array that of its first element that has one.
-/
namespace RailsReview.Node

/-- The kinds whose line is that of their first child. -/
def beginsAtFirstChild : Kind → Bool
  | .methodDef | .singletonDef | .command | .commandCall | .call | .functionCall | .methodAddArg
  | .methodAddBlock | .varRef | .variableCall | .constRef | .topConstRef | .constPathRef
  | .classDef | .moduleDef | .ifStatement | .unlessStatement | .elsifClause | .ternary
  | .ifModifier | .unlessModifier | .binary | .aliasDef | .symbolLiteral | .symbol | .index
  | .hash | .assocListFromArgs | .assocNew | .stringLiteral | .stringContent | .dynamicSymbol
  | .multiAssign | .varField | .assign | .opAssign | .field | .inclusiveRange | .exclusiveRange
  | .unary | .paren | .returnStatement | .yieldStatement | .argsAddBlock | .argParen
  | .bareAssocHash | .list => true
  | _ => false

mutual

def line? : Node → Option Nat
  | mk _ _ (some p) _ => some p.line
  | mk k slots none _ =>
    match k with
    | .array =>
      match elementsLine? slots with
      | some l => some l
      | none => firstChildLine? slots
    | k => if beginsAtFirstChild k then firstChildLine? slots else lastLine? slots

/-- The line of the first node, which may have none. -/
def firstChildLine? : List Slot → Option Nat
  | [] => none
  | .node n :: _ => n.line?
  | _ :: rest => firstChildLine? rest

/-- The line of the last node that has one. -/
def lastLine? : List Slot → Option Nat
  | [] => none
  | .node n :: rest =>
    match lastLine? rest with
    | some l => some l
    | none => n.line?
  | _ :: rest => lastLine? rest

/-- The line of the first node that has one. -/
def someLine? : List Slot → Option Nat
  | [] => none
  | .node n :: rest =>
    match n.line? with
    | some l => some l
    | none => someLine? rest
  | _ :: rest => someLine? rest

/-- The same, leaving the first node out. -/
def laterLine? : List Slot → Option Nat
  | [] => none
  | .node _ :: rest => someLine? rest
  | _ :: rest => laterLine? rest

/-- The line of the first argument value that has one. -/
def argumentsLine? : Node → Option Nat
  | mk .argsAddBlock (.node n :: _) _ _ => n.argumentsLine?
  | mk .argParen (.node n :: _) _ _ => n.argumentsLine?
  | mk .list slots _ _ => someLine? slots
  | mk .argsAddStar (.node n :: rest) _ _ =>
    match n.argumentsLine? with
    | some l => some l
    | none => someLine? rest
  | mk .argsAddStar (_ :: rest) _ _ => laterLine? rest
  | mk .array (.node n :: _) _ _ => if holdsElements n.kind then n.argumentsLine? else none
  | _ => none

/-- The line of the first element that has one, from the slots of an array. -/
def elementsLine? : List Slot → Option Nat
  | .node n :: _ => if holdsElements n.kind then n.argumentsLine? else none
  | _ => none

end

end RailsReview.Node
