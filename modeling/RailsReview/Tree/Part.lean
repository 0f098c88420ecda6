import RailsReview.Tree.Node

/-!
# Parts of a node

Each projection knows in which slot a kind keeps the part it asks for. Asked of any other kind it
answers `none`, so projections can be chained without asking for the kind first. Argument lists and
array literals come in several nested forms; `argumentValues` flattens each of them into the
expressions it holds, in source order.
-/
namespace RailsReview.Node

/-- The node at place `i` of a slot list. -/
def nodeAt (slots : List Slot) (i : Nat) : Option Node := slots[i]?.bind Slot.node?

def slot? (n : Node) (i : Nat) : Option Node := nodeAt n.slots i

def lastSlot? (n : Node) : Option Node := n.slots.getLast?.bind Slot.node?

def literal? (n : Node) (i : Nat) : Option Literal := n.slots[i]?.bind Slot.literal?

def isKind (k : Kind) (n : Option Node) : Bool := n.any (·.kind == k)

/-- The text of a token, kept in its first slot. -/
def tokenText? (n : Node) : Option String :=
  if n.kind.isToken then
    match n.slots with
    | .literal (.str s) :: _ => some s
    | _ => none
  else none

/-- The receiver of a call, the owner of an assigned attribute, or the left operand. -/
def subject? : Node → Option Node
  | mk .methodAddArg (.node n :: _) _ _ => n.subject?
  | mk .methodAddBlock (.node n :: _) _ _ => n.subject?
  | mk k slots _ _ =>
    match k with
    | .assign | .field | .call | .binary | .commandCall => nodeAt slots 0
    | _ => none

/-- The name of the method that is called. -/
def message? : Node → Option Node
  | mk .methodAddArg (.node n :: _) _ _ => n.message?
  | mk .methodAddBlock (.node n :: _) _ _ => n.message?
  | mk k slots _ _ =>
    match k with
    | .command | .functionCall => nodeAt slots 0
    | .binary => nodeAt slots 1
    | .call | .commandCall | .field => nodeAt slots 2
    | _ => none

/-- The right operand of a binary expression. -/
def argument? (n : Node) : Option Node :=
  match n.kind with
  | .binary => n.slot? 2
  | _ => none

def leftValue? (n : Node) : Option Node :=
  match n.kind with
  | .assign | .opAssign => n.slot? 0
  | _ => none

def rightValue? (n : Node) : Option Node :=
  match n.kind with
  | .assign | .opAssign => n.lastSlot?
  | _ => none

def condition? (n : Node) : Option Node :=
  match n.kind with
  | .ifStatement | .unlessStatement | .elsifClause | .ifModifier | .unlessModifier | .ternary
  | .whileLoop | .untilLoop => n.slot? 0
  | _ => none

def className? (n : Node) : Option Node :=
  match n.kind with
  | .classDef => n.slot? 0
  | _ => none

def baseClass? (n : Node) : Option Node :=
  match n.kind with
  | .classDef => n.slot? 1
  | _ => none

def moduleName? (n : Node) : Option Node :=
  match n.kind with
  | .moduleDef => n.slot? 0
  | _ => none

def methodName? (n : Node) : Option Node :=
  match n.kind with
  | .methodDef => n.slot? 0
  | .singletonDef => n.slot? 2
  | _ => none

def newName? (n : Node) : Option Node :=
  match n.kind with
  | .aliasDef | .varAlias => n.slot? 0
  | _ => none

def oldName? (n : Node) : Option Node :=
  match n.kind with
  | .aliasDef | .varAlias => n.slot? 1
  | _ => none

/-- The slot in which a definition, conditional, loop or block keeps its body. -/
def bodyPlace? : Kind → Option Nat
  | .classDef | .methodDef => some 2
  | .moduleDef | .ifStatement | .unlessStatement | .elsifClause | .ifModifier | .unlessModifier
  | .ternary | .whileLoop | .untilLoop | .doBlock | .braceBlock => some 1
  | .singletonDef => some 4
  | .elseClause => some 0
  | _ => none

def body? (n : Node) : Option Node := (bodyPlace? n.kind).bind n.slot?

def isBlock (n : Node) : Bool := n.kind == .doBlock || n.kind == .braceBlock

/-- The block given to a call. -/
def block? (n : Node) : Option Node :=
  match n.kind with
  | .methodAddBlock => n.slot? 1
  | .command | .commandCall => n.lastSlot?.filter isBlock
  | _ => none

/-- The kinds that hold statements by way of their body. -/
def hasStatementBody : Kind → Bool
  | .doBlock | .braceBlock | .classDef | .moduleDef | .methodDef | .singletonDef | .ifStatement
  | .unlessStatement | .elsifClause | .elseClause | .whileLoop | .untilLoop => true
  | _ => false

def nonVoid (ns : List Node) : List Node := ns.filter (·.kind != .voidStatement)

mutual

/-- The statements of a body, without the empty ones. -/
def statements : Node → List Node
  | mk k slots _ _ =>
    match k with
    | .program | .bodyStatement => nonVoid ((nodeAt slots 0).elim [] children)
    | .list => nonVoid (slots.filterMap Slot.node?)
    | k =>
      if hasStatementBody k then
        match bodyPlace? k with
        | some i => statementsAt slots i
        | none => []
      else []

def statementsAt : List Slot → Nat → List Node
  | .node n :: _, 0 => n.statements
  | _ :: rest, i + 1 => statementsAt rest i
  | _, _ => []

end

/-- The node that holds the arguments of a call. -/
def arguments? : Node → Option Node
  | mk .methodAddBlock (.node n :: _) _ _ => n.arguments?
  | mk .array slots p f => some (mk .array slots p f)
  | mk k slots _ _ =>
    match k with
    | .command | .methodAddArg => nodeAt slots 1
    | .commandCall => nodeAt slots 3
    | .argParen => nodeAt slots 0
    | _ => none

/-- The kinds that hold the elements of an array literal. -/
def holdsElements : Kind → Bool
  | .list | .argsAddStar | .argsAddBlock => true
  | _ => false

def argumentValues : Node → List Node
  | mk .argsAddBlock (.node n :: _) _ _ => n.argumentValues
  | mk .argParen (.node n :: _) _ _ => n.argumentValues
  | mk .list slots _ _ => slots.filterMap Slot.node?
  | mk .argsAddStar (.node n :: rest) _ _ => n.argumentValues ++ rest.filterMap Slot.node?
  | mk .argsAddStar (_ :: rest) _ _ => (rest.filterMap Slot.node?).drop 1
  | mk .array (.node n :: _) _ _ => if holdsElements n.kind then n.argumentValues else []
  | _ => []

/-- The expressions a call is given. -/
def callArguments (n : Node) : List Node := n.arguments?.elim [] argumentValues

/-- The elements of an array literal, word lists included. -/
def arrayValues (n : Node) : List Node :=
  match n.kind with
  | .array => n.argumentValues
  | _ => []

end RailsReview.Node
