import RailsReview.Tree.Part

/-!
# The text of a node

Tokens have their own text and literals that of their content; a qualified constant is written with
double colons. A kind without a written form here has the empty text. The keyword arguments of a
call are its options, looked up by their text.
-/
namespace RailsReview.Node

/-- A key without its colon. -/
def withoutColon (s : String) : String :=
  match s.toList.reverse with
  | ':' :: rest => String.ofList rest.reverse
  | _ => s

def leafText (k : Kind) (slots : List Slot) : String :=
  match slots with
  | .literal (.str s) :: _ => if k == .label then withoutColon s else s
  | _ => ""

mutual

def text : Node → String
  | mk k slots _ _ =>
    if k.isToken then leafText k slots
    else match k with
      | .stringContent | .word => String.join (texts slots)
      | .stringLiteral | .shellLiteral | .symbolLiteral | .symbol | .dynamicSymbol | .constRef
      | .varRef | .variableCall | .varField => textAt slots 0
      | .topConstRef => "::" ++ textAt slots 0
      | .constPathRef => textAt slots 0 ++ "::" ++ textAt slots 1
      | .index => textAt slots 0 ++ "[" ++ (argumentTextsAt slots 1).headD "" ++ "]"
      | .call | .field => textAt slots 0 ++ "." ++ textAt slots 2
      | _ => ""

/-- The text of the node at a place, empty where there is none. -/
def textAt : List Slot → Nat → String
  | .node n :: _, 0 => n.text
  | _ :: rest, i + 1 => textAt rest i
  | _, _ => ""

/-- The texts of the nodes among the slots. -/
def texts : List Slot → List String
  | [] => []
  | .node n :: rest => n.text :: texts rest
  | _ :: rest => texts rest

/-- The texts of the argument values. -/
def argumentTexts : Node → List String
  | mk .argsAddBlock (.node n :: _) _ _ => n.argumentTexts
  | mk .argParen (.node n :: _) _ _ => n.argumentTexts
  | mk .list slots _ _ => texts slots
  | mk .argsAddStar (.node n :: rest) _ _ => n.argumentTexts ++ texts rest
  | mk .argsAddStar (_ :: rest) _ _ => (texts rest).drop 1
  | mk .array (.node n :: _) _ _ => if holdsElements n.kind then n.argumentTexts else []
  | _ => []

def argumentTextsAt : List Slot → Nat → List String
  | .node n :: _, 0 => n.argumentTexts
  | _ :: rest, i + 1 => argumentTextsAt rest i
  | _, _ => []

end

/-- The text of a part that may be missing. -/
def textOf (n : Option Node) : String := n.elim "" text

/-- The texts of an array literal's elements, or the one text of any other node. -/
def stringList (n : Node) : List String :=
  match n.kind with
  | .array => n.arrayValues.map text
  | _ => [n.text]

def isConstantReference (n : Node) : Bool :=
  match n.kind with
  | .constant | .constRef | .constPathRef | .topConstRef => true
  | .varRef | .variableCall => isKind .constant (n.slot? 0)
  | _ => false

/-- The pairs of a hash literal or of keyword arguments. -/
def hashPairs (n : Node) : List Node :=
  let holder := match n.kind with
    | .bareAssocHash => n.slot? 0
    | .hash => (n.slot? 0).bind (·.slot? 0)
    | _ => none
  (holder.elim [] children).filter (·.kind == .assocNew)

def pairKey (pair : Node) : String := textOf (pair.slot? 0)

/-- The value of the first pair whose key reads `key`. -/
def hashValue? (n : Node) (key : String) : Option Node :=
  (n.hashPairs.find? (pairKey · == key)).bind (·.slot? 1)

def hashKeys (n : Node) : List String := n.hashPairs.map pairKey

/-- The value of every pair, missing ones included. -/
def hashValues (n : Node) : List (Option Node) := n.hashPairs.map (·.slot? 1)

def hashSize (n : Node) : Nat := n.hashPairs.length

/-- The name of the method that a node calls. -/
def messageText (n : Node) : String := textOf n.message?

/-- The keyword arguments of a call. -/
def options? (n : Node) : Option Node := n.callArguments.find? (·.kind == .bareAssocHash)

/-- The other arguments of a call. -/
def positionals (n : Node) : List Node := n.callArguments.filter (·.kind != .bareAssocHash)

def option? (options : Option Node) (key : String) : Option Node := options.bind (·.hashValue? key)

def optionText (options : Option Node) (key : String) : String := textOf (option? options key)

/-- The texts that a part lists; a missing part lists none. -/
def listOf (n : Option Node) : List String := n.elim [] stringList

end RailsReview.Node
