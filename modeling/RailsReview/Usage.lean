import RailsReview.Scope.Class
import RailsReview.Tree.Size

/-!
# Used methods

A method counts as used when it is called, read like a variable, named as a symbol argument, given
to a dynamic send, aliased, or named by a condition such as `if: :admin?`. `trackUses` marks what is
used in the tables.
-/
namespace RailsReview

namespace Usage

/-- Calls that send the message named by their first argument. -/
def dynamicSends : List String := ["try", "try!", "send", "__send__", "public_send"]

/-- Keys whose value names a method that decides. -/
def conditionKeys : List String := ["if", "unless"]

/-- The expressions whose names a node uses. -/
def expressions (n : Node) : List (Option Node) :=
  match n.kind with
  | .call | .functionCall | .commandCall => [n.message?]
  | .variableCall | .varRef => [some n]
  | .command => n.message? :: n.callArguments.map some
  | .methodAddArg =>
    if dynamicSends.contains (Node.textOf n.message?) then (n.callArguments.take 1).map some
    else if Node.isKind .functionCall (n.slot? 0) then n.callArguments.map some
    else []
  | .aliasDef => [n.oldName?]
  | .assocNew => if conditionKeys.contains (Node.textOf (n.slot? 0)) then [n.slot? 1] else []
  | _ => []

/-- The kinds of node that may use a method. -/
def kinds : List Kind :=
  [.call, .functionCall, .variableCall, .varRef, .command, .commandCall, .methodAddArg, .aliasDef,
    .assocNew]

/-- The names an expression stands for: those of the values of a hash or an array, else its text. -/
def names (n : Node) : List String :=
  match n.kind with
  | .bareAssocHash | .hash =>
    n.hashValues.attach.flatMap fun ⟨v, hv⟩ =>
      match v with
      | some m => have := Node.size_lt_of_mem_hashValues hv; names m
      | none => []
  | .array =>
    n.arrayValues.attach.flatMap fun ⟨m, hm⟩ =>
      have := Node.size_lt_of_mem_arrayValues hm
      names m
  | _ => [n.text]
termination_by n.size

/-- The names a node uses. -/
def namesAt (n : Node) : List String := (expressions n).flatMap fun e => e.elim [] names

/-- Marks the names as used inside the class. -/
def mark (layer : Layer) (className : String) (used : List String) (t : Tables) : Tables :=
  used.foldl (fun t name => t.callMethod layer className name) t

end Usage

namespace Spec

variable {ν σ : Type}

/-- Marks what is used inside the class that is open, which has to be tracked already. -/
def trackUses (layer : Layer) (scope : Field σ ClassScope) (s : Spec ν σ) : Spec ν σ :=
  (s.interestedIn Usage.kinds).onEach .enter Usage.kinds
    (.record fun _ n state => Usage.mark layer (scope.get state).className (Usage.namesAt n))

end Spec

end RailsReview
