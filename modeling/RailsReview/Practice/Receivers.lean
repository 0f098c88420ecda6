import RailsReview.Check.Basic
import RailsReview.Dictionary
import RailsReview.Tree.Size
import RailsReview.Tree.Text

/-!
# What is asked of a receiver

Two reviews look at the receiver that a chain of calls starts from. In `@invoice.user.name` the
caller reaches through an association of the invoice to an attribute of its user, which is reported
as far as the tables know model, association and attribute. A controller method that calls or
assigns to one receiver many times does the work of a model.
-/
namespace RailsReview.Practice

/-- The associations by which a model could delegate. -/
def delegatableAssociations : List String := ["belongs_to", "has_one"]

/-- The model that a variable is named for. -/
def modelOfVariable (name : String) : String :=
  Inflection.classify (String.ofList (Text.dropLeading '@' name.toList))

def needsDelegate (t : Tables) (n : Node) : Bool :=
  let receiver := Node.textOf n.receiver?
  let association := Node.textOf (n.subject?.bind Node.message?)
  receiver != ""
    && (t.associations.find? (modelOfVariable receiver) association delegatableAssociations).any
      fun a => t.attributes.isAttribute a.className n.messageText

/-- Whether a call is made on the result of another call. -/
def isChained (n : Node) : Bool := Node.isKind .call n.subject?

def demeter {ν : Type} (ignored : List FilePattern) : Check ν :=
  let start : Spec ν Unit :=
    { name := "LawOfDemeterCheck"
      url := some "https://rails-bestpractices.com/posts/2010/07/24/the-law-of-demeter/"
      files := [.all]
      ignored := ignored }
  ⟨(start.interestedIn [.call]).on .enter .call (.report fun site n _ t =>
    if isChained n && needsDelegate t n then [site.finding "law of demeter"] else []), (), []⟩

def defaultUseCount : Nat := 4

/-- Receivers that do not count. -/
def uncountedReceivers : List String := ["self", "@_response"]

/-- Calls and assignments to attributes. -/
def uses : NodePattern := { kinds := [.call, .field] }

/-- Counts a use for its receiver, if that counts. -/
def countUse (counts : Ledger String Nat) (u : Node) : Ledger String Nat :=
  let receiver := Node.textOf u.receiver?
  if receiver == "" || uncountedReceivers.contains receiver then counts
  else counts.alter receiver fun uses => uses.elim 1 (· + 1)

/-- How often the receivers are used in the body of a definition. -/
def receiverCounts (n : Node) : Ledger String Nat :=
  (n.body?.elim [] uses.findAll).foldl countUse {}

/-- The receivers with more than `allowed` uses. -/
def overusedReceivers (allowed : Nat) (n : Node) : List String :=
  ((receiverCounts n).entries.filter fun e => allowed < e.2).map (·.1)

def overuseMessage (allowed : Nat) (receiver : String) : String :=
  "move model logic into model (" ++ receiver ++ " use_count > " ++ toString allowed ++ ")"

def modelLogic {ν : Type} (allowed : Nat) (ignored : List FilePattern) : Check ν :=
  let start : Spec ν Unit :=
    { name := "MoveModelLogicIntoModelCheck"
      url := some
        "https://rails-bestpractices.com/posts/2010/07/21/move-model-logic-into-the-model/"
      files := [.regex FilePattern.controllerFiles]
      ignored := ignored }
  ⟨(start.interestedIn [.methodDef]).on .enter .methodDef (.report fun site n _ _ =>
    (overusedReceivers allowed n).map fun v => site.finding (overuseMessage allowed v)), (), []⟩

end RailsReview.Practice
