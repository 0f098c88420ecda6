import RailsReview.Regex.Basic

/-!
# Globs

A glob matches a whole text. A star matches any text, slashes included; a double star has to be a
whole component and matches any number of components.
-/
namespace RailsReview.Glob

inductive Token where
  | char (c : Char)
  | anyChar
  | anyText
  | anyComponents
  | oneOf (set : CharSet)

/-- The characters between brackets: ranges and single characters. -/
def charsOf : List Char → CharSet
  | a :: '-' :: b :: rest => .union (.range a b) (charsOf rest)
  | c :: rest => .union (.single c) (charsOf rest)
  | [] => .none

/-- A bracket after its opening character. Its first character belongs to it even when it closes
brackets. -/
def bracket? (cs : List Char) : Option (CharSet × List Char) :=
  let (negated, cs) := match cs with
    | '!' :: rest => (true, rest)
    | cs => (false, cs)
  match cs with
  | [] => none
  | first :: rest =>
    match rest.dropWhile (· != ']') with
    | [] => none
    | _ :: left =>
      let set := charsOf (first :: rest.takeWhile (· != ']'))
      some (if negated then .compl set else set, left)

/-- The token for a run of stars and what is left after it; `fresh` says that a component begins
here. -/
def stars? (fresh : Bool) (count : Nat) (rest : List Char) : Option (Token × List Char) :=
  if count = 1 then some (.anyText, rest)
  else if count = 2 && fresh then
    match rest with
    | [] => some (.anyComponents, [])
    | '/' :: rest => some (.anyComponents, rest)
    | _ => none
  else none

/-- One token and the rest; `before` is the character just passed. -/
def token? (before : Option Char) : List Char → Option (Token × List Char)
  | [] => none
  | '?' :: rest => some (.anyChar, rest)
  | '*' :: rest =>
    stars? (before.all (· == '/')) (1 + (rest.takeWhile (· == '*')).length)
      (rest.dropWhile (· == '*'))
  | '[' :: rest => (bracket? rest).map fun (set, left) => (.oneOf set, left)
  | c :: rest => some (.char c, rest)

/-- Every token takes a character at least, so the length of the text bounds their number. -/
def tokens? : Nat → Option Char → List Char → Option (List Token)
  | _, _, [] => some []
  | 0, _, _ => none
  | n + 1, before, cs =>
    (token? before cs).bind fun (t, rest) =>
      let passed := cs.take (cs.length - rest.length)
      (tokens? n passed.getLast? rest).map (t :: ·)

def anyText : Regex := .star (.char .any)

/-- The expression for tokens. A double star stops before any component, and takes everything where
the glob ends. -/
def expression : List Token → Regex
  | [] => .atEnd
  | .char c :: rest => .seq (.char (.single c)) (expression rest)
  | .anyChar :: rest => .seq (.char .any) (expression rest)
  | .anyText :: rest => .seq anyText (expression rest)
  | .oneOf set :: rest => .seq (.char set) (expression rest)
  | .anyComponents :: [] => .seq anyText .atEnd
  | .anyComponents :: rest =>
    .seq (.optional (.seq anyText (.char (.single '/')))) (expression rest)

/-- The expression for the whole text that a glob matches, if the glob is valid. -/
def parse? (glob : String) : Option Regex :=
  let cs := glob.toList
  (tokens? cs.length none cs).map fun ts => .seq .atStart (expression ts)

end RailsReview.Glob
