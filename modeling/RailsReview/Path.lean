import RailsReview.Text.Basic

/-!
# Paths

A path is printed as it was written and compared by its components: repeated slashes, a slash at
the end and inner dots do not count, a dot at the start and double dots do.
-/
namespace RailsReview

inductive Path.Component where
  | root
  | current
  | parent
  | name (s : String)
  deriving DecidableEq, Repr

structure Path where
  text : String
  deriving Repr, Inhabited

namespace Path

namespace Component

def rank : Component → Nat
  | root => 0
  | current => 1
  | parent => 2
  | name _ => 3

/-- The root comes first, then dots, then double dots, then names by code point. -/
def order : Component → Component → Ordering
  | name s, name t => compare s t
  | a, b => compare a.rank b.rank

end Component

/-- What a piece after the first one contributes. -/
def component? (piece : String) : Option Component :=
  if piece = "" || piece = "." then none
  else if piece = ".." then some .parent
  else some (.name piece)

def components (p : Path) : List Component :=
  match Text.split '/' p.text with
  | "" :: second :: rest => .root :: (second :: rest).filterMap component?
  | "." :: rest => .current :: rest.filterMap component?
  | ps => ps.filterMap component?

instance : BEq Path := ⟨fun p q => p.components == q.components⟩

def orderOf : List Component → List Component → Ordering
  | [], [] => .eq
  | [], _ :: _ => .lt
  | _ :: _, [] => .gt
  | a :: as, b :: bs => (a.order b).then (orderOf as bs)

/-- Paths are ordered component by component. -/
instance : Ord Path := ⟨fun p q => orderOf p.components q.components⟩

/-- The last component when it is a name. -/
def fileName? (p : Path) : Option String :=
  match p.components.getLast? with
  | some (.name s) => some s
  | _ => none

/-- The text after the last dot of a file name; a dot at its very start does not count. -/
def extensionOf? (fileName : String) : Option String :=
  let cs := fileName.toList.reverse
  match cs.dropWhile (· != '.') with
  | [] | [_] => none
  | _ :: _ => some (String.ofList (cs.takeWhile (· != '.')).reverse)

def extension? (p : Path) : Option String := p.fileName?.bind extensionOf?

/-- The text with every backslash read as a slash. -/
def slashed (p : Path) : String :=
  String.ofList (p.text.toList.map fun c => if c == '\\' then '/' else c)

end Path

end RailsReview
