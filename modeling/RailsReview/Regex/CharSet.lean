import RailsReview.Text.Basic
import RailsReview.Text.Case
import RailsReview.Text.WordTable

/-!
# Sets of characters

A set is kept as the expression that was written for it; membership is decided by evaluating it.
-/
namespace RailsReview

inductive CharSet where
  | range (first last : Char)
  | digit
  | space
  | word
  | none
  | any
  | union (a b : CharSet)
  | inter (a b : CharSet)
  | diff (a b : CharSet)
  | symDiff (a b : CharSet)
  | compl (a : CharSet)
  /-- Every character that differs in case only from one of the set. -/
  | anyCase (a : CharSet)
  /-- The same for ASCII letters alone. -/
  | anyAsciiCase (a : CharSet)

namespace CharSet

def inRanges (rows : List (Nat × Nat)) (n : Nat) : Bool :=
  rows.any fun row => row.1 ≤ n && n ≤ row.2

def isDigit (c : Char) : Bool :=
  if Text.isAscii c then c.isDigit else inRanges WordTable.digits c.toNat

def isWord (c : Char) : Bool :=
  if Text.isAscii c then c.isAlphanum || c == '_' else inRanges WordTable.words c.toNat

def asciiVariants (c : Char) : List Char := [c, c.toLower, c.toUpper]

def contains : CharSet → Char → Bool
  | range first last, c => first ≤ c && c ≤ last
  | digit, c => isDigit c
  | space, c => Text.isBlank c
  | word, c => isWord c
  | none, _ => false
  | any, _ => true
  | union a b, c => a.contains c || b.contains c
  | inter a b, c => a.contains c && b.contains c
  | diff a b, c => a.contains c && !b.contains c
  | symDiff a b, c => a.contains c != b.contains c
  | compl a, c => !a.contains c
  | anyCase a, c => (Text.caseVariants c).any a.contains
  | anyAsciiCase a, c => (asciiVariants c).any a.contains

def single (c : Char) : CharSet := range c c

def ofList (cs : List Char) : CharSet := cs.foldr (fun c s => union (single c) s) none

def unionAll (sets : List CharSet) : CharSet := sets.foldr union none

def asciiDigit : CharSet := range '0' '9'

def asciiSpace : CharSet := union (range '\t' '\r') (single ' ')

def asciiLetter : CharSet := union (range 'a' 'z') (range 'A' 'Z')

def asciiWord : CharSet := unionAll [asciiLetter, asciiDigit, single '_']

/-- Every character but a newline. -/
def notNewline : CharSet := compl (single '\n')

end CharSet

end RailsReview
