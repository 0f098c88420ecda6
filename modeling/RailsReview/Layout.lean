import RailsReview.Check.Basic
import RailsReview.Text.Basic

/-!
# The layout of a text

Three checks read the text of a file line by line. The first line with a tab is reported, every line
that ends in a space or a tab, one carriage return at its end being overlooked, and every line with
more characters than allowed, with its length.
-/
namespace RailsReview.Layout

/-- The first line with a tab. -/
def tabLine? (content : String) : Option Nat :=
  ((Text.pieces (· == '\n') content.toList).findIdx? (·.contains '\t')).map (· + 1)

def tab {ν : Type} (ignored : List FilePattern) : Check ν :=
  let start : Spec ν Unit :=
    { name := "RemoveTabCheck"
      url := some "https://rails-bestpractices.com/posts/2011/07/04/remove-tab/"
      files := [.all]
      ignored := ignored }
  ⟨start.withText (.report fun site content _ _ =>
    (tabLine? content).toList.map (site.findingAt · "remove tab, use spaces instead")), (), []⟩

def endsInBlank (line : List Char) : Bool :=
  (Text.dropCarriageReturn line).getLast?.any fun c => c == ' ' || c == '\t'

/-- The lines that end in a blank. -/
def trailingBlankLines (content : String) : List Nat :=
  (((Text.pieces (· == '\n') content.toList).zipIdx 1).filter fun l => endsInBlank l.1).map (·.2)

def trailingBlank {ν : Type} (ignored : List FilePattern) : Check ν :=
  let start : Spec ν Unit :=
    { name := "RemoveTrailingWhitespaceCheck"
      url := some "https://rails-bestpractices.com/posts/2010/12/02/remove-trailing-whitespace/"
      files := [.all]
      ignored := ignored }
  ⟨start.withText (.report fun site content _ _ =>
    (trailingBlankLines content).map (site.findingAt · "remove trailing whitespace")), (), []⟩

def defaultLineLength : Nat := 80

/-- The lines with more than `max` characters, with their lengths. -/
def longLines (max : Nat) (content : String) : List (Nat × Nat) :=
  (((Text.lines content).zipIdx 1).filter fun l => max < l.1.length).map fun l => (l.2, l.1.length)

def longLineMessage (max length : Nat) : String :=
  "line is longer than " ++ toString max ++ " characters (" ++ toString length ++ " characters)"

def lineLength {ν : Type} (max : Nat) (ignored : List FilePattern) : Check ν :=
  let start : Spec ν Unit :=
    { name := "LongLineCheck"
      files := [.all]
      ignored := ignored }
  ⟨start.withText (.report fun site content _ _ =>
    (longLines max content).map fun (line, length) =>
      site.findingAt line (longLineMessage max length)), (), []⟩

end RailsReview.Layout
