import RailsReview.Inflection.Number
import RailsReview.Text.Basic

/-!
# Class names and the paths and tables they stand for

`camelize` turns a path into a class name and `underscore` a class name into a path; `classify` and
`tableize` do the same for tables, whose names are plural.
-/
namespace RailsReview.Inflection

def capitalize : List Char → List Char
  | [] => []
  | c :: rest => Text.toUpper c ++ rest

def camelizeSegment (segment : List Char) : List Char :=
  ((Text.pieces (· == '_') segment).filter (!·.isEmpty)).flatMap capitalize

def camelizeChars (word : List Char) : List Char :=
  [':', ':'].intercalate ((Text.pieces (· == '/') word).map camelizeSegment)

/-- A path as a class name: slashes become double colons, and words are joined. -/
def camelize (word : String) : String := String.ofList (camelizeChars word.toList)

/-- Every double colon as a slash. -/
def slashSegments : List Char → List Char
  | ':' :: ':' :: rest => '/' :: slashSegments rest
  | c :: rest => c :: slashSegments rest
  | [] => []

/-- Whether a word begins at an upper-case letter, judged by its neighbours. -/
def wordBegins (before after : Option Char) : Bool :=
  match before with
  | none => false
  | some p =>
    if Text.isLower p || p.isDigit then true
    else if Text.isUpper p then after.any Text.isLower
    else false

/-- Lower case with underscores between words; `before` is the character just passed. -/
def separateWords (before : Option Char) : List Char → List Char
  | [] => []
  | c :: rest =>
    (if Text.isUpper c then
      (if wordBegins before rest.head? then ['_'] else []) ++ Text.toLower c
    else if c == '-' then ['_']
    else [c]) ++ separateWords (some c) rest

def underscoreChars (word : List Char) : List Char := separateWords none (slashSegments word)

/-- A class name as a path. -/
def underscore (word : String) : String := String.ofList (underscoreChars word.toList)

/-- The class whose rows a table holds. -/
def classify (word : String) : String := camelize (singularize word)

/-- The table that holds the rows of a class. -/
def tableize (word : String) : String := pluralize (underscore word)

end RailsReview.Inflection
