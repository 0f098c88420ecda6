import RailsReview.Tree.OfJson

/-!
# Source files

A file is its path and its text. The analysis takes the parser as an argument; a parser answers with
a tree and the comments, which the tree leaves out.
-/
namespace RailsReview

structure SourceFile where
  path : Path
  content : String

/-- File names and extensions the parser is asked about. -/
def rubyFileNames : List String := ["Gemfile", "Capfile", "Rakefile"]

def rubyExtensions : List String := ["rb", "rake", "builder", "rxml", "jbuilder"]

def Path.isRuby (p : Path) : Bool :=
  p.fileName?.any rubyFileNames.contains || p.extension?.any rubyExtensions.contains

structure Comment where
  line : Nat
  text : String
  deriving DecidableEq, Repr

structure ParsedSource where
  tree : Node
  comments : List Comment

/-- Why a file has no tree: the parser's own words, or an answer that is no tree. -/
inductive ParseFailure where
  | said (message : String)
  | unreadable (e : TreeError)

abbrev Parser := Path → String → Except ParseFailure ParsedSource

namespace Json

/-- The field of an object that was read from text, where no field may appear twice. -/
def uniqueField? (key : String) (fields : List (String × Json)) : Option (Option Json) :=
  match fields.filter (·.1 == key) with
  | [] => some none
  | [f] => some (some f.2)
  | _ => none

end Json

namespace Comment

def ofJson? : Json → Option Comment
  | .arr [line, text] => line.nat?.bind fun l => text.str?.map fun t => ⟨l, t⟩
  | _ => none

end Comment

namespace ParsedSource

def commentsOfJson? (v : Json) : Option (List Comment) := v.arr?.bind (·.mapM Comment.ofJson?)

/-- The tree and the comments of an answer, given as fields or in that order. -/
def partsOfJson? : Json → Option (Json × List Comment)
  | .arr [tree] => some (tree, [])
  | .arr [tree, comments] => (commentsOfJson? comments).map (tree, ·)
  | .obj fields =>
    match Json.uniqueField? "tree" fields, Json.uniqueField? "comments" fields with
    | some (some tree), some none => some (tree, [])
    | some (some tree), some (some comments) => (commentsOfJson? comments).map (tree, ·)
    | _, _ => none
  | _ => none

def ofJson (v : Json) : Except TreeError ParsedSource :=
  match partsOfJson? v with
  | none => .error .notJson
  | some (.null, _) => .error .noTree
  | some (tree, comments) => (Node.ofJson tree).map (⟨·, comments⟩)

/-- Reads the parser's answer. -/
def ofText (text : String) : Except TreeError ParsedSource :=
  match Json.parse? Json.nestingLimit text with
  | some v => ofJson v
  | none => .error .notJson

end ParsedSource

end RailsReview
