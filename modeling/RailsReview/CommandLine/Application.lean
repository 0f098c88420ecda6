import RailsReview.CommandLine.Ignoring
import RailsReview.Source

/-!
# Applications on disk

An application is given as the list of its files. A path leads from the application's directory to
a place in it; a file that is no text has no content.
-/
namespace RailsReview.CommandLine

structure StoredFile where
  path : Path
  content? : Option String

/-- The names on the way to a place below the directory; paths that leave it lead nowhere. -/
def stepsFrom : List String → List Path.Component → Option (List String)
  | back, [] => some back.reverse
  | _, .root :: _ => none
  | back, .current :: rest => stepsFrom back rest
  | [], .parent :: _ => none
  | _ :: back, .parent :: rest => stepsFrom back rest
  | back, .name s :: rest => stepsFrom (s :: back) rest

def stepsTo? (p : Path) : Option (List String) := stepsFrom [] p.components

/-- A path below a directory. -/
def joinPath (directory name : String) : String :=
  if directory.toList.getLast? == some '/' then directory ++ name else directory ++ "/" ++ name

structure Application where
  files : List StoredFile

namespace Application

def fileAt? (a : Application) (steps : List String) : Option StoredFile :=
  a.files.find? fun f => stepsTo? f.path == some steps

/-- The file a path leads to. -/
def find? (a : Application) (path : String) : Option StoredFile :=
  (stepsTo? ⟨path⟩).bind a.fileAt?

def content? (a : Application) (path : String) : Option String :=
  (a.find? path).bind (·.content?)

/-- Files and directories below a place, by what is left of the way. -/
def below (a : Application) (steps : List String) : List (List String × StoredFile) :=
  a.files.filterMap fun f =>
    (stepsTo? f.path).bind fun s =>
      match Text.afterStart? steps s with
      | some (name :: rest) => some (name :: rest, f)
      | _ => none

/-- A directory is there if something is in it; the application's own always is. -/
def isDirectory (a : Application) (steps : List String) : Bool :=
  steps.isEmpty || !(a.below steps).isEmpty

def isPlace (a : Application) (steps : List String) : Bool :=
  (a.fileAt? steps).isSome || a.isDirectory steps

def rulesOf (a : Application) (directory : List String) (fileName : String) : List IgnoreRule :=
  (((a.fileAt? (directory ++ [fileName])).bind (·.content?)).map IgnoreRule.ofText).getD []

/-- Whether a directory is the top of a repository. -/
def isRepository (a : Application) (directory : List String) : Bool :=
  a.isPlace (directory ++ [".git"])

/-- The directories around a place, the innermost first. -/
def around (steps : List String) : List (List String) :=
  (List.range steps.length).reverse.map steps.take

/-- The directories of `ds` up to the first one that is the top of a repository. -/
def upToRepository (a : Application) : List (List String) → List (List String)
  | [] => []
  | d :: ds => if a.isRepository d then [d] else d :: upToRepository a ds

/-- What ignore files of a name in these directories say, the innermost first. -/
def verdict? (a : Application) (fileName : String) (directories : List (List String))
    (steps : List String) (isDirectory : Bool) : Option Bool :=
  directories.findSome? fun d =>
    IgnoreRule.verdict? (a.rulesOf d fileName) (steps.drop d.length) isDirectory

/-- Whether ignore files exclude a place. Those of a repository count inside of one only, and less
than the general ones. -/
def isIgnored (a : Application) (steps : List String) (isDirectory : Bool) : Bool :=
  let directories := around steps
  let ofRepository := if directories.any a.isRepository then a.upToRepository directories else []
  ((a.verdict? ".ignore" directories steps isDirectory).or
    (a.verdict? ".gitignore" ofRepository steps isDirectory)).getD false

/-- Whether the way from a root to a file meets nothing that is left out. -/
def isReachable (a : Application) (root rest : List String) : Bool :=
  (List.range rest.length).all fun k =>
    let steps := root ++ rest.take (k + 1)
    steps.getLast? != some ".git" && !a.isIgnored steps (k + 1 < rest.length)

end Application

/-- Template files that are read as text. -/
def templateExtensions : List String := ["erb", "rhtml", "haml", "slim", "rabl"]

def isReviewed (p : Path) : Bool :=
  p.isRuby || p.fileName? == some "Gemfile.lock" || p.extension?.any templateExtensions.contains

/-- The files of an application that are reviewed, and those among them that are no text. -/
structure Discovery where
  files : List SourceFile := []
  skipped : List Path := []

namespace Discovery

/-- A file that is no text is skipped, under the path by which it was reached. -/
def add (d : Discovery) (reached : Path) (relative : Path) (f : StoredFile) : Discovery :=
  match f.content? with
  | some content => { d with files := d.files ++ [⟨relative, content⟩] }
  | none => { d with skipped := d.skipped ++ [reached] }

/-- The reviewed files below a directory. -/
def ofDirectory (a : Application) (root : String) (steps : List String) : Discovery :=
  let found := (a.below steps).filter fun (rest, _) => a.isReachable steps rest
  let named := found.map fun (rest, f) => (Path.mk ("/".intercalate rest), f)
  (named.filter fun (p, _) => isReviewed p).foldl
    (fun d (p, f) => d.add ⟨joinPath root p.text⟩ p f) {}

/-- The files at a root, in the order of their paths; `none` if nothing is there. -/
def ofRoot? (a : Application) (root : String) : Option Discovery :=
  (stepsTo? ⟨root⟩).bind fun steps =>
    match a.fileAt? steps with
    | some f => some (if isReviewed ⟨root⟩ then Discovery.add {} ⟨root⟩ ⟨""⟩ f else {})
    | none =>
      if a.isDirectory steps then
        let d := ofDirectory a root steps
        some { d with files := d.files.mergeSort fun f g => (compare f.path g.path).isLE }
      else none

end Discovery

end RailsReview.CommandLine
