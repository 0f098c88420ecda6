import RailsReview.Glob
import RailsReview.Text.Basic

/-!
# Ignore files

Each line of an ignore file is a rule about the paths below its directory. Of the rules that match a
path the last one decides. A rule is matched component by component; one without a slash matches at
any depth.
-/
namespace RailsReview.CommandLine

inductive IgnorePart where
  /-- Any number of components. -/
  | anyDepth
  | name (r : Regex)

structure IgnoreRule where
  parts : List IgnorePart
  /-- Whether the rule keeps what it matches. -/
  negated : Bool
  directoriesOnly : Bool

namespace IgnorePart

def ofText? (text : String) : Option IgnorePart :=
  if text = "**" then some .anyDepth else (Glob.parse? text).map .name

/-- Whether the parts match all the components. -/
def accept : List IgnorePart → List String → Bool
  | [], steps => steps.isEmpty
  | .anyDepth :: rest, steps =>
    (List.range (steps.length + 1)).any fun k => accept rest (steps.drop k)
  | .name _ :: _, [] => false
  | .name r :: rest, step :: steps => r.isMatch step && accept rest steps

/-- A rule that ends in any depth is about what is below, not about the directory. -/
def closed (parts : List IgnorePart) : List IgnorePart :=
  match parts.getLast? with
  | some .anyDepth => parts ++ [.name Glob.anyText]
  | _ => parts

end IgnorePart

namespace IgnoreRule

/-- Drops a character at the start, and tells whether it was there. -/
def dropFirst (c : Char) : List Char → Bool × List Char
  | [] => (false, [])
  | d :: cs => if d = c then (true, cs) else (false, d :: cs)

/-- The line without a backslash in front of a character that would have a meaning there. -/
def unescapeStart : List Char → List Char
  | '\\' :: '!' :: cs => '!' :: cs
  | '\\' :: '#' :: cs => '#' :: cs
  | cs => cs

/-- Blanks at the end do not count, unless the last one is escaped. -/
def trimLine (cs : List Char) : List Char :=
  match cs.reverse with
  | ' ' :: '\\' :: _ => cs
  | _ => Text.dropEndWhile Text.isBlank cs

/-- Reads a pattern without its marks; `anchored` says that it began with a slash. -/
def parts? (anchored : Bool) (cs : List Char) : Option (List IgnorePart) :=
  let texts := (Text.pieces (· == '/') cs).map String.ofList
  (texts.mapM IgnorePart.ofText?).map fun parts =>
    IgnorePart.closed (if anchored || cs.contains '/' then parts else .anyDepth :: parts)

/-- Reads a line; comments, empty lines and malformed patterns are no rules. -/
def ofLine? (line : List Char) : Option IgnoreRule :=
  let line := trimLine line
  if line.isEmpty || line.head? == some '#' then none
  else
    let (negated, line) := dropFirst '!' line
    let (anchored, line) := dropFirst '/' (unescapeStart line)
    let (directoriesOnly, back) := dropFirst '/' line.reverse
    (parts? anchored back.reverse).map (⟨·, negated, directoriesOnly⟩)

def ofText (text : String) : List IgnoreRule := (Text.lines text).filterMap ofLine?

def concerns (r : IgnoreRule) (steps : List String) (isDirectory : Bool) : Bool :=
  (isDirectory || !r.directoriesOnly) && IgnorePart.accept r.parts steps

/-- Whether the rules ignore the path, if they say something about it. -/
def verdict? (rules : List IgnoreRule) (steps : List String) (isDirectory : Bool) : Option Bool :=
  (rules.reverse.find? (·.concerns steps isDirectory)).map (!·.negated)

end IgnoreRule

end RailsReview.CommandLine
