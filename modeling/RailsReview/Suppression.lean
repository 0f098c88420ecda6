import RailsReview.Diagnostic
import RailsReview.Source
import RailsReview.Text.Basic

/-!
# Suppression by comments

A comment on the line of a diagnostic switches it off when it names its check.
-/
namespace RailsReview

namespace Directive

/-- What is left after an optional text. -/
def afterOptional (s : String) (cs : List Char) : List Char :=
  (Text.afterStart? s.toList cs).getD cs

def after? (s : String) (cs : List Char) : Option (List Char) := Text.afterStart? s.toList cs

/-- The name of the tool and its colon, long or short. -/
def afterTag? (cs : List Char) : Option (List Char) :=
  (after? "rails" cs).bind fun cs =>
    (after? "b" (afterOptional "_" cs)).bind fun cs =>
      (after? "p" (afterOptional "est_" cs)).bind fun cs => after? ":" (afterOptional "ractices" cs)

/-- The list of names in a directive that begins here: the rest of the line after the keyword. -/
def listAt? (cs : List Char) : Option (List Char) :=
  (afterTag? cs).bind fun cs =>
    (after? "disable" (Text.dropBlank cs)).bind fun cs =>
      match cs with
      | c :: rest =>
        if Text.isBlank c then some ((Text.dropBlank rest).takeWhile (· != '\n')) else none
      | [] => none

/-- The list of names in the first directive. -/
def list? : List Char → Option (List Char)
  | [] => none
  | c :: rest => (listAt? (c :: rest)).or (list? rest)

/-- The checks a comment names; a directive that names none is none. -/
def names? (comment : String) : Option (List String) :=
  (list? comment.toList).bind fun cs =>
    let names := ((Text.pieces (· == ',') cs).map Text.trimChars).filter (!·.isEmpty)
    if names.isEmpty then none else some (names.map String.ofList)

end Directive

/-- One check switched off on one line. -/
structure Suppression where
  file : Path
  line : Nat
  check : String

def Suppression.same (a b : Suppression) : Bool :=
  a.file == b.file && a.line == b.line && a.check == b.check

structure Suppressions where
  entries : List Suppression := []

namespace Suppressions

def insert (s : Suppressions) (e : Suppression) : Suppressions :=
  if s.entries.any e.same then s else ⟨s.entries ++ [e]⟩

/-- What the comments of a file switch off, check names by their base. -/
def ofComments (file : Path) (comments : List Comment) : List Suppression :=
  comments.flatMap fun c =>
    ((Directive.names? c.text).getD []).map fun name => ⟨file, c.line, CheckName.base name⟩

def addComments (s : Suppressions) (file : Path) (comments : List Comment) : Suppressions :=
  (ofComments file comments).foldl insert s

def covers (s : Suppressions) (d : Diagnostic) : Bool :=
  s.entries.any (Suppression.same ⟨d.file, d.firstLine, CheckName.base d.check⟩)

/-- The diagnostics that are not switched off. -/
def filter (s : Suppressions) (ds : List Diagnostic) : List Diagnostic :=
  if s.entries.isEmpty then ds else ds.filter (!s.covers ·)

end Suppressions

end RailsReview
