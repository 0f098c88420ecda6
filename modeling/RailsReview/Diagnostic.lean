import RailsReview.Json.Printer
import RailsReview.Path
import RailsReview.Text.Basic

/-!
# Diagnostics and reports

A diagnostic names a file, the lines it covers and the check that made it. A report is what one run
found, in the order of file, first line and check. A check may be named with the ending `Check`,
with `Review`, or with neither.
-/
namespace RailsReview

namespace CheckName

/-- The name without the ending. -/
def withoutEnding? (ending name : String) : Option String :=
  (Text.afterStart? ending.toList.reverse name.toList.reverse).map fun rest =>
    String.ofList rest.reverse

/-- The name without one ending, by which checks are compared. -/
def base (name : String) : String :=
  ((withoutEnding? "Check" name).or (withoutEnding? "Review" name)).getD name

end CheckName

structure Diagnostic where
  file : Path
  lines : List Nat
  message : String
  check : String
  url : Option String
  deriving Repr

namespace Diagnostic

/-- The covered lines as they are printed. -/
def lineText (d : Diagnostic) : String := ",".intercalate (d.lines.map toString)

/-- The first covered line; 0 stands for none. -/
def firstLine (d : Diagnostic) : Nat := d.lines.headD 0

def oneLine (d : Diagnostic) : String := d.file.text ++ ":" ++ d.lineText ++ " - " ++ d.message

/-- The lines below the first one of the long form. -/
def details (d : Diagnostic) : String :=
  "  = check: " ++ d.check ++ "\n"
    ++ (match d.url with
      | some url => "  = see: " ++ url ++ "\n"
      | none => "")

def longForm (d : Diagnostic) : String := d.oneLine ++ "\n" ++ d.details

def order (a b : Diagnostic) : Ordering :=
  ((compare a.file b.file).then (compare a.firstLine b.firstLine)).then (compare a.check b.check)

def toJson (d : Diagnostic) : Json :=
  .obj ([("filename", .str d.file.text), ("lines", .arr (d.lines.map fun n => .int (.ofNat n))),
      ("message", .str d.message), ("check", .str d.check)]
    ++ (match d.url with
      | some url => [("url", .str url)]
      | none => []))

def linesOfJson? (v : Json) : Option (List Nat) := v.arr?.bind (·.mapM Json.nat?)

/-- An address is optional and may be null. -/
def urlOfJson? : Option Json → Option (Option String)
  | none | some .null => some none
  | some v => v.str?.map some

def ofParts? (file lines message check : Json) (url : Option Json) : Option Diagnostic :=
  file.str?.bind fun file =>
    (linesOfJson? lines).bind fun lines =>
      message.str?.bind fun message =>
        check.str?.bind fun check =>
          (urlOfJson? url).map fun url => ⟨⟨file⟩, lines, message, check, url⟩

/-- Reads a diagnostic from its fields or from a list of them in order. -/
def ofJson? : Json → Option Diagnostic
  | .arr [file, lines, message, check] => ofParts? file lines message check none
  | .arr [file, lines, message, check, url] => ofParts? file lines message check (some url)
  | .obj fields =>
    let get (key : String) := (Json.obj fields).get? key
    (get "filename").bind fun file =>
      (get "lines").bind fun lines =>
        (get "message").bind fun message =>
          (get "check").bind fun check => ofParts? file lines message check (get "url")
  | _ => none

end Diagnostic

structure Report where
  diagnostics : List Diagnostic := []
  filesChecked : Nat := 0
  deriving Repr

namespace Report

def hasDiagnostics (r : Report) : Bool := !r.diagnostics.isEmpty

def ofCheck (r : Report) (check : String) : List Diagnostic :=
  r.diagnostics.filter (·.check == check)

/-- Diagnostics that compare equal keep their order. -/
def sort (r : Report) : Report :=
  { r with diagnostics := r.diagnostics.mergeSort fun a b => (a.order b).isLE }

def append (r s : Report) : Report :=
  ⟨r.diagnostics ++ s.diagnostics, r.filesChecked + s.filesChecked⟩

def foundText (r : Report) : String :=
  "Found " ++ toString r.diagnostics.length ++ " warning(s) in " ++ toString r.filesChecked
    ++ " file(s)"

/-- The long form of every diagnostic and a closing count. -/
def longForm (r : Report) : String :=
  String.join (r.diagnostics.map fun d => d.longForm ++ "\n") ++ "\n" ++ r.foundText ++ "\n"

def toJson (r : Report) : Json :=
  .obj [("diagnostics", .arr (r.diagnostics.map Diagnostic.toJson)),
    ("files_checked", .int (.ofNat r.filesChecked))]

def ofParts? (diagnostics filesChecked : Json) : Option Report :=
  (diagnostics.arr?.bind (·.mapM Diagnostic.ofJson?)).bind fun ds =>
    filesChecked.nat?.map fun n => ⟨ds, n⟩

def ofJson? : Json → Option Report
  | .arr [diagnostics, filesChecked] => ofParts? diagnostics filesChecked
  | .obj fields =>
    ((Json.obj fields).get? "diagnostics").bind fun ds =>
      ((Json.obj fields).get? "files_checked").bind fun n => ofParts? ds n
  | _ => none

end Report

end RailsReview
