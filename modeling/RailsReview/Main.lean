import RailsReview.CommandLine.Run

/-!
# The program

The program reads a snapshot of an application from its input and runs the command that its
arguments name. Warnings and failures go to the error output.

A snapshot is a JSON object that holds an application: under `files` a list of its files, each with
`path` and `content`, and for sources with the `tree` and the `comments` that a parser found. A
user's own configuration stands under `user_configuration`, with its `path` and `content`.
-/
namespace RailsReview.CommandLine

namespace Snapshot

def textAt (v : Json) (key : String) : Option String := (v.get? key).bind Json.str?

/-- A stored file; one without content is no text. -/
def file? (v : Json) : Option StoredFile :=
  (textAt v "path").map fun path => ⟨⟨path⟩, textAt v "content"⟩

def files (v : Json) : List Json := ((v.get? "files").bind Json.arr?).getD []

/-- Answers with what the snapshot holds about a file of that content. -/
def interpreter (v : Json) : Interpreter := fun content =>
  match (files v).find? fun f => textAt f "content" == some content with
  | some f => .printed (.obj [("tree", (f.get? "tree").getD .null),
      ("comments", (f.get? "comments").getD (.arr []))])
  | none => .printed .null

end Snapshot

def Surroundings.ofSnapshot (v : Json) : Surroundings :=
  { application := ⟨(Snapshot.files v).filterMap Snapshot.file?⟩
    userConfiguration? := (v.get? "user_configuration").bind Snapshot.file?
    interpreter? := fun name => if name = "ruby" then some (Snapshot.interpreter v) else none }

partial def readInput (input : IO.FS.Stream) (read : String) : IO String := do
  let line ← input.getLine
  if line.isEmpty then return read else readInput input (read ++ line)

/-- A snapshot nests the trees of files three levels deeper than a file of its own would. -/
def snapshotNesting : Nat := Json.nestingLimit + 3

def perform (o : Outcome) : IO UInt32 := do
  for w in o.warnings do IO.eprintln ("warning: " ++ w)
  IO.print o.output
  if let some text := o.written? then IO.FS.writeFile "railsbp.toml" text
  if let some f := o.failure? then
    IO.eprintln ("Error: " ++ f.message)
    for cause in f.causes do IO.eprintln ("  " ++ cause)
  return UInt32.ofNat o.code

end RailsReview.CommandLine

open RailsReview RailsReview.CommandLine in
/-- Runs the command that the arguments name. -/
def main (args : List String) : IO UInt32 := do
  let text ← readInput (← IO.getStdin) ""
  match Json.parse? snapshotNesting text with
  | some v => perform (run (.ofSnapshot v) args)
  | none =>
    IO.eprintln "Error: the input is no snapshot of an application"
    return 1
