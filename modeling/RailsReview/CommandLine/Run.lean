import RailsReview.Analysis
import RailsReview.CommandLine.Application
import RailsReview.CommandLine.Display
import RailsReview.Source
import RailsReview.Text.Basic

/-!
# Running commands

A command is run on what surrounds it and ends in an outcome: what it prints and warns about, its
exit code, and perhaps a failure or a configuration file that it writes. The parser of its analysis
is an interpreter, run once for every file on its text, which prints the tree and the comments.
-/
namespace RailsReview.CommandLine

inductive InterpreterAnswer where
  | exited (status : Nat) (complaint : String)
  | printed (answer : Json)

abbrev Interpreter := String → InterpreterAnswer

namespace Interpreter

def read : InterpreterAnswer → Except String ParsedSource
  | .exited status complaint =>
    .error ("ruby exited with exit status: " ++ toString status ++ ": " ++ Text.trim complaint)
  | .printed answer =>
    match ParsedSource.ofJson answer with
    | .ok source => .ok source
    | .error e => .error ("syntax error: " ++ e.message)

/-- The parser that an interpreter makes; one that is not there rejects every file. -/
def parser (name : String) (i : Option Interpreter) : Parser := fun _ content =>
  match i with
  | none => .error (.said ("failed to run " ++ name ++ ": No such file or directory (os error 2)"))
  | some run => (read (run content)).mapError .said

end Interpreter

/-- What a command finds when it is run in the directory of an application. -/
structure Surroundings where
  application : Application
  /-- The configuration file in the user's own directory. -/
  userConfiguration? : Option StoredFile := none
  /-- The interpreter to use when none is asked for. -/
  defaultInterpreter : String := "ruby"
  interpreter? : String → Option Interpreter := fun _ => none

inductive Failure where
  | configuration (file : String)
  | ignoredFiles (e : PatternError)
  | patterns (e : PatternError)
  | application (root : String)
  | analysis (e : AnalysisError)
  | configurationExists

namespace Failure

def message : Failure → String
  | configuration file => "Failed to load config: " ++ file
  | ignoredFiles _ => "Invalid ignored_files pattern"
  | patterns _ => "Failed to build analyzer"
  | application root => "Failed to read application at " ++ root
  | analysis _ => "Analysis failed"
  | configurationExists =>
    "Configuration file already exists at railsbp.toml. Use --force to overwrite."

/-- Why an analysis failed. -/
def causes : Failure → List String
  | analysis e => e.text?.toList
  | _ => []

end Failure

structure Outcome where
  code : Nat := 0
  output : String := ""
  warnings : List String := []
  failure? : Option Failure := none
  /-- The configuration file that was written. -/
  written? : Option String := none

namespace Outcome

/-- The outcome of arguments that are not understood. -/
def misuse : Outcome := { code := 2 }

def failed (warnings : List String) (f : Failure) : Outcome :=
  { code := 1
    warnings := warnings
    failure? := some f }

end Outcome

/-- The names of a configuration file in an application, the first of which counts. -/
def configurationNames : List String := ["railsbp.toml", ".railsbp.toml"]

/-- The file that holds the configuration: the one asked for, the application's or the user's. -/
def configurationFile? (s : Surroundings) (root : String) (asked? : Option String) :
    Option (String × Option String) :=
  match asked? with
  | some path => some (path, s.application.content? path)
  | none =>
    let own := (configurationNames.map (joinPath root)).find? fun p =>
      (s.application.find? p).isSome
    match own, s.userConfiguration? with
    | some path, _ => some (path, s.application.content? path)
    | none, some f => some (f.path.text, f.content?)
    | none, none => none

/-- Loads the configuration; without a file it is the default one. -/
def loadConfiguration (s : Surroundings) (root : String) (asked? : Option String) :
    Except Failure Configuration :=
  match configurationFile? s root asked? with
  | none => .ok {}
  | some (path, content?) =>
    match content?.bind Configuration.parse? with
    | some c => .ok c
    | none => .error (.configuration path)

/-- The names in a list of checks. -/
def requestedNames (list : String) : List String :=
  ((Text.split ',' list).map Text.trim).filter (· ≠ "")

/-- Keeps the checks that are asked for, with a warning if there are fewer of them than names. -/
def selectChecks (checks : CheckSet Empty) (list? : Option String) :
    CheckSet Empty × List String :=
  match list? with
  | none => (checks, [])
  | some list =>
    let names := requestedNames list
    let chosen := checks.only names
    (chosen, if chosen.reportingCount < names.length then
      ["Some of the requested checks are unknown or disabled: " ++ list] else [])

/-- A warning for every file that the parser rejects; the first one ends a strict analysis. -/
def rejectionWarnings (plan : AnalysisPlan) (parser : Parser) (files : List SourceFile) :
    List String :=
  let rejected := Analysis.rejections parser (Analysis.chosenFiles plan files)
  (if plan.failOnParseError then rejected.take 1 else rejected).map fun (f, cause) =>
    "Failed to parse " ++ f.path.text ++ ": " ++ cause.text?.getD ""

/-- Analyzes files and prints the report. -/
def report (r : CheckRequest) (plan : AnalysisPlan) (checks : CheckSet Empty) (parser : Parser)
    (files : List SourceFile) (warnings : List String) : Outcome :=
  let warnings := warnings ++ rejectionWarnings plan parser files
  match (Analysis.run plan checks files parser).2 with
  | .error e => .failed warnings (.analysis e)
  | .ok (found, _) =>
    { code := if found.hasDiagnostics then 1 else 0
      output := reportText found r.format
      warnings := warnings }

def check [PatternLanguage] (s : Surroundings) (r : CheckRequest) (asked? : Option String) :
    Outcome :=
  match loadConfiguration s r.root asked? with
  | .error f => .failed [] f
  | .ok c =>
    match CheckSet.ofConfiguration c with
    | .error e => .failed [] (.ignoredFiles e)
    | .ok checks =>
      let (checks, warnings) := selectChecks checks r.checks?
      match AnalysisPlan.of { exclude := r.exclude } c.analysis with
      | .error e => .failed warnings (.patterns e)
      | .ok plan =>
        match Discovery.ofRoot? s.application r.root with
        | none => .failed warnings (.application r.root)
        | some d =>
          let name := r.interpreter?.getD s.defaultInterpreter
          let skips := d.skipped.map fun p => "Skipping non-UTF-8 file " ++ p.text
          report r plan checks (Interpreter.parser name (s.interpreter? name)) d.files
            (warnings ++ skips)

/-- Writes the first configuration file, unless that would overwrite one. -/
def init (s : Surroundings) (force : Bool) : Outcome :=
  if s.application.isPlace ["railsbp.toml"] && !force then .failed [] .configurationExists
  else
    { output := nextSteps
      written? := some initialConfiguration }

/-- Runs what the arguments ask for. -/
def run [PatternLanguage] (s : Surroundings) (args : List String) : Outcome :=
  match Invocation.ofArguments? args with
  | none => .misuse
  | some ⟨asked?, .check r⟩ => check s r asked?
  | some ⟨_, .listChecks⟩ => { output := checkList }
  | some ⟨_, .init force⟩ => init s force

end RailsReview.CommandLine
