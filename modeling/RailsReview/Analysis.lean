import RailsReview.Check.Bench
import RailsReview.CheckSet
import RailsReview.Suppression

/-!
# Analysis

An analysis runs layout checks on all texts, parses what can be parsed, lets the surveys fill the
tables and the reviews report by them. Diagnostics that a comment suppresses are left out of the
report, as are all that surveys make.
-/
namespace RailsReview

inductive AnalysisError where
  | parse (file : Path) (cause : ParseFailure)
  | run (e : RunError)

namespace ParseFailure

/-- The failure in words; a text that is not even of the right format is left without. -/
def text? : ParseFailure → Option String
  | said message => some message
  | unreadable .notJson => none
  | unreadable e => some e.message

end ParseFailure

def AnalysisError.text? : AnalysisError → Option String
  | parse file cause =>
    cause.text?.map fun text => "Parse error in " ++ file.text ++ ": " ++ text
  | run e => e.text?

/-- What is asked of an analysis besides its configuration, over which it has precedence. -/
structure AnalysisRequest where
  exclude : List String := []
  only : List String := []
  failOnParseError? : Option Bool := none
  revisitMigrations? : Option Bool := none

/-- Which files are analyzed, and how. -/
structure AnalysisPlan where
  excludedDirs : List Regex
  exclude : List Regex
  only : List Regex
  failOnParseError : Bool
  revisitMigrations : Bool

namespace AnalysisPlan

/-- Matches the paths of files somewhere below a directory of that name. -/
def below (directory : String) : Regex :=
  .concat [.alt .atStart (.text "/"), .text directory, .text "/"]

def compile [PatternLanguage] (pattern : String) : Except PatternError Regex :=
  match PatternLanguage.parse? pattern with
  | some r => .ok r
  | none => .error (.regex pattern)

/-- Compiles the patterns of a request and a configuration. -/
def of [PatternLanguage] (request : AnalysisRequest) (options : AnalysisOptions) :
    Except PatternError AnalysisPlan :=
  match (request.exclude ++ options.exclude).mapM compile with
  | .error e => .error e
  | .ok exclude =>
    ((request.only ++ options.only).mapM compile).map fun only =>
      { excludedDirs := options.excludedDirs.map below
        exclude := exclude
        only := only
        failOnParseError := request.failOnParseError?.getD options.failOnParseError
        revisitMigrations := request.revisitMigrations?.getD options.revisitMigrations }

def excludes (p : AnalysisPlan) (path : Path) : Bool :=
  let text := path.slashed
  p.excludedDirs.any (·.isMatch text) || p.exclude.any (·.isMatch text)
    || (!p.only.isEmpty && !p.only.any (·.isMatch text))

end AnalysisPlan

namespace Analysis

/-- Files are read in groups: those of the project, models, mailers, helpers, and the rest. -/
def group (path : Path) : Nat :=
  let text := path.slashed
  if FilePattern.projectFiles.isMatch text then 0
  else if FilePattern.mailerFiles.isMatch text then 2
  else if FilePattern.modelFiles.isMatch text then 1
  else if FilePattern.helperFiles.isMatch text then 3
  else 4

def inReadingOrder (files : List SourceFile) : List SourceFile :=
  (List.range 5).flatMap fun g => files.filter (group ·.path == g)

/-- The files that are analyzed, in their order. -/
def chosenFiles (plan : AnalysisPlan) (files : List SourceFile) : List SourceFile :=
  inReadingOrder (files.filter (!plan.excludes ·.path))

/-- The files that the parser accepts, with what it made of them. -/
def parsedFiles (parser : Parser) (files : List SourceFile) : List (SourceFile × ParsedSource) :=
  (files.filter (·.path.isRuby)).filterMap fun f =>
    match parser f.path f.content with
    | .ok source => some (f, source)
    | .error _ => none

/-- The files that the parser rejects, with the reasons. -/
def rejections (parser : Parser) (files : List SourceFile) : List (SourceFile × ParseFailure) :=
  (files.filter (·.path.isRuby)).filterMap fun f =>
    match parser f.path f.content with
    | .ok _ => none
    | .error cause => some (f, cause)

/-- Parses every file that has a tree. Files that the parser rejects are left out, or the first of
them is the error. -/
def parseAll (strict : Bool) (parser : Parser) (files : List SourceFile) :
    Except AnalysisError (List (SourceFile × ParsedSource)) :=
  match (rejections parser files).head?.filter fun _ => strict with
  | some (f, cause) => .error (.parse f.path cause)
  | none => .ok (parsedFiles parser files)

def isMigration (f : SourceFile) : Bool := FilePattern.migrationFiles.isMatch f.path.slashed

/-- The order of a survey: migrations come last, or once more at the end. -/
def withMigrationsLast (revisit : Bool) (parsed : List (SourceFile × ParsedSource)) :
    List (SourceFile × ParsedSource) :=
  (if revisit then parsed else parsed.filter (!isMigration ·.1)) ++ parsed.filter (isMigration ·.1)

def suppressions (parsed : List (SourceFile × ParsedSource)) : Suppressions :=
  parsed.foldl (fun s (f, source) => s.addComments f.path source.comments) {}

/-- The report and the tables, or the error that ended the analysis; with all notes so far. -/
abbrev Result (ν : Type) := List ν × Except AnalysisError (Report × Tables)

/-- The layout checks read all texts, whatever else they would look at. -/
def layoutStage {ν : Type} (checks : List (Check ν)) (files : List SourceFile) :
    Bench ν × Option RunError :=
  ((Bench.readTexts files).andThen (Bench.onTexts Run.finish)) ⟨checks, [], {}, []⟩

def surveyStage {ν : Type} (plan : AnalysisPlan) (checks : List (Check ν)) (files : List SourceFile)
    (parsed : List (SourceFile × ParsedSource)) (before : Bench ν) : Bench ν × Option RunError :=
  Bench.stage files (withMigrationsLast plan.revisitMigrations parsed)
    (.ofChecks checks before.tables before.notes)

def practiceStage {ν : Type} (checks : List (Check ν)) (files : List SourceFile)
    (parsed : List (SourceFile × ParsedSource)) (before : Bench ν) : Bench ν × Option RunError :=
  Bench.stage files parsed (.ofChecks checks before.tables before.notes)

/-- Analyzes files with the checks of a set. -/
def run {ν : Type} (plan : AnalysisPlan) (checks : CheckSet ν) (all : List SourceFile)
    (parser : Parser) : Result ν :=
  let files := chosenFiles plan all
  match layoutStage checks.layout files with
  | (layout, some e) => (layout.notes, .error (.run e))
  | (layout, none) =>
    match parseAll plan.failOnParseError parser files with
    | .error e => (layout.notes, .error e)
    | .ok parsed =>
      match surveyStage plan checks.survey files parsed layout with
      | (survey, some e) => (survey.notes, .error (.run e))
      | (survey, none) =>
        match practiceStage checks.practice files parsed survey with
        | (practice, some e) => (practice.notes, .error (.run e))
        | (practice, none) =>
          let found := (suppressions parsed).filter (layout.diagnostics ++ practice.diagnostics)
          (practice.notes, .ok (Report.sort ⟨found, files.length⟩, practice.tables))

end Analysis

end RailsReview
