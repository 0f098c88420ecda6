import RailsReview.Diagnostic
import RailsReview.FilePattern
import RailsReview.Toml.Document

/-!
# Configuration

A configuration chooses the files to analyze and tunes the checks. Whatever it leaves out has its
default; what it says in the wrong type makes all of it unreadable. Options of a check are the
exception: one of the wrong type counts as left out.
-/
namespace RailsReview

namespace Toml.Value

/-- An array of texts and nothing else. -/
def strs? (v : Value) : Option (List String) := v.items?.bind (·.mapM str?)

end Toml.Value

/-- Directories that are left out unless the configuration includes them. -/
def skippedDirectories : List String := ["vendor", "spec", "test", "stories", "features", "tmp"]

structure AnalysisOptions where
  /-- Regular expressions for files to leave out. -/
  exclude : List String := []
  /-- Regular expressions of which a file has to match one, if there are any. -/
  only : List String := []
  /-- Directories to analyze that are left out otherwise. -/
  includeDirs : List String := []
  /-- Whether the surveys visit migrations a second time. -/
  revisitMigrations : Bool := false
  failOnParseError : Bool := false
  deriving DecidableEq, Repr

def AnalysisOptions.excludedDirs (o : AnalysisOptions) : List String :=
  skippedDirectories.filter (!o.includeDirs.contains ·)

structure CheckOptions where
  enabled? : Option Bool := none
  /-- Regular expressions for files that the check skips. -/
  ignoredFiles : List String := []
  /-- Whatever else is said about the check. -/
  more : Toml.Entries := []

namespace CheckOptions

def option? (o : CheckOptions) (key : String) : Option Toml.Value := o.more.lookup key

/-- A whole number; a negative one counts as left out. -/
def count (o : CheckOptions) (key : String) (default : Nat) : Nat :=
  match (o.option? key).bind Toml.Value.int? with
  | some (.ofNat n) => n
  | _ => default

/-- The texts of an array, without its other items. -/
def texts (o : CheckOptions) (key : String) : List String :=
  (((o.option? key).bind Toml.Value.items?).getD []).filterMap Toml.Value.str?

def isEnabled (o : CheckOptions) : Bool := o.enabled?.getD true

def ignoredPatterns [PatternLanguage] (o : CheckOptions) : Except PatternError (List FilePattern) :=
  o.ignoredFiles.mapM FilePattern.ofRegex

end CheckOptions

structure Configuration where
  analysis : AnalysisOptions := {}
  /-- Options by the names of checks. -/
  checks : List (String × CheckOptions) := []

namespace Configuration

/-- The value under a key, read by `read?`, or the default. -/
def field? {α : Type} (read? : Toml.Value → Option α) (default : α) (v : Option Toml.Value) :
    Option α :=
  v.elim (some default) read?

/-- The options of the analysis, given each under its name or all of them in order. -/
def analysisOf? : Toml.Value → Option AnalysisOptions
  | .table _ entries => ofParts fun key => entries.lookup key
  | .array _ items => ofParts fun key => items[order.idxOf key]?
  | _ => none
where
  order : List String :=
    ["exclude", "only", "include_dirs", "revisit_migrations", "fail_on_parse_error"]
  ofParts (part? : String → Option Toml.Value) : Option AnalysisOptions :=
    (field? Toml.Value.strs? [] (part? "exclude")).bind fun exclude =>
    (field? Toml.Value.strs? [] (part? "only")).bind fun only =>
    (field? Toml.Value.strs? [] (part? "include_dirs")).bind fun includeDirs =>
    (field? Toml.Value.bool? false (part? "revisit_migrations")).bind fun revisitMigrations =>
    (field? Toml.Value.bool? false (part? "fail_on_parse_error")).map fun failOnParseError =>
      { exclude := exclude
        only := only
        includeDirs := includeDirs
        revisitMigrations := revisitMigrations
        failOnParseError := failOnParseError }

def checkOf? : Toml.Value → Option CheckOptions
  | .table _ entries =>
    (field? (fun v => v.bool?.map some) none (entries.lookup "enabled")).bind fun enabled? =>
    (field? Toml.Value.strs? [] (entries.lookup "ignored_files")).map fun ignoredFiles =>
      { enabled? := enabled?
        ignoredFiles := ignoredFiles
        more := entries.filter fun e => e.1 != "enabled" && e.1 != "ignored_files" }
  | _ => none

def checksOf? (v : Toml.Value) : Option (List (String × CheckOptions)) :=
  v.entries?.bind (·.mapM fun (name, v) => (checkOf? v).map (name, ·))

def ofEntries? (entries : Toml.Entries) : Option Configuration :=
  (field? analysisOf? {} (entries.lookup "analyzer")).bind fun analysis =>
  (field? checksOf? [] (entries.lookup "checks")).map fun checks =>
    { analysis := analysis
      checks := checks }

/-- Reads a configuration document. -/
def parse? (text : String) : Option Configuration := (Toml.parse? text).bind ofEntries?

/-- The options of a check: those under its very name, or else under a name that differs in the
ending only. -/
def check? (c : Configuration) (name : String) : Option CheckOptions :=
  (c.checks.lookup name).or
    ((c.checks.find? fun e => CheckName.base e.1 == CheckName.base name).map (·.2))

def optionsOf (c : Configuration) (name : String) : CheckOptions := (c.check? name).getD {}

def isEnabled (c : Configuration) (name : String) : Bool := (c.optionsOf name).isEnabled

end Configuration

end RailsReview
