import RailsReview.Glob
import RailsReview.Path
import RailsReview.Regex.Parser

/-!
# Patterns of file paths

Checks say which files they are interested in. The sets below follow the directory layout of a Rails
application. Paths are matched as text with slashes.
-/
namespace RailsReview

inductive PatternError where
  | regex (pattern : String)
  | glob (pattern : String)
  deriving DecidableEq, Repr

inductive FilePattern where
  /-- Every file but the generated schema. -/
  | all
  /-- Files whose path has a match. -/
  | regex (r : Regex)
  /-- Files whose whole path matches, with or without a slash in front. -/
  | glob (r : Regex)

/-- How the regular expressions of users are read. -/
class PatternLanguage where
  parse? : String → Option Regex

instance : PatternLanguage := ⟨Regex.parse?⟩

namespace FilePattern

/-- Files directly or deeper below the directory, with this ending. -/
def filesBelow (directory : Regex) (ending : Regex) : Regex :=
  .concat [directory, .anything, ending]

def rubyEnd : Regex := .concat [.text ".rb", .atEnd]

def controllerFiles : Regex :=
  filesBelow (.concat [.text "app/", .oneOf ["controllers", "cells"], .text "/"]) rubyEnd

def modelFiles : Regex := filesBelow (.text "app/models/") rubyEnd

def mailerFiles : Regex :=
  .alt (filesBelow (.text "app/models/") (.concat [.text "mailer.rb", .atEnd]))
    (filesBelow (.text "app/mailers/") rubyEnd)

def helperFiles : Regex := filesBelow (.text "app/helpers/") rubyEnd

def viewFiles : Regex :=
  filesBelow (.concat [.text "app/", .oneOf ["views", "cells"], .text "/"])
    (.concat [.text ".", .oneOf ["erb", "haml", "slim", "builder", "rxml"], .atEnd])

def deployFiles : Regex := filesBelow (.text "config/deploy") (.text ".rb")

def migrationFiles : Regex := filesBelow (.text "db/migrate/") rubyEnd

def schemaFile : Regex := .concat [.text "db/schema", rubyEnd]

def routeFiles : Regex := filesBelow (.text "config/routes") rubyEnd

def settingFiles : Regex :=
  .concat [.text "config/",
    .alt (.oneOf ["application", "environment"]) (.concat [.text "environments/", .anything]),
    rubyEnd]

def gemLockFile : Regex := .concat [.text "Gemfile.lock", .atEnd]

def projectFiles : Regex :=
  .concat [.alt .atStart (.text "/"), .oneOf ["Capfile", "Gemfile", "Gemfile.lock"], .atEnd]

def matchesPath (p : FilePattern) (path : Path) : Bool :=
  let text := path.slashed
  match p with
  | all => !schemaFile.isMatch text
  | regex r => r.isMatch text
  | glob r => r.isMatch text || r.isMatch ("/" ++ text)

def anyMatch (ps : List FilePattern) (path : Path) : Bool := ps.any (·.matchesPath path)

def ofRegex [PatternLanguage] (pattern : String) : Except PatternError FilePattern :=
  match PatternLanguage.parse? pattern with
  | some r => .ok (regex r)
  | none => .error (.regex pattern)

def ofGlob (pattern : String) : Except PatternError FilePattern :=
  match Glob.parse? pattern with
  | some r => .ok (glob r)
  | none => .error (.glob pattern)

end FilePattern

end RailsReview
