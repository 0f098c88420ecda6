import RailsReview.CheckSet
import RailsReview.CommandLine.Arguments
import RailsReview.Diagnostic

/-!
# What commands print
-/
namespace RailsReview.CommandLine

def red : String := "\x1b[31m"

def green : String := "\x1b[32m"

def plainColor : String := "\x1b[0m"

def unlines (lines : List String) : String := String.join (lines.map (· ++ "\n"))

def coloredLines (d : Diagnostic) : List String :=
  [red ++ d.file.text ++ ":" ++ d.lineText ++ plainColor ++ " - " ++ d.message,
    "  = check: " ++ d.check]
    ++ (d.url.map ("  = see: " ++ ·)).toList ++ [""]

/-- A report in one of the formats. -/
def reportText (r : Report) : Format → String
  | .text =>
    let color := if r.hasDiagnostics then red else green
    unlines (r.diagnostics.flatMap coloredLines ++ [color ++ r.foundText ++ plainColor])
  | .json => unlines [r.toJson.indented]
  | .compact => unlines (r.diagnostics.map Diagnostic.oneLine)

/-- The text with blanks up to a width. -/
def padRight (width : Nat) (s : String) : String :=
  s ++ String.ofList (List.replicate (width - s.length) ' ')

/-- The checks that report, with their stages. -/
def checkList : String :=
  let reporting := (Builtin.all (ν := Empty)).filter (·.stage != .survey)
  unlines (["Available checks:", "", padRight 42 "Name" ++ " Phase",
      String.ofList (List.replicate 60 '-')]
    ++ reporting.map (fun b => padRight 42 b.name ++ " " ++ b.stage.name)
    ++ ["", "Prepare checks always run; they build the tables reviews read.", "",
      "Use --checks to run only some of them, e.g.:",
      "  railsbp check --checks MoveModelLogicIntoModelCheck,LongLineCheck"])

/-- What is said after a configuration file was written. -/
def nextSteps : String :=
  unlines ["Created railsbp.toml", "", "Next steps:", "  1. Edit railsbp.toml to configure checks",
    "  2. Run: railsbp check"]

/-- The configuration file to begin with. -/
def initialConfiguration : String :=
  unlines ["# railsbp configuration", "", "[analyzer]",
    "# Extra exclusion regexes, matched against paths relative to the app root", "exclude = []", "",
    "# Directories skipped by default that should be reviewed anyway",
    "# include_dirs = [\"spec\"]", "", "# Stop instead of skipping files Ruby cannot parse",
    "fail_on_parse_error = false", "", "# Check configurations",
    "# Every check can be disabled and can skip files through `ignored_files`", "",
    "[checks.LongLineCheck]", "enabled = true", "max_line_length = 80", "",
    "[checks.MoveModelLogicIntoModelCheck]", "use_count = 4", "",
    "[checks.OveruseRouteCustomizationsCheck]", "customize_count = 3", "",
    "[checks.NeedlessDeepNestingCheck]", "nested_count = 2", "",
    "[checks.RemoveUnusedMethodsInControllersCheck]", "except_methods = []",
    "# ignored_files = [\"app/controllers/api/\"]"]

end RailsReview.CommandLine
