import RailsReview.Configuration
import RailsReview.Layout
import RailsReview.Practice.DbIndex
import RailsReview.Practice.MassAssignment
import RailsReview.Practice.Receivers
import RailsReview.Practice.Routes
import RailsReview.Practice.UnusedActions
import RailsReview.Survey.Definitions
import RailsReview.Survey.Project

/-!
# The set of checks

Checks belong to one of three stages: some read the layout of the text, some survey the application
for facts, and some review its practices by these facts. Only surveys cannot be switched off,
because the reviews depend on them.
-/
namespace RailsReview

inductive Stage where
  | layout
  | survey
  | practice
  deriving DecidableEq, Repr

def Stage.name : Stage → String
  | layout => "lexical"
  | survey => "prepare"
  | practice => "review"

/-- A check that this library brings along. -/
structure Builtin (ν : Type) where
  name : String
  stage : Stage
  /-- The check with its options, and the files it skips. -/
  build : CheckOptions → List FilePattern → Check ν

namespace Builtin

variable {ν : Type}

/-- A check of that stage without options. -/
def plain (name : String) (stage : Stage) (check : List FilePattern → Check ν) : Builtin ν :=
  ⟨name, stage, fun _ => check⟩

def all : List (Builtin ν) :=
  [plain "RemoveTabCheck" .layout Layout.tab,
    plain "RemoveTrailingWhitespaceCheck" .layout Layout.trailingBlank,
    ⟨"LongLineCheck", .layout, fun o =>
      Layout.lineLength (o.count "max_line_length" Layout.defaultLineLength)⟩,
    plain "GemfilePrepare" .survey Survey.gems,
    plain "ConfigPrepare" .survey Survey.settings,
    plain "RoutePrepare" .survey Survey.routes,
    plain "SchemaPrepare" .survey Survey.schema,
    plain "ModelPrepare" .survey Survey.models,
    plain "HelperPrepare" .survey Survey.helpers,
    plain "ControllerPrepare" .survey Survey.controllers,
    ⟨"MoveModelLogicIntoModelCheck", .practice, fun o =>
      Practice.modelLogic (o.count "use_count" Practice.defaultUseCount)⟩,
    plain "LawOfDemeterCheck" .practice Practice.demeter,
    ⟨"RemoveUnusedMethodsInControllersCheck", .practice, fun o =>
      Practice.unusedActions (o.texts "except_methods")⟩,
    plain "RestrictAutoGeneratedRoutesCheck" .practice Practice.routeOptions,
    ⟨"OveruseRouteCustomizationsCheck", .practice, fun o =>
      Practice.customRoutes (o.count "customize_count" Practice.defaultCustomRoutes)⟩,
    ⟨"NeedlessDeepNestingCheck", .practice, fun o =>
      Practice.nestedRoutes (o.count "nested_count" Practice.defaultNesting)⟩,
    plain "AlwaysAddDbIndexCheck" .practice Practice.dbIndex,
    plain "ProtectMassAssignmentCheck" .practice Practice.massAssignment]

/-- Whether a configuration leaves the check in. -/
def isWanted (c : Configuration) (b : Builtin ν) : Bool := b.stage == .survey || c.isEnabled b.name

/-- The check as it is configured. -/
def configured [PatternLanguage] (c : Configuration) (b : Builtin ν) :
    Except PatternError (Stage × Check ν) :=
  let options := c.optionsOf b.name
  options.ignoredPatterns.map fun ignored => (b.stage, b.build options ignored)

end Builtin

/-- Checks by stage. -/
structure CheckSet (ν : Type) where
  layout : List (Check ν) := []
  survey : List (Check ν) := []
  practice : List (Check ν) := []

namespace CheckSet

variable {ν : Type}

def add (s : CheckSet ν) (stage : Stage) (c : Check ν) : CheckSet ν :=
  match stage with
  | .layout => { s with layout := s.layout ++ [c] }
  | .survey => { s with survey := s.survey ++ [c] }
  | .practice => { s with practice := s.practice ++ [c] }

/-- Adds the checks in order; the first one that cannot be configured is the error. -/
def addAll [PatternLanguage] (c : Configuration) :
    List (Builtin ν) → CheckSet ν → Except PatternError (CheckSet ν)
  | [], s => .ok s
  | b :: rest, s =>
    match b.configured c with
    | .ok (stage, check) => addAll c rest (s.add stage check)
    | .error e => .error e

/-- All checks that a configuration leaves in. -/
def ofConfiguration [PatternLanguage] (c : Configuration) : Except PatternError (CheckSet ν) :=
  addAll c (Builtin.all.filter (·.isWanted c)) {}

/-- Keeps the checks that report and are named, and all surveys. -/
def only (names : List String) (s : CheckSet ν) : CheckSet ν :=
  let wanted := names.map CheckName.base
  let keep (cs : List (Check ν)) : List (Check ν) :=
    cs.filter fun c => wanted.contains (CheckName.base c.name)
  { s with layout := keep s.layout, practice := keep s.practice }

/-- The number of checks that report. -/
def reportingCount (s : CheckSet ν) : Nat := s.layout.length + s.practice.length

def count (s : CheckSet ν) : Nat := s.layout.length + s.survey.length + s.practice.length

/-- The names of the checks in brackets. -/
def listed (cs : List (Check ν)) : String :=
  "[" ++ ", ".intercalate (cs.map fun c => "\"" ++ c.name ++ "\"") ++ "]"

/-- All names, stage by stage. -/
def description (s : CheckSet ν) : String :=
  "CheckSet \x7b lexicals: " ++ listed s.layout ++ ", prepares: " ++ listed s.survey
    ++ ", reviews: " ++ listed s.practice ++ " \x7d"

end CheckSet

end RailsReview
