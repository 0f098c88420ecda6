import RailsReview.Analysis
import RailsReview.Check.Basic
import RailsReview.Check.Bench
import RailsReview.Check.Declared
import RailsReview.Check.Run
import RailsReview.CheckSet
import RailsReview.CommandLine.Application
import RailsReview.CommandLine.Arguments
import RailsReview.CommandLine.Display
import RailsReview.CommandLine.Ignoring
import RailsReview.CommandLine.Run
import RailsReview.Configuration
import RailsReview.Decimal.Shortest
import RailsReview.Diagnostic
import RailsReview.Dictionary
import RailsReview.FilePattern
import RailsReview.Glob
import RailsReview.Inflection.ClassName
import RailsReview.Inflection.Number
import RailsReview.Json.Basic
import RailsReview.Json.Parser
import RailsReview.Json.Printer
import RailsReview.Layout
import RailsReview.Main
import RailsReview.Path
import RailsReview.Practice.DbIndex
import RailsReview.Practice.MassAssignment
import RailsReview.Practice.Receivers
import RailsReview.Practice.Routes
import RailsReview.Practice.UnusedActions
import RailsReview.Proofs.AccessScope
import RailsReview.Proofs.AccessSections
import RailsReview.Proofs.Alone
import RailsReview.Proofs.Analysis
import RailsReview.Proofs.AssociationChains
import RailsReview.Proofs.Attempt
import RailsReview.Proofs.Bench
import RailsReview.Proofs.Call
import RailsReview.Proofs.ClassNames
import RailsReview.Proofs.ClassScope
import RailsReview.Proofs.ClassSurvey
import RailsReview.Proofs.Comments
import RailsReview.Proofs.ConditionOrder
import RailsReview.Proofs.ConfiguredChecks
import RailsReview.Proofs.ControllerNames
import RailsReview.Proofs.CustomRouteCount
import RailsReview.Proofs.Cuts
import RailsReview.Proofs.DeepNesting
import RailsReview.Proofs.Descendants
import RailsReview.Proofs.Dictionary
import RailsReview.Proofs.Directives
import RailsReview.Proofs.EntryOrder
import RailsReview.Proofs.Exclusion
import RailsReview.Proofs.Facts
import RailsReview.Proofs.Footprint
import RailsReview.Proofs.Handlers
import RailsReview.Proofs.Hierarchy
import RailsReview.Proofs.InflectionRules
import RailsReview.Proofs.LastSegment
import RailsReview.Proofs.LetterCase
import RailsReview.Proofs.Lexical
import RailsReview.Proofs.LineNumbers
import RailsReview.Proofs.Marking
import RailsReview.Proofs.Matching
import RailsReview.Proofs.MethodFamily
import RailsReview.Proofs.MethodRegistry
import RailsReview.Proofs.Migrations
import RailsReview.Proofs.NodeReviews
import RailsReview.Proofs.OptionOrder
import RailsReview.Proofs.OutsideCalls
import RailsReview.Proofs.Parentheses
import RailsReview.Proofs.ParseFailure
import RailsReview.Proofs.Pieces
import RailsReview.Proofs.Positions
import RailsReview.Proofs.ProtectedClasses
import RailsReview.Proofs.Queries
import RailsReview.Proofs.QuietRuns
import RailsReview.Proofs.Reading
import RailsReview.Proofs.ReceiverCount
import RailsReview.Proofs.Receivers
import RailsReview.Proofs.Recording
import RailsReview.Proofs.Reordering
import RailsReview.Proofs.Repetition
import RailsReview.Proofs.ReportOrder
import RailsReview.Proofs.RequestedChecks
import RailsReview.Proofs.ResourceReview
import RailsReview.Proofs.Respelling
import RailsReview.Proofs.Resurvey
import RailsReview.Proofs.ReviewFrame
import RailsReview.Proofs.RouteScope
import RailsReview.Proofs.RouteSpelling
import RailsReview.Proofs.Schedule
import RailsReview.Proofs.SchemaParts
import RailsReview.Proofs.SchemaReading
import RailsReview.Proofs.SchemaTables
import RailsReview.Proofs.SegmentSingulars
import RailsReview.Proofs.Selection
import RailsReview.Proofs.Subclasses
import RailsReview.Proofs.Suggestion
import RailsReview.Proofs.Superclass
import RailsReview.Proofs.Suppression
import RailsReview.Proofs.TableInvariants
import RailsReview.Proofs.TableNames
import RailsReview.Proofs.TreeDelivery
import RailsReview.Proofs.UnindexedKeys
import RailsReview.Proofs.UnroutedMethods
import RailsReview.Proofs.UnusedReport
import RailsReview.Proofs.UsageEvidence
import RailsReview.Proofs.UsageOrder
import RailsReview.Proofs.UsedMethods
import RailsReview.Proofs.WalkOrder
import RailsReview.Proofs.Watch
import RailsReview.Proofs.WatchedBench
import RailsReview.Regex.Basic
import RailsReview.Regex.Bracket
import RailsReview.Regex.CharSet
import RailsReview.Regex.Escape
import RailsReview.Regex.Parser
import RailsReview.Routing.Declaration
import RailsReview.Scope.Access
import RailsReview.Scope.Class
import RailsReview.Scope.Route
import RailsReview.Source
import RailsReview.Suppression
import RailsReview.Survey.Definitions
import RailsReview.Survey.Project
import RailsReview.Table.Classes
import RailsReview.Table.Methods
import RailsReview.Table.Models
import RailsReview.Table.Routes
import RailsReview.Tables
import RailsReview.Text.Basic
import RailsReview.Text.Case
import RailsReview.Text.WordTable
import RailsReview.Toml.Document
import RailsReview.Toml.Quoted
import RailsReview.Toml.Scalar
import RailsReview.Toml.Value
import RailsReview.Tree.Condition
import RailsReview.Tree.Kind
import RailsReview.Tree.Line
import RailsReview.Tree.Node
import RailsReview.Tree.OfJson
import RailsReview.Tree.Part
import RailsReview.Tree.Pattern
import RailsReview.Tree.Size
import RailsReview.Tree.Text
import RailsReview.Usage
