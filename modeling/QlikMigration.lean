import QlikMigration.Catalog
import QlikMigration.Command.Convert
import QlikMigration.Command.Dashboard
import QlikMigration.Conversion
import QlikMigration.Csv.Column
import QlikMigration.Csv.Frame
import QlikMigration.Csv.Library
import QlikMigration.Csv.Record
import QlikMigration.Csv.Writer
import QlikMigration.Dax
import QlikMigration.Decimal.Exact
import QlikMigration.Decimal.FloatStyle
import QlikMigration.Decimal.Shortest
import QlikMigration.Environment
import QlikMigration.Files.Directory
import QlikMigration.Files.Lines
import QlikMigration.Files.Path
import QlikMigration.Json.Access
import QlikMigration.Json.Display
import QlikMigration.Json.Form
import QlikMigration.Json.Reader
import QlikMigration.Json.Value
import QlikMigration.Json.Writer
import QlikMigration.Login
import QlikMigration.Main
import QlikMigration.Model.Basic
import QlikMigration.Model.Build
import QlikMigration.Model.Document
import QlikMigration.Model.Expression
import QlikMigration.Model.Order
import QlikMigration.Model.Relation
import QlikMigration.Outside
import QlikMigration.Page.Dashboard
import QlikMigration.Page.Element
import QlikMigration.Page.Measures
import QlikMigration.Page.Run
import QlikMigration.Plan
import QlikMigration.Publish
import QlikMigration.Report.Layout
import QlikMigration.Report.Packed
import QlikMigration.Report.Project
import QlikMigration.Schema
import QlikMigration.Script.Clause
import QlikMigration.Script.Document
import QlikMigration.Script.Expansion
import QlikMigration.Script.Keyword
import QlikMigration.Script.Lines
import QlikMigration.Script.Reader
import QlikMigration.Script.Statement
import QlikMigration.Script.TopLevel
import QlikMigration.Semantic
import QlikMigration.ServiceInfo
import QlikMigration.Spark.Expression
import QlikMigration.Spark.Function
import QlikMigration.Spark.Program
import QlikMigration.TableLibrary
import QlikMigration.Text.Blank
import QlikMigration.Text.Casing
import QlikMigration.Text.Cut
import QlikMigration.Text.Digit
import QlikMigration.Text.Printable
import QlikMigration.Text.Quoted
import QlikMigration.Text.Range
import QlikMigration.Text.Search
import QlikMigration.Text.Word
import QlikMigration.Vision.Analysis
import QlikMigration.Vision.Analyzer
import QlikMigration.Vision.Reply
import QlikMigration.Vision.Sample
import QlikMigration.Visual.Container
import QlikMigration.Visual.Mapping
import QlikMigration.Proofs.Catalog
import QlikMigration.Proofs.ExecutionOrder
import QlikMigration.Proofs.Rewriting
import QlikMigration.Proofs.Occurrence
import QlikMigration.Proofs.PassedOver
import QlikMigration.Proofs.PlainText
import QlikMigration.Proofs.Layout
import QlikMigration.Proofs.Canonical
import QlikMigration.Proofs.ClauseReading
import QlikMigration.Proofs.TopLevelSplit
import QlikMigration.Proofs.FieldReading
import QlikMigration.Proofs.FrameNames
import QlikMigration.Proofs.RoundTrip
import QlikMigration.Proofs.JoinWords
import QlikMigration.Proofs.ReadFailure
import QlikMigration.Proofs.ConversionFailure
import QlikMigration.Proofs.Conditions
import QlikMigration.Proofs.ConditionReading
import QlikMigration.Proofs.JoinKeys
import QlikMigration.Proofs.StepChain
import QlikMigration.Proofs.Runs
import QlikMigration.Proofs.Relationships
import QlikMigration.Proofs.Batches
import QlikMigration.Proofs.Outputs
import QlikMigration.Proofs.Provenance
import QlikMigration.Proofs.References
import QlikMigration.Proofs.JoinResult
import QlikMigration.Proofs.SelectedFields
import QlikMigration.Proofs.InlineRows
import QlikMigration.Proofs.FileFormats
import QlikMigration.Proofs.Literals
import QlikMigration.Proofs.SourcePaths
import QlikMigration.Proofs.SchemaSession
import QlikMigration.Proofs.SchemaRows
import QlikMigration.Proofs.SetExpressions
import QlikMigration.Proofs.MeasureFilters
import QlikMigration.Proofs.FormulaExtent
import QlikMigration.Proofs.DocumentShapes
import QlikMigration.Proofs.Consumption
import QlikMigration.Proofs.Drawing
import QlikMigration.Proofs.FixedTexts
import QlikMigration.Proofs.QuotedConditions
import QlikMigration.Proofs.CallShapes
import QlikMigration.Proofs.CallTrees
import QlikMigration.Proofs.Composition
import QlikMigration.Proofs.SingleValues
import QlikMigration.Proofs.FieldNames
import QlikMigration.Proofs.GroupedFields
import QlikMigration.Proofs.StableOrder
import QlikMigration.Proofs.TableOrigins
import QlikMigration.Proofs.Comments
import QlikMigration.Proofs.NormalLines
import QlikMigration.Proofs.PlainLoads
import QlikMigration.Proofs.SpacedAtoms
import QlikMigration.Proofs.Parentheses
import QlikMigration.Proofs.Assignments
import QlikMigration.Proofs.Directories
import QlikMigration.Proofs.Substitution
import QlikMigration.Proofs.PackedReports
import QlikMigration.Proofs.PrintedRows
import QlikMigration.Proofs.Replies
import QlikMigration.Proofs.Writing
import QlikMigration.Proofs.OutputFiles
import QlikMigration.Proofs.ProjectFolders
