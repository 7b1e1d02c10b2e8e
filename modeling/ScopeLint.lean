import ScopeLint.Batch
import ScopeLint.Code
import ScopeLint.CommandLine
import ScopeLint.Extent
import ScopeLint.Fault
import ScopeLint.Files
import ScopeLint.Finding
import ScopeLint.Flow
import ScopeLint.Flow.Value
import ScopeLint.Inert
import ScopeLint.Json.Text
import ScopeLint.Json.Value
import ScopeLint.Kind
import ScopeLint.MacroDefinition
import ScopeLint.Main
import ScopeLint.Number.Binary64
import ScopeLint.Number.Shortest
import ScopeLint.Outline
import ScopeLint.Outline.Admission
import ScopeLint.Outline.Nesting
import ScopeLint.Pattern
import ScopeLint.Pattern.Heads
import ScopeLint.Region
import ScopeLint.Region.Conditional
import ScopeLint.Region.OfCode
import ScopeLint.Report
import ScopeLint.Rule
import ScopeLint.Rule.Check
import ScopeLint.Rule.Kind
import ScopeLint.RuleFile
import ScopeLint.Session
import ScopeLint.Settings
import ScopeLint.Sort
import ScopeLint.Source
import ScopeLint.Span
import ScopeLint.Text.Alphabetic
import ScopeLint.Text.Blank
import ScopeLint.Text.LetterCase
import ScopeLint.Text.Line
import ScopeLint.Text.Mark
import ScopeLint.Text.Natural
import ScopeLint.Text.Number
import ScopeLint.Text.Utf8
import ScopeLint.Text.Word
import ScopeLint.UnitMap
import ScopeLint.Proofs.Search
import ScopeLint.Proofs.Span
import ScopeLint.Proofs.Source
import ScopeLint.Proofs.Inert.Grammar
import ScopeLint.Proofs.Inert.Lexing
import ScopeLint.Proofs.Inert.Blanking
import ScopeLint.Proofs.Code
import ScopeLint.Proofs.Region.Alike
import ScopeLint.Proofs.Region.CommentContents
import ScopeLint.Proofs.UnitMap
import ScopeLint.Proofs.Batch.Deal
import ScopeLint.Proofs.Batch.Gather
import ScopeLint.Proofs.Batch.Schedule
import ScopeLint.Proofs.Outline.Tree
import ScopeLint.Proofs.Sort
import ScopeLint.Proofs.Outline.Container
import ScopeLint.Proofs.Region.Refused
import ScopeLint.Proofs.Outline.OfSorted
import ScopeLint.Proofs.Pattern.Lead
import ScopeLint.Proofs.Pattern
import ScopeLint.Proofs.Pattern.Heads
import ScopeLint.Proofs.Extent
import ScopeLint.Proofs.Extent.Balance
import ScopeLint.Proofs.MacroDefinition
import ScopeLint.Proofs.Region.Found
import ScopeLint.Proofs.Region.Bounds
import ScopeLint.Proofs.Outline.WellNested
import ScopeLint.Proofs.Kind
import ScopeLint.Proofs.Rulebook.Conflict
import ScopeLint.Proofs.Down
import ScopeLint.Proofs.Inert.Append
import ScopeLint.Proofs.MacroDefinition.Lines
import ScopeLint.Proofs.Pattern.LoopWord
import ScopeLint.Proofs.Region.LoopEnd
import ScopeLint.Proofs.Region.Delimited
import ScopeLint.Proofs.Flow.Bytes
import ScopeLint.Proofs.Flow.Value
import ScopeLint.Proofs.Flow.Track
import ScopeLint.Proofs.Flow.Use
import ScopeLint.Proofs.MacroDefinition.Order
import ScopeLint.Proofs.MacroDefinition.Append
import ScopeLint.Proofs.Code.Append
import ScopeLint.Proofs.Region.Append
import ScopeLint.Proofs.Extent.Marks
import ScopeLint.Proofs.Region.MacroContents
import ScopeLint.Proofs.Text.Quote
import ScopeLint.Proofs.Text.Literal
import ScopeLint.Proofs.Pattern.Taken
import ScopeLint.Proofs.Pattern.Plain
import ScopeLint.Proofs.Pattern.Quotes
import ScopeLint.Proofs.Text.Closed
import ScopeLint.Proofs.Pattern.Literal
import ScopeLint.Proofs.Pattern.Framed
import ScopeLint.Proofs.Code.Literal
import ScopeLint.Proofs.Region.Literal
import ScopeLint.Proofs.Region.LiteralContents
import ScopeLint.Proofs.Finding
import ScopeLint.Proofs.Rulebook.Check
import ScopeLint.Proofs.Rulebook.Number
import ScopeLint.Proofs.Region.Start
import ScopeLint.Proofs.Rule.Place
import ScopeLint.Proofs.Rule.Check
import ScopeLint.Proofs.Finding.Bounds
import ScopeLint.Proofs.Rulebook.Duplicate
import ScopeLint.Proofs.Outline.Innermost
import ScopeLint.Proofs.Outline.Reordered
import ScopeLint.Proofs.Outline.Inert
import ScopeLint.Proofs.Outline.Admission
import ScopeLint.Proofs.Outline.Kinds
import ScopeLint.Proofs.Pattern.WholeWord
import ScopeLint.Proofs.Rule.Word
import ScopeLint.Proofs.Region.Opening
import ScopeLint.Proofs.Rule.Brace
import ScopeLint.Proofs.Report
import ScopeLint.Proofs.Session.Heading
import ScopeLint.Proofs.CommandLine
import ScopeLint.Proofs.Outline.Walk
import ScopeLint.Proofs.Text.Natural
import ScopeLint.Proofs.Report.Section
import ScopeLint.Proofs.Outline.Text
import ScopeLint.Proofs.Rule.Macro
import ScopeLint.Proofs.Extent.Nesting
import ScopeLint.Proofs.Inert.Overwriting
import ScopeLint.Proofs.Text.Boundary
import ScopeLint.Proofs.Source.Slice
