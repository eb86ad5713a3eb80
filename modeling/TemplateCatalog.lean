import TemplateCatalog.Catalog.Format
import TemplateCatalog.Catalog.StringLiteral
import TemplateCatalog.CommandLine.Arguments
import TemplateCatalog.CommandLine.Reading
import TemplateCatalog.CommandLine.Run
import TemplateCatalog.Config.Basic
import TemplateCatalog.Config.Json
import TemplateCatalog.Config.JsonValue
import TemplateCatalog.Config.Loading
import TemplateCatalog.Config.Printing
import TemplateCatalog.Config.Reading
import TemplateCatalog.Entry
import TemplateCatalog.Files.Path
import TemplateCatalog.Files.Tree
import TemplateCatalog.Glob.Expansion
import TemplateCatalog.Glob.Pattern
import TemplateCatalog.Issue
import TemplateCatalog.Main
import TemplateCatalog.Proofs.Agreement
import TemplateCatalog.Proofs.CallReading
import TemplateCatalog.Proofs.CallSite
import TemplateCatalog.Proofs.Capture
import TemplateCatalog.Proofs.Caret
import TemplateCatalog.Proofs.CatalogReading
import TemplateCatalog.Proofs.CharacterClasses
import TemplateCatalog.Proofs.Concatenation
import TemplateCatalog.Proofs.ConfigRoundTrip
import TemplateCatalog.Proofs.Coordinates
import TemplateCatalog.Proofs.DeadEnds
import TemplateCatalog.Proofs.Effects
import TemplateCatalog.Proofs.EscapeUnits
import TemplateCatalog.Proofs.Expansion
import TemplateCatalog.Proofs.ExpressionForm
import TemplateCatalog.Proofs.ExpressionGrammar
import TemplateCatalog.Proofs.Faults
import TemplateCatalog.Proofs.FileIndependence
import TemplateCatalog.Proofs.FirstFault
import TemplateCatalog.Proofs.FoundFiles
import TemplateCatalog.Proofs.FragmentLayout
import TemplateCatalog.Proofs.FragmentRule
import TemplateCatalog.Proofs.JsonGrammar
import TemplateCatalog.Proofs.LexerRestart
import TemplateCatalog.Proofs.Lexing
import TemplateCatalog.Proofs.LineColumn
import TemplateCatalog.Proofs.LineEnds
import TemplateCatalog.Proofs.Lists
import TemplateCatalog.Proofs.LiteralIgnores
import TemplateCatalog.Proofs.NearestConfig
import TemplateCatalog.Proofs.Occurrence
import TemplateCatalog.Proofs.OriginLabels
import TemplateCatalog.Proofs.Origins
import TemplateCatalog.Proofs.Outwards
import TemplateCatalog.Proofs.Pairing
import TemplateCatalog.Proofs.PathComponents
import TemplateCatalog.Proofs.PatternComponents
import TemplateCatalog.Proofs.Phrasing
import TemplateCatalog.Proofs.Places
import TemplateCatalog.Proofs.Printing
import TemplateCatalog.Proofs.Quotation
import TemplateCatalog.Proofs.Relocation
import TemplateCatalog.Proofs.ReportedOffsets
import TemplateCatalog.Proofs.ReportOrder
import TemplateCatalog.Proofs.Rerun
import TemplateCatalog.Proofs.Rescan
import TemplateCatalog.Proofs.RootedOrigins
import TemplateCatalog.Proofs.RoundTrip
import TemplateCatalog.Proofs.Runs
import TemplateCatalog.Proofs.SlicedExpressions
import TemplateCatalog.Proofs.SlicedExtraction
import TemplateCatalog.Proofs.SlicedFragments
import TemplateCatalog.Proofs.SlicedPositions
import TemplateCatalog.Proofs.SlicedTokens
import TemplateCatalog.Proofs.Slices
import TemplateCatalog.Proofs.SpacedFragments
import TemplateCatalog.Proofs.Spellings
import TemplateCatalog.Proofs.Surroundings
import TemplateCatalog.Proofs.TagRecognition
import TemplateCatalog.Proofs.Tally
import TemplateCatalog.Proofs.TextOrder
import TemplateCatalog.Proofs.TokenSeams
import TemplateCatalog.Proofs.Tokenization
import TemplateCatalog.Proofs.Writing
import TemplateCatalog.Report.Ink
import TemplateCatalog.Report.Issues
import TemplateCatalog.Scan
import TemplateCatalog.Template.Extraction
import TemplateCatalog.Template.FilterExpression
import TemplateCatalog.Template.FilterReading
import TemplateCatalog.Template.Fragment
import TemplateCatalog.Template.I18nTag
import TemplateCatalog.Template.Literal
import TemplateCatalog.Template.Position
import TemplateCatalog.Template.Token
import TemplateCatalog.Template.Tokenization
import TemplateCatalog.TemplateFile
import TemplateCatalog.Text.Basic
import TemplateCatalog.Text.Blank
import TemplateCatalog.Text.Combining
import TemplateCatalog.Text.Width
import TemplateCatalog.Text.Word
