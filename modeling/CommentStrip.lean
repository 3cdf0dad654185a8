import CommentStrip.Alternation
import CommentStrip.CStyle.Branch
import CommentStrip.CStyle.Classify
import CommentStrip.CStyle.Context
import CommentStrip.CommandLine.Invocation
import CommentStrip.CommandLine.Options
import CommentStrip.CommandLine.Reader
import CommentStrip.Console
import CommentStrip.Diff.Hunk
import CommentStrip.Diff.Script
import CommentStrip.Diff.Slide
import CommentStrip.Diff.View
import CommentStrip.Engine
import CommentStrip.Exclude
import CommentStrip.FileTree
import CommentStrip.Grammar
import CommentStrip.Json
import CommentStrip.Keep
import CommentStrip.Main
import CommentStrip.Markup.Branch
import CommentStrip.Markup.Scan
import CommentStrip.Path
import CommentStrip.Pattern.ClassReader
import CommentStrip.Pattern.Compile
import CommentStrip.Pattern.Escape
import CommentStrip.Pattern.Fault
import CommentStrip.Pattern.Meaning
import CommentStrip.Pattern.Occurrence
import CommentStrip.Pattern.Reader
import CommentStrip.Pattern.Site
import CommentStrip.Pattern.Syntax
import CommentStrip.Php.Delegate
import CommentStrip.Php.Interpreter
import CommentStrip.Proofs.CStyle.CommentForms
import CommentStrip.Proofs.CStyle.Forms
import CommentStrip.Proofs.CStyle.Lexeme
import CommentStrip.Proofs.CStyle.Lexer
import CommentStrip.Proofs.CStyle.LiteralForms
import CommentStrip.Proofs.CStyle.Partition
import CommentStrip.Proofs.Expression
import CommentStrip.Proofs.Markup.Conditional
import CommentStrip.Proofs.Markup.Opening
import CommentStrip.Proofs.Python.Characters
import CommentStrip.Proofs.Python.CommentRemoval
import CommentStrip.Proofs.Python.Cut
import CommentStrip.Proofs.Python.FieldMove
import CommentStrip.Proofs.Python.Lexes
import CommentStrip.Proofs.Python.LineFlow
import CommentStrip.Proofs.Python.LiteralSeam
import CommentStrip.Proofs.Python.PlainLiteral
import CommentStrip.Proofs.Python.Relex
import CommentStrip.Proofs.Python.TokenFlow
import CommentStrip.Proofs.Python.TokenSeam
import CommentStrip.Proofs.Python.TwoPaths
import CommentStrip.Proofs.Search
import CommentStrip.Proofs.Tally
import CommentStrip.Proofs.Text.Blanked
import CommentStrip.Proofs.Text.Breaks
import CommentStrip.Proofs.Text.Seam
import CommentStrip.Python.LineScan
import CommentStrip.Python.Literal
import CommentStrip.Python.QuoteState
import CommentStrip.Python.Strip
import CommentStrip.Python.Token
import CommentStrip.Python.Tokenizer
import CommentStrip.Report
import CommentStrip.Run.Command
import CommentStrip.Run.Completion
import CommentStrip.Run.Filter
import CommentStrip.Run.Scan
import CommentStrip.Run.Setup
import CommentStrip.Run.Strip
import CommentStrip.Settings.Basic
import CommentStrip.Settings.Document
import CommentStrip.Settings.Load
import CommentStrip.Settings.Validity
import CommentStrip.Shell.Run
import CommentStrip.Shell.Script
import CommentStrip.Shell.Tools
import CommentStrip.Tally
import CommentStrip.Text.Basic
import CommentStrip.Text.Lines
import CommentStrip.Text.Utf8
import CommentStrip.Unicode.CaseRanges
import CommentStrip.Unicode.Character
import CommentStrip.Unicode.Ranges
import CommentStrip.Walk
import CommentStrip.Whitespace
import CommentStrip.Yaml.Cursor
import CommentStrip.Yaml.Node
import CommentStrip.Yaml.Reader
import CommentStrip.Yaml.Scalar
import CommentStrip.Proofs.CStyle.Rescan
import CommentStrip.Proofs.CStyle.SecondScan
import CommentStrip.Proofs.Python.LiteralsLeft
import CommentStrip.Proofs.Python.LineAgain
import CommentStrip.Proofs.Python.StripAgain
import CommentStrip.Proofs.CStyle.Removed
import CommentStrip.Proofs.Markup.Removed
import CommentStrip.Proofs.Replaces
import CommentStrip.Proofs.Markup.Rescan
import CommentStrip.Proofs.Markup.Jinja
import CommentStrip.Proofs.CStyle.Braces
import CommentStrip.Proofs.SecondPass
import CommentStrip.Proofs.Whitespace
import CommentStrip.Proofs.CStyle.Changed
import CommentStrip.Proofs.Places
import CommentStrip.Proofs.LineStructure
import CommentStrip.Proofs.CStyle.BraceSpans
import CommentStrip.Proofs.Session
import CommentStrip.Proofs.Counting
import CommentStrip.Proofs.Parts
import CommentStrip.Proofs.CStyle.Parts
import CommentStrip.Proofs.Python.Parts
import CommentStrip.Proofs.Markup.Parts
import CommentStrip.Proofs.KeepSets
import CommentStrip.Proofs.Markup.Kept
import CommentStrip.Proofs.Python.TokenForms
import CommentStrip.Proofs.Python.Shift
import CommentStrip.Proofs.Python.Joined
import CommentStrip.Proofs.Markup.Delegated
import CommentStrip.Proofs.Markup.TemplateComments
import CommentStrip.Proofs.FileTree
import CommentStrip.Proofs.Text.Utf8
import CommentStrip.Proofs.Extension
import CommentStrip.Proofs.Glob.ClassBody
import CommentStrip.Proofs.Glob.Matching
import CommentStrip.Proofs.Located
import CommentStrip.Proofs.Pruning
import CommentStrip.Proofs.Run.BadSetup
import CommentStrip.Proofs.Run.Filtered
import CommentStrip.Proofs.Run.Reported
import CommentStrip.Proofs.Text.ByteOrder
import CommentStrip.Proofs.Traversal
import CommentStrip.Proofs.Run.Accounted
import CommentStrip.Proofs.CStyle.OpenQuote
import CommentStrip.Proofs.Run.TidiedLiterals
import CommentStrip.Proofs.Python.LogicalLines
import CommentStrip.Proofs.Python.FirstEnd
import CommentStrip.Proofs.Python.LiteralStarts
import CommentStrip.Proofs.Markup.Folding
import CommentStrip.Proofs.Markup.Forms
import CommentStrip.Proofs.BranchOrder
import CommentStrip.Proofs.Markup.Blocks
import CommentStrip.Proofs.Python.StandAlone
import CommentStrip.Proofs.Python.OneQuote
import CommentStrip.Proofs.TidiedLines
import CommentStrip.Proofs.Settings.Layers
import CommentStrip.Proofs.Pattern.AllOrNothing
import CommentStrip.Proofs.Python.Causes
import CommentStrip.Proofs.Glob.Fnmatch
import CommentStrip.Proofs.Leftmost
