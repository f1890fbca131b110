import TruthTables.Ascending
import TruthTables.Assignment
import TruthTables.Command.Files
import TruthTables.Command.Options
import TruthTables.Command.Run
import TruthTables.Datum
import TruthTables.Dependency
import TruthTables.Draft
import TruthTables.Exercise
import TruthTables.Formula
import TruthTables.Formula.Evaluation
import TruthTables.Formula.Parser
import TruthTables.Formula.Printer
import TruthTables.Generator
import TruthTables.Grading
import TruthTables.Journal
import TruthTables.Journal.Events
import TruthTables.Journal.Narration
import TruthTables.Journal.Office
import TruthTables.Loaded
import TruthTables.Main
import TruthTables.Number
import TruthTables.Position
import TruthTables.Random.Draws
import TruthTables.Random.Source
import TruthTables.Random.Twister
import TruthTables.Spelling
import TruthTables.Table
import TruthTables.Text.Blank
import TruthTables.Text.Numeral
import TruthTables.Text.Printable
import TruthTables.Text.Quoted
import TruthTables.Text.Utf8
import TruthTables.Token
import TruthTables.Token.Lexer
import TruthTables.Proofs.Grammar
import TruthTables.Proofs.Parsing
import TruthTables.Proofs.Issuing
import TruthTables.Proofs.Lexing
import TruthTables.Proofs.Spelling
import TruthTables.Proofs.Pieces
import TruthTables.Proofs.Blind
import TruthTables.Proofs.Printing
import TruthTables.Proofs.Substitution
import TruthTables.Proofs.Plain
import TruthTables.Proofs.Strictness
import TruthTables.Proofs.Tracking
import TruthTables.Proofs.Refusal
import TruthTables.Proofs.Ascending
import TruthTables.Proofs.Truth
import TruthTables.Proofs.Classification
import TruthTables.Proofs.Rows
import TruthTables.Proofs.Lookup
import TruthTables.Proofs.Identity
import TruthTables.Proofs.Columns
import TruthTables.Proofs.Grading
import TruthTables.Proofs.Progress
import TruthTables.Proofs.History
import TruthTables.Proofs.Checks
import TruthTables.Proofs.Verdict
import TruthTables.Proofs.Generation
import TruthTables.Proofs.Postorder
import TruthTables.Proofs.Encoding
import TruthTables.Proofs.Cutting
import TruthTables.Proofs.Course
import TruthTables.Proofs.Exits
import TruthTables.Proofs.Arguments
import TruthTables.Proofs.Sources
import TruthTables.Proofs.Layout
import TruthTables.Proofs.Presentation
import TruthTables.Proofs.Leaves
import TruthTables.Proofs.Replies
import TruthTables.Proofs.Prepared
import TruthTables.Proofs.Reach
import TruthTables.Proofs.Numbering
import TruthTables.Proofs.Series
import TruthTables.Proofs.Edits
import TruthTables.Proofs.Completion
import TruthTables.Proofs.Threshold
