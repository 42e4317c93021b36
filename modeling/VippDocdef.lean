import VippDocdef.Aliases
import VippDocdef.Batch.Copying
import VippDocdef.Batch.Record
import VippDocdef.Batch.Run
import VippDocdef.Batch.Sources
import VippDocdef.Command
import VippDocdef.Command.OfTokens
import VippDocdef.Command.Operand
import VippDocdef.CommandLine
import VippDocdef.CommandLine.Arguments
import VippDocdef.CommandLine.Calendar
import VippDocdef.Decimal.Layout
import VippDocdef.Decimal.Reader
import VippDocdef.Decimal.Shortest
import VippDocdef.Docdef.Chunk
import VippDocdef.Docdef.Condition
import VippDocdef.Docdef.Cursor
import VippDocdef.Docdef.Detector
import VippDocdef.Docdef.Flow
import VippDocdef.Docdef.FontSwitch
import VippDocdef.Docdef.Format
import VippDocdef.Docdef.Interpolation
import VippDocdef.Docdef.Layout
import VippDocdef.Docdef.Palette
import VippDocdef.Docdef.Picture
import VippDocdef.Docdef.Preamble
import VippDocdef.Docdef.Program
import VippDocdef.Docdef.Shape
import VippDocdef.Docdef.Show
import VippDocdef.Docdef.Startup
import VippDocdef.Docdef.State
import VippDocdef.Docdef.Statement
import VippDocdef.Docdef.Term
import VippDocdef.Docdef.Walk
import VippDocdef.Document
import VippDocdef.Document.Build
import VippDocdef.Document.Header
import VippDocdef.Document.RawSearch
import VippDocdef.Document.Region
import VippDocdef.Files.Glob
import VippDocdef.Files.Path
import VippDocdef.Files.Store
import VippDocdef.Files.System
import VippDocdef.Main
import VippDocdef.Pattern
import VippDocdef.Pattern.Reader
import VippDocdef.Position
import VippDocdef.Proofs.Accounting
import VippDocdef.Proofs.Anchoring
import VippDocdef.Proofs.Arity
import VippDocdef.Proofs.Blocks
import VippDocdef.Proofs.Bracketing
import VippDocdef.Proofs.Calibration
import VippDocdef.Proofs.Calls
import VippDocdef.Proofs.Carryover
import VippDocdef.Proofs.CaseRegions
import VippDocdef.Proofs.CommentEnds
import VippDocdef.Proofs.Commenting
import VippDocdef.Proofs.Conditionals
import VippDocdef.Proofs.Copies
import VippDocdef.Proofs.Directories
import VippDocdef.Proofs.Dispatch
import VippDocdef.Proofs.Enclosures
import VippDocdef.Proofs.Encoding
import VippDocdef.Proofs.Filing
import VippDocdef.Proofs.FontUse
import VippDocdef.Proofs.Fonts
import VippDocdef.Proofs.FormModes
import VippDocdef.Proofs.Formulas
import VippDocdef.Proofs.Grouping
import VippDocdef.Proofs.Headers
import VippDocdef.Proofs.Heights
import VippDocdef.Proofs.InOrder
import VippDocdef.Proofs.Independence
import VippDocdef.Proofs.InitialValues
import VippDocdef.Proofs.Leftovers
import VippDocdef.Proofs.Lexemes
import VippDocdef.Proofs.LiveAssignments
import VippDocdef.Proofs.Markers
import VippDocdef.Proofs.Marks
import VippDocdef.Proofs.Motion
import VippDocdef.Proofs.Numbering
import VippDocdef.Proofs.Ordering
import VippDocdef.Proofs.Outlines
import VippDocdef.Proofs.Ownership
import VippDocdef.Proofs.Pairing
import VippDocdef.Proofs.Pasting
import VippDocdef.Proofs.Positions
import VippDocdef.Proofs.Provenance
import VippDocdef.Proofs.Quotations
import VippDocdef.Proofs.RegionEnds
import VippDocdef.Proofs.Remarks
import VippDocdef.Proofs.Renaming
import VippDocdef.Proofs.Reporting
import VippDocdef.Proofs.Requests
import VippDocdef.Proofs.Rescanning
import VippDocdef.Proofs.Retention
import VippDocdef.Proofs.RunningFont
import VippDocdef.Proofs.Sections
import VippDocdef.Proofs.Siblings
import VippDocdef.Proofs.Signs
import VippDocdef.Proofs.Sizes
import VippDocdef.Proofs.Steps
import VippDocdef.Proofs.Suppression
import VippDocdef.Proofs.Surroundings
import VippDocdef.Proofs.Switches
import VippDocdef.Proofs.Validation
import VippDocdef.Proofs.Verticals
import VippDocdef.Proofs.Visits
import VippDocdef.Proofs.Wrapping
import VippDocdef.Resources
import VippDocdef.Settings
import VippDocdef.Settings.Reader
import VippDocdef.Settings.Search
import VippDocdef.Table
import VippDocdef.Text.Blank
import VippDocdef.Text.Cut
import VippDocdef.Text.Fold
import VippDocdef.Text.Word
import VippDocdef.Token
import VippDocdef.Token.Bracket
import VippDocdef.Token.Scan
import VippDocdef.Toml
import VippDocdef.Toml.Reader
import VippDocdef.Toml.Scalar
