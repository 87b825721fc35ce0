import BlockProgram.Block.Kind
import BlockProgram.Block.Order
import BlockProgram.Block.Registration
import BlockProgram.Block.Template
import BlockProgram.Command.Arguments
import BlockProgram.Command.Disk
import BlockProgram.Command.Machine
import BlockProgram.Command.Run
import BlockProgram.Generator.Basic
import BlockProgram.Generator.Fragment
import BlockProgram.Generator.Pass
import BlockProgram.Generator.Program
import BlockProgram.Generator.Routine
import BlockProgram.Generator.Traversal
import BlockProgram.Host.Basic
import BlockProgram.Host.Editor
import BlockProgram.Json.Basic
import BlockProgram.Json.Printer
import BlockProgram.Json.Reader
import BlockProgram.Json.Token
import BlockProgram.Markup.Basic
import BlockProgram.Markup.Declaration
import BlockProgram.Markup.Doctype
import BlockProgram.Markup.Document
import BlockProgram.Markup.Encoding
import BlockProgram.Markup.Name
import BlockProgram.Markup.Nesting
import BlockProgram.Markup.Printer
import BlockProgram.Markup.Reader
import BlockProgram.Markup.Token
import BlockProgram.Number.Binary64
import BlockProgram.Number.Decimal
import BlockProgram.Proofs.Expression.Basic
import BlockProgram.Proofs.Expression.Grouping
import BlockProgram.Proofs.Expression.ReadBack
import BlockProgram.Proofs.Expression.Reader
import BlockProgram.Proofs.Expression.Rendering
import BlockProgram.Proofs.Forest.Basic
import BlockProgram.Proofs.Forest.Code
import BlockProgram.Proofs.Forest.Edit
import BlockProgram.Proofs.Forest.Emission
import BlockProgram.Proofs.Forest.Family
import BlockProgram.Proofs.Forest.Identity
import BlockProgram.Proofs.Forest.Layout
import BlockProgram.Proofs.Forest.Load
import BlockProgram.Proofs.Forest.Parts
import BlockProgram.Proofs.Forest.Program
import BlockProgram.Proofs.Forest.Renaming
import BlockProgram.Proofs.Forest.Rendering
import BlockProgram.Proofs.Forest.Tally
import BlockProgram.Proofs.Forest.Targets
import BlockProgram.Proofs.Forest.Unfolding
import BlockProgram.Proofs.Json.Ordered
import BlockProgram.Proofs.Rendering.Cycle
import BlockProgram.Proofs.Rendering.Link
import BlockProgram.Proofs.Rendering.Triple
import BlockProgram.Proofs.Rendering.Walk
import BlockProgram.Proofs.Text.Bracket
import BlockProgram.Proofs.Text.Pattern
import BlockProgram.Proofs.Text.Quoted
import BlockProgram.Proofs.Text.Respacing
import BlockProgram.Proofs.Text.Sound
import BlockProgram.Proofs.Text.Transparent
import BlockProgram.Schema.Basic
import BlockProgram.Schema.Builtin
import BlockProgram.Schema.Registry
import BlockProgram.Table
import BlockProgram.Text.Blank
import BlockProgram.Text.Lines
import BlockProgram.Text.Quoted
import BlockProgram.Toolbox
import BlockProgram.Workspace.Basic
import BlockProgram.Workspace.Canvas
import BlockProgram.Workspace.Chain
import BlockProgram.Workspace.Document
import BlockProgram.Workspace.Load
import BlockProgram.Main
import BlockProgram.Proofs.Forest.Nesting
import BlockProgram.Proofs.Schema.Registry
import BlockProgram.Proofs.Host.Consistent
import BlockProgram.Proofs.Markup.Reading
import BlockProgram.Proofs.Markup.ReadBack
import BlockProgram.Proofs.Schema.Toolbox
import BlockProgram.Proofs.Forest.Acceptance
import BlockProgram.Proofs.Forest.Success
import BlockProgram.Proofs.Forest.Alike
import BlockProgram.Proofs.Forest.Canvas
import BlockProgram.Proofs.Text.Line
import BlockProgram.Proofs.Text.Tidy
import BlockProgram.Proofs.Text.Terminated
import BlockProgram.Proofs.Text.Indentation
import BlockProgram.Proofs.Rendering.Parallel
import BlockProgram.Proofs.Rendering.Indent
import BlockProgram.Proofs.Rendering.Suppression
import BlockProgram.Proofs.Rendering.Session
import BlockProgram.Proofs.Expression.Reassociation
import BlockProgram.Proofs.Rendering.Marks
import BlockProgram.Proofs.Command.View
import BlockProgram.Proofs.Command.Disk
import BlockProgram.Proofs.Command.Preparation
import BlockProgram.Proofs.Command.Writing
import BlockProgram.Proofs.Host.Literals
import BlockProgram.Proofs.Command.Agreement
import BlockProgram.Proofs.Rendering.Ending
import BlockProgram.Proofs.Text.Callee
import BlockProgram.Proofs.Rendering.Call
import BlockProgram.Proofs.Text.Verbatim
import BlockProgram.Proofs.Forest.Quotation
import BlockProgram.Proofs.Text.Margin
import BlockProgram.Proofs.Text.Visible
import BlockProgram.Proofs.Text.Whole
import BlockProgram.Proofs.Forest.Closing
import BlockProgram.Proofs.Forest.SingleLine
import BlockProgram.Proofs.Forest.Outline
import BlockProgram.Proofs.Rendering.Chains
import BlockProgram.Proofs.Rendering.Declared
import BlockProgram.Proofs.Forest.Faults
import BlockProgram.Proofs.Rendering.Elements
import BlockProgram.Proofs.Rendering.CustomTypes
import BlockProgram.Proofs.Text.Bytes
import BlockProgram.Proofs.Number.Magnitude
import BlockProgram.Proofs.Number.TotalOrder
import BlockProgram.Proofs.Number.Nearest
import BlockProgram.Proofs.Number.Shortest
import BlockProgram.Proofs.Number.Numeral
import BlockProgram.Proofs.Forest.ReadingOrder
import BlockProgram.Proofs.Json.Compact
import BlockProgram.Proofs.Schema.Definitions
import BlockProgram.Proofs.Text.Replacement
import BlockProgram.Proofs.Text.Settled
