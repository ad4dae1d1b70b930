import HtmlTemplate.CommandLine.Run
import HtmlTemplate.Context.Access
import HtmlTemplate.Context.Basic
import HtmlTemplate.Decimal.Layout
import HtmlTemplate.Decimal.Reading
import HtmlTemplate.Diagnostic.Report
import HtmlTemplate.Eval.Arithmetic
import HtmlTemplate.Eval.Basic
import HtmlTemplate.Eval.Fault
import HtmlTemplate.Eval.Handle
import HtmlTemplate.Eval.Mixin
import HtmlTemplate.Eval.Reported
import HtmlTemplate.Expr.Arena
import HtmlTemplate.Expr.Basic
import HtmlTemplate.Expr.Fault
import HtmlTemplate.Expr.Filling
import HtmlTemplate.Expr.Gap
import HtmlTemplate.Expr.Literal
import HtmlTemplate.Expr.Operator
import HtmlTemplate.Expr.OperatorReading
import HtmlTemplate.Expr.Options
import HtmlTemplate.Expr.Parser
import HtmlTemplate.Files.Basic
import HtmlTemplate.Host.Defaults
import HtmlTemplate.Host.Samples
import HtmlTemplate.Main
import HtmlTemplate.Proofs.Alias.Chains
import HtmlTemplate.Proofs.Alias.Places
import HtmlTemplate.Proofs.Alias.Reachable
import HtmlTemplate.Proofs.Alias.Rebinding
import HtmlTemplate.Proofs.Alternatives.Chains
import HtmlTemplate.Proofs.Alternatives.Placement
import HtmlTemplate.Proofs.Alternatives.Strays
import HtmlTemplate.Proofs.Alternatives.Walking
import HtmlTemplate.Proofs.Arena.Agreement
import HtmlTemplate.Proofs.Arena.Insertion
import HtmlTemplate.Proofs.Arena.Shapes
import HtmlTemplate.Proofs.Arena.Transactions
import HtmlTemplate.Proofs.Arena.Trees
import HtmlTemplate.Proofs.Building.Likeness
import HtmlTemplate.Proofs.Building.Single
import HtmlTemplate.Proofs.Building.Steps
import HtmlTemplate.Proofs.Building.Weaving
import HtmlTemplate.Proofs.Choosing.Branches
import HtmlTemplate.Proofs.Confinement.Texts
import HtmlTemplate.Proofs.Content.Authored
import HtmlTemplate.Proofs.Content.Compilation
import HtmlTemplate.Proofs.Content.Shapes
import HtmlTemplate.Proofs.Content.Templates
import HtmlTemplate.Proofs.Context.Bodies
import HtmlTemplate.Proofs.Context.Frames
import HtmlTemplate.Proofs.Context.Holdings
import HtmlTemplate.Proofs.Context.Lenses
import HtmlTemplate.Proofs.Context.Mixins
import HtmlTemplate.Proofs.Copies.Calls
import HtmlTemplate.Proofs.Copies.Evaluation
import HtmlTemplate.Proofs.Copies.Runs
import HtmlTemplate.Proofs.Copies.Scopes
import HtmlTemplate.Proofs.Elements.Brackets
import HtmlTemplate.Proofs.Elements.Gaps
import HtmlTemplate.Proofs.Elements.Parts
import HtmlTemplate.Proofs.Elements.Rows
import HtmlTemplate.Proofs.Elements.Values
import HtmlTemplate.Proofs.Escaping.Addresses
import HtmlTemplate.Proofs.Escaping.Entities
import HtmlTemplate.Proofs.Failing.Leftovers
import HtmlTemplate.Proofs.Folding.Abreast
import HtmlTemplate.Proofs.Folding.Compilation
import HtmlTemplate.Proofs.Folding.Refolding
import HtmlTemplate.Proofs.Folding.Runs
import HtmlTemplate.Proofs.Folding.Templates
import HtmlTemplate.Proofs.Folding.Twins
import HtmlTemplate.Proofs.Hidden.Actions
import HtmlTemplate.Proofs.Hidden.Evaluation
import HtmlTemplate.Proofs.Hidden.Fences
import HtmlTemplate.Proofs.Hidden.Hosts
import HtmlTemplate.Proofs.Hidden.Levels
import HtmlTemplate.Proofs.Hidden.Runs
import HtmlTemplate.Proofs.Indentation.Places
import HtmlTemplate.Proofs.Indentation.Rows
import HtmlTemplate.Proofs.Indentation.Templates
import HtmlTemplate.Proofs.Integers.Exact
import HtmlTemplate.Proofs.JsonText.Rows
import HtmlTemplate.Proofs.JsonText.Scalars
import HtmlTemplate.Proofs.JsonText.Values
import HtmlTemplate.Proofs.Linking.Templates
import HtmlTemplate.Proofs.Loops.Folds
import HtmlTemplate.Proofs.Loops.Passes
import HtmlTemplate.Proofs.Loops.Reading
import HtmlTemplate.Proofs.Loops.Runs
import HtmlTemplate.Proofs.Loops.Scopes
import HtmlTemplate.Proofs.Naming.Templates
import HtmlTemplate.Proofs.Offsets.Templates
import HtmlTemplate.Proofs.Operands.Compound
import HtmlTemplate.Proofs.Operands.Order
import HtmlTemplate.Proofs.Operands.Settled
import HtmlTemplate.Proofs.Permitting.Reading
import HtmlTemplate.Proofs.Placing.Cells
import HtmlTemplate.Proofs.Placing.Templates
import HtmlTemplate.Proofs.Precedence.Reading
import HtmlTemplate.Proofs.Precedence.Row
import HtmlTemplate.Proofs.Precedence.Spine
import HtmlTemplate.Proofs.Probing.Guards
import HtmlTemplate.Proofs.Progress.Templates
import HtmlTemplate.Proofs.Prolonging.Expressions
import HtmlTemplate.Proofs.Prolonging.Inline
import HtmlTemplate.Proofs.ReadOnly.Targets
import HtmlTemplate.Proofs.Reading.Basic
import HtmlTemplate.Proofs.Reading.Inline
import HtmlTemplate.Proofs.Reading.Lines
import HtmlTemplate.Proofs.Refusing.Runs
import HtmlTemplate.Proofs.Relining.Templates
import HtmlTemplate.Proofs.Relocation.Expressions
import HtmlTemplate.Proofs.Reporting.Comments
import HtmlTemplate.Proofs.Reporting.Lines
import HtmlTemplate.Proofs.Reporting.Templates
import HtmlTemplate.Proofs.Respelling.Templates
import HtmlTemplate.Proofs.Rules.Actions
import HtmlTemplate.Proofs.Rules.Assembly
import HtmlTemplate.Proofs.Rules.Basic
import HtmlTemplate.Proofs.Rules.Chunks
import HtmlTemplate.Proofs.Rules.Composition
import HtmlTemplate.Proofs.Rules.Evaluation
import HtmlTemplate.Proofs.Rules.Faults
import HtmlTemplate.Proofs.Rules.Handling
import HtmlTemplate.Proofs.Rules.Resemblance
import HtmlTemplate.Proofs.Rules.Running
import HtmlTemplate.Proofs.Rules.Unseen
import HtmlTemplate.Proofs.Rules.Yielding
import HtmlTemplate.Proofs.Scopes.Runs
import HtmlTemplate.Proofs.Spacing.Compilation
import HtmlTemplate.Proofs.Spacing.Runs
import HtmlTemplate.Proofs.Spacing.Templates
import HtmlTemplate.Proofs.Statements.Reading
import HtmlTemplate.Proofs.Statements.Templates
import HtmlTemplate.Proofs.Steps.Counting
import HtmlTemplate.Proofs.Steps.Following
import HtmlTemplate.Proofs.Steps.Limits
import HtmlTemplate.Proofs.Stopping.Bodies
import HtmlTemplate.Proofs.Stopping.Phases
import HtmlTemplate.Proofs.Stopping.Templates
import HtmlTemplate.Proofs.Tags.Chunks
import HtmlTemplate.Proofs.Tags.Compilation
import HtmlTemplate.Proofs.Tags.Reading
import HtmlTemplate.Proofs.Tags.Templates
import HtmlTemplate.Proofs.TextBlocks.Lines
import HtmlTemplate.Proofs.TextBlocks.Templates
import HtmlTemplate.Proofs.Verbatim.Lines
import HtmlTemplate.Proofs.Verbatim.Templates
import HtmlTemplate.Render.Basic
import HtmlTemplate.Render.Run
import HtmlTemplate.Template.Builder
import HtmlTemplate.Template.Chunk
import HtmlTemplate.Template.ChunkTree
import HtmlTemplate.Template.Compilation
import HtmlTemplate.Template.Source
import HtmlTemplate.Text.CharClass
import HtmlTemplate.Text.Cursor
import HtmlTemplate.Text.Escaping
import HtmlTemplate.Text.Input
import HtmlTemplate.Text.Quoted
import HtmlTemplate.Text.Span
import HtmlTemplate.Text.Unprintable
import HtmlTemplate.Token.Attribute
import HtmlTemplate.Token.Basic
import HtmlTemplate.Token.Code
import HtmlTemplate.Token.Document
import HtmlTemplate.Token.Embedded
import HtmlTemplate.Token.Fault
import HtmlTemplate.Token.Inline
import HtmlTemplate.Token.Line
import HtmlTemplate.Token.Linking
import HtmlTemplate.Value.Basic
import HtmlTemplate.Value.Coercion
import HtmlTemplate.Value.Json
import HtmlTemplate.Value.Printing
