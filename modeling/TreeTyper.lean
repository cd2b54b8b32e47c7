import TreeTyper.Source
import TreeTyper.Table
import TreeTyper.Text.CharClass
import TreeTyper.Text.Line
import TreeTyper.Ty.Fill
import TreeTyper.Ty.Parse
import TreeTyper.Ty.Render
import TreeTyper.Json.Printer
import TreeTyper.Json.Reader
import TreeTyper.Tree.Basic
import TreeTyper.Tree.Reader
import TreeTyper.Tree.Writer
import TreeTyper.Tree.Build
import TreeTyper.Scope
import TreeTyper.Hierarchy
import TreeTyper.Typed.Json
import TreeTyper.Definition
import TreeTyper.Api.Standard
import TreeTyper.Api.Overrides
import TreeTyper.Typing.Operator
import TreeTyper.Typing.Compatible
import TreeTyper.Failure.Cause
import TreeTyper.Diagnostic.Plain
import TreeTyper.Diagnostic.Report
import TreeTyper.Typing.Call
import TreeTyper.Translate.Context
import TreeTyper.Translate.Operand
import TreeTyper.Translate.Call
import TreeTyper.Translate.Container
import TreeTyper.Translate.Loop
import TreeTyper.Translate.Expr
import TreeTyper.Translate.Module
import TreeTyper.Proofs.Nodes
import TreeTyper.Proofs.Run
import TreeTyper.Proofs.Shape
import TreeTyper.Proofs.Law.Basic
import TreeTyper.Proofs.Law.Holds
import TreeTyper.Proofs.Law.Call
import TreeTyper.Proofs.Law.Container
import TreeTyper.Proofs.Law.Loop
import TreeTyper.Proofs.Law.Expr
import TreeTyper.Proofs.Law.Stmt
import TreeTyper.Proofs.Law.Infer
import TreeTyper.Proofs.Parts
import TreeTyper.Proofs.Compatible
import TreeTyper.Proofs.Hereditary
import TreeTyper.Proofs.Plain
import TreeTyper.Proofs.Literal
import TreeTyper.Proofs.Outline
import TreeTyper.Proofs.Definitions
import TreeTyper.Proofs.Law.Module
import TreeTyper.Proofs.Law.Node
import TreeTyper.Proofs.Matching
import TreeTyper.Proofs.Operators
import TreeTyper.Proofs.Reachable
import TreeTyper.Proofs.Declared
import TreeTyper.Proofs.Phases
import TreeTyper.Proofs.Once
import TreeTyper.Proofs.Caller.Locals
import TreeTyper.Proofs.Agreement
import TreeTyper.Proofs.Variables
import TreeTyper.Proofs.Logged
import TreeTyper.Proofs.Gives
import TreeTyper.Proofs.Skeleton
import TreeTyper.Proofs.Origin
import TreeTyper.Proofs.Void
import TreeTyper.Proofs.Emitted
import TreeTyper.Proofs.Faultless
import TreeTyper.Proofs.Sight
import TreeTyper.Proofs.Looking
import TreeTyper.Proofs.Entries
import TreeTyper.Proofs.Fitting
import TreeTyper.Proofs.CallsFit
import TreeTyper.Proofs.InScope
import TreeTyper.Proofs.Flow
import TreeTyper.Proofs.Tails
import TreeTyper.Proofs.Owners
import TreeTyper.Proofs.Positions.Module
import TreeTyper.Proofs.Positions.Nodes
import TreeTyper.Proofs.Positions.Located
import TreeTyper.Proofs.Answers
import TreeTyper.Proofs.Closed
import TreeTyper.Proofs.Forest
import TreeTyper.Proofs.Resolution
import TreeTyper.Proofs.Sharing
import TreeTyper.Proofs.Law.Types
import TreeTyper.Proofs.Placeholders
import TreeTyper.Proofs.Order
import TreeTyper.Proofs.Joins
import TreeTyper.Proofs.Dictionary
import TreeTyper.Proofs.Rebinding
import TreeTyper.Proofs.Constants
import TreeTyper.Proofs.Format.RoundTrip
import TreeTyper.Proofs.Consistency
import TreeTyper.Proofs.Checking
import TreeTyper.Proofs.Storing
import TreeTyper.Proofs.Binding
import TreeTyper.Proofs.Homogeneous
import TreeTyper.Proofs.OperatorTable
import TreeTyper.Proofs.Comparisons
import TreeTyper.Proofs.TypeText.Grammar
import TreeTyper.Proofs.TypeText.RoundTrip
import TreeTyper.Proofs.Overriding
import TreeTyper.Proofs.LoopHeads
import TreeTyper.Proofs.LoopVariables
import TreeTyper.Proofs.ScopeTree
import TreeTyper.Proofs.ClassTree
import TreeTyper.Proofs.TypeForm
import TreeTyper.Proofs.Instances
import TreeTyper.Proofs.Source.Highlight
