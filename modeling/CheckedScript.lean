import CheckedScript.Main
import CheckedScript.Session
import CheckedScript.Proofs.Accepting
import CheckedScript.Proofs.Agreement
import CheckedScript.Proofs.Brackets
import CheckedScript.Proofs.BreakOrder
import CheckedScript.Proofs.BreakRule
import CheckedScript.Proofs.Breaks
import CheckedScript.Proofs.Checking
import CheckedScript.Proofs.CommentLines
import CheckedScript.Proofs.Coverage
import CheckedScript.Proofs.Crossing
import CheckedScript.Proofs.DataText
import CheckedScript.Proofs.Decimals
import CheckedScript.Proofs.Defining
import CheckedScript.Proofs.Deriving
import CheckedScript.Proofs.Discipline
import CheckedScript.Proofs.DisciplinedStates
import CheckedScript.Proofs.Dividing
import CheckedScript.Proofs.Endings
import CheckedScript.Proofs.Exchange
import CheckedScript.Proofs.Expansion
import CheckedScript.Proofs.Finiteness
import CheckedScript.Proofs.FrontEnd
import CheckedScript.Proofs.FunctionTable
import CheckedScript.Proofs.Grammar
import CheckedScript.Proofs.History
import CheckedScript.Proofs.Joining
import CheckedScript.Proofs.Lexical
import CheckedScript.Proofs.Limits
import CheckedScript.Proofs.Locating
import CheckedScript.Proofs.Lockstep
import CheckedScript.Proofs.Lookahead
import CheckedScript.Proofs.Nesting
import CheckedScript.Proofs.NormalForms
import CheckedScript.Proofs.Numerals
import CheckedScript.Proofs.Operators
import CheckedScript.Proofs.Outcome
import CheckedScript.Proofs.Outline
import CheckedScript.Proofs.Parsing
import CheckedScript.Proofs.Passes
import CheckedScript.Proofs.Paths
import CheckedScript.Proofs.PlacedRuns
import CheckedScript.Proofs.Places
import CheckedScript.Proofs.Plain
import CheckedScript.Proofs.Prefixes
import CheckedScript.Proofs.Preservation
import CheckedScript.Proofs.Printed
import CheckedScript.Proofs.Purity
import CheckedScript.Proofs.Quiet
import CheckedScript.Proofs.Reach
import CheckedScript.Proofs.Rebuilding
import CheckedScript.Proofs.Recognition
import CheckedScript.Proofs.Recursion
import CheckedScript.Proofs.Refusals
import CheckedScript.Proofs.RelocatedScopes
import CheckedScript.Proofs.Relocation
import CheckedScript.Proofs.Replay
import CheckedScript.Proofs.Rounding
import CheckedScript.Proofs.Rules
import CheckedScript.Proofs.Running
import CheckedScript.Proofs.ScriptMode
import CheckedScript.Proofs.Sentences
import CheckedScript.Proofs.Sessions
import CheckedScript.Proofs.Shape
import CheckedScript.Proofs.Shifting
import CheckedScript.Proofs.Sound
import CheckedScript.Proofs.Spacing
import CheckedScript.Proofs.Spanless
import CheckedScript.Proofs.States
import CheckedScript.Proofs.Steps
import CheckedScript.Proofs.Subtrees
import CheckedScript.Proofs.Terminals
import CheckedScript.Proofs.Termination
import CheckedScript.Proofs.Tokens
import CheckedScript.Proofs.TopLevel
import CheckedScript.Proofs.Tracing
import CheckedScript.Proofs.TreeEquality
import CheckedScript.Proofs.TreeRuns
import CheckedScript.Proofs.TypeSafety
import CheckedScript.Proofs.Unbroken
import CheckedScript.Proofs.Widening
import CheckedScript.Proofs.WrittenTrees
