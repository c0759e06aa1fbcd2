import DiceNotation.CommandLine.Argument
import DiceNotation.CommandLine.Json
import DiceNotation.CommandLine.Report
import DiceNotation.CommandLine.Request
import DiceNotation.Config
import DiceNotation.Evaluation.Evaluate
import DiceNotation.Limits
import DiceNotation.Main
import DiceNotation.Node.Render
import DiceNotation.Node.Walk
import DiceNotation.OrderedMap
import DiceNotation.Parser.Expression
import DiceNotation.Random
import DiceNotation.Roll
import DiceNotation.Toml.Document
import DiceNotation.Proofs.Expr
import DiceNotation.Proofs.Grammar
import DiceNotation.Proofs.Gaps
import DiceNotation.Proofs.Numeral
import DiceNotation.Proofs.Parsing.Step
import DiceNotation.Proofs.Parsing.Dice
import DiceNotation.Proofs.Parsing.Expression
import DiceNotation.Proofs.Parsing.Acceptance
import DiceNotation.Proofs.Lexing
import DiceNotation.Proofs.Parsing.Language
import DiceNotation.Proofs.Parsing.Ebnf
import DiceNotation.Proofs.Printing.Legible
import DiceNotation.Proofs.Printing.Text
import DiceNotation.Proofs.Printing.Scanning
import DiceNotation.Proofs.Tokenization
import DiceNotation.Proofs.Printing.Reading
import DiceNotation.Proofs.Printing.RoundTrip
import DiceNotation.Proofs.Printing.Dice
import DiceNotation.Proofs.Printing.Parentheses
import DiceNotation.Proofs.Semantics.Dice
import DiceNotation.Proofs.Semantics.Meaning
import DiceNotation.Proofs.Semantics.Simulation
import DiceNotation.Proofs.Semantics.DiceNodes
import DiceNotation.Proofs.Semantics.Rolling
import DiceNotation.Proofs.Semantics.Constructs
import DiceNotation.Proofs.Semantics.Refinement
import DiceNotation.Proofs.Range.Rounding
import DiceNotation.Proofs.Range.InRange
import DiceNotation.Proofs.Range.Safety
import DiceNotation.Proofs.Range.Names
import DiceNotation.Proofs.Range.Totality
import DiceNotation.Proofs.Trees.Preorder
import DiceNotation.Proofs.Trees.Walk
import DiceNotation.Proofs.Trees.WellFormed
import DiceNotation.Proofs.Parsing.Recovery
import DiceNotation.Proofs.Printing.Fragment
import DiceNotation.Proofs.Parsing.Termination
import DiceNotation.Proofs.Semantics.Contract
import DiceNotation.Proofs.Trees.Dice
import DiceNotation.Proofs.Trees.Expansion
import DiceNotation.Proofs.Trees.Evaluable
import DiceNotation.Proofs.Trees.Rolls
import DiceNotation.Proofs.Trees.Evaluation
import DiceNotation.Proofs.Trees.Consistency
import DiceNotation.Proofs.Limits.Following
import DiceNotation.Proofs.Limits.Widening
import DiceNotation.Proofs.Semantics.Requests
import DiceNotation.Proofs.Trees.Faces
import DiceNotation.Proofs.Trees.Rolled
import DiceNotation.Proofs.Trees.Sums
import DiceNotation.Proofs.Trees.Visits
import DiceNotation.Proofs.Trees.Targets
import DiceNotation.Proofs.Trees.Successes
import DiceNotation.Proofs.Trees.Determinism
import DiceNotation.Proofs.Trees.Notes
import DiceNotation.Proofs.Trees.Draws
import DiceNotation.Proofs.Repetition.Mirroring
import DiceNotation.Proofs.Repetition.Unrolling
import DiceNotation.Proofs.Repetition.Nodes
import DiceNotation.Proofs.Repetition.Evaluation
import DiceNotation.Proofs.Arithmetic.Notation
import DiceNotation.Proofs.Arithmetic.Rolling
import DiceNotation.Proofs.Memory.Contract
import DiceNotation.Proofs.Memory.Stuck
import DiceNotation.Proofs.Memory.Failure
import DiceNotation.Proofs.Memory.Retry
import DiceNotation.Proofs.Memory.Realization
import DiceNotation.Proofs.Memory.Evolved
import DiceNotation.Proofs.Memory.Resumption
import DiceNotation.Proofs.Memory.Order
import DiceNotation.Proofs.Range.Finite
import DiceNotation.Proofs.Trees.Overflow
import DiceNotation.Proofs.Printing.Showable
import DiceNotation.Proofs.Parsing.Bisimulation
import DiceNotation.Proofs.Parsing.Streams
import DiceNotation.Proofs.Parsing.Positions
import DiceNotation.Proofs.Parsing.MissingOperands
import DiceNotation.Proofs.Parsing.Layout
import DiceNotation.Proofs.Trees.Printable
import DiceNotation.Proofs.Printing.Breakdown
import DiceNotation.Proofs.Modifiers.Operand
import DiceNotation.Proofs.Modifiers.Runs
import DiceNotation.Proofs.Modifiers.Exploding
import DiceNotation.Proofs.Modifiers.Rerolling
import DiceNotation.Proofs.Modifiers.Ranking
import DiceNotation.Proofs.Modifiers.Selecting
import DiceNotation.Proofs.Range.Nearest
import DiceNotation.Proofs.Range.HalfUp
import DiceNotation.Proofs.Range.Written
import DiceNotation.Proofs.Range.Packing
import DiceNotation.Proofs.Range.Powers
import DiceNotation.Proofs.Range.Exact
import DiceNotation.Proofs.Modifiers.LiveFaces
import DiceNotation.Proofs.Modifiers.Complements
import DiceNotation.Proofs.Modifiers.Layers
import DiceNotation.Proofs.Modifiers.RankingLayers
import DiceNotation.Proofs.Modifiers.AnyOrder
import DiceNotation.Proofs.Modifiers.Changes
import DiceNotation.Proofs.Modifiers.Treating
import DiceNotation.Proofs.Modifiers.Dropped
import DiceNotation.Proofs.FunctionTables
import DiceNotation.Proofs.Modifiers.Sorting
import DiceNotation.Proofs.Limits.AllOrNothing
import DiceNotation.Proofs.Toml.Documents
import DiceNotation.Proofs.Configuration
