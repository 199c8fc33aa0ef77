import Calculator.Main
import Calculator.Tree.Draft
import Calculator.Proofs.Descent
import Calculator.Proofs.OpenDepth
import Calculator.Proofs.Verdict
import Calculator.Proofs.Program
import Calculator.Proofs.NumberGrammar
import Calculator.Proofs.LongestRun
import Calculator.Proofs.LiteralPrefix
import Calculator.Proofs.NumeralOfLiteral
import Calculator.Proofs.Place
import Calculator.Proofs.Lexeme
import Calculator.Proofs.Spacing
import Calculator.Proofs.ScannerCalls
import Calculator.Proofs.IdentifierGrammar
import Calculator.Proofs.Acceptance
import Calculator.Proofs.EarliestError
import Calculator.Proofs.WalkDepth
import Calculator.Proofs.Closure
import Calculator.Proofs.CutShort
import Calculator.Proofs.Targets
import Calculator.Proofs.Separation
import Calculator.Proofs.FirstFault
import Calculator.Proofs.Resumption
import Calculator.Proofs.Session
import Calculator.Proofs.Nearest
import Calculator.Proofs.ShortestDecimal
import Calculator.Proofs.ReadBack
import Calculator.Proofs.Respacing
import Calculator.Proofs.Relocation
import Calculator.Proofs.Reprint
import Calculator.Proofs.Parallel
import Calculator.Proofs.Relayout
import Calculator.Proofs.Lines
import Calculator.Proofs.Marking
import Calculator.Proofs.ReadNames
import Calculator.Proofs.ConstantNames
import Calculator.Proofs.Overflow
import Calculator.Proofs.Obstacle
import Calculator.Proofs.SettingsFailure
import Calculator.Proofs.Traversal
import Calculator.Proofs.FirstUnbound
import Calculator.Proofs.Composition
import Calculator.Proofs.Comparisons
import Calculator.Proofs.JsonText
import Calculator.Proofs.DumpedTree
import Calculator.Proofs.EvalCommand
