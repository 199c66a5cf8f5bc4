import ImportQuery.Main
import ImportQuery.Proofs.Eval.CanonicalKey
import ImportQuery.Proofs.Eval.Confinement
import ImportQuery.Proofs.Eval.HiddenTests
import ImportQuery.Proofs.Statements
import ImportQuery.Proofs.HeightBound
import ImportQuery.Proofs.Eval.Faults
import ImportQuery.Proofs.Eval.Inlining
import ImportQuery.Proofs.Eval.Monotonicity
import ImportQuery.Proofs.Eval.Selectors
import ImportQuery.Proofs.Eval.Strictness
import ImportQuery.Proofs.Eval.Subtree
import ImportQuery.Proofs.Token.Language
import ImportQuery.Proofs.Graph.Document
import ImportQuery.Proofs.Expr.Room
import ImportQuery.Proofs.TestSetting
import ImportQuery.Proofs.Graph.Wildcard
import ImportQuery.Proofs.Spellings
import ImportQuery.Proofs.TreeShape
import ImportQuery.Proofs.SyntaxErrors
import ImportQuery.Proofs.Token.FaultPlace
import ImportQuery.Proofs.Outlines
import ImportQuery.Proofs.Eval.Lookups
import ImportQuery.Proofs.Expr.Attempts
import ImportQuery.Proofs.Expr.Rounds
import ImportQuery.Proofs.Token.Progress
