import LeastSquares.Decimal.Scientific
import LeastSquares.Dense.Cholesky
import LeastSquares.Dense.FullPivotLu
import LeastSquares.Dense.Kernels
import LeastSquares.Dense.Matrix
import LeastSquares.Dense.Reflection
import LeastSquares.Dense.Report
import LeastSquares.Dense.SingularValues
import LeastSquares.Dense.Solve
import LeastSquares.Dense.Solver
import LeastSquares.Dense.Strategy
import LeastSquares.Dense.Triangular
import LeastSquares.Descent
import LeastSquares.Error
import LeastSquares.Fault
import LeastSquares.Iteration.Basic
import LeastSquares.Iteration.GaussNewton
import LeastSquares.Iteration.Replay
import LeastSquares.Json.Basic
import LeastSquares.Json.Number
import LeastSquares.Json.Parser
import LeastSquares.Json.Printer
import LeastSquares.LineSearch.Backtracking
import LeastSquares.LineSearch.Basic
import LeastSquares.LineSearch.FixedStep
import LeastSquares.Norm
import LeastSquares.Operator
import LeastSquares.Proofs.Decimal.Scientific
import LeastSquares.Proofs.Dense.Admission
import LeastSquares.Proofs.Dense.AutomaticChoice
import LeastSquares.Proofs.Dense.Columns
import LeastSquares.Proofs.Dense.LowerTriangle
import LeastSquares.Proofs.Dense.Memory
import LeastSquares.Proofs.Dense.Misuse
import LeastSquares.Proofs.Dense.OperatorEnds
import LeastSquares.Proofs.Dense.Verdict
import LeastSquares.Proofs.Exact.AffineRun
import LeastSquares.Proofs.Exact.Backtracking
import LeastSquares.Proofs.Exact.BacktrackingRun
import LeastSquares.Proofs.Exact.DenseSolve
import LeastSquares.Proofs.Exact.Factorizations
import LeastSquares.Proofs.Exact.FixedRate
import LeastSquares.Proofs.Exact.InverseOperator
import LeastSquares.Proofs.Exact.Jacobian
import LeastSquares.Proofs.Exact.LinearMaps
import LeastSquares.Proofs.Exact.Minimiser
import LeastSquares.Proofs.Exact.NestedTests
import LeastSquares.Proofs.Exact.NewtonRay
import LeastSquares.Proofs.Exact.NewtonSteps
import LeastSquares.Proofs.Exact.Norms
import LeastSquares.Proofs.Exact.Number
import LeastSquares.Proofs.Exact.RefusedStep
import LeastSquares.Proofs.Exact.Shortest
import LeastSquares.Proofs.Exact.SingleUnknown
import LeastSquares.Proofs.Exact.SingularValues
import LeastSquares.Proofs.Exact.Stationary
import LeastSquares.Proofs.Exact.StepSizes
import LeastSquares.Proofs.Exact.Stopping
import LeastSquares.Proofs.Exact.Substitution
import LeastSquares.Proofs.Exact.Tolerance
import LeastSquares.Proofs.Exact.Truncation
import LeastSquares.Proofs.Exact.Vector
import LeastSquares.Proofs.FiniteOrder
import LeastSquares.Proofs.FiniteSums
import LeastSquares.Proofs.Floating.Binary
import LeastSquares.Proofs.Floating.Decimals
import LeastSquares.Proofs.Floating.Extended
import LeastSquares.Proofs.Floating.Magnitudes
import LeastSquares.Proofs.Floating.Nearest
import LeastSquares.Proofs.Floating.Normalization
import LeastSquares.Proofs.Floating.Norms
import LeastSquares.Proofs.Floating.Operations
import LeastSquares.Proofs.Floating.Packing
import LeastSquares.Proofs.Floating.RankTolerance
import LeastSquares.Proofs.Floating.Rounding
import LeastSquares.Proofs.Floating.Stopping
import LeastSquares.Proofs.Floating.Unbounded
import LeastSquares.Proofs.Iteration.Agreement
import LeastSquares.Proofs.Iteration.Answers
import LeastSquares.Proofs.Iteration.Comparison
import LeastSquares.Proofs.Iteration.EarliestSuccess
import LeastSquares.Proofs.Iteration.Exits
import LeastSquares.Proofs.Iteration.Faultless
import LeastSquares.Proofs.Iteration.FiniteObjective
import LeastSquares.Proofs.Iteration.FirstTest
import LeastSquares.Proofs.Iteration.History
import LeastSquares.Proofs.Iteration.Misfit
import LeastSquares.Proofs.Iteration.Newton
import LeastSquares.Proofs.Iteration.NonFiniteResidual
import LeastSquares.Proofs.Iteration.Restart
import LeastSquares.Proofs.Iteration.SearchStart
import LeastSquares.Proofs.Iteration.SpentBudget
import LeastSquares.Proofs.Iteration.StepEnds
import LeastSquares.Proofs.Iteration.Throwing
import LeastSquares.Proofs.Iteration.Trajectory
import LeastSquares.Proofs.Json.Doubles
import LeastSquares.Proofs.Json.Text
import LeastSquares.Proofs.LineSearch.BestTrial
import LeastSquares.Proofs.LineSearch.Ends
import LeastSquares.Proofs.LineSearch.FirstAcceptable
import LeastSquares.Proofs.LineSearch.FirstTrial
import LeastSquares.Proofs.LineSearch.ImmediateRefusal
import LeastSquares.Proofs.LineSearch.Throwing
import LeastSquares.Proofs.LineSearch.TrialSequence
import LeastSquares.Proofs.Operator.UnitImages
import LeastSquares.Proofs.Outcome
import LeastSquares.Proofs.Representation.Flat
import LeastSquares.Proofs.Representation.Operator
import LeastSquares.Proofs.Representation.Run
import LeastSquares.Proofs.Representation.Search
import LeastSquares.Proofs.Scaling
import LeastSquares.Proofs.Settings.Defaults
import LeastSquares.Proofs.Settings.Fields
import LeastSquares.Proofs.Settings.RoundTrip
import LeastSquares.Proofs.SpecialValues
import LeastSquares.Proofs.Stopping
import LeastSquares.Proofs.Tree.ArraySize
import LeastSquares.Proofs.Tree.Leafwise
import LeastSquares.Proofs.Tree.RoundTrip
import LeastSquares.Residual.Basic
import LeastSquares.Residual.Family
import LeastSquares.Scalar
import LeastSquares.Settings.Format
import LeastSquares.Settings.Record
import LeastSquares.Status
import LeastSquares.Stopping
import LeastSquares.Tree.Arithmetic
import LeastSquares.Tree.Basic
import LeastSquares.Tree.Keys
import LeastSquares.Tree.Layout
import LeastSquares.Tree.Lemmas
