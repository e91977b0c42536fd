import Optima.Optimizer.Decision
import Optima.Optimizer.Plan
import Optima.Optimizer.Robust
import Optima.Optimizer.Scenario
import Optima.Input.ConstraintSpec
import Optima.Input.DistributionSpec
import Optima.Input.OutcomeSpec
import Optima.Input.OutcomeText
import Optima.Input.PeriodObjective
import Optima.Input.Trial
import Optima.Input.Vector
import Optima.Proofs.Success
import Optima.Proofs.Scalar.Rank
import Optima.Proofs.Scalar.Binary64
import Optima.Proofs.Scalar.Real
import Optima.Proofs.Vector.Euclid
import Optima.Proofs.Constraint.Violation
import Optima.Proofs.Solver.Run
import Optima.Proofs.Solver.Soundness
import Optima.Proofs.Solver.CallerOrder
import Optima.Proofs.Solver.Multipliers
import Optima.Proofs.Solver.Penalty
import Optima.Proofs.Solver.AugmentedValue
import Optima.Proofs.Solver.AugmentedGradient
import Optima.Proofs.Solver.Slackness
import Optima.Proofs.Solver.Duality
import Optima.Proofs.Solver.Stationarity
import Optima.Proofs.Period.Flat
import Optima.Proofs.Period.Lowering
import Optima.Proofs.Period.Satisfaction
import Optima.Proofs.Period.PlanOutcome
import Optima.Proofs.Robust.Worst
import Optima.Proofs.Robust.Epigraph
import Optima.Proofs.Random.Yields
import Optima.Proofs.Uncertainty.Corners
import Optima.Proofs.Solver.Returns
import Optima.Proofs.Vector.Distinct
import Optima.Proofs.Robust.Rounds
import Optima.Proofs.Robust.Solve
import Optima.Proofs.Robust.Box
import Optima.Proofs.Scalar.Numbers
import Optima.Proofs.Solver.UndefinedResidual
import Optima.Proofs.Robust.Converged
import Optima.Proofs.Robust.WorkingSet
import Optima.Proofs.Scenario.Interleaved
import Optima.Proofs.Scenario.Names
import Optima.Proofs.Scenario.Impossible
import Optima.Proofs.Scenario.SamplingError
import Optima.Proofs.Scalar.Positive
import Optima.Proofs.Solver.CheckedSettings
import Optima.Proofs.Solver.History
import Optima.Proofs.Solver.PenaltyHistory
import Optima.Proofs.Solver.Ends
import Optima.Proofs.Solver.Delivery
import Optima.Proofs.Minimizer.QuasiNewton
import Optima.Proofs.Uncertainty.Samples
import Optima.Proofs.Period.Returns
import Optima.Proofs.Robust.Returns
import Optima.Proofs.Scenario.Returns
import Optima.Proofs.Difficulty
import Optima.Proofs.Solver.Lockstep
import Optima.Proofs.Solver.Nesting
import Optima.Proofs.Solver.Matching
import Optima.Proofs.Solver.Mirror
import Optima.Proofs.Minimizer.Confined
import Optima.Proofs.Solver.Updates
import Optima.Proofs.Solver.Reordered
import Optima.Proofs.Period.SinglePeriod
import Optima.Proofs.Scalar.Zero
import Optima.Proofs.Robust.FirstWorst
import Optima.Proofs.Robust.OneRound
import Optima.Proofs.Uncertainty.Points
import Optima.Proofs.Robust.Degenerate
import Optima.Proofs.Scenario.Scope
import Optima.Proofs.Scenario.Mass
import Optima.Proofs.Scenario.Redistribution
import Optima.Proofs.Vector.Slope
import Optima.Proofs.Solver.GradientOfValue
import Optima.Proofs.Statistics.Weights
import Optima.Proofs.Statistics.Moments
import Optima.Proofs.Uncertainty.Membership
import Optima.Proofs.Triangular.Factor
import Optima.Proofs.Uncertainty.QuadraticForm
import Optima.Proofs.Period.Aggregates
import Optima.Proofs.Period.RoundTrip
import Optima.Proofs.Vector.Coordinates
import Optima.Proofs.Difference
import Optima.Proofs.Solver.DifferenceGradient
import Optima.Proofs.Constraint.Portfolio
import Optima.Proofs.Constraint.Flattening
import Optima.Proofs.Period.Descent
import Optima.Proofs.Scalar.SquareRoot
import Optima.Proofs.Scalar.Quantity
import Optima.Proofs.Random.Counts
import Optima.Proofs.Scenario.Spread
import Optima.Proofs.Vector.Hashing
import Optima.Proofs.Scalar.Rounding
import Optima.Proofs.Scalar.Reciprocal
import Optima.Proofs.Random.Shaped
import Optima.Proofs.Scenario.Numbered
import Optima.Proofs.Scenario.Generated
