import RuleInduction.Learner
import RuleInduction.Fact.Line
import RuleInduction.Mode.Line
import RuleInduction.Random.Generator
import RuleInduction.Settings.Document
import RuleInduction.Proofs.Matching.Assignment
import RuleInduction.Proofs.Matching.Progress
import RuleInduction.Proofs.Search.Run
import RuleInduction.Proofs.Search.Bound
import RuleInduction.Proofs.Search.Subjects
import RuleInduction.Proofs.FreshNames
import RuleInduction.Proofs.Mode.Signatures
import RuleInduction.Proofs.Search.Agreement
import RuleInduction.Proofs.Candidate
import RuleInduction.Proofs.Search.Scopes
import RuleInduction.Proofs.Search.WellModed
import RuleInduction.Proofs.Search.LeaveOneOut
import RuleInduction.Proofs.Matching.UnitWeights
import RuleInduction.Proofs.Search.Greedy
import RuleInduction.Proofs.Background
import RuleInduction.Proofs.Search.Alike
import RuleInduction.Proofs.Learner
import RuleInduction.Proofs.Matching.Chain
import RuleInduction.Proofs.Search.Stop
import RuleInduction.Proofs.Search.Ties
import RuleInduction.Proofs.Line
import RuleInduction.Proofs.Decimal.Numeral
import RuleInduction.Proofs.Fact.Line
import RuleInduction.Proofs.Fact.RoundTrip
import RuleInduction.Proofs.Mode.Line
import RuleInduction.Proofs.Literal
import RuleInduction.Proofs.Settings.File
import RuleInduction.Proofs.Learner.Attempts
import RuleInduction.Proofs.Matching.Monotone
import RuleInduction.Proofs.Matching.SecondPass
import RuleInduction.Proofs.Candidate.Admitted
import RuleInduction.Proofs.Candidate.Reachable
import RuleInduction.Proofs.Search.Supply
import RuleInduction.Proofs.Criterion
import RuleInduction.Proofs.Learner.Scores
import RuleInduction.Proofs.FreshNames.Supply
import RuleInduction.Proofs.Selection.Roulette
import RuleInduction.Proofs.Criterion.Magnitude
import RuleInduction.Proofs.Search.Wheel
import RuleInduction.Proofs.Store.Merge
import RuleInduction.Proofs.Settings.Resolve
import RuleInduction.Proofs.Learner.Samples
