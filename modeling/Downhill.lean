import Downhill.Formula.Basic
import Downhill.Formula.Lexer
import Downhill.Objective.Benchmark
import Downhill.Descent
import Downhill.Simplex.InPlace
import Downhill.Descent.InPlace
import Downhill.Trial
import Downhill.Service.Basic
import Downhill.Service.Wire
import Downhill.Proofs.Formula.Acceptance
import Downhill.Proofs.Formula.Meaning
import Downhill.Proofs.Formula.Unknowns
import Downhill.Proofs.Formula.LongestMatch
import Downhill.Proofs.Formula.Viable
import Downhill.Proofs.Formula.Rearrangement
import Downhill.Proofs.Formula.Stack
import Downhill.Proofs.Formula.Table
import Downhill.Proofs.Descent.Trajectory
import Downhill.Proofs.Service.Outcome
import Downhill.Proofs.Service.Minimum
import Downhill.Proofs.Simplex.Slots
import Downhill.Proofs.Simplex.Lockstep
import Downhill.Proofs.Float.Difference
import Downhill.Proofs.Simplex.Run
import Downhill.Proofs.Service.Refusal
import Downhill.Proofs.Service.Constant
import Downhill.Proofs.Simplex.Reachable
import Downhill.Proofs.Simplex.Unanswered
import Downhill.Proofs.Simplex.Stale
import Downhill.Proofs.Service.Coordinates
import Downhill.Proofs.Simplex.Comparisons
import Downhill.Proofs.Service.Leeway
import Downhill.Proofs.Service.Renaming
import Downhill.Proofs.Service.Respelling
import Downhill.Proofs.Simplex.Anew
import Downhill.Proofs.Descent.Faults
import Downhill.Proofs.Service.Report
import Downhill.Proofs.Descent.Trial
import Downhill.Proofs.Service.Wire
import Downhill.Proofs.Simplex.Distinct
import Downhill.Proofs.Formula.Words
