import FunctionStudy.Service
import FunctionStudy.Settings.Environment
import FunctionStudy.Proofs.Agreement
import FunctionStudy.Proofs.SignTable.Exact
import FunctionStudy.Proofs.Solution.Atomicity
import FunctionStudy.Proofs.Solution.Scaling
import FunctionStudy.Proofs.Faults.Study
import FunctionStudy.Proofs.Equation.Isolation
import FunctionStudy.Proofs.Equation.Forms
import FunctionStudy.Proofs.Evaluation
import FunctionStudy.Proofs.Solution.Factors
import FunctionStudy.Proofs.Solution.Letters
import FunctionStudy.Proofs.Solution.Depth
import FunctionStudy.Proofs.Points.History
import FunctionStudy.Proofs.Study.Order
import FunctionStudy.Proofs.Worksheet
import FunctionStudy.Proofs.Worksheet.Refusal
import FunctionStudy.Proofs.Calculus.Slope
import FunctionStudy.Proofs.Calculus.Inverse
import FunctionStudy.Proofs.Solution.Intercept
import FunctionStudy.Proofs.Solution.Placement
import FunctionStudy.Proofs.Study.Parity
import FunctionStudy.Proofs.Study.Turning
import FunctionStudy.Proofs.Study.Area
import FunctionStudy.Proofs.Member.Sparse
import FunctionStudy.Proofs.Member.Completion
import FunctionStudy.Proofs.Grammar.Refusal
import FunctionStudy.Proofs.Decimal.Display
import FunctionStudy.Proofs.Ruffini.Divisors
import FunctionStudy.Proofs.Points.Names
import FunctionStudy.Proofs.Chunks
import FunctionStudy.Proofs.Study.Written
