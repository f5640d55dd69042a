import LinearProgramming.Main
import LinearProgramming.Proofs.Certificate
import LinearProgramming.Proofs.Defects
import LinearProgramming.Proofs.Exact.BasisExchange
import LinearProgramming.Proofs.Exact.Duality
import LinearProgramming.Proofs.Exact.Nondegeneracy
import LinearProgramming.Proofs.Exact.RatioTest
import LinearProgramming.Proofs.Exact.Unboundedness
import LinearProgramming.Proofs.Indexing.InPlace
import LinearProgramming.Proofs.Indexing.Safety
import LinearProgramming.Proofs.Log.Replay
import LinearProgramming.Proofs.Sessions
import LinearProgramming.Proofs.Tableau.Binary64
import LinearProgramming.Proofs.Tableau.EnteringColumn
import LinearProgramming.Proofs.Tableau.LeavingRow
import LinearProgramming.Proofs.Tableau.Resumption
import LinearProgramming.Proofs.Tableau.Verdict
import LinearProgramming.Proofs.Text.Tables
import LinearProgramming.Proofs.Violations.Tolerance
