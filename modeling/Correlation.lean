import Correlation.Main
import Correlation.Proofs.Alternatives
import Correlation.Proofs.CallGraph
import Correlation.Proofs.Circles
import Correlation.Proofs.Conservative
import Correlation.Proofs.DeclarationOrder
import Correlation.Proofs.Declarations
import Correlation.Proofs.Entries
import Correlation.Proofs.Faults
import Correlation.Proofs.Guarantees
import Correlation.Proofs.Inputs
import Correlation.Proofs.InsertionOrder
import Correlation.Proofs.Keyless
import Correlation.Proofs.MayDefine
import Correlation.Proofs.Outlines
import Correlation.Proofs.Regrouping
import Correlation.Proofs.Reprinting
import Correlation.Proofs.Separation
import Correlation.Proofs.SessionData
import Correlation.Proofs.SessionKeys
import Correlation.Proofs.SingleMode
import Correlation.Proofs.Starters
import Correlation.Proofs.Symmetry
import Correlation.Proofs.Visits
