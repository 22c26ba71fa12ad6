import Injection.Script.Sample
import Injection.Proofs.WaitingRecord
import Injection.Proofs.Ranking
import Injection.Proofs.Exclusion
import Injection.Proofs.Accounts
import Injection.Proofs.Progress
import Injection.Proofs.Refusal
import Injection.Proofs.Sequence
import Injection.Proofs.Selection
import Injection.Proofs.Hierarchy
import Injection.Proofs.KeyOrder
import Injection.Proofs.Preorder
import Injection.Proofs.Memoization
import Injection.Proofs.Outcomes
import Injection.Proofs.Allotment
import Injection.Proofs.Ownership
import Injection.Proofs.Dependence
import Injection.Proofs.Justification
import Injection.Proofs.Cycles
import Injection.Proofs.Verdict
import Injection.Proofs.Registration
import Injection.Proofs.Composition
import Injection.Proofs.Journal
import Injection.Proofs.Lifespan
import Injection.Proofs.Aftermath
import Injection.Proofs.Propagation
import Injection.Proofs.Failures
import Injection.Proofs.Realm
import Injection.Proofs.Seclusion
import Injection.Proofs.Confinement
import Injection.Proofs.Termination
import Injection.Proofs.Sharing
import Injection.Proofs.Singleton
import Injection.Proofs.Reports
import Injection.Proofs.Inquiry
import Injection.Proofs.Accrual
import Injection.Proofs.Fallback
import Injection.Proofs.Nullability
import Injection.Proofs.Distinction
import Injection.Proofs.Attempts
import Injection.Proofs.Multiplicity
import Injection.Proofs.Upkeep
import Injection.Proofs.Transparency
import Injection.Proofs.Forwarding
import Injection.Proofs.Inclusion
import Injection.Proofs.Validation
import Injection.Proofs.Construction
import Injection.Proofs.Discretion
import Injection.Proofs.Secrecy
import Injection.Proofs.WaitingWalk
import Injection.Proofs.Fingerprint
import Injection.Proofs.Completion
import Injection.Proofs.Decoration
