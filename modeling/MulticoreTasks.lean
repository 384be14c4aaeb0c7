import MulticoreTasks.Interchange.Reading
import MulticoreTasks.Interchange.Writing
import MulticoreTasks.App.Blueprint
import MulticoreTasks.Audit.Ledger
import MulticoreTasks.Proofs.Reachable
import MulticoreTasks.Proofs.Accessors
import MulticoreTasks.Proofs.Clash
import MulticoreTasks.Proofs.Listing
import MulticoreTasks.Proofs.Postconditions
import MulticoreTasks.Proofs.Verdict
import MulticoreTasks.Proofs.Bookkeeping
import MulticoreTasks.Proofs.Findings
import MulticoreTasks.Proofs.Faults
import MulticoreTasks.Proofs.Acceptance
import MulticoreTasks.Proofs.FirstFault
import MulticoreTasks.Proofs.DeclaredCores
import MulticoreTasks.Proofs.Unreported
import MulticoreTasks.Proofs.Conservation
import MulticoreTasks.Proofs.LockSafety
import MulticoreTasks.Proofs.Obligations
import MulticoreTasks.Proofs.StartupWaits
import MulticoreTasks.Proofs.Declaring
import MulticoreTasks.Proofs.Building
import MulticoreTasks.Proofs.BuiltRouting
import MulticoreTasks.Proofs.Loading
import MulticoreTasks.Proofs.RaisedLimits
import MulticoreTasks.Proofs.Growth
import MulticoreTasks.Proofs.NameIndependence
import MulticoreTasks.Proofs.Attempts
import MulticoreTasks.Proofs.DeclarationOrder
import MulticoreTasks.Proofs.Gathering
import MulticoreTasks.Proofs.SpawnTopology
import MulticoreTasks.Proofs.DelayedSpawns
import MulticoreTasks.Proofs.Survey
import MulticoreTasks.Proofs.Classification
import MulticoreTasks.Proofs.LeastClash
import MulticoreTasks.Proofs.Fitting
import MulticoreTasks.Proofs.History
