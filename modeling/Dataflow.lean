import Dataflow.Command.Desk
import Dataflow.GenKill
import Dataflow.Main
import Dataflow.Proofs.Acyclic
import Dataflow.Proofs.Agreement
import Dataflow.Proofs.AllPaths
import Dataflow.Proofs.BlockOrder
import Dataflow.Proofs.BlockPaths
import Dataflow.Proofs.Contraction
import Dataflow.Proofs.Confinement
import Dataflow.Proofs.Convergence
import Dataflow.Proofs.EdgeStores
import Dataflow.Proofs.Exactness
import Dataflow.Proofs.Execution
import Dataflow.Proofs.Exits
import Dataflow.Proofs.FailedPreparations
import Dataflow.Proofs.Failing
import Dataflow.Proofs.FixedPoints
import Dataflow.Proofs.Idempotence
import Dataflow.Proofs.Logging
import Dataflow.Proofs.MoveAwareness
import Dataflow.Proofs.Offences
import Dataflow.Proofs.OnePass
import Dataflow.Proofs.PassLoops
import Dataflow.Proofs.QuadTables
import Dataflow.Proofs.Queries
import Dataflow.Proofs.Rearranging
import Dataflow.Proofs.Rebuilding
import Dataflow.Proofs.Removal
import Dataflow.Proofs.RoundTrip
import Dataflow.Proofs.Semilattice
import Dataflow.Proofs.Sharing
import Dataflow.Proofs.Underway
import Dataflow.Query
