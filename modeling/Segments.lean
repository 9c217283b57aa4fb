import Segments.Journal.Stream
import Segments.Main
import Segments.Proofs.Barrier
import Segments.Proofs.Batches
import Segments.Proofs.Callers
import Segments.Proofs.Coherence
import Segments.Proofs.Consistency
import Segments.Proofs.Contents
import Segments.Proofs.Corruption
import Segments.Proofs.Counterpart
import Segments.Proofs.Crash
import Segments.Proofs.Damage
import Segments.Proofs.Delimiting
import Segments.Proofs.Fairness
import Segments.Proofs.Flush
import Segments.Proofs.Footprint
import Segments.Proofs.Guarded
import Segments.Proofs.Inspection
import Segments.Proofs.Invariant
import Segments.Proofs.Lifecycle
import Segments.Proofs.Omission
import Segments.Proofs.Origins
import Segments.Proofs.Overlap
import Segments.Proofs.Recency
import Segments.Proofs.RecordEnds
import Segments.Proofs.Refinement
import Segments.Proofs.Refusal
import Segments.Proofs.Register
import Segments.Proofs.Rollback
import Segments.Proofs.Schedule
import Segments.Proofs.Selection
import Segments.Proofs.Stability
import Segments.Proofs.Tailing
import Segments.Proofs.Threshold
import Segments.Proofs.TicketSets
import Segments.Proofs.Verification
import Segments.Proofs.Waiting
import Segments.Storage.File
import Segments.Trial.Desk
import Segments.Trial.Sample
import Segments.Trial.Session
import Segments.Trial.Solitary
import Segments.Trial.Stress
