import DagScheduler.Lib.Bytes
import DagScheduler.Lib.Dependency
import DagScheduler.Lib.Loop
import DagScheduler.Lib.Program
import DagScheduler.Lib.Pool
import DagScheduler.Lib.Reader
import DagScheduler.Lib.Table
import DagScheduler.Lib.Trace
import DagScheduler.Lib.Unchecked
import DagScheduler.Lib.Utf8
import DagScheduler.Lib.Refine
import DagScheduler.Lib.Rekey
import DagScheduler.Lib.Utf8Order
import DagScheduler.Lib.Board
import DagScheduler.Lib.Reading
import DagScheduler.Lib.Admits
import DagScheduler.Model.Records
import DagScheduler.Model.Dag
import DagScheduler.Model.Store
import DagScheduler.Model.Coordinator
import DagScheduler.Model.Run
import DagScheduler.Model.Faults
import DagScheduler.Model.Serialization
import DagScheduler.Model.Stream
import DagScheduler.Model.Worker
import DagScheduler.Model.Disk
import DagScheduler.Model.Service
import DagScheduler.Dag.Adjacency
import DagScheduler.Dag.Accepted
import DagScheduler.Dag.Search
import DagScheduler.Store.Transactions
import DagScheduler.Store.Coherent
import DagScheduler.Store.Codec
import DagScheduler.Store.Preservation
import DagScheduler.Store.Disk
import DagScheduler.Store.Changes
import DagScheduler.Coordinator.Rules
import DagScheduler.Coordinator.Skip
import DagScheduler.Coordinator.Effects
import DagScheduler.Coordinator.Startup
import DagScheduler.Coordinator.Invariant
import DagScheduler.Coordinator.Runs
import DagScheduler.Coordinator.Steps
import DagScheduler.Coordinator.Alive
import DagScheduler.Coordinator.Points
import DagScheduler.Coordinator.Moves
import DagScheduler.Coordinator.Flow
import DagScheduler.Coordinator.Steady
import DagScheduler.Coordinator.Grounded
import DagScheduler.Coordinator.Ownership
import DagScheduler.Coordinator.Continues
import DagScheduler.Coordinator.Uses
import DagScheduler.Properties.Ages
import DagScheduler.Properties.Agreement
import DagScheduler.Properties.CancelRace
import DagScheduler.Properties.Capacity
import DagScheduler.Properties.Delivery
import DagScheduler.Properties.Dependencies
import DagScheduler.Properties.DependencySafety
import DagScheduler.Properties.Encoding
import DagScheduler.Properties.Executions
import DagScheduler.Properties.Faults
import DagScheduler.Properties.Fencing
import DagScheduler.Properties.Finality
import DagScheduler.Properties.Progress
import DagScheduler.Properties.Restart
import DagScheduler.Properties.Interruption
import DagScheduler.Properties.Outcome
import DagScheduler.Properties.Output
import DagScheduler.Properties.Recovery
import DagScheduler.Properties.RetryBound
import DagScheduler.Properties.StoreEffects
import DagScheduler.Properties.Stranding
import DagScheduler.Properties.Submission
import DagScheduler.Properties.Tracking
import DagScheduler.Properties.Unchecked
import DagScheduler.Properties.Unlocking
import DagScheduler.Properties.Validation
import DagScheduler.Properties.WorkflowFinality
import DagScheduler.Properties.Persistence
import DagScheduler.Properties.Drain
import DagScheduler.Properties.Fairness
import DagScheduler.Properties.Isolation
import DagScheduler.Properties.Provenance
import DagScheduler.Properties.Refinement
import DagScheduler.Properties.Durability
import DagScheduler.Properties.Traceability
import DagScheduler.Properties.Watchdog
import DagScheduler.Properties.Serving
import DagScheduler.Properties.Status
