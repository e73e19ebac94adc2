import RunesIndexer.Lib.FinMap
import RunesIndexer.Lib.Resumption
import RunesIndexer.Lib.Fold
import RunesIndexer.Lib.Simulation
import RunesIndexer.Lib.Safety
import RunesIndexer.Lib.Interruption
import RunesIndexer.Lib.Replay
import RunesIndexer.Lib.Shares
import RunesIndexer.Lib.HashChain
import RunesIndexer.Lib.Monitor
import RunesIndexer.Lib.Trace
import RunesIndexer.Lib.Merkle
import RunesIndexer.Lib.Interference
import RunesIndexer.Lib.Numeration
import RunesIndexer.Lib.Serial
import RunesIndexer.Model.Types
import RunesIndexer.Model.Entry
import RunesIndexer.Model.Store
import RunesIndexer.Model.RuneUpdater
import RunesIndexer.Model.Updater
import RunesIndexer.Model.Sample
import RunesIndexer.Spec.Transaction
import RunesIndexer.Spec.Ledger
import RunesIndexer.Spec.Block
import RunesIndexer.Spec.Phases
import RunesIndexer.Spec.Order
import RunesIndexer.Spec.Rollback
import RunesIndexer.Spec.Window
import RunesIndexer.Spec.UndoWindow
import RunesIndexer.Spec.Run
import RunesIndexer.Spec.Undo
import RunesIndexer.Spec.Exact
import RunesIndexer.Spec.History
import RunesIndexer.Spec.Mints
import RunesIndexer.Spec.Registry
import RunesIndexer.Spec.Conservation
import RunesIndexer.Model.Query
import RunesIndexer.Model.Canister
import RunesIndexer.Spec.Outpoints
import RunesIndexer.Spec.Amounts
import RunesIndexer.Spec.Congruence
import RunesIndexer.Spec.Canonical
import RunesIndexer.Spec.Totality
import RunesIndexer.Spec.Bounds
import RunesIndexer.Spec.NoTrap
import RunesIndexer.Spec.MidBlock
import RunesIndexer.Spec.Quiet
import RunesIndexer.Spec.Advance
import RunesIndexer.Spec.Retry
import RunesIndexer.Spec.Asking
import RunesIndexer.Spec.Allocation
import RunesIndexer.Spec.Settlement
import RunesIndexer.Spec.Outcome
import RunesIndexer.Spec.Commitment
import RunesIndexer.Spec.Fork
import RunesIndexer.Spec.ReorgDepth
import RunesIndexer.Spec.Since
import RunesIndexer.Spec.Numbers
import RunesIndexer.Spec.Install
import RunesIndexer.Model.Rpc
import RunesIndexer.Spec.Ranges
import RunesIndexer.Spec.Authentic
import RunesIndexer.Spec.Queries
import RunesIndexer.Model.Schedule
import RunesIndexer.Spec.Controls
import RunesIndexer.Spec.Schedule
import RunesIndexer.Spec.SingleLoop
import RunesIndexer.Model.Text
import RunesIndexer.Model.Stored
import RunesIndexer.Spec.Names
import RunesIndexer.Spec.Stored
import RunesIndexer.Spec.MintWindow
import RunesIndexer.Spec.Headers
import RunesIndexer.Spec.Progress
import RunesIndexer.Spec.Lookup
import RunesIndexer.Spec.Permuted
import RunesIndexer.Lib.Handler
import RunesIndexer.Lib.Calls
import RunesIndexer.Lib.Mirror
import RunesIndexer.Lib.Convergence
import RunesIndexer.Model.Values
import RunesIndexer.Model.Gateway
import RunesIndexer.Spec.Iteration
import RunesIndexer.Spec.Notify
import RunesIndexer.Spec.Requests
import RunesIndexer.Spec.Gateway
import RunesIndexer.Spec.Converge
import RunesIndexer.Lib.Frame
import RunesIndexer.Lib.Drain
import RunesIndexer.Spec.Frame
import RunesIndexer.Spec.Stop
import RunesIndexer.Model.Memory
import RunesIndexer.Spec.Memory
import RunesIndexer.Spec.Fits
import RunesIndexer.Spec.Entries
import RunesIndexer.Spec.Etchings
import RunesIndexer.Spec.Protocol
import RunesIndexer.Spec.Refinement
import RunesIndexer.Spec.Answers
import RunesIndexer.Spec.Total
