import TorchDsp.Foundation.Run
import TorchDsp.Foundation.Ledger
import TorchDsp.Foundation.Loop
import TorchDsp.Foundation.Ownership
import TorchDsp.Foundation.Numeral
import TorchDsp.Foundation.Heap
import TorchDsp.Foundation.Streams
import TorchDsp.Runtime.Buffer
import TorchDsp.Executor.Negotiation
import TorchDsp.Executor.Iteration
import TorchDsp.Executor.WorkLoop
import TorchDsp.Executor.Course
import TorchDsp.Executor.Accounting
import TorchDsp.Executor.Placement
import TorchDsp.Executor.Steps
import TorchDsp.Executor.InputBound
import TorchDsp.Executor.OutputBound
import TorchDsp.Executor.OutputCheck
import TorchDsp.Executor.BlockedIteration
import TorchDsp.Executor.Unclog
import TorchDsp.Executor.Notifications
import TorchDsp.Executor.ChainAccounting
import TorchDsp.Executor.Waiting
import TorchDsp.Executor.PortAccess
import TorchDsp.Executor.Endings
import TorchDsp.Executor.Termination
import TorchDsp.Executor.Phases
import TorchDsp.Executor.PhaseEffects
import TorchDsp.Executor.Readiness
import TorchDsp.Executor.Interleaving
import TorchDsp.Executor.OneBlock
import TorchDsp.Executor.Multiples
import TorchDsp.Triton.Model
import TorchDsp.Triton.Request
import TorchDsp.Triton.Metadata
import TorchDsp.Triton.Document
import TorchDsp.Triton.Alignment
import TorchDsp.Triton.Bounds
import TorchDsp.Triton.Outcome
import TorchDsp.Triton.Handoff
import TorchDsp.Triton.SharedBuffer
import TorchDsp.Triton.Leaks
import TorchDsp.Triton.SegmentKeys
import TorchDsp.Triton.History
import TorchDsp.Triton.Objects
import TorchDsp.Triton.Moves
import TorchDsp.Protocol.Basic
import TorchDsp.Protocol.Waiting
import TorchDsp.Protocol.Sequencing
import TorchDsp.Protocol.Mutex
import TorchDsp.Protocol.Lifetime
import TorchDsp.Protocol.Release
import TorchDsp.Protocol.Recorded
import TorchDsp.Wrapper.Basic
import TorchDsp.Wrapper.Steps
import TorchDsp.Wrapper.Flush
import TorchDsp.Wrapper.FlushedOnce
import TorchDsp.Wrapper.DoneReport
import TorchDsp.Wrapper.Exit
import TorchDsp.Wrapper.Wakeups
import TorchDsp.Wrapper.Stranded
import TorchDsp.Wrapper.Controller
import TorchDsp.Wrapper.Stopping
import TorchDsp.Wrapper.Budget
import TorchDsp.Wrapper.Pair
import TorchDsp.Wrapper.Order
import TorchDsp.Wrapper.Parameters
import TorchDsp.Wrapper.Session
import TorchDsp.Flowgraph.Basic
import TorchDsp.Flowgraph.Wakeups
import TorchDsp.Flowgraph.Seen
import TorchDsp.Flowgraph.Blocked
import TorchDsp.Flowgraph.Views
import TorchDsp.Flowgraph.Network
import TorchDsp.Flowgraph.Pipeline
import TorchDsp.Flowgraph.Supply
import TorchDsp.Flowgraph.Capacity
import TorchDsp.Flowgraph.Items
import TorchDsp.Flowgraph.Atomic
import TorchDsp.Flowgraph.Pairs
