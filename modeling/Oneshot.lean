import Oneshot.Commute
import Oneshot.Conc.Cell
import Oneshot.Conc.Delay
import Oneshot.Conc.Fair
import Oneshot.Conc.Linearize
import Oneshot.Conc.Outline
import Oneshot.Conc.Pace
import Oneshot.Conc.Relaxed
import Oneshot.Conc.Run
import Oneshot.Conc.Settle
import Oneshot.Conc.Trace
import Oneshot.Conc.Unwind
import Oneshot.Conc.Views
import Oneshot.Properties.Allocation
import Oneshot.Properties.Atomic
import Oneshot.Properties.Await
import Oneshot.Properties.Calls
import Oneshot.Properties.Deallocation
import Oneshot.Properties.Freed
import Oneshot.Properties.HappensBefore
import Oneshot.Properties.HeapSafe
import Oneshot.Properties.Isolation
import Oneshot.Properties.Linear
import Oneshot.Properties.Message
import Oneshot.Properties.Ordering
import Oneshot.Properties.Panic
import Oneshot.Properties.Promises
import Oneshot.Properties.Promptness
import Oneshot.Properties.Races
import Oneshot.Properties.Returns
import Oneshot.Properties.Sequential
import Oneshot.Properties.Standing
import Oneshot.Properties.TaskWaker
import Oneshot.Properties.Timeout
import Oneshot.Properties.Unreachable
import Oneshot.Properties.WakerCell
import Oneshot.Properties.Wakeup
import Oneshot.Properties.WeakAllocation
import Oneshot.Properties.WeakMessage
import Oneshot.Properties.WeakWakeup
import Oneshot.Protocol.Agreement
import Oneshot.Protocol.Async
import Oneshot.Protocol.Patience
import Oneshot.Protocol.Recovery
import Oneshot.Protocol.Refinement
import Oneshot.Protocol.Send
import Oneshot.Protocol.Staleness
import Oneshot.Protocol.Sync
import Oneshot.Receiver
import Oneshot.Sender
import Oneshot.Shared
import Oneshot.System
import Oneshot.Unwind
import Oneshot.Weak
