import Armator.Laws.Address
import Armator.Laws.BitFields
import Armator.Laws.Branch
import Armator.Laws.Breakpoints
import Armator.Laws.Call
import Armator.Laws.Comparison
import Armator.Laws.Conditional
import Armator.Laws.Continue
import Armator.Laws.DebugTable
import Armator.Laws.Debugging
import Armator.Laws.ErrorBuffer
import Armator.Laws.Exceptions
import Armator.Laws.FetchAlignment
import Armator.Laws.Flags
import Armator.Laws.Frame
import Armator.Laws.Framing
import Armator.Laws.HostOrder
import Armator.Laws.Indeterminate
import Armator.Laws.Interleaving
import Armator.Laws.LoadStore
import Armator.Laws.Memory
import Armator.Laws.MemoryEnd
import Armator.Laws.Received
import Armator.Laws.RegisterDump
import Armator.Laws.RegisterShift
import Armator.Laws.Replay
import Armator.Laws.ReplyBuffer
import Armator.Laws.Requests
import Armator.Laws.Results
import Armator.Laws.Rollback
import Armator.Laws.ScaledIndex
import Armator.Laws.Senders
import Armator.Laws.ShiftAmounts
import Armator.Laws.Shifter
import Armator.Laws.SingleRegister
import Armator.Laws.StateText
import Armator.Laws.Status
import Armator.Laws.StoreLoad
import Armator.Laws.TraceFile
import Armator.Laws.TraceStack
import Armator.Laws.TraceText
import Armator.Laws.Transfer
import Armator.Laws.Undefined
import Armator.Laws.UserBank
import Armator.Laws.WordCodec
