import Llam.PublicSlot.Encoding
import Llam.PublicSlot.ActiveOp
import Llam.Lease.Exclusive
import Llam.Mutex.Contract
import Llam.Reclaim.Contract
import Llam.Blocking.Contract
import Llam.Deque.Contract
import Llam.Structured.Accounting
import Llam.Structured.Ownership
import Llam.Broker.Channels
import Llam.Ring.FailClosed
import Llam.Service.Undelivered
import Llam.Service.Forgotten
import Llam.Timer.Moved
import Llam.Timer.Contract
import Llam.Wait.Handshake
import Llam.Wait.Successive
import Llam.Rehome.Watch
import Llam.RunQueue.Depth
import Llam.TaskLocal.Keys
import Llam.Wait.Resolvers
