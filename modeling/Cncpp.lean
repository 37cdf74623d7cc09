import Cncpp.Net.Buffer.BaseBuffer
import Cncpp.Loop.Bounded
import Cncpp.Transition.Run
import Cncpp.Net.Buffer.Message
import Cncpp.Net.Buffer.Lifecycle.Correctness
import Cncpp.Net.RingBuffer.Core
import Cncpp.Net.RingBuffer.Correctness
import Cncpp.Net.RingBuffer.Fifo
import Cncpp.Stream.Framing
import Cncpp.Net.Session.Core
import Cncpp.Net.Session.Receive
import Cncpp.Net.Session.Segmentation
import Cncpp.Net.Session.RoundTrip
import Cncpp.Net.Session.Send
import Cncpp.Queue.LinkedChain
import Cncpp.Queue.NonIntrusive.Core
import Cncpp.Queue.NonIntrusive.Correctness
import Cncpp.ConnPool.Core
import Cncpp.ConnPool.Ledger
import Cncpp.ConnPool.Exclusive
import Cncpp.ConnPool.ScopedConn
import Cncpp.ConnPool.Transaction
import Cncpp.Account.Places
import Cncpp.Task.Conservation
import Cncpp.Redis.Core
import Cncpp.Net.Accepter
import Cncpp.Redis.Placement
import Cncpp.Thread.Life
import Cncpp.Queue.Intrusive.Core
import Cncpp.Queue.Intrusive.Correctness
import Cncpp.Net.RingBuffer.Ownership
import Cncpp.Net.Session.Process
import Cncpp.Batch.Greedy
import Cncpp.Mysql.ReplaceAll
import Cncpp.Mysql.PacketLimit
import Cncpp.Mysql.Stock
import Cncpp.Calendar.Civil
import Cncpp.Time.TimeUtils
import Cncpp.Log.HourlyFileSink
import Cncpp.Redis.Format
import Cncpp.Time.Periods
import Cncpp.Net.RingBuffer.ReadPaths
import Cncpp.ConnPool.Grab
import Cncpp.ConnPool.SafeGrab
import Cncpp.Net.Buffer.Calls
import Cncpp.Queue.SyncQueueBlocking
import Cncpp.Mysql.DeleteByKeys
import Cncpp.Cycle.Rotation
import Cncpp.Task.Dispatch
import Cncpp.Net.IoContextPool
import Cncpp.Net.Buffer.Positional
import Cncpp.Net.Session.Pipeline
import Cncpp.Queue.ProducerConsumer.Core
import Cncpp.Queue.ProducerConsumer.Correctness
import Cncpp.Queue.ProducerConsumer.Progress
import Cncpp.Task.Liveness
import Cncpp.Queue.Intrusive.Destroy
import Cncpp.Queue.NonIntrusive.Destroy
import Cncpp.Machine.Endian
import Cncpp.Mysql.Import
import Cncpp.SipHash.Core
import Cncpp.SipHash.Correctness
import Cncpp.Account.Slots
import Cncpp.Log.TimeText
import Cncpp.Redis.Contexts
import Cncpp.Mysql.Load
import Cncpp.Net.AsioTimer
import Cncpp.Redis.Reply
import Cncpp.Net.Session.Progress
import Cncpp.Net.Server
import Cncpp.Queue.Intrusive.Progress
import Cncpp.Redis.Async.Core
import Cncpp.Redis.Async.Correctness
import Cncpp.Redis.Async.Progress
