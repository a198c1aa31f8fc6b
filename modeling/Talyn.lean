import Talyn.Lib.Runs
import Talyn.Dns.Accounting
import Talyn.Dns.Resolution
import Talyn.Dns.DualStack
import Talyn.Loop.IoUring
import Talyn.Loop.Poll
import Talyn.Transports.Read
import Talyn.Transports.Write
import Talyn.Transports.Machine
import Talyn.Transports.WriteOrder
import Talyn.Transports.ConnectionLost
import Talyn.Utils.BTreeInvariant
import Talyn.Utils.BTreeRemoval
import Talyn.Utils.BTreeSplit
import Talyn.Utils.BTreeRefinement
import Talyn.Lib.RingBuffer
import Talyn.Loop.Ready
import Talyn.Loop.TaskPool
import Talyn.Loop.ReadyOrder
import Talyn.Loop.Harvest
import Talyn.Loop.ExceptionRouting
import Talyn.Dns.Candidates
import Talyn.Dns.Cache
import Talyn.Dns.CacheInvariant
import Talyn.Dns.Pointers
import Talyn.Dns.Ownership
import Talyn.Client.ConnectionAttempt
import Talyn.Transports.Datagram
import Talyn.Loop.Handles
import Talyn.Transports.FlowControl
import Talyn.Loop.ChildWatcher
import Talyn.Loop.Watchers
import Talyn.Loop.Queue
import Talyn.Future.Basic
import Talyn.Future.DoneCallbacks
import Talyn.Ssl.Protocol
import Talyn.Ssl.WriteOrder
import Talyn.Ssl.Shutdown
import Talyn.Ssl.Segmentation
import Talyn.Loop.UnixSignals
import Talyn.Loop.SignalReads
import Talyn.Transports.StreamServer
import Talyn.Transports.AcceptLoop
import Talyn.Transports.ServerRef
import Talyn.Transports.Server
import Talyn.Transports.ReadSide
import Talyn.Transports.Handover
import Talyn.Transports.ProtocolSwitch
import Talyn.Transports.ReadBuffers
import Talyn.Loop.SlotLoop
import Talyn.Lib.WireName
import Talyn.Dns.NameWalk
import Talyn.Dns.ResolvConf
import Talyn.Dns.QueryNames
import Talyn.Dns.Matching
import Talyn.Dns.Bounds
import Talyn.Dns.AnswerSection
import Talyn.Loop.SockRecv
import Talyn.Transports.DatagramRead
import Talyn.Transports.Descriptor
import Talyn.Transports.Pools
import Talyn.Transports.Silence
import Talyn.Transports.ClosedLoop
import Talyn.Loop.Teardown
import Talyn.Task.Basic
import Talyn.Task.Invariant
import Talyn.Task.Requests
import Talyn.Task.Completion
import Talyn.Task.Wakeups
import Talyn.Client.Interleave
import Talyn.Utils.BTreeAllocation
import Talyn.Utils.DottedQuad
import Talyn.Utils.ColonHex
import Talyn.Dns.ReverseName
import Talyn.Dns.ResolvLayout
import Talyn.Dns.ResolvMemory
import Talyn.Utils.PyAddress
import Talyn.Utils.PrintedAddress
import Talyn.Utils.UnixPath
import Talyn.Lib.Chain
import Talyn.Utils.LruCache
import Talyn.Utils.LruNodes
import Talyn.Utils.LruSteps
import Talyn.Utils.LruRefinement
import Talyn.Utils.LruModel
import Talyn.Utils.LruFailure
import Talyn.Future.InlineQueue
import Talyn.Utils.LinkedList
import Talyn.Loop.Hooks
import Talyn.Loop.DynamicRingBuffer
import Talyn.Loop.CallbackData
import Talyn.Loop.BufferPool
import Talyn.Loop.FixedFiles
import Talyn.Loop.SockSendall
import Talyn.Loop.WatcherReplacement
import Talyn.Lib.Loops
import Talyn.Dns.NameTurns
import Talyn.Loop.SubmissionQueue
import Talyn.Loop.FsWatcher
import Talyn.Loop.InotifyWalk
import Talyn.Transports.Subprocess
import Talyn.Client.DatagramSocket
import Talyn.Client.DatagramEndpoint
import Talyn.Transports.CreateServer
import Talyn.Transports.ServerAttempt
import Talyn.Loop.Wakeup
import Talyn.Loop.NoLostWakeup
import Talyn.Loop.WakeupOrder
