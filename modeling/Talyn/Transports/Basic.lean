import Mathlib.Tactic

/-!
# Stream transports: the data model

`StreamTransportObject` of `transports/stream/main.zig` with the two half-transports embedded in it,
`ReadTransport` (`transports/read_transport.zig`) and `WriteTransport`
(`transports/write_transport.zig`), field by field. A task id is the address of a `BlockingTask`;
`0` means "no operation", as in the source. `fd = none` is the source's `fd = -1`.

What passes between a transport and its outside (the kernel, the loop, the protocol, Python's buffers)
is recorded in `trace`, in the order it happens. `pendingReads` and `pendingWrites` are the operations
queued whose completion callback has not been entered yet; each of them holds a reference to the
transport, and a pending write is the slice it submitted. `buffersAcquired` and
`protocolBuffersAcquired` number the `Py_buffer`s acquired for writing and from `get_buffer`.

The fields that only the Python object protocol uses (names, extra info, the garbage collector's
view) are not part of the model: after construction `loop` and `protocol` are never null in it.
-/

namespace Talyn

/-- A string of octets. -/
abbrev Bytes := List UInt8

/-- The address of a `BlockingTask`; `0` is "none". -/
abbrev TaskId := ℕ

/-- The errno values the transports tell apart. -/
inductive Errno
  | success
  | canceled
  | other (code : ℕ)
  deriving DecidableEq, Repr

/-- `io_uring_cqe.err`: the errno of a completion result. -/
def Errno.ofRes (res : ℤ) : Errno :=
  if res > -4096 ∧ res < 0 then (if res = -125 then .canceled else .other res.natAbs) else .success

/-- The argument of `protocol.connection_lost`. -/
inductive Exc
  | pyNone
  | osError (err : Errno)
  | raised (id : ℕ)
  deriving DecidableEq, Repr

/-- `Stream.ProtocolType`. -/
inductive ProtocolType
  | legacy
  | buffered
  deriving DecidableEq, Repr

/-- The protocol methods a transport caches; `eof_received`, `pause_writing` and `resume_writing` are
optional. -/
structure Protocol where
  type : ProtocolType
  eofReceived : Bool
  pauseWriting : Bool
  resumeWriting : Bool
  deriving DecidableEq, Repr

/-- What passes between a transport and the outside. -/
inductive Effect
  | performRead (task : TaskId)
  | performWrite (task : TaskId) (data : Bytes)
  /-- the kernel reports these bytes of the submitted slice as written -/
  | written (data : Bytes)
  | socketShutdown
  | cancelIo (task : TaskId)
  | cancelByFd (fd : ℕ)
  | unregisterFixedFile (index : ℕ)
  | closeFd (fd : ℕ)
  | acquireBuffer (buffer : ℕ) (data : Bytes)
  | releaseBuffer (buffer : ℕ)
  | acquireProtocolBuffer (buffer : ℕ)
  | releaseProtocolBuffer (buffer : ℕ)
  | detachServer
  | connectionLost (exc : Exc)
  | dataReceived (data : Bytes)
  | bufferUpdated (nbytes : ℕ)
  | getBuffer
  | eofReceived
  | pauseWriting
  | resumeWriting
  | callExceptionHandler
  deriving DecidableEq, Repr

/-- What a completion callback is told: the result, its errno, and the two flag bits of the payload. -/
structure CallbackData where
  res : ℤ
  err : Errno
  cancelled : Bool
  batchDispatched : Bool
  deriving DecidableEq, Repr

/-- A queued read whose callback has not been entered: its completion is still to come, or it was
harvested into the completion batch with its callback waiting in the ready queue. -/
inductive ReadOp
  | inFlight
  | batched (nbytes : ℕ)
  deriving DecidableEq, Repr

/-- Who called `queue_read_operation`: a completion, with the `Py_buffer` it holds and its errno, or
`resume_reading`. -/
inductive ReadSite
  | completion (held : Option ℕ) (err : Errno)
  | resume
  deriving DecidableEq, Repr

/-- A transport function waiting for the Python code it called: a protocol method, or the loop's
exception handler (after which the executor runs the cleanup callback of the failed completion). -/
inductive Frame
  | dataReceived (held : Option ℕ)
  | eofReceived (held : Option ℕ)
  | getBuffer (site : ReadSite)
  | readCleanup
  | resumeWriting (midDrain : Bool)
  | writeCleanup
  deriving DecidableEq, Repr

/-- `ReadTransport`. -/
structure ReadTransport where
  /-- the bytes in the memory `buffer_to_read` points to -/
  buffer : Bytes
  blockingTaskId : TaskId
  closed : Bool
  isClosing : Bool
  cancelling : Bool
  initialized : Bool
  batchDispatched : Bool
  /-- `connection_lost_callback != null` -/
  connectionLostCallback : Bool
  deriving DecidableEq, Repr

/-- `WriteTransport`. -/
structure WriteTransport where
  pendingBuffers : List Bytes
  pendingPyBuffers : List ℕ
  pendingBufferIndex : ℕ
  pendingBufferOffset : ℕ
  bufferSize : ℕ
  writeInFlight : Bool
  totalBytesWritten : ℕ
  writevCount : ℕ
  isClosing : Bool
  closed : Bool
  initialized : Bool
  eofPending : Bool
  cancelling : Bool
  blockingTaskId : TaskId
  /-- `connection_lost_callback != null` -/
  connectionLostCallback : Bool
  deriving DecidableEq, Repr

/-- `StreamTransportObject`. -/
structure Stream where
  read : ReadTransport
  write : WriteTransport
  protocol : Protocol
  isReading : Bool
  isWriting : Bool
  isClosing : Bool
  closed : Bool
  fd : Option ℕ
  ownsFd : Bool
  fixedFileIndex : ℕ
  writingLowWaterMark : ℕ
  writingHighWaterMark : ℕ
  serverRef : Bool
  pendingLostExc : Option Exc
  connectionLostNotified : Bool
  dispatchGeneration : ℕ
  /-- `protocol_buffer`, when its `buf` is not null -/
  protocolBuffer : Option ℕ
  pendingReads : List ReadOp
  pendingWrites : List Bytes
  buffersAcquired : ℕ
  protocolBuffersAcquired : ℕ
  trace : List Effect
  deriving DecidableEq, Repr

namespace Stream

/-- Record an effect. -/
def emit (s : Stream) (e : Effect) : Stream := { s with trace := s.trace ++ [e] }

/-- The transport as `stream_init_configuration` leaves it just before the first read is armed. -/
def new (protocol : Protocol) (fd fixedFileIndex : ℕ) (ownsFd serverRef : Bool) : Stream where
  read :=
    { buffer := [], blockingTaskId := 0, closed := false, isClosing := false, cancelling := false,
      initialized := true, batchDispatched := false, connectionLostCallback := true }
  write :=
    { pendingBuffers := [], pendingPyBuffers := [], pendingBufferIndex := 0,
      pendingBufferOffset := 0, bufferSize := 0, writeInFlight := false, totalBytesWritten := 0,
      writevCount := 0, isClosing := false, closed := false, initialized := true,
      eofPending := false, cancelling := false, blockingTaskId := 0,
      connectionLostCallback := true }
  protocol := protocol
  isReading := true
  isWriting := true
  isClosing := false
  closed := false
  fd := some fd
  ownsFd := ownsFd
  fixedFileIndex := fixedFileIndex
  writingLowWaterMark := 32 * 1024
  writingHighWaterMark := 64 * 1024
  serverRef := serverRef
  pendingLostExc := none
  connectionLostNotified := false
  dispatchGeneration := 0
  protocolBuffer := none
  pendingReads := []
  pendingWrites := []
  buffersAcquired := 0
  protocolBuffersAcquired := 0
  trace := []

end Stream

end Talyn
