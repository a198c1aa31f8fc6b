import Talyn.Transports.Lifecycle

/-!
# Stream transports: reading

`transports/read_transport.zig` and `transports/stream/read.zig`. The task id that `io.queue` returns
is an argument of every function that may queue a read.

A completion calls `eof_received`, `data_received`, `buffer_updated` and `get_buffer` in the middle of
`read_operation_completed`; the function is cut there and leaves a `Frame`. `readFrameReturned` and
`readFrameRaised` are the rest of it, up to the next call.
-/

namespace Talyn.Stream

/-- Release a `Py_buffer` obtained from `get_buffer`. -/
def releaseProtocolBuffer (s : Stream) : Option ℕ → Stream
  | none => s
  | some buffer => s.emit (.releaseProtocolBuffer buffer)

/-- `ReadTransport.perform`; `io.queue` returns `task`. -/
def performRead (s : Stream) (task : TaskId) : Stream :=
  { s.emit (.performRead task) with
    pendingReads := s.pendingReads ++ [.inFlight]
    read := { s.read with blockingTaskId := task } }

/-- The end of the Buffered branch of `queue_read_operation`: the buffer `get_buffer` returned is
acquired and read into. -/
def performBufferedRead (s : Stream) (task : TaskId) : Stream :=
  let buffer := s.protocolBuffersAcquired
  let s := { s with protocolBuffersAcquired := buffer + 1 }.emit (.acquireProtocolBuffer buffer)
  { s.performRead task with protocolBuffer := some buffer }

/-- `queue_read_operation`, up to the call of `get_buffer`. -/
def queueReadOperation (s : Stream) (site : ReadSite) (task : TaskId) : Stream × Option Frame :=
  if !s.isReading || s.read.isClosing then (s, none)
  else if s.read.blockingTaskId ≠ 0 then (s, none)
  else
    match s.protocol.type with
    | .buffered => (s.emit .getBuffer, some (.getBuffer site))
    | .legacy => (s.performRead task, none)

/-- `ReadTransport.cancel`. -/
def readCancel (s : Stream) : Stream :=
  if decide (s.read.blockingTaskId = 0) || s.read.cancelling then s
  else { s.emit (.cancelIo s.read.blockingTaskId) with read := { s.read with cancelling := true } }

/-- `transport_pause_reading`; a closed transport raises. -/
def transportPauseReading (s : Stream) : Stream :=
  if s.closed then s
  else if !s.isReading then s
  else { s.readCancel with isReading := false }

/-- `transport_resume_reading`; a closed transport raises. -/
def transportResumeReading (s : Stream) (task : TaskId) : Stream × Option Frame :=
  if s.closed then (s, none)
  else
    let s := { s with isReading := true }
    if s.read.blockingTaskId ≠ 0 then (s, none) else s.queueReadOperation .resume task

/-- `cleanup_resources_callback` of the read side. -/
def readCleanup (s : Stream) : Stream :=
  { s with read :=
      { s.read with
        blockingTaskId := 0, cancelling := false
        closed := s.read.closed || s.read.isClosing } }.maybeCloseFd

/-- What `ReadTransport.read_operation_completed` does after its callback succeeded. -/
def readSettled (s : Stream) (err : Errno) : Stream :=
  if err = .success ∨ err = .canceled ∨ s.read.isClosing = true then
    if s.read.isClosing then { s with read := { s.read with closed := true } }.maybeCloseFd else s
  else
    let s := { s with read := { s.read with isClosing := true, closed := true } }
    if s.read.connectionLostCallback then s.closeTransports (.osError err) else s

/-- The deferred statements of the stream-level callback, then `readSettled`. -/
def finishRead (s : Stream) (held : Option ℕ) (err : Errno) : Stream :=
  (s.releaseProtocolBuffer held).maybeCloseFd.readSettled err

/-- The stream-level callback failed with `exc`: the deferred statements, then the failure branch of
`ReadTransport.read_operation_completed`. The exception handler runs before the cleanup callback. -/
def failRead (s : Stream) (held : Option ℕ) (exc : Exc) : Stream × Option Frame :=
  let s := (s.releaseProtocolBuffer held).maybeCloseFd
  let s := if s.read.connectionLostCallback then s.closeTransports exc else s
  let s := { s with read := { s.read with isClosing := true, closed := true } }
  (s.emit .callExceptionHandler, some .readCleanup)

/-- The completion arms the next read and ends. -/
def rearmRead (s : Stream) (held : Option ℕ) (err : Errno) (task : TaskId) : Stream × Option Frame :=
  match s.queueReadOperation (.completion held err) task with
  | (s, none) => (s.finishRead held err, none)
  | (s, some frame) => (s, some frame)

/-- The end of the stream is reached and the transport is not kept open. -/
def endOfStream (s : Stream) (held : Option ℕ) : Stream :=
  (s.closeTransports .pyNone).finishRead held .success

/-- The stream-level `read_operation_completed`, up to the first protocol call. -/
def streamReadCompleted (s : Stream) (nbytes : ℕ) (err : Errno) (task : TaskId) :
    Stream × Option Frame :=
  let held := s.protocolBuffer
  let s := { s with protocolBuffer := none }
  let isClosing := s.read.isClosing || s.read.closed || s.isClosing || s.closed
  if err ≠ .success ∨ isClosing = true then
    let s := if isClosing then { s with read := { s.read with closed := true } } else s
    if err = .canceled ∧ isClosing = false then s.rearmRead held err task
    else (s.finishRead held err, none)
  else if nbytes = 0 then
    if s.protocol.eofReceived then (s.emit .eofReceived, some (.eofReceived held))
    else (s.endOfStream held, none)
  else if s.read.batchDispatched then s.rearmRead held err task
  else
    match s.protocol.type with
    | .buffered => (s.emit (.bufferUpdated nbytes), some (.dataReceived held))
    | .legacy => (s.emit (.dataReceived (s.read.buffer.take nbytes)), some (.dataReceived held))

/-- `ReadTransport.read_operation_completed`, up to the first protocol call. -/
def readOperationCompleted (s : Stream) (data : CallbackData) (task : TaskId) :
    Stream × Option Frame :=
  let s := { s with pendingReads := s.pendingReads.tail }
  if data.cancelled then (s.readCleanup, none)
  else
    let s :=
      if data.batchDispatched then s
      else { s with read := { s.read with blockingTaskId := 0, cancelling := false } }
    let s := { s with read := { s.read with batchDispatched := data.batchDispatched } }
    s.streamReadCompleted (if data.err = .success then data.res.toNat else 0) data.err task

/-- A Python call of the read side returned; `keepOpen` is the truth value `eof_received` returned. -/
def readFrameReturned (s : Stream) (frame : Frame) (keepOpen : Bool) (task : TaskId) :
    Stream × Option Frame :=
  match frame with
  | .dataReceived held => s.rearmRead held .success task
  | .eofReceived held =>
      if keepOpen then (s.finishRead held .success, none) else (s.endOfStream held, none)
  | .getBuffer (.completion held err) => ((s.performBufferedRead task).finishRead held err, none)
  | .getBuffer .resume => (s.performBufferedRead task, none)
  | .readCleanup => (s.readCleanup, none)
  | _ => (s, none)

/-- A Python call of the read side raised `exc`, or `get_buffer` returned something else than a
writable buffer. -/
def readFrameRaised (s : Stream) (frame : Frame) (exc : Exc) : Stream × Option Frame :=
  match frame with
  | .dataReceived held => s.failRead held exc
  | .eofReceived held => s.failRead held exc
  | .getBuffer (.completion held _) => s.failRead held exc
  | .getBuffer .resume => ({ s with isReading := false }, none)
  | .readCleanup => (s.readCleanup, none)
  | _ => (s, none)

end Talyn.Stream
