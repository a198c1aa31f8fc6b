import Talyn.Transports.Lifecycle

/-!
# Stream transports: writing

`transports/write_transport.zig` and `transports/stream/write.zig`. The task id that `io.queue`
returns is an argument of every function that queues a write.

A completion runs `protocol.resume_writing` in the middle of `write_operation_completed`. Such a
function is cut at the call: the first part returns the `Frame` left on the stack, and
`writeCallbackReturned` / `writeCallbackRaised` are what happens when the protocol method ends.
-/

namespace Talyn

/-- Errors of the write side. -/
inductive WriteError
  | transportClosed
  | writeBufferIndexOverflow
  | pythonError
  deriving DecidableEq, Repr

/-- The loop of `submit_next_chunk` that skips exhausted buffers: the index and the offset it stops
at, given the buffers from the current index on. -/
def skipEmpty : List Bytes → ℕ → ℕ → ℕ × ℕ
  | [], index, offset => (index, offset)
  | iov :: rest, index, offset =>
      if iov.length - offset > 0 then (index, offset) else skipEmpty rest (index + 1) 0

namespace Stream

/-- Release every `Py_buffer` of a list. -/
def releaseBuffers (s : Stream) (buffers : List ℕ) : Stream :=
  { s with trace := s.trace ++ buffers.map .releaseBuffer }

/-- `submit_next_chunk`; `io.queue` returns `task`. -/
def submitNextChunk (s : Stream) (task : TaskId) : Except WriteError Stream :=
  let w := s.write
  if w.writeInFlight then .ok s
  else if w.pendingBufferIndex ≥ w.pendingBuffers.length then
    if w.bufferSize > 0 then .error .writeBufferIndexOverflow
    else .ok { s with write := { w with writeInFlight := false } }
  else
    let (index, offset) :=
      skipEmpty (w.pendingBuffers.drop w.pendingBufferIndex) w.pendingBufferIndex
        w.pendingBufferOffset
    let w := { w with pendingBufferIndex := index, pendingBufferOffset := offset }
    match w.pendingBuffers[index]? with
    | none => .ok { s with write := { w with writeInFlight := false } }
    | some iov =>
      .ok
        { s.emit (.performWrite task (iov.drop offset)) with
          pendingWrites := s.pendingWrites ++ [iov.drop offset]
          write :=
            { w with
              blockingTaskId := task, writevCount := w.writevCount + 1, writeInFlight := true } }

/-- `flush_buffered_writes`, the prepare hook; `execute_hooks` drops its error. -/
def flushBufferedWrites (s : Stream) (task : TaskId) : Stream :=
  if !s.write.closed && !s.write.writeInFlight && decide (s.write.bufferSize > 0) then
    match s.submitNextChunk task with
    | .ok s => s
    | .error _ => s
  else s

/-- `append_new_buffer_to_write`: the new buffer size, or the error. `data = none` stands for an
object without the buffer protocol. -/
def appendNewBufferToWrite (s : Stream) (data : Option Bytes) : Except WriteError (ℕ × Stream) :=
  if !s.write.initialized || s.write.closed then .error .transportClosed
  else
    match data with
    | none => .error .pythonError
    | some data =>
      let buffer := s.buffersAcquired
      let s := { s with buffersAcquired := buffer + 1 }.emit (.acquireBuffer buffer data)
      if data.length = 0 then .ok (s.write.bufferSize, s.emit (.releaseBuffer buffer))
      else
        let size := s.write.bufferSize + data.length
        .ok (size,
          { s with write :=
              { s.write with
                pendingPyBuffers := s.write.pendingPyBuffers ++ [buffer]
                pendingBuffers := s.write.pendingBuffers ++ [data]
                bufferSize := size } })

/-- The high-water check of `transport_write` and `transport_write_lines`. -/
def pauseIfAbove (s : Stream) (size : ℕ) : Stream :=
  if size > s.writingHighWaterMark && s.isWriting then
    let s := { s with isWriting := false }
    if s.protocol.pauseWriting then s.emit .pauseWriting else s
  else s

/-- `transport_write`. -/
def transportWrite (s : Stream) (data : Option Bytes) : Stream :=
  if s.write.isClosing && !s.write.eofPending then s
  else
    match s.appendNewBufferToWrite data with
    | .error _ => s
    | .ok (size, s) => s.pauseIfAbove size

/-- The loop of `transport_write_lines` over the items of the iterator: the last buffer size, or
`none` when an item could not be appended. -/
def appendLines (s : Stream) (size : ℕ) : List (Option Bytes) → Option ℕ × Stream
  | [] => (some size, s)
  | item :: items =>
      match s.appendNewBufferToWrite item with
      | .error _ => (none, s)
      | .ok (size, s) => appendLines s size items

/-- `transport_write_lines`; `raises` tells whether the iterator raised after its last item. -/
def transportWriteLines (s : Stream) (items : List (Option Bytes)) (raises : Bool) : Stream :=
  if s.write.isClosing && !s.write.eofPending then s
  else
    match s.appendLines 0 items with
    | (none, s) => s
    | (some size, s) => if raises then s else s.pauseIfAbove size

/-- `queue_eof`. -/
def queueEof (s : Stream) : Stream :=
  if decide (s.write.bufferSize > 0) || s.write.writeInFlight then
    { s with write := { s.write with eofPending := true } }.writeClose
  else (s.emit .socketShutdown).writeClose

/-- `transport_write_eof`; a closed transport raises and does nothing. -/
def transportWriteEof (s : Stream) : Stream :=
  if s.write.isClosing && !s.write.eofPending then s else s.queueEof

/-- `cleanup_resources_callback` of the write side. -/
def writeCleanup (s : Stream) : Stream := { s with write := { s.write with cancelling := false } }

/-- The end of `invoke_write_completed`, after the stream-level callback: `maybe_close_fd`, and in
the middle of a drain the next chunk. An error goes to the loop's exception handler. -/
def writeCallbackReturned (s : Stream) (midDrain : Bool) (task : TaskId) : Stream × Option Frame :=
  let s := s.maybeCloseFd
  if midDrain && !s.write.closed && decide (s.write.bufferSize > 0) then
    match s.submitNextChunk task with
    | .ok s => (s, none)
    | .error _ => (s.emit .callExceptionHandler, some .writeCleanup)
  else (s, none)

/-- `invoke_write_completed` when `resume_writing` raised `exc`. -/
def writeCallbackRaised (s : Stream) (exc : Exc) : Stream × Option Frame :=
  let s := s.maybeCloseFd
  let s := if s.write.connectionLostCallback then s.closeTransports exc else s
  let s := { s with write := { s.write with isClosing := true, closed := true } }.maybeCloseFd
  (s.emit .callExceptionHandler, some .writeCleanup)

/-- `stream/write.zig`'s `write_operation_completed` as `invoke_write_completed` calls it: the
transport, and the frame when the protocol has to be called. -/
def invokeWriteCompleted (s : Stream) (dataWritten remaining : ℕ) (midDrain : Bool) (task : TaskId) :
    Stream × Option Frame :=
  if dataWritten = 0 then s.writeCallbackReturned midDrain task
  else if s.isClosing || s.closed then s.writeCallbackReturned midDrain task
  else if !s.isWriting && decide (remaining ≤ s.writingLowWaterMark) then
    let s := { s with isWriting := true }
    if s.protocol.resumeWriting then (s.emit .resumeWriting, some (.resumeWriting midDrain))
    else s.writeCallbackReturned midDrain task
  else s.writeCallbackReturned midDrain task

/-- Advance the pending buffers by `written` bytes. -/
def advanceWritten (s : Stream) (written : ℕ) : Stream :=
  let w := s.write
  let w :=
    { w with
      bufferSize := w.bufferSize - min written w.bufferSize
      totalBytesWritten := w.totalBytesWritten + written }
  let iovRemaining := (w.pendingBuffers[w.pendingBufferIndex]?.getD []).length - w.pendingBufferOffset
  if written < iovRemaining then
    { s with write := { w with pendingBufferOffset := w.pendingBufferOffset + written } }
  else
    { s with write :=
        { w with pendingBufferIndex := w.pendingBufferIndex + 1, pendingBufferOffset := 0 } }.releaseBuffers
      (w.pendingPyBuffers[w.pendingBufferIndex]?.toList)

/-- The error branch of `write_operation_completed`. -/
def writeFailed (s : Stream) (err : Errno) : Stream :=
  if s.write.isClosing then { s with write := { s.write with closed := true } }.maybeCloseFd
  else
    let s := if s.write.connectionLostCallback then s.closeTransports (.osError err) else s
    { s with write := { s.write with isClosing := true, closed := true } }.maybeCloseFd

/-- The full drain gives up the buffers: those not consumed one by one are released. -/
def clearPending (s : Stream) : Stream :=
  let s := s.releaseBuffers (s.write.pendingPyBuffers.drop s.write.pendingBufferIndex)
  { s with write :=
      { s.write with
        pendingBuffers := [], pendingPyBuffers := [], pendingBufferIndex := 0
        pendingBufferOffset := 0 } }

/-- A buffered `write_eof` goes out. -/
def sendPendingEof (s : Stream) : Stream :=
  if s.write.eofPending then
    { s with write := { s.write with eofPending := false } }.emit .socketShutdown
  else s

/-- The full-drain branch of `write_operation_completed`, up to the stream-level callback. -/
def writeDrained (s : Stream) : Stream :=
  let s := s.clearPending.sendPendingEof
  if s.write.isClosing then { s with write := { s.write with closed := true } }.maybeCloseFd else s

/-- The end of `write_operation_completed`: the next chunk, or the full drain. -/
def writeProgressed (s : Stream) (task : TaskId) : Stream × Option Frame :=
  if !s.write.closed && decide (s.write.bufferSize > 0) then
    s.invokeWriteCompleted s.write.totalBytesWritten s.write.bufferSize true task
  else if s.write.closed then (s, none)
  else
    let s := s.writeDrained
    { s with write := { s.write with totalBytesWritten := 0 } }.invokeWriteCompleted
      s.write.totalBytesWritten 0 false task

/-- The completed write is forgotten. -/
def endWriteOperation (s : Stream) : Stream :=
  { s with
    pendingWrites := s.pendingWrites.tail
    write := { s.write with blockingTaskId := 0, cancelling := false, writeInFlight := false } }

/-- `write_operation_completed`, up to the protocol call it may make; `io.queue` returns `task` if
another chunk is submitted. -/
def writeOperationCompleted (s : Stream) (data : CallbackData) (task : TaskId) :
    Stream × Option Frame :=
  let s := s.endWriteOperation
  if data.cancelled then (s, none)
  else
    let s := if data.res > 0 then s.advanceWritten data.res.toNat else s
    if data.err ≠ .success ∧ data.err ≠ .canceled then (s.writeFailed data.err, none)
    else s.writeProgressed task

/-- `WriteTransport.deinit`: the pending buffers that are still owned are released. -/
def writeDeinit (s : Stream) : Stream :=
  if !s.write.initialized then s
  else
    let s := s.releaseBuffers (s.write.pendingPyBuffers.drop s.write.pendingBufferIndex)
    { s with write :=
        { s.write with
          pendingBuffers := [], pendingPyBuffers := []
          closed := true, isClosing := true, initialized := false } }

end Stream

end Talyn
