import Talyn.Transports.Basic

/-!
# Stream transports: closing

`transports/stream/lifecycle.zig` and the `close` / `force_close` functions of the two
half-transports, which call back into `maybe_close_fd`. The loop is open, so `connection_lost_fp`
schedules `protocol.connection_lost` with `call_soon`. Where `io.queue` fails for the `CancelIO` of a
graceful close, the side stays as it is and its operation ends later all the same; only an abort does not
come back to a side whose `CancelIO` failed.
-/

namespace Talyn.Stream

/-- `detach_server`: tell the server wrapper once. -/
def detachServer (s : Stream) : Stream :=
  if s.serverRef then { s with serverRef := false }.emit .detachServer else s

/-- The transport has an operation to cancel before its fd is closed. -/
def hasPending (s : Stream) : Bool :=
  (s.read.initialized && decide (s.read.blockingTaskId > 0)) ||
    (s.write.initialized && decide (s.write.blockingTaskId > 0))

/-- The `CancelByFd` of `cancel_and_close_fd`. -/
def cancelByFd (s : Stream) (fd : ℕ) : Stream :=
  if s.hasPending then s.emit (.cancelByFd fd) else s

/-- `unregister_fixed_file`. -/
def unregisterFixedFile (s : Stream) : Stream :=
  if s.fixedFileIndex ≠ 0 then
    { s.emit (.unregisterFixedFile s.fixedFileIndex) with fixedFileIndex := 0 }
  else s

/-- Close the fd, if the transport owns it, and forget it. -/
def closeFd (s : Stream) (fd : ℕ) : Stream :=
  { (if s.ownsFd then s.emit (.closeFd fd) else s) with fd := none }

/-- `cancel_and_close_fd`. -/
def cancelAndCloseFd (s : Stream) : Stream :=
  match s.fd with
  | none => s
  | some fd => ((s.cancelByFd fd).unregisterFixedFile).closeFd fd

/-- `schedule_connection_lost_once`. -/
def scheduleConnectionLostOnce (s : Stream) : Stream :=
  let s := s.detachServer
  if s.connectionLostNotified then s
  else
    { s with connectionLostNotified := true, pendingLostExc := none }.emit
      (.connectionLost (s.pendingLostExc.getD .pyNone))

/-- `maybe_close_fd`. -/
def maybeCloseFd (s : Stream) : Stream :=
  if s.read.closed && s.write.closed then
    let s := { s with dispatchGeneration := s.dispatchGeneration + 1, closed := true }
    s.cancelAndCloseFd.scheduleConnectionLostOnce
  else s

/-- `ReadTransport.close`. -/
def readClose (s : Stream) : Stream :=
  if s.read.isClosing || s.read.closed then s
  else if s.read.blockingTaskId = 0 then
    { s with read := { s.read with closed := true, isClosing := true } }.maybeCloseFd
  else
    let s :=
      if s.read.cancelling then s
      else
        { s.emit (.cancelIo s.read.blockingTaskId) with read := { s.read with cancelling := true } }
    { s with read := { s.read with isClosing := true, connectionLostCallback := false } }

/-- `ReadTransport.force_close`; with `fails` the `CancelIO` cannot be queued. -/
def readForceClose (s : Stream) (fails : Bool) : Stream :=
  if s.read.closed then s
  else
    let s :=
      { s with read :=
          { s.read with closed := true, isClosing := true, connectionLostCallback := false } }
    if decide (s.read.blockingTaskId > 0) && !s.read.cancelling && !fails then
      { s.emit (.cancelIo s.read.blockingTaskId) with read := { s.read with cancelling := true } }
    else s

/-- `WriteTransport.close`. -/
def writeClose (s : Stream) : Stream :=
  if s.write.isClosing || s.write.closed then s
  else
    let s := { s with write := { s.write with isClosing := true, connectionLostCallback := false } }
    if !s.write.writeInFlight && decide (s.write.bufferSize = 0) then
      { s with write := { s.write with closed := true } }.maybeCloseFd
    else s

/-- `WriteTransport.force_close`; with `fails` the `CancelIO` cannot be queued, and it returns before
`maybe_close_fd`. -/
def writeForceClose (s : Stream) (fails : Bool) : Stream :=
  if s.write.closed then s
  else
    let s :=
      { s with write :=
          { s.write with closed := true, isClosing := true, connectionLostCallback := false } }
    if decide (s.write.blockingTaskId > 0) && !s.write.cancelling then
      if fails then s
      else
        { s.emit (.cancelIo s.write.blockingTaskId) with
          write := { s.write with cancelling := true, blockingTaskId := 0 } }.maybeCloseFd
    else s.maybeCloseFd

/-- `close_transports`. -/
def closeTransports (s : Stream) (exc : Exc) : Stream :=
  let closedAlready := s.closed
  let s :=
    if !closedAlready && s.pendingLostExc.isNone then { s with pendingLostExc := some exc } else s
  let s := s.readClose.writeClose
  let s := { s with isReading := false, isClosing := true }
  if closedAlready then s else s.detachServer.maybeCloseFd

/-- `transport_close`. -/
def transportClose (s : Stream) : Stream :=
  if s.isClosing || s.closed then s
  else
    let s := { s with isClosing := true }
    if s.read.closed && s.write.closed then
      { s with closed := true }.cancelAndCloseFd.scheduleConnectionLostOnce
    else s.closeTransports .pyNone

/-- `transport_force_close`; `transport_abort` passes no exception. A force-close that fails is only
logged. -/
def transportForceClose (s : Stream) (exc : Option Exc) (readFails writeFails : Bool) : Stream :=
  if s.closed then s
  else
    let s := s.detachServer
    let s :=
      { s with dispatchGeneration := s.dispatchGeneration + 1, closed := true, pendingLostExc := exc }
    let s := (s.readForceClose readFails).writeForceClose writeFails
    { s with isReading := false, isWriting := false }.cancelAndCloseFd

/-- `transport_abort`. -/
def transportAbort (s : Stream) (readFails writeFails : Bool) : Stream :=
  s.transportForceClose none readFails writeFails

/-! ### What tearing down the fd leaves alone -/

@[simp] theorem detachServer_read (s : Stream) : s.detachServer.read = s.read := by
  unfold detachServer
  split <;> rfl

@[simp] theorem detachServer_write (s : Stream) : s.detachServer.write = s.write := by
  unfold detachServer
  split <;> rfl

@[simp] theorem detachServer_closed (s : Stream) : s.detachServer.closed = s.closed := by
  unfold detachServer
  split <;> rfl

@[simp] theorem detachServer_fd (s : Stream) : s.detachServer.fd = s.fd := by
  unfold detachServer
  split <;> rfl

@[simp] theorem detachServer_connectionLostNotified (s : Stream) :
    s.detachServer.connectionLostNotified = s.connectionLostNotified := by
  unfold detachServer
  split <;> rfl

@[simp] theorem detachServer_pendingReads (s : Stream) :
    s.detachServer.pendingReads = s.pendingReads := by
  unfold detachServer
  split <;> rfl

theorem cancelAndCloseFd_cases (s : Stream) :
    ∃ trace index, s.cancelAndCloseFd =
      { s with fd := none, fixedFileIndex := index, trace := trace } := by
  obtain ⟨read, write, protocol, isReading, isWriting, isClosing, closed, fd, ownsFd⟩ := s
  unfold cancelAndCloseFd
  cases fd with
  | none => exact ⟨_, _, rfl⟩
  | some fd =>
    dsimp only [closeFd, unregisterFixedFile, cancelByFd]
    split <;> split <;> split <;> exact ⟨_, _, rfl⟩

@[simp] theorem cancelAndCloseFd_fd (s : Stream) : s.cancelAndCloseFd.fd = none := by
  obtain ⟨trace, index, h⟩ := s.cancelAndCloseFd_cases
  rw [h]

@[simp] theorem cancelAndCloseFd_read (s : Stream) : s.cancelAndCloseFd.read = s.read := by
  obtain ⟨trace, index, h⟩ := s.cancelAndCloseFd_cases
  rw [h]

@[simp] theorem cancelAndCloseFd_write (s : Stream) : s.cancelAndCloseFd.write = s.write := by
  obtain ⟨trace, index, h⟩ := s.cancelAndCloseFd_cases
  rw [h]

@[simp] theorem cancelAndCloseFd_closed (s : Stream) : s.cancelAndCloseFd.closed = s.closed := by
  obtain ⟨trace, index, h⟩ := s.cancelAndCloseFd_cases
  rw [h]

@[simp] theorem cancelAndCloseFd_connectionLostNotified (s : Stream) :
    s.cancelAndCloseFd.connectionLostNotified = s.connectionLostNotified := by
  obtain ⟨trace, index, h⟩ := s.cancelAndCloseFd_cases
  rw [h]

@[simp] theorem cancelAndCloseFd_pendingReads (s : Stream) :
    s.cancelAndCloseFd.pendingReads = s.pendingReads := by
  obtain ⟨trace, index, h⟩ := s.cancelAndCloseFd_cases
  rw [h]

@[simp] theorem scheduleConnectionLostOnce_read (s : Stream) :
    s.scheduleConnectionLostOnce.read = s.read := by
  unfold scheduleConnectionLostOnce
  dsimp only
  split <;> simp [emit]

@[simp] theorem scheduleConnectionLostOnce_write (s : Stream) :
    s.scheduleConnectionLostOnce.write = s.write := by
  unfold scheduleConnectionLostOnce
  dsimp only
  split <;> simp [emit]

@[simp] theorem scheduleConnectionLostOnce_pendingReads (s : Stream) :
    s.scheduleConnectionLostOnce.pendingReads = s.pendingReads := by
  unfold scheduleConnectionLostOnce
  dsimp only
  split <;> simp [emit]

@[simp] theorem scheduleConnectionLostOnce_connectionLostNotified (s : Stream) :
    s.scheduleConnectionLostOnce.connectionLostNotified = true := by
  unfold scheduleConnectionLostOnce
  dsimp only
  split
  · assumption
  · simp [emit]

@[simp] theorem maybeCloseFd_read (s : Stream) : s.maybeCloseFd.read = s.read := by
  unfold maybeCloseFd
  split <;> simp

@[simp] theorem maybeCloseFd_write (s : Stream) : s.maybeCloseFd.write = s.write := by
  unfold maybeCloseFd
  split <;> simp

@[simp] theorem maybeCloseFd_pendingReads (s : Stream) :
    s.maybeCloseFd.pendingReads = s.pendingReads := by
  unfold maybeCloseFd
  split <;> simp

end Talyn.Stream
