import Talyn.Transports.Descriptor

/-!
# Stream transports of a loop that is being torn down

The functions of `Lifecycle`, `Read` and `Write` that reach into the loop, as they run once `loop.close`
has cleared `initialized`. `cancel_and_close_fd` queues no `CancelByFd` then, and `connection_lost_fp`
calls `protocol.connection_lost` at once. `io.queue` works as long as the ring is open (`ring`) and fails
with `LoopDeinitialized` afterwards, which a function with a `try` passes on: what comes after the `try`
is left out.

`TransportCall` is a method call from Python, `call` its effect. `TearsDown` tells when a call of a method
ends with the fd torn down although the ring is closed.
-/

namespace Talyn.ClosedLoop

/-- `cancel_and_close_fd`: no `CancelByFd`, the slot is given back all the same. -/
def cancelAndCloseFd (s : Stream) : Stream :=
  match s.fd with
  | none => s
  | some fd => s.unregisterFixedFile.closeFd fd

/-- `maybe_close_fd`. -/
def maybeCloseFd (s : Stream) : Stream :=
  if s.read.closed && s.write.closed then
    let s := { s with dispatchGeneration := s.dispatchGeneration + 1, closed := true }
    (cancelAndCloseFd s).scheduleConnectionLostOnce
  else s

/-- `ReadTransport.close`. -/
def readClose (ring : Bool) (s : Stream) : Stream :=
  if s.read.isClosing || s.read.closed then s
  else if s.read.blockingTaskId = 0 then
    maybeCloseFd { s with read := { s.read with closed := true, isClosing := true } }
  else if s.read.cancelling then
    { s with read := { s.read with isClosing := true, connectionLostCallback := false } }
  else if ring then
    let s := s.emit (.cancelIo s.read.blockingTaskId)
    { s with read :=
        { s.read with cancelling := true, isClosing := true, connectionLostCallback := false } }
  else s

/-- `ReadTransport.force_close`. -/
def readForceClose (ring : Bool) (s : Stream) : Stream :=
  if s.read.closed then s
  else
    let s :=
      { s with read :=
          { s.read with closed := true, isClosing := true, connectionLostCallback := false } }
    if decide (s.read.blockingTaskId > 0) && !s.read.cancelling && ring then
      { s.emit (.cancelIo s.read.blockingTaskId) with read := { s.read with cancelling := true } }
    else s

/-- `WriteTransport.close`. -/
def writeClose (s : Stream) : Stream :=
  if s.write.isClosing || s.write.closed then s
  else
    let s := { s with write := { s.write with isClosing := true, connectionLostCallback := false } }
    if !s.write.writeInFlight && decide (s.write.bufferSize = 0) then
      maybeCloseFd { s with write := { s.write with closed := true } }
    else s

/-- `WriteTransport.force_close`. -/
def writeForceClose (ring : Bool) (s : Stream) : Stream :=
  if s.write.closed then s
  else
    let s :=
      { s with write :=
          { s.write with closed := true, isClosing := true, connectionLostCallback := false } }
    if decide (s.write.blockingTaskId > 0) && !s.write.cancelling then
      if ring then
        maybeCloseFd
          { s.emit (.cancelIo s.write.blockingTaskId) with
            write := { s.write with cancelling := true, blockingTaskId := 0 } }
      else s
    else maybeCloseFd s

/-- `close_transports`; a failed `close` of one side is logged. -/
def closeTransports (ring : Bool) (s : Stream) (exc : Exc) : Stream :=
  let closedAlready := s.closed
  let s :=
    if !closedAlready && s.pendingLostExc.isNone then { s with pendingLostExc := some exc } else s
  let s := writeClose (readClose ring s)
  let s := { s with isReading := false, isClosing := true }
  if closedAlready then s else maybeCloseFd s.detachServer

/-- `transport_close`. -/
def transportClose (ring : Bool) (s : Stream) : Stream :=
  if s.isClosing || s.closed then s
  else
    let s := { s with isClosing := true }
    if s.read.closed && s.write.closed then
      (cancelAndCloseFd { s with closed := true }).scheduleConnectionLostOnce
    else closeTransports ring s .pyNone

/-- `transport_force_close`. -/
def transportForceClose (ring : Bool) (s : Stream) (exc : Option Exc) : Stream :=
  if s.closed then s
  else
    let s := s.detachServer
    let s :=
      { s with dispatchGeneration := s.dispatchGeneration + 1, closed := true, pendingLostExc := exc }
    let s := writeForceClose ring (readForceClose ring s)
    cancelAndCloseFd { s with isReading := false, isWriting := false }

/-- `transport_write_eof` with `queue_eof`. -/
def transportWriteEof (ring : Bool) (s : Stream) : Stream :=
  if s.write.isClosing && !s.write.eofPending then s
  else if decide (s.write.bufferSize > 0) || s.write.writeInFlight then
    writeClose { s with write := { s.write with eofPending := true } }
  else if ring then writeClose (s.emit .socketShutdown)
  else s

/-- `transport_pause_reading`. -/
def transportPauseReading (ring : Bool) (s : Stream) : Stream :=
  if s.closed then s
  else if !s.isReading then s
  else if decide (s.read.blockingTaskId = 0) || s.read.cancelling then { s with isReading := false }
  else if ring then { s.readCancel with isReading := false }
  else s

/-- `transport_resume_reading`, up to the call of `get_buffer`; the flag tells that it is called. -/
def transportResumeReading (ring : Bool) (s : Stream) (task : TaskId) : Stream × Bool :=
  if s.closed then (s, false)
  else
    let s := { s with isReading := true }
    if s.read.blockingTaskId ≠ 0 then (s, false)
    else if s.read.isClosing then (s, false)
    else
      match s.protocol.type with
      | .buffered => (s.emit .getBuffer, true)
      | .legacy => if ring then (s.performRead task, false) else ({ s with isReading := false }, false)

/-- The end of `transport_resume_reading` once `get_buffer` returned; `writable` is false when it raised
or returned something else than a writable buffer. -/
def getBufferReturned (ring : Bool) (s : Stream) (writable : Bool) (task : TaskId) : Stream :=
  if writable then
    if ring then s.performBufferedRead task
    else
      let buffer := s.protocolBuffersAcquired
      let s := { s with protocolBuffersAcquired := buffer + 1 }.emit (.acquireProtocolBuffer buffer)
      { s.emit (.releaseProtocolBuffer buffer) with isReading := false }
  else { s with isReading := false }

/-- `ReadTransport.read_operation_completed` with the `cancelled` flag: `cleanup_resources_callback`. -/
def readCancelled (s : Stream) : Stream :=
  maybeCloseFd
    { s with
      pendingReads := s.pendingReads.tail
      read :=
        { s.read with
          blockingTaskId := 0, cancelling := false
          closed := s.read.closed || s.read.isClosing } }

/-- `write_operation_completed` with the `cancelled` flag. -/
def writeCancelled (s : Stream) : Stream := s.endWriteOperation

/-- A method call from Python. -/
inductive TransportCall
  | write (data : Option Bytes)
  | writeLines (items : List (Option Bytes)) (raises : Bool)
  | writeEof
  | close
  | forceClose (exc : Option Exc)
  | pauseReading
  | resumeReading (task : TaskId)
  deriving DecidableEq, Repr

/-- What a call does to the transport; the flag tells that it waits for `get_buffer`. -/
def call (ring : Bool) (s : Stream) : TransportCall → Stream × Bool
  | .write data => (s.transportWrite data, false)
  | .writeLines items raises => (s.transportWriteLines items raises, false)
  | .writeEof => (transportWriteEof ring s, false)
  | .close => (transportClose ring s, false)
  | .forceClose exc => (transportForceClose ring s exc, false)
  | .pauseReading => (transportPauseReading ring s, false)
  | .resumeReading task => transportResumeReading ring s task

/-- The read side is closed once `ReadTransport.close` was called with the ring closed. -/
def ReadCloses (s : Stream) : Prop :=
  s.read.closed = true ∨ s.read.isClosing = false ∧ s.read.blockingTaskId = 0

/-- The write side is closed once `WriteTransport.close` was called. -/
def WriteCloses (s : Stream) : Prop :=
  s.write.closed = true ∨
    s.write.isClosing = false ∧ s.write.writeInFlight = false ∧ s.write.bufferSize = 0

/-- With the ring closed, the call tears the fd down, if there is one. -/
def TearsDown (s : Stream) : TransportCall → Prop
  | .close => s.isClosing = false ∧ s.closed = false ∧ ReadCloses s ∧ WriteCloses s
  | .forceClose _ => s.closed = false
  | _ => False

/-- The cancelled completion of the read tears the fd down, if there is one. -/
def ReadSettles (s : Stream) : Prop :=
  (s.read.closed = true ∨ s.read.isClosing = true) ∧ s.write.closed = true

open Talyn.Stream (FdStep)

variable {s t : Stream} {ring : Bool}

/-! ### The fd and its slot -/

theorem fdStep_cancelAndCloseFd (s : Stream) : FdStep s (cancelAndCloseFd s) := by
  unfold cancelAndCloseFd
  split
  · exact .refl
  next fd hfd => exact Stream.fdStep_unregister_close hfd

theorem fdStep_maybeCloseFd (s : Stream) : FdStep s (maybeCloseFd s) := by
  unfold maybeCloseFd
  split
  · refine FdStep.trans ?_ (Stream.fdStep_scheduleConnectionLostOnce _)
    refine FdStep.trans ?_ (fdStep_cancelAndCloseFd _)
    exact .same rfl rfl
  · exact .refl

theorem fdStep_readClose (s : Stream) : FdStep s (readClose ring s) := by
  unfold readClose
  split
  · exact .refl
  split
  · refine FdStep.trans ?_ (fdStep_maybeCloseFd _)
    exact .same rfl rfl
  split
  · exact .same rfl rfl
  split
  · exact .emitting (e := .cancelIo _) rfl rfl rfl
  · exact .refl

theorem fdStep_readForceClose (s : Stream) : FdStep s (readForceClose ring s) := by
  unfold readForceClose
  split
  · exact .refl
  dsimp only
  split
  · exact .emitting (e := .cancelIo _) rfl rfl rfl
  · exact .same rfl rfl

theorem fdStep_writeClose (s : Stream) : FdStep s (writeClose s) := by
  unfold writeClose
  split
  · exact .refl
  dsimp only
  split
  · refine FdStep.trans ?_ (fdStep_maybeCloseFd _)
    exact .same rfl rfl
  · exact .same rfl rfl

theorem fdStep_writeForceClose (s : Stream) : FdStep s (writeForceClose ring s) := by
  unfold writeForceClose
  split
  · exact .refl
  dsimp only
  split
  · split
    · refine FdStep.trans ?_ (fdStep_maybeCloseFd _)
      exact .emitting (e := .cancelIo _) rfl rfl rfl
    · exact .same rfl rfl
  · refine FdStep.trans ?_ (fdStep_maybeCloseFd _)
    exact .same rfl rfl

theorem fdStep_closeTransports (s : Stream) (exc : Exc) : FdStep s (closeTransports ring s exc) := by
  unfold closeTransports
  dsimp only
  generalize hv : (if (!s.closed && s.pendingLostExc.isNone) = true then
    { s with pendingLostExc := some exc } else s) = v
  have hsv : FdStep s v := by
    rw [← hv]
    split
    · exact .same rfl rfl
    · exact .refl
  have hu : FdStep s { writeClose (readClose ring v) with isReading := false, isClosing := true } := by
    apply hsv.trans
    apply (fdStep_readClose v).trans
    exact (fdStep_writeClose _).trans (.same rfl rfl)
  split
  · exact hu
  · exact hu.trans ((Stream.fdStep_detachServer _).trans (fdStep_maybeCloseFd _))

theorem fdStep_transportClose (s : Stream) : FdStep s (transportClose ring s) := by
  unfold transportClose
  split
  · exact .refl
  dsimp only
  split
  · refine FdStep.trans ?_ (Stream.fdStep_scheduleConnectionLostOnce _)
    refine FdStep.trans ?_ (fdStep_cancelAndCloseFd _)
    exact .same rfl rfl
  · refine FdStep.trans ?_ (fdStep_closeTransports _ _)
    exact .same rfl rfl

theorem fdStep_transportForceClose (s : Stream) (exc : Option Exc) :
    FdStep s (transportForceClose ring s exc) := by
  unfold transportForceClose
  split
  · exact .refl
  dsimp only
  refine FdStep.trans ?_ (fdStep_cancelAndCloseFd _)
  apply (Stream.fdStep_detachServer s).trans
  generalize hv : ({ s.detachServer with
    dispatchGeneration := s.detachServer.dispatchGeneration + 1, closed := true,
    pendingLostExc := exc } : Stream) = v
  have hsv : FdStep s.detachServer v := by
    rw [← hv]
    exact .same rfl rfl
  apply hsv.trans
  apply (fdStep_readForceClose v).trans
  exact (fdStep_writeForceClose _).trans (.same rfl rfl)

theorem fdStep_transportWriteEof (s : Stream) : FdStep s (transportWriteEof ring s) := by
  unfold transportWriteEof
  split
  · exact .refl
  split
  · refine FdStep.trans ?_ (fdStep_writeClose _)
    exact .same rfl rfl
  split
  · exact (Stream.fdStep_emit s (e := .socketShutdown) rfl).trans (fdStep_writeClose _)
  · exact .refl

theorem fdStep_transportPauseReading (s : Stream) : FdStep s (transportPauseReading ring s) := by
  unfold transportPauseReading Stream.readCancel
  split
  · exact .refl
  split
  · exact .refl
  split
  · exact .same rfl rfl
  split
  · exact .emitting (e := .cancelIo _) rfl rfl rfl
  · exact .refl

theorem fdStep_transportResumeReading (s : Stream) (task : TaskId) :
    FdStep s (transportResumeReading ring s task).1 := by
  unfold transportResumeReading
  split
  · exact .refl
  dsimp only
  split
  · exact .same rfl rfl
  split
  · exact .same rfl rfl
  split
  · exact .emitting (e := .getBuffer) rfl rfl rfl
  split
  · exact .emitting (e := .performRead _) rfl rfl rfl
  · exact .same rfl rfl

theorem fdStep_getBufferReturned (s : Stream) (writable : Bool) (task : TaskId) :
    FdStep s (getBufferReturned ring s writable task) := by
  unfold getBufferReturned
  split
  · split
    · exact Stream.fdStep_performBufferedRead s task
    · refine FdStep.trans (t := { s with protocolBuffersAcquired := s.protocolBuffersAcquired + 1 }.emit
        (.acquireProtocolBuffer s.protocolBuffersAcquired)) ?_ ?_
      · exact .emitting (e := .acquireProtocolBuffer _) rfl rfl rfl
      · exact .emitting (e := .releaseProtocolBuffer _) rfl rfl rfl
  · exact .same rfl rfl

theorem fdStep_readCancelled (s : Stream) : FdStep s (readCancelled s) := by
  unfold readCancelled
  refine FdStep.trans ?_ (fdStep_maybeCloseFd _)
  exact .same rfl rfl

theorem fdStep_writeCancelled (s : Stream) : FdStep s (writeCancelled s) := .same rfl rfl

theorem fdStep_call (s : Stream) (c : TransportCall) : FdStep s (call ring s c).1 := by
  cases c with
  | write data => exact (Stream.writes_transportWrite s data).fdStep
  | writeLines items raises => exact (Stream.writes_transportWriteLines s items raises).fdStep
  | writeEof => exact fdStep_transportWriteEof s
  | close => exact fdStep_transportClose s
  | forceClose exc => exact fdStep_transportForceClose s exc
  | pauseReading => exact fdStep_transportPauseReading s
  | resumeReading task => exact fdStep_transportResumeReading s task

/-! ### What tearing down the fd shows -/

/-- The effects of tearing down the fd. -/
def Settling : Effect → Prop
  | .unregisterFixedFile _ | .closeFd _ | .detachServer | .connectionLost _ => True
  | _ => False

/-- The transport did nothing but tear its fd down. -/
def Settled (s t : Stream) : Prop := ∃ es, t.trace = s.trace ++ es ∧ ∀ e ∈ es, Settling e

theorem Settled.same (h : t.trace = s.trace) : Settled s t :=
  ⟨[], by rw [h, List.append_nil], fun e he => absurd he List.not_mem_nil⟩

theorem Settled.emitting {e : Effect} (he : Settling e) (h : t.trace = s.trace ++ [e]) : Settled s t := by
  refine ⟨[e], h, fun e' he' => ?_⟩
  rw [List.mem_singleton.1 he']
  exact he

theorem Settled.trans {u : Stream} (h : Settled s t) (h' : Settled t u) : Settled s u := by
  obtain ⟨es, htrace, hes⟩ := h
  obtain ⟨es', htrace', hes'⟩ := h'
  refine ⟨es ++ es', by rw [htrace', htrace, List.append_assoc], fun e he => ?_⟩
  exact (List.mem_append.1 he).elim (hes e) (hes' e)

theorem settled_cancelAndCloseFd (s : Stream) : Settled s (cancelAndCloseFd s) := by
  have hunregister : Settled s s.unregisterFixedFile := by
    unfold Stream.unregisterFixedFile
    split
    · exact .emitting (e := .unregisterFixedFile _) trivial rfl
    · exact .same rfl
  unfold cancelAndCloseFd
  split
  · exact .same rfl
  · refine hunregister.trans ?_
    unfold Stream.closeFd
    split
    · exact .emitting (e := .closeFd _) trivial rfl
    · exact .same rfl

theorem settled_scheduleConnectionLostOnce (s : Stream) : Settled s s.scheduleConnectionLostOnce := by
  have hdetach : Settled s s.detachServer := by
    unfold Stream.detachServer
    split
    · exact .emitting (e := .detachServer) trivial rfl
    · exact .same rfl
  unfold Stream.scheduleConnectionLostOnce
  dsimp only
  split
  · exact hdetach
  · exact hdetach.trans (.emitting (e := .connectionLost _) trivial rfl)

theorem settled_maybeCloseFd (s : Stream) : Settled s (maybeCloseFd s) := by
  unfold maybeCloseFd
  split
  · refine Settled.trans ?_ (settled_scheduleConnectionLostOnce _)
    refine Settled.trans ?_ (settled_cancelAndCloseFd _)
    exact .same rfl
  · exact .same rfl

theorem settled_readCancelled (s : Stream) : Settled s (readCancelled s) := by
  unfold readCancelled
  refine Settled.trans ?_ (settled_maybeCloseFd _)
  exact .same rfl

/-! ### When the fd is torn down -/

@[simp] theorem cancelAndCloseFd_fd (s : Stream) : (cancelAndCloseFd s).fd = none := by
  unfold cancelAndCloseFd
  split
  · assumption
  · rfl

@[simp] theorem cancelAndCloseFd_read (s : Stream) : (cancelAndCloseFd s).read = s.read := by
  unfold cancelAndCloseFd Stream.unregisterFixedFile Stream.closeFd
  split
  · rfl
  · split <;> split <;> rfl

@[simp] theorem cancelAndCloseFd_write (s : Stream) : (cancelAndCloseFd s).write = s.write := by
  unfold cancelAndCloseFd Stream.unregisterFixedFile Stream.closeFd
  split
  · rfl
  · split <;> split <;> rfl

@[simp] theorem scheduleConnectionLostOnce_fd (s : Stream) :
    s.scheduleConnectionLostOnce.fd = s.fd := by
  unfold Stream.scheduleConnectionLostOnce
  dsimp only
  split <;> simp [Stream.emit]

@[simp] theorem maybeCloseFd_read (s : Stream) : (maybeCloseFd s).read = s.read := by
  unfold maybeCloseFd
  split <;> simp

@[simp] theorem maybeCloseFd_write (s : Stream) : (maybeCloseFd s).write = s.write := by
  unfold maybeCloseFd
  split <;> simp

theorem maybeCloseFd_fd (s : Stream) :
    (maybeCloseFd s).fd = none ↔ s.fd = none ∨ s.read.closed = true ∧ s.write.closed = true := by
  unfold maybeCloseFd
  split <;> simp_all

theorem readCancelled_fd (s : Stream) : (readCancelled s).fd = none ↔ s.fd = none ∨ ReadSettles s := by
  rw [readCancelled, maybeCloseFd_fd, ReadSettles, Bool.or_eq_true]

theorem readClose_write (s : Stream) : (readClose ring s).write = s.write := by
  unfold readClose
  split
  · rfl
  split
  · exact maybeCloseFd_write _
  split
  · rfl
  split <;> rfl

theorem readClose_closed (s : Stream) : (readClose false s).read.closed = true ↔ ReadCloses s := by
  unfold readClose ReadCloses
  by_cases hclosing : s.read.isClosing = true
  · simp [hclosing]
  by_cases hclosed : s.read.closed = true
  · simp [hclosed]
  by_cases hid : s.read.blockingTaskId = 0
  · simp [hclosing, hclosed, hid]
  · rw [Bool.not_eq_true] at hclosing hclosed
    by_cases hcancel : s.read.cancelling = true <;> simp [hclosing, hclosed, hid, hcancel]

theorem readClose_fd (s : Stream) :
    (readClose false s).fd = none → s.fd = none ∨ ReadCloses s ∧ s.write.closed = true := by
  unfold readClose ReadCloses
  split
  · exact .inl
  rename_i hopen
  split
  · rename_i hid
    intro hnone
    rcases (maybeCloseFd_fd _).1 hnone with hfd | ⟨-, hwrite⟩
    · exact .inl hfd
    · refine .inr ⟨.inr ⟨?_, hid⟩, hwrite⟩
      simp_all
  split
  · exact .inl
  · exact .inl

theorem writeClose_read (s : Stream) : (writeClose s).read = s.read := by
  unfold writeClose
  split
  · rfl
  dsimp only
  split
  · exact maybeCloseFd_read _
  · rfl

theorem writeClose_closed (s : Stream) : (writeClose s).write.closed = true ↔ WriteCloses s := by
  unfold writeClose WriteCloses
  by_cases hclosing : s.write.isClosing = true
  · simp [hclosing]
  by_cases hclosed : s.write.closed = true
  · simp [hclosed]
  rw [Bool.not_eq_true] at hclosing hclosed
  rw [if_neg (by simp [hclosing, hclosed])]
  dsimp only
  split
  · rename_i hidle
    simp_all
  · rename_i hbusy
    simp_all

theorem writeClose_fd (s : Stream) :
    (writeClose s).fd = none → s.fd = none ∨ WriteCloses s ∧ s.read.closed = true := by
  unfold writeClose WriteCloses
  split
  · exact .inl
  rename_i hopen
  dsimp only
  split
  · rename_i hidle
    intro hnone
    rcases (maybeCloseFd_fd _).1 hnone with hfd | ⟨hread, -⟩
    · exact .inl hfd
    · refine .inr ⟨.inr ?_, hread⟩
      simp_all
  · exact .inl

theorem fd_none_of_fdStep (h : FdStep s t) (hfd : s.fd = none) : t.fd = none := by
  cases h with
  | kept es htrace hes hkept => exact (congrArg Prod.fst hkept).trans hfd
  | torn es fd htrace hsome hes htorn => exact congrArg Prod.fst htorn

theorem WriteCloses.congr (h : t.write = s.write) : WriteCloses t ↔ WriteCloses s := by
  rw [WriteCloses, WriteCloses, h]

theorem closeTransports_fd {exc : Exc} (hopen : s.closed = false) :
    (closeTransports false s exc).fd = none ↔ s.fd = none ∨ ReadCloses s ∧ WriteCloses s := by
  unfold closeTransports
  dsimp only
  generalize hv : (if (!s.closed && s.pendingLostExc.isNone) = true then
    { s with pendingLostExc := some exc } else s) = v
  have hread : v.read = s.read := by
    rw [← hv]
    split <;> rfl
  have hwrite : v.write = s.write := by
    rw [← hv]
    split <;> rfl
  have hfd : v.fd = s.fd := by
    rw [← hv]
    split <;> rfl
  have hreads : ReadCloses v ↔ ReadCloses s := by rw [ReadCloses, ReadCloses, hread]
  have hwrites : WriteCloses (readClose false v) ↔ WriteCloses s :=
    (WriteCloses.congr (readClose_write v)).trans (WriteCloses.congr hwrite)
  rw [hopen, if_neg Bool.false_ne_true, maybeCloseFd_fd, Stream.detachServer_fd,
    Stream.detachServer_read, Stream.detachServer_write]
  dsimp only
  rw [writeClose_read, readClose_closed, writeClose_closed, hreads, hwrites]
  constructor
  · rintro (hnone | hboth)
    · rcases writeClose_fd _ hnone with hnone | ⟨hw, hr⟩
      · rcases readClose_fd v hnone with hnone | ⟨hr, hw⟩
        · exact .inl (hfd.symm.trans hnone)
        · exact .inr ⟨hreads.1 hr, .inl (by rw [← hwrite, hw])⟩
      · exact .inr ⟨hreads.1 ((readClose_closed v).1 hr), hwrites.1 hw⟩
    · exact .inr hboth
  · rintro (hnone | hboth)
    · left
      exact fd_none_of_fdStep ((fdStep_readClose v).trans (fdStep_writeClose _)) (hfd.trans hnone)
    · exact .inr hboth

theorem transportClose_fd (s : Stream) :
    (transportClose false s).fd = none ↔ s.fd = none ∨ TearsDown s .close := by
  unfold transportClose TearsDown
  split
  · simp_all
    grind
  rename_i hopen
  rw [Bool.or_eq_true, not_or, Bool.not_eq_true, Bool.not_eq_true] at hopen
  dsimp only
  split
  · rename_i hboth
    rw [Bool.and_eq_true] at hboth
    refine iff_of_true (by simp) (.inr ⟨hopen.1, hopen.2, .inl hboth.1, .inl hboth.2⟩)
  · refine (closeTransports_fd (s := { s with isClosing := true }) hopen.2).trans ?_
    simp only [hopen, true_and]
    rfl

theorem transportForceClose_fd (s : Stream) (exc : Option Exc) :
    (transportForceClose ring s exc).fd = none ↔ s.fd = none ∨ s.closed = false := by
  unfold transportForceClose
  split
  · simp_all
  · simp_all

theorem appendNewBufferToWrite_fd {data : Option Bytes} {size : ℕ}
    (h : s.appendNewBufferToWrite data = .ok (size, t)) : t.fd = s.fd := by
  unfold Stream.appendNewBufferToWrite at h
  split at h
  · exact nomatch h
  cases data with
  | none => exact nomatch h
  | some data =>
    dsimp only at h
    split at h
    · rw [← (Prod.mk.inj (Except.ok.inj h)).2]
      rfl
    · rw [← (Prod.mk.inj (Except.ok.inj h)).2]
      rfl

theorem pauseIfAbove_fd (s : Stream) (size : ℕ) : (s.pauseIfAbove size).fd = s.fd := by
  unfold Stream.pauseIfAbove
  split
  · dsimp only
    split <;> rfl
  · rfl

theorem transportWrite_fd (s : Stream) (data : Option Bytes) : (s.transportWrite data).fd = s.fd := by
  unfold Stream.transportWrite
  split
  · rfl
  split
  · rfl
  · rename_i heq
    rw [pauseIfAbove_fd, appendNewBufferToWrite_fd heq]

theorem appendLines_fd (s : Stream) (size : ℕ) (items : List (Option Bytes)) :
    (s.appendLines size items).2.fd = s.fd := by
  induction items generalizing s size with
  | nil => rfl
  | cons item items ih =>
    unfold Stream.appendLines
    split
    · rfl
    · rename_i heq
      rw [ih, appendNewBufferToWrite_fd heq]

theorem transportWriteLines_fd (s : Stream) (items : List (Option Bytes)) (raises : Bool) :
    (s.transportWriteLines items raises).fd = s.fd := by
  have hlines := appendLines_fd s 0 items
  unfold Stream.transportWriteLines
  split
  · rfl
  split
  · rename_i heq
    rwa [heq] at hlines
  · rename_i heq
    rw [heq] at hlines
    split
    · exact hlines
    · rw [pauseIfAbove_fd, hlines]

/-- The write side does not settle: something is still to be written. -/
theorem transportWriteEof_fd (s : Stream) : (transportWriteEof false s).fd = s.fd := by
  unfold transportWriteEof
  split
  · rfl
  split
  · rename_i hbusy
    unfold writeClose
    split
    · rfl
    · rw [Bool.or_eq_true, decide_eq_true_eq] at hbusy
      rw [if_neg]
      rw [Bool.and_eq_true, Bool.not_eq_true', decide_eq_true_eq]
      rintro ⟨hidle, hempty⟩
      rcases hbusy with hbuffered | hflight
      · exact absurd hempty (Nat.ne_of_gt hbuffered)
      · exact absurd (hidle.symm.trans hflight) Bool.false_ne_true
  · rfl

theorem transportPauseReading_fd (s : Stream) : (transportPauseReading false s).fd = s.fd := by
  unfold transportPauseReading
  split
  · rfl
  split
  · rfl
  split <;> rfl

theorem transportResumeReading_fd (s : Stream) (task : TaskId) :
    (transportResumeReading false s task).1.fd = s.fd := by
  unfold transportResumeReading
  split
  · rfl
  dsimp only
  split
  · rfl
  split
  · rfl
  split <;> rfl

theorem getBufferReturned_fd (s : Stream) (writable : Bool) (task : TaskId) :
    (getBufferReturned ring s writable task).fd = s.fd := by
  unfold getBufferReturned
  split
  · split <;> rfl
  · rfl

/-- **With the ring closed, exactly these calls tear the fd down.** -/
theorem call_fd (s : Stream) (c : TransportCall) :
    (call false s c).1.fd = none ↔ s.fd = none ∨ TearsDown s c := by
  cases c with
  | write data => simp [call, transportWrite_fd, TearsDown]
  | writeLines items raises => simp [call, transportWriteLines_fd, TearsDown]
  | writeEof => simp [call, transportWriteEof_fd, TearsDown]
  | close => exact transportClose_fd s
  | forceClose exc => exact transportForceClose_fd s exc
  | pauseReading => simp [call, transportPauseReading_fd, TearsDown]
  | resumeReading task => simp [call, transportResumeReading_fd, TearsDown]

end Talyn.ClosedLoop
