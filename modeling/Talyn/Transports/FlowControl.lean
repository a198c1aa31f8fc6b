import Talyn.Transports.Machine

/-!
# Stream transports: flow control

`z_transport_set_write_buffer_limits` of `transports/stream/write.zig`, and the machine of a stream
transport together with it. The function calls `pause_writing` and looks at the low-water mark after
that, so a call of it waits for the protocol method, among the frames of the transport.

`flowCalls` is what the protocol hears of flow control. The other functions of the transport leave the
`FlowView` alone, which `KeepsFlow` says; what is left are the five places that pause or resume.
-/

namespace Talyn

/-- The effect is a call of `pause_writing` or of `resume_writing`. -/
def Effect.isFlowCall : Effect → Bool
  | .pauseWriting | .resumeWriting => true
  | _ => false

/-- `PyLong_AsLongLong`; `none` when it raises. -/
def asLongLong (value : ℤ) : Option ℤ :=
  if -2 ^ 63 ≤ value ∧ value < 2 ^ 63 then some value else none

/-- The saturating product `low *| 4` of 64-bit integers. -/
def timesFour (low : ℤ) : ℤ := max (-2 ^ 63) (min (low * 4) (2 ^ 63 - 1))

/-- The water marks `set_write_buffer_limits` sets, high and low; `none` when it raises. -/
def writeLimits (high low : Option ℤ) : Option (ℕ × ℕ) := do
  let high ← high.mapM asLongLong
  let low ← low.mapM asLongLong
  let high := high.getD ((low.map timesFour).getD (64 * 1024))
  let low := low.getD (high.tdiv 4)
  if high ≥ low ∧ low ≥ 0 then some (high.toNat, low.toNat) else none

namespace Stream

/-- The end of `set_write_buffer_limits`: resume at the low-water mark. -/
def resumeIfBelow (s : Stream) : Stream :=
  if !s.isWriting && decide (s.write.bufferSize ≤ s.writingLowWaterMark) then
    let s := { s with isWriting := true }
    if s.protocol.resumeWriting then s.emit .resumeWriting else s
  else s

/-- `z_transport_set_write_buffer_limits`, up to the call of `pause_writing`; tells whether it waits
for it. -/
def setWriteBufferLimits (s : Stream) (high low : Option ℤ) : Stream × Bool :=
  match writeLimits high low with
  | none => (s, false)
  | some (high, low) =>
    let s := { s with writingHighWaterMark := high, writingLowWaterMark := low }
    if s.isWriting && decide (s.write.bufferSize > s.writingHighWaterMark) then
      let s := { s with isWriting := false }
      if s.protocol.pauseWriting then (s.emit .pauseWriting, true) else (s.resumeIfBelow, false)
    else (s.resumeIfBelow, false)

end Stream

/-- A stream transport with the calls of `set_write_buffer_limits` that wait for `pause_writing`, each
by the number of frames it was made above. -/
structure FlowMachine where
  machine : Machine
  waiting : List ℕ
  deriving DecidableEq, Repr

/-- What can happen to a stream transport, `set_write_buffer_limits` included. -/
inductive FlowEvent
  | transport (e : Event)
  | setWriteBufferLimits (high low : Option ℤ)
  /-- the `pause_writing` a `set_write_buffer_limits` waits for returns or raises -/
  | pauseEnded (raises : Bool)
  deriving DecidableEq, Repr

namespace FlowMachine

/-- The loop runs only outside of Python calls, and the Python code called last ends first. -/
def allows (m : FlowMachine) : Event → Bool
  | .returned _ _ | .raised _ => m.waiting.head? ≠ some m.machine.frames.length
  | .flush _ | .writeCompleted _ _ _ | .readCompleted _ _ _ _ | .readHarvested _ | .readDispatched _
  | .batchedReadCompleted _ _ => m.waiting = []
  | _ => true

/-- One event; `none` when it cannot happen. -/
def step (m : FlowMachine) : FlowEvent → Option FlowMachine
  | .transport e =>
    if m.allows e then (m.machine.step e).map fun machine => { m with machine := machine } else none
  | .setWriteBufferLimits high low =>
    let (s, waits) := m.machine.stream.setWriteBufferLimits high low
    some
      { machine := { m.machine with stream := s }
        waiting := if waits then m.machine.frames.length :: m.waiting else m.waiting }
  | .pauseEnded raises =>
    match m.waiting with
    | [] => none
    | depth :: waiting =>
      if depth = m.machine.frames.length then
        let s := m.machine.stream
        some
          { machine := { m.machine with stream := if raises then s else s.resumeIfBelow }
            waiting := waiting }
      else none

/-- A transport right after its construction. -/
def init (protocol : Protocol) (fd fixedFileIndex : ℕ) (ownsFd serverRef : Bool) (task : TaskId) :
    FlowMachine :=
  ⟨Machine.init protocol fd fixedFileIndex ownsFd serverRef task, []⟩

end FlowMachine

/-! ### What the protocol hears -/

/-- Calls of `pause_writing` and `resume_writing` by turns, `pause_writing` first. -/
def Alternate (calls : List Effect) : Prop :=
  ∀ i call, calls[i]? = some call → call = if i % 2 = 0 then .pauseWriting else .resumeWriting

theorem alternate_append (calls : List Effect) (call : Effect) :
    Alternate (calls ++ [call]) ↔ Alternate calls ∧
      call = if calls.length % 2 = 0 then .pauseWriting else .resumeWriting := by
  constructor
  · intro h
    refine ⟨fun i c hi => h i c ?_, h calls.length call (by simp)⟩
    rw [List.getElem?_append_left (List.getElem?_eq_some_iff.1 hi).1]
    exact hi
  · rintro ⟨h, hcall⟩ i c hi
    rcases lt_trichotomy i calls.length with hlt | rfl | hgt
    · rw [List.getElem?_append_left hlt] at hi
      exact h i c hi
    · rw [List.getElem?_concat_length] at hi
      rw [← Option.some.inj hi]
      exact hcall
    · rw [List.getElem?_eq_none (by simp; omega)] at hi
      exact nomatch hi

/-- By turns, the protocol is paused after an odd number of calls. -/
theorem Alternate.getLast_iff {calls : List Effect} (h : Alternate calls) :
    calls.getLast? = some .pauseWriting ↔ calls.length % 2 = 1 := by
  rcases calls.eq_nil_or_concat with rfl | ⟨calls, call, rfl⟩
  · simp
  · rw [List.concat_eq_append] at h ⊢
    obtain ⟨-, rfl⟩ := (alternate_append calls call).1 h
    rw [List.getLast?_concat, List.length_append, List.length_singleton]
    split
    · simp; omega
    · simp; omega

/-- `pause_writing` is the next call exactly when the protocol is not paused. -/
theorem Alternate.pause_iff {calls : List Effect} (h : Alternate calls) :
    Alternate (calls ++ [.pauseWriting]) ↔ calls.getLast? ≠ some .pauseWriting := by
  rw [alternate_append, Ne, h.getLast_iff, and_iff_right h]
  split
  · simp; omega
  · simp; omega

/-- `resume_writing` is the next call exactly when the protocol is paused. -/
theorem Alternate.resume_iff {calls : List Effect} (h : Alternate calls) :
    Alternate (calls ++ [.resumeWriting]) ↔ calls.getLast? = some .pauseWriting := by
  rw [alternate_append, h.getLast_iff, and_iff_right h]
  split
  · simp; omega
  · simp; omega

namespace Stream

/-- The calls of `pause_writing` and `resume_writing`, in order. -/
def flowCalls (s : Stream) : List Effect := s.trace.filter Effect.isFlowCall

/-- The protocol was told to pause, and not to resume since. -/
def ProtocolPaused (s : Stream) : Prop := s.flowCalls.getLast? = some .pauseWriting

/-- What flow control is about. -/
structure FlowView where
  calls : List Effect
  isWriting : Bool
  bufferSize : ℕ
  low : ℕ
  high : ℕ
  protocol : Protocol

/-- The flow control of a transport. -/
def flowView (s : Stream) : FlowView where
  calls := s.flowCalls
  isWriting := s.isWriting
  bufferSize := s.write.bufferSize
  low := s.writingLowWaterMark
  high := s.writingHighWaterMark
  protocol := s.protocol

/-- `t` comes from `s`, with the flow control `v`; a transport that is closing stays so. -/
structure Flows (s : Stream) (v : FlowView) (t : Stream) : Prop where
  view : t.flowView = v
  isClosing : t.isClosing = false → s.isClosing = false
  closed : t.closed = false → s.closed = false

/-- `t` comes from `s` by a function that leaves flow control alone. -/
abbrev KeepsFlow (s t : Stream) : Prop := Flows s s.flowView t

variable {s t u : Stream}

/-- One function after another. -/
theorem Flows.trans {v w : FlowView} (h₁ : Flows s v t) (h₂ : Flows t w u) : Flows s w u :=
  ⟨h₂.view, fun h => h₁.isClosing (h₂.isClosing h), fun h => h₁.closed (h₂.closed h)⟩

/-- A function that leaves flow control alone after another one. -/
theorem Flows.keeps {v : FlowView} (h₁ : Flows s v t) (h₂ : KeepsFlow t u) : Flows s v u :=
  ⟨h₂.view.trans h₁.view, fun h => h₁.isClosing (h₂.isClosing h), fun h => h₁.closed (h₂.closed h)⟩

namespace KeepsFlow

theorem refl (s : Stream) : KeepsFlow s s := ⟨rfl, id, id⟩

theorem trans (h₁ : KeepsFlow s t) (h₂ : KeepsFlow t u) : KeepsFlow s u :=
  ⟨h₂.view.trans h₁.view, fun h => h₁.isClosing (h₂.isClosing h), fun h => h₁.closed (h₂.closed h)⟩

/-- Another effect. -/
theorem emit (s : Stream) {e : Effect} (he : e.isFlowCall = false) : KeepsFlow s (s.emit e) := by
  refine ⟨?_, id, id⟩
  have hcalls : (s.emit e).flowCalls = s.flowCalls := by
    simp [flowCalls, Stream.emit, List.filter_append, he]
  unfold flowView
  rw [hcalls]
  rfl

/-- The last thing a function does is another effect. -/
theorem andEmit (h : KeepsFlow s t) {e : Effect} (he : e.isFlowCall = false) :
    KeepsFlow s (t.emit e) := h.trans (.emit t he)

end KeepsFlow

theorem keepsFlow_detachServer (s : Stream) : KeepsFlow s s.detachServer := by
  unfold detachServer
  split
  · refine .andEmit ?_ rfl
    exact ⟨rfl, id, id⟩
  · exact .refl s

theorem keepsFlow_cancelAndCloseFd (s : Stream) : KeepsFlow s s.cancelAndCloseFd := by
  unfold cancelAndCloseFd
  cases s.fd with
  | none => exact .refl s
  | some fd =>
    have hcancel : KeepsFlow s (s.cancelByFd fd) := by
      unfold cancelByFd
      split
      · exact .emit s rfl
      · exact .refl s
    have hunregister : ∀ t : Stream, KeepsFlow t t.unregisterFixedFile := by
      intro t
      unfold unregisterFixedFile
      split
      · exact .trans (.emit t rfl) ⟨rfl, id, id⟩
      · exact .refl t
    have hclose : ∀ t : Stream, KeepsFlow t (t.closeFd fd) := by
      intro t
      unfold closeFd
      split
      · exact .trans (.emit t rfl) ⟨rfl, id, id⟩
      · exact ⟨rfl, id, id⟩
    exact hcancel.trans ((hunregister _).trans (hclose _))

theorem keepsFlow_scheduleConnectionLostOnce (s : Stream) :
    KeepsFlow s s.scheduleConnectionLostOnce := by
  refine (keepsFlow_detachServer s).trans ?_
  unfold scheduleConnectionLostOnce
  dsimp only
  generalize s.detachServer = t
  split
  · exact .refl t
  · refine .andEmit ?_ rfl
    exact ⟨rfl, id, id⟩

theorem keepsFlow_maybeCloseFd (s : Stream) : KeepsFlow s s.maybeCloseFd := by
  unfold maybeCloseFd
  split
  · have hmark : KeepsFlow s
        { s with dispatchGeneration := s.dispatchGeneration + 1, closed := true } :=
      ⟨rfl, id, nofun⟩
    exact hmark.trans ((keepsFlow_cancelAndCloseFd _).trans (keepsFlow_scheduleConnectionLostOnce _))
  · exact .refl s

/-- The last thing a function does is `maybe_close_fd`. -/
theorem KeepsFlow.maybeCloseFd (h : KeepsFlow s t) : KeepsFlow s t.maybeCloseFd :=
  h.trans (keepsFlow_maybeCloseFd t)

theorem keepsFlow_readClose (s : Stream) : KeepsFlow s s.readClose := by
  unfold readClose
  split
  · exact .refl s
  · split
    · exact .maybeCloseFd ⟨rfl, id, id⟩
    · dsimp only
      split
      · exact ⟨rfl, id, id⟩
      · exact .trans (.emit s (e := .cancelIo s.read.blockingTaskId) rfl) ⟨rfl, id, id⟩

theorem keepsFlow_writeClose (s : Stream) : KeepsFlow s s.writeClose := by
  unfold writeClose
  split
  · exact .refl s
  · dsimp only
    split
    · exact .maybeCloseFd ⟨rfl, id, id⟩
    · exact ⟨rfl, id, id⟩

theorem keepsFlow_closeTransports (s : Stream) (exc : Exc) : KeepsFlow s (s.closeTransports exc) := by
  unfold closeTransports
  dsimp only
  refine KeepsFlow.trans (t := if (!s.closed && s.pendingLostExc.isNone) = true then
      { s with pendingLostExc := some exc } else s) ?_ ?_
  · split
    · exact ⟨rfl, id, id⟩
    · exact .refl s
  · refine .trans ((keepsFlow_readClose _).trans (keepsFlow_writeClose _)) ?_
    generalize (Stream.readClose _).writeClose = u
    have hu : KeepsFlow u { u with isReading := false, isClosing := true } := ⟨rfl, nofun, id⟩
    split
    · exact hu
    · exact hu.trans ((keepsFlow_detachServer _).trans (keepsFlow_maybeCloseFd _))

theorem keepsFlow_transportClose (s : Stream) : KeepsFlow s s.transportClose := by
  unfold transportClose
  split
  · exact .refl s
  · have hmark : KeepsFlow s { s with isClosing := true } := ⟨rfl, nofun, id⟩
    dsimp only
    split
    · refine hmark.trans (.trans (t := { s with isClosing := true, closed := true }) ⟨rfl, id, nofun⟩ ?_)
      exact (keepsFlow_cancelAndCloseFd _).trans (keepsFlow_scheduleConnectionLostOnce _)
    · exact hmark.trans (keepsFlow_closeTransports _ _)

/-! ### Reading leaves flow control alone -/

theorem keepsFlow_releaseProtocolBuffer (s : Stream) (held : Option ℕ) :
    KeepsFlow s (s.releaseProtocolBuffer held) := by
  cases held with
  | none => exact .refl s
  | some buffer => exact .emit s rfl

theorem keepsFlow_performRead (s : Stream) (task : TaskId) : KeepsFlow s (s.performRead task) :=
  .trans (.emit s (e := .performRead task) rfl) ⟨rfl, id, id⟩

theorem keepsFlow_performBufferedRead (s : Stream) (task : TaskId) :
    KeepsFlow s (s.performBufferedRead task) := by
  have hacquire : KeepsFlow s
      ({ s with protocolBuffersAcquired := s.protocolBuffersAcquired + 1 }.emit
        (.acquireProtocolBuffer s.protocolBuffersAcquired)) :=
    .trans (t := { s with protocolBuffersAcquired := s.protocolBuffersAcquired + 1 })
      ⟨rfl, id, id⟩ (.emit _ rfl)
  exact hacquire.trans ((keepsFlow_performRead _ task).trans ⟨rfl, id, id⟩)

theorem keepsFlow_queueReadOperation (s : Stream) (site : ReadSite) (task : TaskId) :
    KeepsFlow s (s.queueReadOperation site task).1 := by
  unfold queueReadOperation
  split
  · exact .refl s
  · split
    · exact .refl s
    · cases s.protocol.type with
      | buffered => exact .emit s rfl
      | legacy => exact keepsFlow_performRead s task

theorem keepsFlow_transportPauseReading (s : Stream) : KeepsFlow s s.transportPauseReading := by
  unfold transportPauseReading readCancel
  split
  · exact .refl s
  · split
    · exact .refl s
    · split
      · exact ⟨rfl, id, id⟩
      · exact .trans (.emit s (e := .cancelIo s.read.blockingTaskId) rfl) ⟨rfl, id, id⟩

theorem keepsFlow_transportResumeReading (s : Stream) (task : TaskId) :
    KeepsFlow s (s.transportResumeReading task).1 := by
  unfold transportResumeReading
  split
  · exact .refl s
  · have hset : KeepsFlow s { s with isReading := true } := ⟨rfl, id, id⟩
    dsimp only
    split
    · exact hset
    · exact hset.trans (keepsFlow_queueReadOperation _ .resume task)

theorem keepsFlow_readCleanup (s : Stream) : KeepsFlow s s.readCleanup :=
  .maybeCloseFd ⟨rfl, id, id⟩

theorem keepsFlow_readSettled (s : Stream) (err : Errno) : KeepsFlow s (s.readSettled err) := by
  unfold readSettled
  split
  · split
    · exact .maybeCloseFd ⟨rfl, id, id⟩
    · exact .refl s
  · have hmark : KeepsFlow s { s with read := { s.read with isClosing := true, closed := true } } :=
      ⟨rfl, id, id⟩
    dsimp only
    split
    · exact hmark.trans (keepsFlow_closeTransports _ _)
    · exact hmark

theorem keepsFlow_finishRead (s : Stream) (held : Option ℕ) (err : Errno) :
    KeepsFlow s (s.finishRead held err) :=
  (keepsFlow_releaseProtocolBuffer s held).trans
    ((keepsFlow_maybeCloseFd _).trans (keepsFlow_readSettled _ err))

theorem keepsFlow_failRead (s : Stream) (held : Option ℕ) (exc : Exc) :
    KeepsFlow s (s.failRead held exc).1 := by
  unfold failRead
  dsimp only
  refine .trans ((keepsFlow_releaseProtocolBuffer s held).trans (keepsFlow_maybeCloseFd _)) ?_
  generalize (s.releaseProtocolBuffer held).maybeCloseFd = t
  have hmark : ∀ u : Stream,
      KeepsFlow u ({ u with read := { u.read with isClosing := true, closed := true } }.emit
        .callExceptionHandler) :=
    fun u => .trans (t := { u with read := { u.read with isClosing := true, closed := true } })
      ⟨rfl, id, id⟩ (.emit _ rfl)
  split
  · exact (keepsFlow_closeTransports t exc).trans (hmark _)
  · exact hmark t

theorem keepsFlow_rearmRead (s : Stream) (held : Option ℕ) (err : Errno) (task : TaskId) :
    KeepsFlow s (s.rearmRead held err task).1 := by
  have hqueue := keepsFlow_queueReadOperation s (.completion held err) task
  unfold rearmRead
  split
  · rename_i heq
    rw [heq] at hqueue
    exact hqueue.trans (keepsFlow_finishRead _ held err)
  · rename_i heq
    rw [heq] at hqueue
    exact hqueue

theorem keepsFlow_endOfStream (s : Stream) (held : Option ℕ) : KeepsFlow s (s.endOfStream held) :=
  (keepsFlow_closeTransports s .pyNone).trans (keepsFlow_finishRead _ held .success)

theorem keepsFlow_streamReadCompleted (s : Stream) (nbytes : ℕ) (err : Errno) (task : TaskId) :
    KeepsFlow s (s.streamReadCompleted nbytes err task).1 := by
  have hheld : KeepsFlow s { s with protocolBuffer := none } := ⟨rfl, id, id⟩
  unfold streamReadCompleted
  dsimp only
  generalize s.protocolBuffer = held
  split
  · refine hheld.trans (.trans (t := if (s.read.isClosing || s.read.closed || s.isClosing ||
      s.closed) = true then
        { s with protocolBuffer := none, read := { s.read with closed := true } }
      else { s with protocolBuffer := none }) ?_ ?_)
    · split
      · exact ⟨rfl, id, id⟩
      · exact .refl _
    · generalize (if (s.read.isClosing || s.read.closed || s.isClosing || s.closed) = true then
        ({ s with protocolBuffer := none, read := { s.read with closed := true } } : Stream)
        else { s with protocolBuffer := none }) = u
      split
      · exact keepsFlow_rearmRead u held err task
      · exact keepsFlow_finishRead u held err
  · split
    · split
      · exact hheld.trans (.emit _ rfl)
      · exact hheld.trans (keepsFlow_endOfStream _ held)
    · split
      · exact hheld.trans (keepsFlow_rearmRead _ held err task)
      · split
        · exact hheld.trans (.emit _ rfl)
        · exact hheld.trans (.emit _ rfl)

theorem keepsFlow_readOperationCompleted (s : Stream) (data : CallbackData) (task : TaskId) :
    KeepsFlow s (s.readOperationCompleted data task).1 := by
  have htail : KeepsFlow s { s with pendingReads := s.pendingReads.tail } := ⟨rfl, id, id⟩
  unfold readOperationCompleted
  dsimp only
  split
  · exact htail.trans (keepsFlow_readCleanup _)
  · refine htail.trans (.trans ?_ (keepsFlow_streamReadCompleted _ _ _ task))
    split
    · exact ⟨rfl, id, id⟩
    · exact ⟨rfl, id, id⟩

theorem keepsFlow_readFrameReturned (s : Stream) (frame : Frame) (keepOpen : Bool) (task : TaskId) :
    KeepsFlow s (s.readFrameReturned frame keepOpen task).1 := by
  unfold readFrameReturned
  split
  · exact keepsFlow_rearmRead s _ _ task
  · split
    · exact keepsFlow_finishRead s _ .success
    · exact keepsFlow_endOfStream s _
  · exact (keepsFlow_performBufferedRead s task).trans (keepsFlow_finishRead _ _ _)
  · exact keepsFlow_performBufferedRead s task
  · exact keepsFlow_readCleanup s
  · exact .refl s

theorem keepsFlow_readFrameRaised (s : Stream) (frame : Frame) (exc : Exc) :
    KeepsFlow s (s.readFrameRaised frame exc).1 := by
  unfold readFrameRaised
  split
  · exact keepsFlow_failRead s _ exc
  · exact keepsFlow_failRead s _ exc
  · exact keepsFlow_failRead s _ exc
  · exact ⟨rfl, id, id⟩
  · exact keepsFlow_readCleanup s
  · exact .refl s

/-! ### Writing -/

theorem keepsFlow_submitNextChunk {task : TaskId} (hs : s.submitNextChunk task = .ok t) :
    KeepsFlow s t := by
  unfold submitNextChunk at hs
  dsimp only at hs
  split at hs
  · obtain rfl := Except.ok.inj hs
    exact .refl s
  · split at hs
    · split at hs
      · cases hs
      · obtain rfl := Except.ok.inj hs
        exact ⟨rfl, id, id⟩
    · split at hs
      · obtain rfl := Except.ok.inj hs
        exact ⟨rfl, id, id⟩
      · obtain rfl := Except.ok.inj hs
        exact .trans (.emit s (e := .performWrite task _) rfl) ⟨rfl, id, id⟩

theorem keepsFlow_flushBufferedWrites (s : Stream) (task : TaskId) :
    KeepsFlow s (s.flushBufferedWrites task) := by
  unfold flushBufferedWrites
  split
  · split
    · rename_i heq
      exact keepsFlow_submitNextChunk heq
    · exact .refl s
  · exact .refl s

theorem keepsFlow_transportWriteEof (s : Stream) : KeepsFlow s s.transportWriteEof := by
  unfold transportWriteEof
  split
  · exact .refl s
  · unfold queueEof
    split
    · have hpending : KeepsFlow s { s with write := { s.write with eofPending := true } } :=
        ⟨rfl, id, id⟩
      exact hpending.trans (keepsFlow_writeClose _)
    · exact .trans (.emit s rfl) (keepsFlow_writeClose _)

theorem keepsFlow_releaseBuffers (s : Stream) (buffers : List ℕ) :
    KeepsFlow s (s.releaseBuffers buffers) := by
  refine ⟨?_, id, id⟩
  have hcalls : (s.releaseBuffers buffers).flowCalls = s.flowCalls := by
    simp [releaseBuffers, flowCalls, List.filter_append, List.filter_map, Function.comp_def,
      Effect.isFlowCall]
  unfold flowView
  rw [hcalls]
  rfl

theorem keepsFlow_writeFailed (s : Stream) (err : Errno) : KeepsFlow s (s.writeFailed err) := by
  unfold writeFailed
  split
  · exact .maybeCloseFd ⟨rfl, id, id⟩
  · dsimp only
    split
    · exact (keepsFlow_closeTransports s _).trans (.maybeCloseFd ⟨rfl, id, id⟩)
    · exact .maybeCloseFd ⟨rfl, id, id⟩

theorem keepsFlow_clearPending (s : Stream) : KeepsFlow s s.clearPending :=
  (keepsFlow_releaseBuffers s _).trans ⟨rfl, id, id⟩

theorem keepsFlow_sendPendingEof (s : Stream) : KeepsFlow s s.sendPendingEof := by
  unfold sendPendingEof
  split
  · exact .trans (t := { s with write := { s.write with eofPending := false } }) ⟨rfl, id, id⟩
      (.emit _ rfl)
  · exact .refl s

theorem keepsFlow_writeDrained (s : Stream) : KeepsFlow s s.writeDrained := by
  have hsent := (keepsFlow_clearPending s).trans (keepsFlow_sendPendingEof _)
  unfold writeDrained
  dsimp only
  split
  · exact hsent.trans (.maybeCloseFd ⟨rfl, id, id⟩)
  · exact hsent

theorem keepsFlow_writeCallbackReturned (s : Stream) (midDrain : Bool) (task : TaskId) :
    KeepsFlow s (s.writeCallbackReturned midDrain task).1 := by
  have hm := keepsFlow_maybeCloseFd s
  unfold writeCallbackReturned
  dsimp only
  split
  · split
    · rename_i heq
      exact hm.trans (keepsFlow_submitNextChunk heq)
    · exact hm.trans (.emit _ rfl)
  · exact hm

theorem keepsFlow_writeCallbackRaised (s : Stream) (exc : Exc) :
    KeepsFlow s (s.writeCallbackRaised exc).1 := by
  have hmark : ∀ u : Stream, KeepsFlow u
      ({ u with write := { u.write with isClosing := true, closed := true } }.maybeCloseFd.emit
        .callExceptionHandler) :=
    fun u => .trans (t := { u with write := { u.write with isClosing := true, closed := true } })
      ⟨rfl, id, id⟩ ((keepsFlow_maybeCloseFd _).trans (.emit _ rfl))
  unfold writeCallbackRaised
  dsimp only
  refine (keepsFlow_maybeCloseFd s).trans ?_
  split
  · exact (keepsFlow_closeTransports _ exc).trans (hmark _)
  · exact hmark _

theorem keepsFlow_frameReturned (s : Stream) (frame : Frame) (keepOpen : Bool) (task : TaskId) :
    KeepsFlow s (Machine.frameReturned s frame keepOpen task).1 := by
  unfold Machine.frameReturned
  split
  · exact keepsFlow_writeCallbackReturned s _ task
  · exact ⟨rfl, id, id⟩
  · exact keepsFlow_readFrameReturned s _ keepOpen task

theorem keepsFlow_frameRaised (s : Stream) (frame : Frame) (exc : Exc) :
    KeepsFlow s (Machine.frameRaised s frame exc).1 := by
  unfold Machine.frameRaised
  split
  · exact keepsFlow_writeCallbackRaised s exc
  · exact ⟨rfl, id, id⟩
  · exact keepsFlow_readFrameRaised s _ exc

/-! ### Who pauses and who resumes -/

namespace FlowView

/-- The protocol is told to pause, if it has the method. -/
def paused (v : FlowView) : FlowView :=
  { v with
    isWriting := false
    calls := v.calls ++ if v.protocol.pauseWriting then [.pauseWriting] else [] }

/-- The protocol is told to resume, if it has the method. -/
def resumed (v : FlowView) : FlowView :=
  { v with
    isWriting := true
    calls := v.calls ++ if v.protocol.resumeWriting then [.resumeWriting] else [] }

/-- Another number of bytes is buffered. -/
def resize (v : FlowView) (size : ℕ) : FlowView := { v with bufferSize := size }

/-- The water marks are set, high and low. -/
def limited (v : FlowView) (marks : ℕ × ℕ) : FlowView :=
  { v with low := marks.2, high := marks.1 }

end FlowView

theorem flowView_emit (s : Stream) (e : Effect) :
    (s.emit e).flowView =
      { s.flowView with calls := s.flowCalls ++ if e.isFlowCall then [e] else [] } := by
  unfold flowView flowCalls emit
  rw [List.filter_append, List.filter_singleton]
  cases e.isFlowCall <;> rfl

/-- `t` comes from `s`, with the flow control `yes` when `c` holds and `no` otherwise. -/
structure FlowsIf (s : Stream) (c : Prop) (yes no : FlowView) (t : Stream) : Prop where
  pos : c → Flows s yes t
  neg : ¬ c → Flows s no t

theorem FlowsIf.congr {c d : Prop} {yes no : FlowView} (h : FlowsIf s c yes no t) (hiff : d ↔ c) :
    FlowsIf s d yes no t :=
  ⟨fun hd => h.pos (hiff.1 hd), fun hd => h.neg fun hc => hd (hiff.2 hc)⟩

/-- A decision after a function that leaves the closing flags alone. -/
theorem Flows.trans_if {c : Prop} {v yes no : FlowView} (h₁ : Flows s v t)
    (h₂ : FlowsIf t c yes no u) : FlowsIf s c yes no u :=
  ⟨fun hc => h₁.trans (h₂.pos hc), fun hc => h₁.trans (h₂.neg hc)⟩

theorem flows_pauseIfAbove (s : Stream) (size : ℕ) :
    FlowsIf s (s.isWriting = true ∧ s.writingHighWaterMark < size) s.flowView.paused s.flowView
      (s.pauseIfAbove size) := by
  constructor
  · intro habove
    have hcond : (decide (size > s.writingHighWaterMark) && s.isWriting) = true := by
      simp [habove.1, habove.2]
    rw [pauseIfAbove, if_pos hcond]
    dsimp only
    cases hp : s.protocol.pauseWriting with
    | true =>
      refine ⟨?_, id, id⟩
      rw [if_pos rfl, flowView_emit]
      simp [FlowView.paused, flowView, flowCalls, Effect.isFlowCall, hp]
    | false =>
      refine ⟨?_, id, id⟩
      rw [if_neg Bool.false_ne_true]
      simp [FlowView.paused, flowView, flowCalls, hp]
  · intro hnot
    have hcond : ¬ (decide (size > s.writingHighWaterMark) && s.isWriting) = true := by
      simpa [and_comm] using hnot
    rw [pauseIfAbove, if_neg hcond]
    exact KeepsFlow.refl s

theorem flows_resumed (s : Stream) :
    Flows s s.flowView.resumed
      (if s.protocol.resumeWriting then { s with isWriting := true }.emit .resumeWriting
        else { s with isWriting := true }) := by
  cases hp : s.protocol.resumeWriting with
  | true =>
    refine ⟨?_, id, id⟩
    rw [if_pos rfl, flowView_emit]
    simp [FlowView.resumed, flowView, flowCalls, Effect.isFlowCall, hp]
  | false =>
    refine ⟨?_, id, id⟩
    rw [if_neg Bool.false_ne_true]
    simp [FlowView.resumed, flowView, flowCalls, hp]

theorem flows_resumeIfBelow (s : Stream) :
    FlowsIf s (s.isWriting = false ∧ s.write.bufferSize ≤ s.writingLowWaterMark) s.flowView.resumed
      s.flowView s.resumeIfBelow := by
  constructor
  · intro hbelow
    have hcond : (!s.isWriting && decide (s.write.bufferSize ≤ s.writingLowWaterMark)) = true := by
      simp [hbelow.1, hbelow.2]
    rw [resumeIfBelow, if_pos hcond]
    exact flows_resumed s
  · intro hnot
    have hcond : ¬ (!s.isWriting && decide (s.write.bufferSize ≤ s.writingLowWaterMark)) = true := by
      simpa using hnot
    rw [resumeIfBelow, if_neg hcond]
    exact KeepsFlow.refl s

/-! ### `write` and `write_lines` -/

/-- `append_new_buffer_to_write` does not find the transport closed. -/
def Appends (s : Stream) : Prop := s.write.initialized = true ∧ s.write.closed = false

/-- Calls of `write` and `write_lines` are not ignored. -/
def TakesWrites (s : Stream) : Prop :=
  (s.write.isClosing = true → s.write.eofPending = true) ∧ s.Appends

/-- The bytes `write_lines` appends: those of the items before the first without a buffer. -/
def acceptedBytes (items : List (Option Bytes)) : ℕ :=
  ((items.takeWhile Option.isSome).map fun item => (item.getD []).length).sum

/-- `write_lines` comes to its high-water check. -/
def LinesChecked (items : List (Option Bytes)) (raises : Bool) : Prop :=
  raises = false ∧ items ≠ [] ∧ ∀ item ∈ items, item.isSome = true

theorem appendNewBufferToWrite_ok (h : s.Appends) (data : Bytes) :
    ∃ t, s.appendNewBufferToWrite (some data) = .ok (s.write.bufferSize + data.length, t) ∧
      Flows s (s.flowView.resize (s.write.bufferSize + data.length)) t ∧ t.Appends ∧
      t.write.bufferSize = s.write.bufferSize + data.length := by
  have hcond : ¬ (!s.write.initialized || s.write.closed) = true := by
    simp [h.1, h.2]
  rw [appendNewBufferToWrite, if_neg hcond]
  have hacquire : KeepsFlow s ({ s with buffersAcquired := s.buffersAcquired + 1 }.emit
      (.acquireBuffer s.buffersAcquired data)) :=
    .trans (t := { s with buffersAcquired := s.buffersAcquired + 1 }) ⟨rfl, id, id⟩ (.emit _ rfl)
  dsimp only
  split
  · rename_i hlen
    rw [hlen]
    have hrelease := hacquire.andEmit (e := .releaseBuffer s.buffersAcquired) rfl
    exact ⟨_, rfl, hrelease, h, rfl⟩
  · refine ⟨_, rfl, ⟨?_, id, id⟩, h, rfl⟩
    exact congrArg (fun v => FlowView.resize v (s.write.bufferSize + data.length)) hacquire.view

theorem appendNewBufferToWrite_error (data : Option Bytes) (h : ¬ (s.Appends ∧ data.isSome = true)) :
    ∃ err, s.appendNewBufferToWrite data = .error err := by
  unfold appendNewBufferToWrite
  split
  · exact ⟨_, rfl⟩
  · rename_i hcond
    cases data with
    | none => exact ⟨_, rfl⟩
    | some data =>
      refine absurd ⟨?_, rfl⟩ h
      simpa [Appends] using hcond

theorem flows_transportWrite (h : s.TakesWrites) (data : Bytes) :
    FlowsIf s (s.isWriting = true ∧ s.writingHighWaterMark < s.write.bufferSize + data.length)
      (s.flowView.resize (s.write.bufferSize + data.length)).paused
      (s.flowView.resize (s.write.bufferSize + data.length)) (s.transportWrite (some data)) := by
  obtain ⟨t, heq, hflow, -, -⟩ := appendNewBufferToWrite_ok h.2 data
  have hgate : ¬ (s.write.isClosing && !s.write.eofPending) = true := by
    simpa using h.1
  rw [transportWrite, if_neg hgate, heq]
  have hcheck := flows_pauseIfAbove t (s.write.bufferSize + data.length)
  have hwriting : t.isWriting = s.isWriting := congrArg FlowView.isWriting hflow.view
  have hhigh : t.writingHighWaterMark = s.writingHighWaterMark := congrArg FlowView.high hflow.view
  rw [hwriting, hhigh, hflow.view] at hcheck
  exact hflow.trans_if hcheck

theorem transportWrite_ignored (data : Option Bytes) (h : ¬ (s.TakesWrites ∧ data.isSome = true)) :
    s.transportWrite data = s := by
  unfold transportWrite
  split
  · rfl
  · rename_i hgate
    have happ : ¬ (s.Appends ∧ data.isSome = true) := by
      rintro ⟨happ, hdata⟩
      exact h ⟨⟨by simpa using hgate, happ⟩, hdata⟩
    obtain ⟨err, heq⟩ := appendNewBufferToWrite_error data happ
    rw [heq]

theorem flows_appendLines (h : s.Appends) (size : ℕ) (items : List (Option Bytes)) :
    (s.appendLines size items).1 =
        (if ∀ item ∈ items, item.isSome = true then
          some (if items = [] then size else s.write.bufferSize + acceptedBytes items)
        else none) ∧
      Flows s (s.flowView.resize (s.write.bufferSize + acceptedBytes items))
        (s.appendLines size items).2 := by
  induction items generalizing s size with
  | nil => exact ⟨rfl, KeepsFlow.refl s⟩
  | cons item items ih =>
    cases item with
    | none =>
      obtain ⟨err, heq⟩ := appendNewBufferToWrite_error (s := s) none (by simp)
      simp only [appendLines, heq]
      exact ⟨by simp, KeepsFlow.refl s⟩
    | some data =>
      obtain ⟨t, heq, hflow, happ, hsize⟩ := appendNewBufferToWrite_ok h data
      obtain ⟨hlast, hrest⟩ := ih happ (s.write.bufferSize + data.length)
      have haccepted : acceptedBytes (some data :: items) = data.length + acceptedBytes items := by
        simp [acceptedBytes]
      simp only [appendLines, heq]
      rw [haccepted, ← Nat.add_assoc, ← hsize]
      rw [← hsize] at hlast hrest
      refine ⟨?_, ?_⟩
      · rw [hlast]
        by_cases hnil : items = []
        · subst hnil
          simp [acceptedBytes]
        · simp [hnil]
      · rw [hflow.view] at hrest
        exact hflow.trans hrest

theorem flows_transportWriteLines (h : s.TakesWrites) (items : List (Option Bytes)) (raises : Bool) :
    FlowsIf s
      (LinesChecked items raises ∧ s.isWriting = true ∧
        s.writingHighWaterMark < s.write.bufferSize + acceptedBytes items)
      (s.flowView.resize (s.write.bufferSize + acceptedBytes items)).paused
      (s.flowView.resize (s.write.bufferSize + acceptedBytes items))
      (s.transportWriteLines items raises) := by
  have hgate : ¬ (s.write.isClosing && !s.write.eofPending) = true := by
    simpa using h.1
  obtain ⟨hlast, hflow⟩ := flows_appendLines h.2 0 items
  rw [transportWriteLines, if_neg hgate]
  generalize s.appendLines 0 items = result at hlast hflow ⊢
  obtain ⟨last, t⟩ := result
  replace hlast : last = _ := hlast
  by_cases hall : ∀ item ∈ items, item.isSome = true
  · rw [if_pos hall] at hlast
    subst hlast
    dsimp only
    cases raises with
    | true => exact ⟨fun hc => absurd hc.1.1 (by simp), fun _ => hflow⟩
    | false =>
      rw [if_neg Bool.false_ne_true]
      have hcheck := flows_pauseIfAbove t
        (if items = [] then 0 else s.write.bufferSize + acceptedBytes items)
      have hwriting : t.isWriting = s.isWriting := congrArg FlowView.isWriting hflow.view
      have hhigh : t.writingHighWaterMark = s.writingHighWaterMark :=
        congrArg FlowView.high hflow.view
      rw [hwriting, hhigh, hflow.view] at hcheck
      refine (hflow.trans_if hcheck).congr ?_
      by_cases hnil : items = []
      · simp [LinesChecked, hnil]
      · have hchecked : LinesChecked items false := ⟨rfl, hnil, hall⟩
        simp [hchecked, hnil]
  · rw [if_neg hall] at hlast
    subst hlast
    exact ⟨fun hc => absurd hc.1.2.2 hall, fun _ => hflow⟩

theorem transportWriteLines_ignored (h : ¬ s.TakesWrites) (items : List (Option Bytes))
    (raises : Bool) : KeepsFlow s (s.transportWriteLines items raises) := by
  unfold transportWriteLines
  split
  · exact KeepsFlow.refl s
  · rename_i hgate
    have happ : ¬ s.Appends := fun happ => h ⟨by simpa using hgate, happ⟩
    cases items with
    | nil =>
      simp only [appendLines]
      split
      · exact KeepsFlow.refl s
      · exact (flows_pauseIfAbove s 0).neg (by simp)
    | cons item items =>
      obtain ⟨err, heq⟩ := appendNewBufferToWrite_error item (fun hc => happ hc.1)
      simp only [appendLines, heq]
      exact KeepsFlow.refl s

/-- Appending leaves the closing flags alone. -/
theorem appendLines_closing (s : Stream) (size : ℕ) (items : List (Option Bytes)) :
    (s.appendLines size items).2.isClosing = s.isClosing ∧
      (s.appendLines size items).2.closed = s.closed := by
  induction items generalizing s size with
  | nil => exact ⟨rfl, rfl⟩
  | cons item items ih =>
    unfold appendLines
    split
    · exact ⟨rfl, rfl⟩
    · rename_i size' t heq
      have hsame : t.isClosing = s.isClosing ∧ t.closed = s.closed := by
        unfold appendNewBufferToWrite at heq
        split at heq
        · exact nomatch heq
        · cases item with
          | none => exact nomatch heq
          | some data =>
            dsimp only at heq
            split at heq
            · rw [← (Prod.mk.inj (Except.ok.inj heq)).2]
              exact ⟨rfl, rfl⟩
            · rw [← (Prod.mk.inj (Except.ok.inj heq)).2]
              exact ⟨rfl, rfl⟩
      rw [← hsame.1, ← hsame.2]
      exact ih t size'

theorem transportWriteLines_closing (s : Stream) (items : List (Option Bytes)) (raises : Bool) :
    (s.transportWriteLines items raises).isClosing = s.isClosing ∧
      (s.transportWriteLines items raises).closed = s.closed := by
  have hlines := s.appendLines_closing 0 items
  unfold transportWriteLines
  split
  · exact ⟨rfl, rfl⟩
  generalize s.appendLines 0 items = result at hlines ⊢
  obtain ⟨_ | size, t⟩ := result
  · exact hlines
  · dsimp only at hlines ⊢
    split
    · exact hlines
    · rw [← hlines.1, ← hlines.2]
      unfold pauseIfAbove
      split
      · dsimp only
        split <;> exact ⟨rfl, rfl⟩
      · exact ⟨rfl, rfl⟩

/-! ### Completions, limits and aborts -/

/-- The completion of a write that tells the protocol to resume. -/
def CompletionResumes (s : Stream) (res : ℤ) (cancelled : Bool) : Prop :=
  (cancelled = false ∧ (Errno.ofRes res = .success ∨ Errno.ofRes res = .canceled) ∧
      s.write.totalBytesWritten + res.toNat ≠ 0) ∧
    (s.isClosing = false ∧ s.closed = false ∧ s.write.closed = false ∧
      (s.write.bufferSize ≤ res.toNat → s.write.isClosing = true → s.read.closed = false)) ∧
    s.isWriting = false ∧ s.write.bufferSize - res.toNat ≤ s.writingLowWaterMark

theorem flows_invokeWriteCompleted (s : Stream) (dataWritten remaining : ℕ) (midDrain : Bool)
    (task : TaskId) :
    FlowsIf s
      ((dataWritten ≠ 0 ∧ s.isClosing = false ∧ s.closed = false) ∧
        s.isWriting = false ∧ remaining ≤ s.writingLowWaterMark) s.flowView.resumed s.flowView
      (s.invokeWriteCompleted dataWritten remaining midDrain task).1 := by
  have hdone := keepsFlow_writeCallbackReturned s midDrain task
  unfold invokeWriteCompleted
  split
  · rename_i hzero
    exact ⟨fun hc => absurd hzero hc.1.1, fun _ => hdone⟩
  rename_i hwritten
  split
  · rename_i hclosing
    refine ⟨?_, fun _ => hdone⟩
    rintro ⟨⟨-, hc, hc'⟩, -⟩
    simp [hc, hc'] at hclosing
  rename_i hclosing
  have hopen : s.isClosing = false ∧ s.closed = false := by simpa using hclosing
  split
  · rename_i hbelow
    have hbelow' : s.isWriting = false ∧ remaining ≤ s.writingLowWaterMark := by simpa using hbelow
    have hresumed := flows_resumed s
    refine ⟨fun _ => ?_, fun hc => absurd ⟨⟨hwritten, hopen⟩, hbelow'⟩ hc⟩
    dsimp only
    split
    · rename_i hp
      rw [if_pos hp] at hresumed
      exact hresumed
    · rename_i hp
      rw [if_neg hp] at hresumed
      exact hresumed.keeps (keepsFlow_writeCallbackReturned { s with isWriting := true } midDrain task)
  · rename_i habove
    refine ⟨?_, fun _ => hdone⟩
    rintro ⟨-, hc, hc'⟩
    exact absurd (by simp [hc, hc']) habove

/-- What a completion reads of the transport once the bytes are taken off the queue. -/
structure Advanced (s t : Stream) (n : ℕ) : Prop where
  flows : Flows s (s.flowView.resize (s.write.bufferSize - n)) t
  total : t.write.totalBytesWritten = s.write.totalBytesWritten + n
  isClosing : t.isClosing = s.isClosing
  closed : t.closed = s.closed
  writeClosed : t.write.closed = s.write.closed
  writeIsClosing : t.write.isClosing = s.write.isClosing
  readClosed : t.read.closed = s.read.closed

theorem advanced_advanceWritten (s : Stream) (n : ℕ) : Advanced s (s.advanceWritten n) n := by
  have hmin : s.write.bufferSize - min n s.write.bufferSize = s.write.bufferSize - n := by omega
  unfold advanceWritten
  dsimp only
  rw [hmin]
  split
  · exact ⟨⟨rfl, id, id⟩, rfl, rfl, rfl, rfl, rfl, rfl⟩
  · refine ⟨?_, rfl, rfl, rfl, rfl, rfl, rfl⟩
    refine Flows.keeps ?_ (keepsFlow_releaseBuffers _ _)
    exact ⟨rfl, id, id⟩

theorem Advanced.trans {n : ℕ} (h₁ : Advanced s t 0) (h₂ : Advanced t u n) : Advanced s u n := by
  have hsize : t.write.bufferSize = s.write.bufferSize := congrArg FlowView.bufferSize h₁.flows.view
  have hflows := h₂.flows
  rw [h₁.flows.view, hsize] at hflows
  exact
    { flows := h₁.flows.trans hflows
      total := h₂.total.trans (by rw [h₁.total, Nat.add_zero])
      isClosing := h₂.isClosing.trans h₁.isClosing
      closed := h₂.closed.trans h₁.closed
      writeClosed := h₂.writeClosed.trans h₁.writeClosed
      writeIsClosing := h₂.writeIsClosing.trans h₁.writeIsClosing
      readClosed := h₂.readClosed.trans h₁.readClosed }

theorem maybeCloseFd_isClosing (s : Stream) : s.maybeCloseFd.isClosing = s.isClosing := by
  unfold maybeCloseFd
  split
  · obtain ⟨trace, index, heq⟩ := Stream.cancelAndCloseFd_cases
      { s with dispatchGeneration := s.dispatchGeneration + 1, closed := true }
    dsimp only
    rw [heq, scheduleConnectionLostOnce, detachServer]
    dsimp only
    split <;> split <;> rfl
  · rfl

theorem maybeCloseFd_closed (s : Stream) :
    s.maybeCloseFd.closed = (s.closed || s.read.closed && s.write.closed) := by
  unfold maybeCloseFd
  split
  · rename_i hboth
    obtain ⟨trace, index, heq⟩ := Stream.cancelAndCloseFd_cases
      { s with dispatchGeneration := s.dispatchGeneration + 1, closed := true }
    dsimp only
    rw [heq, scheduleConnectionLostOnce, detachServer, hboth, Bool.or_true]
    dsimp only
    split <;> split <;> rfl
  · rename_i hboth
    rw [Bool.not_eq_true] at hboth
    rw [hboth, Bool.or_false]

/-- The full drain closes the transport when its write side was closing and its read side closed. -/
theorem writeDrained_closing (s : Stream) :
    s.writeDrained.isClosing = s.isClosing ∧
      s.writeDrained.closed = (s.closed || s.read.closed && s.write.isClosing) ∧
      s.writeDrained.write.totalBytesWritten = s.write.totalBytesWritten := by
  have hsent : s.clearPending.sendPendingEof.isClosing = s.isClosing ∧
      s.clearPending.sendPendingEof.closed = s.closed ∧
      s.clearPending.sendPendingEof.read = s.read ∧
      s.clearPending.sendPendingEof.write.isClosing = s.write.isClosing ∧
      s.clearPending.sendPendingEof.write.closed = s.write.closed ∧
      s.clearPending.sendPendingEof.write.totalBytesWritten = s.write.totalBytesWritten := by
    unfold sendPendingEof
    split
    · exact ⟨rfl, rfl, rfl, rfl, rfl, rfl⟩
    · exact ⟨rfl, rfl, rfl, rfl, rfl, rfl⟩
  obtain ⟨hclosing, hclosed, hread, hwclosing, hwclosed, htotal⟩ := hsent
  unfold writeDrained
  dsimp only
  split
  · rename_i hw
    rw [maybeCloseFd_isClosing, maybeCloseFd_closed, maybeCloseFd_write]
    dsimp only
    rw [hclosing, hclosed, hread, htotal, ← hwclosing, hw]
    exact ⟨rfl, rfl, rfl⟩
  · rename_i hw
    rw [Bool.not_eq_true] at hw
    rw [hclosing, hclosed, htotal, ← hwclosing, hw]
    simp

theorem flows_writeProgressed (s : Stream) (task : TaskId) :
    FlowsIf s
      ((s.write.totalBytesWritten ≠ 0 ∧ s.isClosing = false ∧ s.closed = false ∧
          s.write.closed = false ∧
          (s.write.bufferSize = 0 → s.write.isClosing = true → s.read.closed = false)) ∧
        s.isWriting = false ∧ s.write.bufferSize ≤ s.writingLowWaterMark)
      s.flowView.resumed s.flowView (s.writeProgressed task).1 := by
  unfold writeProgressed
  split
  · rename_i hcond
    obtain ⟨hclosed, hleft⟩ : s.write.closed = false ∧ 0 < s.write.bufferSize := by simpa using hcond
    refine (flows_invokeWriteCompleted s _ _ true task).congr ?_
    have hne : s.write.bufferSize ≠ 0 := by omega
    simp [hclosed, hne]
  rename_i hcond
  split
  · rename_i hclosed
    exact ⟨fun hc => absurd hc.1.2.2.2.1 (by simp [hclosed]), fun _ => KeepsFlow.refl s⟩
  rename_i hopen
  rw [Bool.not_eq_true] at hopen
  have hzero : s.write.bufferSize = 0 := by simpa [hopen] using hcond
  obtain ⟨hc, hc', htotal⟩ := s.writeDrained_closing
  have hdrained := keepsFlow_writeDrained s
  dsimp only
  generalize s.writeDrained = u at hc hc' hdrained htotal ⊢
  have hreset : KeepsFlow s { u with write := { u.write with totalBytesWritten := 0 } } :=
    hdrained.trans ⟨rfl, id, id⟩
  have h := flows_invokeWriteCompleted
    { u with write := { u.write with totalBytesWritten := 0 } } u.write.totalBytesWritten 0 false task
  rw [hreset.view] at h
  refine (hreset.trans_if h).congr ?_
  have hwriting : u.isWriting = s.isWriting := congrArg FlowView.isWriting hdrained.view
  dsimp only
  rw [hc, hc', htotal, hwriting, hzero]
  simp [hopen]

/-- The completion of a write: the bytes are taken off the queue, and the protocol is told to resume
when `CompletionResumes` says so. -/
theorem flows_completeWrite (s : Stream) (slice : Bytes) (res : ℤ) (cancelled : Bool)
    (task : TaskId) :
    FlowsIf s (s.CompletionResumes res cancelled)
      (s.flowView.resize (s.write.bufferSize - res.toNat)).resumed
      (s.flowView.resize (if cancelled then s.write.bufferSize else s.write.bufferSize - res.toNat))
      (Machine.completeWrite s slice res cancelled task).1 := by
  unfold Machine.completeWrite Stream.writeOperationCompleted
  dsimp only
  have hended : Advanced s (if res > 0 ∧ cancelled = false then
      s.emit (.written (slice.take res.toNat)) else s).endWriteOperation 0 := by
    split
    · exact ⟨.keeps (KeepsFlow.emit s (e := .written (slice.take res.toNat)) rfl) ⟨rfl, id, id⟩,
        rfl, rfl, rfl, rfl, rfl, rfl⟩
    · exact ⟨⟨rfl, id, id⟩, rfl, rfl, rfl, rfl, rfl, rfl⟩
  generalize (if res > 0 ∧ cancelled = false then
    s.emit (.written (slice.take res.toNat)) else s).endWriteOperation = u at hended ⊢
  split
  · rename_i hcancelled
    refine ⟨fun hc => ?_, fun _ => ?_⟩
    · rw [hc.1.1] at hcancelled
      exact nomatch hcancelled
    · exact hended.flows
  rename_i hcancelled
  rw [Bool.not_eq_true] at hcancelled
  have hadvanced : Advanced s (if res > 0 then u.advanceWritten res.toNat else u) res.toNat := by
    split
    · exact hended.trans (advanced_advanceWritten u res.toNat)
    · rename_i hres
      rw [Int.toNat_of_nonpos (by omega)]
      exact hended
  generalize (if res > 0 then u.advanceWritten res.toNat else u) = w at hadvanced ⊢
  split
  · rename_i herr
    refine ⟨fun hc => ?_, fun _ => hadvanced.flows.keeps (keepsFlow_writeFailed w _)⟩
    exact (hc.1.2.1.elim herr.1 herr.2).elim
  · rename_i herr
    have hprogressed := flows_writeProgressed w task
    rw [hadvanced.flows.view] at hprogressed
    refine (hadvanced.flows.trans_if hprogressed).congr ?_
    have hwriting : w.isWriting = s.isWriting := congrArg FlowView.isWriting hadvanced.flows.view
    have hlow : w.writingLowWaterMark = s.writingLowWaterMark :=
      congrArg FlowView.low hadvanced.flows.view
    have hsize : w.write.bufferSize = s.write.bufferSize - res.toNat :=
      congrArg FlowView.bufferSize hadvanced.flows.view
    have herr' : Errno.ofRes res = .success ∨ Errno.ofRes res = .canceled := by
      by_cases hsuccess : Errno.ofRes res = .success
      · exact .inl hsuccess
      · exact .inr (by_contra fun hcanceled => herr ⟨hsuccess, hcanceled⟩)
    rw [CompletionResumes, hwriting, hlow, hsize, hadvanced.total, hadvanced.isClosing,
      hadvanced.closed, hadvanced.writeClosed, hadvanced.writeIsClosing, hadvanced.readClosed]
    simp only [hcancelled, herr', true_and, Nat.sub_eq_zero_iff_le]
    tauto

/-- `writeLimits` gives marks in order. -/
theorem low_le_high {high low : Option ℤ} {marks : ℕ × ℕ} (h : writeLimits high low = some marks) :
    marks.2 ≤ marks.1 := by
  unfold writeLimits at h
  simp only [Option.bind_eq_bind, Option.bind_eq_some_iff] at h
  obtain ⟨high, -, low, -, h⟩ := h
  split at h
  · rename_i hmarks
    obtain rfl := Option.some.inj h
    exact Int.toNat_le_toNat hmarks.1
  · exact nomatch h

theorem setWriteBufferLimits_invalid {high low : Option ℤ} (h : writeLimits high low = none) :
    s.setWriteBufferLimits high low = (s, false) := by
  unfold setWriteBufferLimits
  rw [h]

/-- A call of `set_write_buffer_limits` that pauses. -/
theorem flows_setWriteBufferLimits_pause {high low : Option ℤ} {marks : ℕ × ℕ}
    (h : writeLimits high low = some marks) (hwriting : s.isWriting = true)
    (habove : marks.1 < s.write.bufferSize) :
    Flows s (s.flowView.limited marks).paused (s.setWriteBufferLimits high low).1 := by
  have hmarks := low_le_high h
  have hcond : (s.isWriting && decide (s.write.bufferSize > marks.1)) = true := by
    simp [hwriting, habove]
  unfold setWriteBufferLimits
  rw [h]
  dsimp only
  rw [if_pos hcond]
  cases hp : s.protocol.pauseWriting with
  | true =>
    refine ⟨?_, id, id⟩
    rw [if_pos rfl, flowView_emit]
    simp [FlowView.paused, FlowView.limited, flowView, flowCalls, Effect.isFlowCall, hp]
  | false =>
    rw [if_neg Bool.false_ne_true]
    have hpaused : Flows s (s.flowView.limited marks).paused
        { s with
          writingHighWaterMark := marks.1, writingLowWaterMark := marks.2, isWriting := false } := by
      refine ⟨?_, id, id⟩
      simp [FlowView.paused, FlowView.limited, flowView, flowCalls, hp]
    refine hpaused.keeps ((flows_resumeIfBelow _).neg fun hc => ?_)
    have hle : s.write.bufferSize ≤ marks.2 := hc.2
    omega

/-- A call of `set_write_buffer_limits` that does not pause. -/
theorem flows_setWriteBufferLimits_resume {high low : Option ℤ} {marks : ℕ × ℕ}
    (h : writeLimits high low = some marks)
    (hnot : ¬ (s.isWriting = true ∧ marks.1 < s.write.bufferSize)) :
    FlowsIf s (s.isWriting = false ∧ s.write.bufferSize ≤ marks.2)
      (s.flowView.limited marks).resumed (s.flowView.limited marks)
      (s.setWriteBufferLimits high low).1 := by
  have hcond : ¬ (s.isWriting && decide (s.write.bufferSize > marks.1)) = true := by
    simpa using hnot
  have hset : Flows s (s.flowView.limited marks)
      { s with writingHighWaterMark := marks.1, writingLowWaterMark := marks.2 } := ⟨rfl, id, id⟩
  unfold setWriteBufferLimits
  rw [h]
  dsimp only
  rw [if_neg hcond]
  exact hset.trans_if (flows_resumeIfBelow
    { s with writingHighWaterMark := marks.1, writingLowWaterMark := marks.2 })

theorem keepsFlow_readForceClose (s : Stream) (fails : Bool) : KeepsFlow s (s.readForceClose fails) := by
  unfold readForceClose
  split
  · exact .refl s
  · dsimp only
    split
    · refine .keeps (t := Stream.emit _ (.cancelIo s.read.blockingTaskId)) ?_ ⟨rfl, id, id⟩
      refine KeepsFlow.andEmit ?_ rfl
      exact ⟨rfl, id, id⟩
    · exact ⟨rfl, id, id⟩

theorem keepsFlow_writeForceClose (s : Stream) (fails : Bool) :
    KeepsFlow s (s.writeForceClose fails) := by
  unfold writeForceClose
  split
  · exact .refl s
  · dsimp only
    split
    · split
      · exact ⟨rfl, id, id⟩
      · refine .maybeCloseFd ?_
        refine .keeps (t := Stream.emit _ (.cancelIo s.write.blockingTaskId)) ?_ ⟨rfl, id, id⟩
        refine KeepsFlow.andEmit ?_ rfl
        exact ⟨rfl, id, id⟩
    · exact .maybeCloseFd ⟨rfl, id, id⟩

/-- An abort marks the transport closed and not writing, and calls no protocol method. -/
theorem flows_transportForceClose (s : Stream) (exc : Option Exc) (readFails writeFails : Bool)
    (hopen : s.closed = false) :
    Flows s { s.flowView with isWriting := false } (s.transportForceClose exc readFails writeFails) ∧
      (s.transportForceClose exc readFails writeFails).closed = true := by
  have hdetach := keepsFlow_detachServer s
  unfold transportForceClose
  rw [if_neg (by simp [hopen])]
  dsimp only
  generalize s.detachServer = u at hdetach ⊢
  obtain ⟨v, hv⟩ : ∃ v : Stream, v = { u with
    dispatchGeneration := u.dispatchGeneration + 1, closed := true, pendingLostExc := exc } := ⟨_, rfl⟩
  have hmark : KeepsFlow s v ∧ v.closed = true := by
    rw [hv]
    exact ⟨hdetach.trans ⟨rfl, id, nofun⟩, rfl⟩
  rw [← hv]
  have hforced := (keepsFlow_readForceClose v readFails).trans (keepsFlow_writeForceClose _ writeFails)
  generalize (v.readForceClose readFails).writeForceClose writeFails = w at hforced ⊢
  have hend := keepsFlow_cancelAndCloseFd { w with isReading := false, isWriting := false }
  have hview : w.flowView = s.flowView := hforced.view.trans hmark.1.view
  have hset : Flows s { s.flowView with isWriting := false }
      { w with isReading := false, isWriting := false } := by
    refine ⟨?_, fun h => hmark.1.isClosing (hforced.isClosing h),
      fun h => hmark.1.closed (hforced.closed h)⟩
    rw [← hview]
    rfl
  refine ⟨hset.keeps hend, ?_⟩
  by_contra hne
  have hw : w.closed = false := hend.closed (by simpa using hne)
  rw [hforced.closed hw] at hmark
  exact nomatch hmark.2

/-! ### One step -/

/-- The event tells the protocol to pause, if it has the method. -/
def Pauses (s : Stream) : FlowEvent → Prop
  | .transport (.write data) =>
    data.isSome = true ∧ s.TakesWrites ∧ s.isWriting = true ∧
      s.writingHighWaterMark < s.write.bufferSize + (data.getD []).length
  | .transport (.writeLines items raises) =>
    s.TakesWrites ∧ LinesChecked items raises ∧ s.isWriting = true ∧
      s.writingHighWaterMark < s.write.bufferSize + acceptedBytes items
  | .setWriteBufferLimits high low =>
    ∃ marks, writeLimits high low = some marks ∧ s.isWriting = true ∧ marks.1 < s.write.bufferSize
  | _ => False

/-- The event tells the protocol to resume, if it has the method. -/
def Resumes (s : Stream) : FlowEvent → Prop
  | .transport (.writeCompleted res cancelled _) => s.CompletionResumes res cancelled
  | .setWriteBufferLimits high low =>
    ∃ marks, writeLimits high low = some marks ∧ s.isWriting = false ∧ s.write.bufferSize ≤ marks.2
  | .pauseEnded raises =>
    raises = false ∧ s.isWriting = false ∧ s.write.bufferSize ≤ s.writingLowWaterMark
  | _ => False

/-- `write_lines` stops before its high-water check: an item has no buffer, or the iterator raises. -/
def LinesFail (items : List (Option Bytes)) (raises : Bool) : Prop := raises = true ∨ none ∈ items

/-- The view a step decides on: bytes or marks may have changed, and nothing was called. -/
structure Undecided (s : Stream) (v : FlowView) : Prop where
  calls : v.calls = s.flowCalls
  isWriting : v.isWriting = s.isWriting
  protocol : v.protocol = s.protocol
  marks : s.writingLowWaterMark ≤ s.writingHighWaterMark → v.low ≤ v.high

/-- The event is a `write_lines` that fails after it may have appended bytes. -/
def FailingLines (s : Stream) : FlowEvent → Prop
  | .transport (.writeLines items raises) => s.TakesWrites ∧ LinesFail items raises
  | _ => False

/-- No pause is due: the bytes are within the mark, or not more than before. -/
def WithinMark (s : Stream) (v : FlowView) : Prop :=
  v.bufferSize ≤ v.high ∨ v.bufferSize ≤ s.write.bufferSize ∧ v.high = s.writingHighWaterMark

/-- What one event does to flow control. -/
inductive FlowStep (s : Stream) (e : FlowEvent) (t : Stream) : Prop
  | paused (v : FlowView) (hv : Undecided s v) (hp : s.Pauses e) (hr : ¬ s.Resumes e)
      (hw : s.isWriting = true) (hf : Flows s v.paused t)
  | resumed (v : FlowView) (hv : Undecided s v) (hp : ¬ s.Pauses e) (hr : s.Resumes e)
      (hw : s.isWriting = false) (hle : v.bufferSize ≤ v.low) (hf : Flows s v.resumed t)
  | kept (v : FlowView) (hv : Undecided s v) (hp : ¬ s.Pauses e) (hr : ¬ s.Resumes e)
      (hsize : ¬ s.FailingLines e → s.isWriting = true → WithinMark s v)
      (hlines : ∀ items raises, e = .transport (.writeLines items raises) → s.FailingLines e →
        v = s.flowView.resize (s.write.bufferSize + acceptedBytes items) ∧
          t.isClosing = s.isClosing ∧ t.closed = s.closed) (hf : Flows s v t)
  | aborted (hl : ¬ s.FailingLines e) (hp : ¬ s.Pauses e) (hr : ¬ s.Resumes e)
      (hf : Flows s { s.flowView with isWriting := false } t) (hclosed : t.closed = true)

theorem undecided_flowView (s : Stream) : Undecided s s.flowView := ⟨rfl, rfl, rfl, id⟩

/-- An event that leaves flow control alone. -/
theorem FlowStep.of_keeps {e : FlowEvent} (h : KeepsFlow s t) (hl : ¬ s.FailingLines e)
    (hp : ¬ s.Pauses e) (hr : ¬ s.Resumes e) : FlowStep s e t :=
  .kept s.flowView (undecided_flowView s) hp hr (fun _ _ => .inr ⟨le_rfl, rfl⟩)
    (fun _ _ _ hfail => absurd hfail hl) h

/-- An event without a decision leaves flow control alone. -/
theorem FlowStep.of_quiet {e : FlowEvent} (h : KeepsFlow s t)
    (he : s.FailingLines e = False ∧ s.Pauses e = False ∧ s.Resumes e = False) : FlowStep s e t :=
  .of_keeps h (fun hl => he.1.mp hl) (fun hp => he.2.1.mp hp) (fun hr => he.2.2.mp hr)

/-- A `write_lines` that fails comes to no decision. -/
theorem not_failingLines_of_pauses {e : FlowEvent} (hp : s.Pauses e) : ¬ s.FailingLines e := by
  intro hl
  cases e with
  | setWriteBufferLimits high low => exact hl
  | pauseEnded raises => exact hl
  | transport e =>
    cases e with
    | writeLines items raises =>
      obtain ⟨-, ⟨hraises, -, hall⟩, -⟩ := hp
      obtain htrue | hnone := hl.2
      · rw [hraises] at htrue
        exact nomatch htrue
      · exact nomatch hall none hnone
    | _ => exact hl

theorem not_failingLines_of_resumes {e : FlowEvent} (hr : s.Resumes e) : ¬ s.FailingLines e := by
  intro hl
  cases e with
  | setWriteBufferLimits high low => exact hl
  | pauseEnded raises => exact hl
  | transport e =>
    cases e with
    | writeLines items raises => exact hr
    | _ => exact hl

theorem flowStep_write (s : Stream) (data : Option Bytes) :
    FlowStep s (.transport (.write data)) (s.transportWrite data) := by
  by_cases htaken : s.TakesWrites ∧ data.isSome = true
  · obtain ⟨htakes, hdata⟩ := htaken
    obtain ⟨bytes, rfl⟩ := Option.isSome_iff_exists.1 hdata
    have hflows := flows_transportWrite htakes bytes
    by_cases hc : s.isWriting = true ∧ s.writingHighWaterMark < s.write.bufferSize + bytes.length
    · exact .paused _ ⟨rfl, rfl, rfl, id⟩ ⟨rfl, htakes, hc.1, hc.2⟩ (fun h => h) hc.1 (hflows.pos hc)
    · refine .kept _ ⟨rfl, rfl, rfl, id⟩ (fun h => hc h.2.2) (fun h => h) (fun _ hw => .inl ?_)
        (fun _ _ _ hl => hl.elim) (hflows.neg hc)
      exact Nat.le_of_not_lt fun hlt => hc ⟨hw, hlt⟩
  · rw [transportWrite_ignored data htaken]
    exact .of_keeps (.refl s) (fun h => h) (fun h => htaken ⟨h.2.1, h.1⟩) (fun h => h)

theorem flowStep_writeLines (s : Stream) (items : List (Option Bytes)) (raises : Bool) :
    FlowStep s (.transport (.writeLines items raises)) (s.transportWriteLines items raises) := by
  by_cases htakes : s.TakesWrites
  · have hflows := flows_transportWriteLines htakes items raises
    by_cases hc : LinesChecked items raises ∧ s.isWriting = true ∧
        s.writingHighWaterMark < s.write.bufferSize + acceptedBytes items
    · exact .paused _ ⟨rfl, rfl, rfl, id⟩ ⟨htakes, hc⟩ (fun h => h) hc.2.1 (hflows.pos hc)
    · refine .kept _ ⟨rfl, rfl, rfl, id⟩ (fun h => hc h.2) (fun h => h) (fun hl hw => ?_) ?_
        (hflows.neg hc)
      · obtain ⟨hraises, hnone⟩ : raises = false ∧ none ∉ items := by
          simpa [FailingLines, LinesFail, htakes, not_or] using hl
        by_cases hnil : items = []
        · subst hnil
          exact .inr ⟨le_rfl, rfl⟩
        · refine .inl (Nat.le_of_not_lt fun hlt => hc ⟨⟨hraises, hnil, fun item hin => ?_⟩, hw, hlt⟩)
          rw [Option.isSome_iff_ne_none]
          rintro rfl
          exact hnone hin
      · rintro items' raises' heq -
        cases heq
        exact ⟨rfl, transportWriteLines_closing s items raises⟩
  · exact .of_keeps (transportWriteLines_ignored htakes items raises) (fun h => htakes h.1)
      (fun h => htakes h.1) (fun h => h)

theorem flowStep_completeWrite (s : Stream) (slice : Bytes) (res : ℤ) (cancelled : Bool)
    (task : TaskId) :
    FlowStep s (.transport (.writeCompleted res cancelled task))
      (Machine.completeWrite s slice res cancelled task).1 := by
  have hflows := flows_completeWrite s slice res cancelled task
  by_cases hc : s.CompletionResumes res cancelled
  · exact .resumed _ ⟨rfl, rfl, rfl, id⟩ (fun h => h) hc hc.2.2.1 hc.2.2.2 (hflows.pos hc)
  · refine .kept _ ⟨rfl, rfl, rfl, id⟩ (fun h => h) hc (fun _ _ => .inr ⟨?_, rfl⟩)
      (fun _ _ _ hl => hl.elim) (hflows.neg hc)
    show (if cancelled = true then s.write.bufferSize else s.write.bufferSize - res.toNat) ≤ _
    split
    · exact le_rfl
    · exact Nat.sub_le _ _

theorem flowStep_setWriteBufferLimits (s : Stream) (high low : Option ℤ) :
    FlowStep s (.setWriteBufferLimits high low) (s.setWriteBufferLimits high low).1 := by
  cases hlimits : writeLimits high low with
  | none =>
    rw [setWriteBufferLimits_invalid hlimits]
    refine .of_keeps (.refl s) (fun h => h) ?_ ?_
    · rintro ⟨marks, heq, -⟩
      exact nomatch hlimits.symm.trans heq
    · rintro ⟨marks, heq, -⟩
      exact nomatch hlimits.symm.trans heq
  | some marks =>
    have hundecided : Undecided s (s.flowView.limited marks) :=
      ⟨rfl, rfl, rfl, fun _ => low_le_high hlimits⟩
    have honly : ∀ {P : ℕ × ℕ → Prop}, (∃ marks, writeLimits high low = some marks ∧ P marks) →
        P marks := by
      rintro P ⟨marks', heq, h⟩
      obtain rfl := Option.some.inj (hlimits.symm.trans heq)
      exact h
    by_cases hpause : s.isWriting = true ∧ marks.1 < s.write.bufferSize
    · refine .paused _ hundecided ⟨marks, hlimits, hpause⟩ (fun h => ?_) hpause.1
        (flows_setWriteBufferLimits_pause hlimits hpause.1 hpause.2)
      exact absurd hpause.1 (by simp [(honly h).1])
    · have hflows := flows_setWriteBufferLimits_resume hlimits hpause
      by_cases hresume : s.isWriting = false ∧ s.write.bufferSize ≤ marks.2
      · exact .resumed _ hundecided (fun h => hpause (honly h)) ⟨marks, hlimits, hresume⟩ hresume.1
          hresume.2 (hflows.pos hresume)
      · refine .kept _ hundecided (fun h => hpause (honly h)) (fun h => hresume (honly h))
          (fun _ hw => .inl ?_) (fun _ _ _ hl => hl.elim) (hflows.neg hresume)
        exact Nat.le_of_not_lt fun hlt => hpause ⟨hw, hlt⟩

theorem flowStep_pauseEnded (s : Stream) (raises : Bool) :
    FlowStep s (.pauseEnded raises) (if raises then s else s.resumeIfBelow) := by
  cases raises with
  | true => exact .of_keeps (.refl s) (fun h => h) (fun h => h) (fun h => nomatch h.1)
  | false =>
    have hflows := flows_resumeIfBelow s
    by_cases hc : s.isWriting = false ∧ s.write.bufferSize ≤ s.writingLowWaterMark
    · exact .resumed _ (undecided_flowView s) (fun h => h) ⟨rfl, hc⟩ hc.1 hc.2 (hflows.pos hc)
    · exact .of_keeps (hflows.neg hc) (fun h => h) (fun h => h) (fun h => hc h.2)

theorem flowStep_forceClose (s : Stream) (exc : Option Exc) (readFails writeFails : Bool) :
    FlowStep s (.transport (.forceClose exc readFails writeFails))
      (s.transportForceClose exc readFails writeFails) := by
  cases hopen : s.closed with
  | true =>
    rw [transportForceClose, if_pos hopen]
    exact .of_quiet (.refl s) ⟨rfl, rfl, rfl⟩
  | false =>
    obtain ⟨hf, hclosed⟩ := flows_transportForceClose s exc readFails writeFails hopen
    exact .aborted (fun h => h) (fun h => h) (fun h => h) hf hclosed

end Stream

namespace FlowMachine

/-- **One step of flow control.** -/
theorem step_flow {m m' : FlowMachine} {e : FlowEvent} (hs : m.step e = some m') :
    m.machine.stream.FlowStep e m'.machine.stream := by
  obtain ⟨machine, waiting⟩ := m
  cases e with
  | setWriteBufferLimits high low =>
    obtain rfl := Option.some.inj hs
    exact Stream.flowStep_setWriteBufferLimits machine.stream high low
  | pauseEnded raises =>
    simp only [step] at hs
    split at hs
    · exact nomatch hs
    · split at hs
      · obtain rfl := Option.some.inj hs
        exact Stream.flowStep_pauseEnded machine.stream raises
      · exact nomatch hs
  | transport e =>
    simp only [step] at hs
    split at hs
    · obtain ⟨machine', hstep, rfl⟩ := Option.map_eq_some_iff.1 hs
      cases Machine.step_cases hstep with
      | write s frames data => exact s.flowStep_write data
      | writeLines s frames items raises => exact s.flowStep_writeLines items raises
      | writeEof s frames => exact .of_quiet s.keepsFlow_transportWriteEof ⟨rfl, rfl, rfl⟩
      | close s frames => exact .of_quiet s.keepsFlow_transportClose ⟨rfl, rfl, rfl⟩
      | forceClose s frames exc readFails writeFails =>
        exact s.flowStep_forceClose exc readFails writeFails
      | pauseReading s frames =>
        exact .of_quiet s.keepsFlow_transportPauseReading ⟨rfl, rfl, rfl⟩
      | resumeReading s frames task =>
        exact .of_quiet (s.keepsFlow_transportResumeReading task) ⟨rfl, rfl, rfl⟩
      | flush s task => exact .of_quiet (s.keepsFlow_flushBufferedWrites task) ⟨rfl, rfl, rfl⟩
      | writeCompleted s slice rest res cancelled task hp hle =>
        exact s.flowStep_completeWrite slice res cancelled task
      | readCompleted s rest res stored cancelled task hp hlen =>
        have hstored : Stream.KeepsFlow s { s with read := { s.read with buffer := stored } } :=
          ⟨rfl, id, id⟩
        exact .of_quiet (hstored.trans (Stream.keepsFlow_readOperationCompleted _ _ task))
          ⟨rfl, rfl, rfl⟩
      | readHarvested s earlier later stored hp hne =>
        exact .of_quiet ⟨rfl, id, id⟩ ⟨rfl, rfl, rfl⟩
      | dataDispatched s data => exact .of_quiet (.emit s rfl) ⟨rfl, rfl, rfl⟩
      | bufferDispatched s nbytes => exact .of_quiet (.emit s rfl) ⟨rfl, rfl, rfl⟩
      | batchedReadCompleted s n rest cancelled task hp =>
        exact .of_quiet (s.keepsFlow_readOperationCompleted _ task) ⟨rfl, rfl, rfl⟩
      | returned s frame frames keepOpen task =>
        exact .of_quiet (s.keepsFlow_frameReturned frame keepOpen task) ⟨rfl, rfl, rfl⟩
      | raised s frame frames exc =>
        exact .of_quiet (s.keepsFlow_frameRaised frame exc) ⟨rfl, rfl, rfl⟩
    · exact nomatch hs

/-! ### Whole runs -/

/-- `pause_writing` and `resume_writing` were called by turns, `pause_writing` first. -/
def CallsAlternate (m : FlowMachine) : Prop := Alternate m.machine.stream.flowCalls

/-- A transport that is not closing and has more buffered than the high-water mark is paused. -/
def PausedAboveMark (m : FlowMachine) : Prop :=
  m.machine.stream.isClosing = false → m.machine.stream.closed = false →
    m.machine.stream.writingHighWaterMark < m.machine.stream.write.bufferSize →
      m.machine.stream.isWriting = false

/-- `set_write_buffer_limits` does not resume a protocol that was not paused when the transport was
closed by an abort. The other two conditions are about protocols with only one of the two methods. -/
def ResumesPaused (m : FlowMachine) (e : FlowEvent) : Prop :=
  let s := m.machine.stream
  (m.step e).isSome = true →
    (s.Resumes e → s.protocol.resumeWriting = true →
        s.protocol.pauseWriting = true ∧ (s.closed = true → s.ProtocolPaused)) ∧
      (s.Pauses e → s.protocol.pauseWriting = true → s.protocol.resumeWriting = false →
        ¬ s.ProtocolPaused)

/-- A `write_lines` that fails leaves no more than the high-water mark buffered, while the protocol is
not paused. -/
def FailingLinesFit (m : FlowMachine) : FlowEvent → Prop
  | .transport (.writeLines items raises) =>
    let s := m.machine.stream
    s.isClosing = false → s.closed = false → s.isWriting = true →
      s.TakesWrites ∧ Stream.LinesFail items raises →
        s.write.bufferSize + Stream.acceptedBytes items ≤ s.writingHighWaterMark
  | _ => True

/-- What holds of a transport in every run. -/
structure FlowInv (s : Stream) : Prop where
  marks : s.writingLowWaterMark ≤ s.writingHighWaterMark
  /-- a protocol without `pause_writing` is never told to pause -/
  unpaused : s.protocol.pauseWriting = false → ¬ s.ProtocolPaused
  writing : s.protocol.resumeWriting = true → s.isWriting = true → ¬ s.ProtocolPaused
  stopped : s.protocol.pauseWriting = true → s.closed = false → s.isWriting = false →
    s.ProtocolPaused

theorem flowInv_init (protocol : Protocol) (fd fixedFileIndex : ℕ) (ownsFd serverRef : Bool)
    (task : TaskId) :
    FlowInv (init protocol fd fixedFileIndex ownsFd serverRef task).machine.stream ∧
      (init protocol fd fixedFileIndex ownsFd serverRef task).machine.stream.flowCalls = [] ∧
      (init protocol fd fixedFileIndex ownsFd serverRef task).machine.stream.write.bufferSize = 0 := by
  have hcalls : (Stream.new protocol fd fixedFileIndex ownsFd serverRef).flowCalls = [] := rfl
  have hkeeps : Stream.KeepsFlow (Stream.new protocol fd fixedFileIndex ownsFd serverRef)
      (init protocol fd fixedFileIndex ownsFd serverRef task).machine.stream := by
    unfold init Machine.init
    dsimp only
    cases protocol.type with
    | legacy => exact Stream.keepsFlow_performRead _ task
    | buffered =>
      exact .trans (.emit _ rfl) (Stream.keepsFlow_performBufferedRead _ task)
  generalize (init protocol fd fixedFileIndex ownsFd serverRef task).machine.stream = s at hkeeps ⊢
  have hnil : s.flowCalls = [] := congrArg Stream.FlowView.calls hkeeps.view
  have hwriting : s.isWriting = true := congrArg Stream.FlowView.isWriting hkeeps.view
  have hlow : s.writingLowWaterMark = 32 * 1024 := congrArg Stream.FlowView.low hkeeps.view
  have hhigh : s.writingHighWaterMark = 64 * 1024 := congrArg Stream.FlowView.high hkeeps.view
  have hnot : ¬ s.ProtocolPaused := by
    simp [Stream.ProtocolPaused, hnil]
  refine ⟨⟨?_, fun _ => hnot, fun _ _ => hnot, ?_⟩, hnil, ?_⟩
  · rw [hlow, hhigh]
    omega
  · intro _ _ hstopped
    rw [hwriting] at hstopped
    exact nomatch hstopped
  · exact congrArg Stream.FlowView.bufferSize hkeeps.view

/-- The last call after a decision to pause. -/
theorem paused_of_flows {s t : Stream} {v : Stream.FlowView} (hv : s.Undecided v)
    (hf : s.Flows v.paused t) :
    t.flowCalls = s.flowCalls ++ (if s.protocol.pauseWriting then [.pauseWriting] else []) ∧
      t.protocol = s.protocol ∧ t.isWriting = false := by
  have hcalls : t.flowCalls = v.paused.calls := congrArg Stream.FlowView.calls hf.view
  have hprotocol : t.protocol = v.protocol := congrArg Stream.FlowView.protocol hf.view
  refine ⟨?_, hprotocol.trans hv.protocol, congrArg Stream.FlowView.isWriting hf.view⟩
  rw [hcalls, ← hv.protocol, ← hv.calls]
  rfl

theorem resumed_of_flows {s t : Stream} {v : Stream.FlowView} (hv : s.Undecided v)
    (hf : s.Flows v.resumed t) :
    t.flowCalls = s.flowCalls ++ (if s.protocol.resumeWriting then [.resumeWriting] else []) ∧
      t.protocol = s.protocol ∧ t.isWriting = true := by
  have hcalls : t.flowCalls = v.resumed.calls := congrArg Stream.FlowView.calls hf.view
  have hprotocol : t.protocol = v.protocol := congrArg Stream.FlowView.protocol hf.view
  refine ⟨?_, hprotocol.trans hv.protocol, congrArg Stream.FlowView.isWriting hf.view⟩
  rw [hcalls, ← hv.protocol, ← hv.calls]
  rfl

theorem FlowInv.step {s t : Stream} {e : FlowEvent} (h : FlowInv s) (hs : s.FlowStep e t) :
    FlowInv t := by
  obtain ⟨hmarks, hunpaused, hwriting, hstopped⟩ := h
  cases hs with
  | paused v hv hp hr hw hf =>
    obtain ⟨hcalls, hprotocol, hnot⟩ := paused_of_flows hv hf
    have hlow : t.writingLowWaterMark = v.low := congrArg Stream.FlowView.low hf.view
    have hhigh : t.writingHighWaterMark = v.high := congrArg Stream.FlowView.high hf.view
    refine ⟨by rw [hlow, hhigh]; exact hv.marks hmarks, fun hnone => ?_, fun _ htrue => ?_,
      fun hsome _ _ => ?_⟩
    · rw [hprotocol] at hnone
      rw [Stream.ProtocolPaused, hcalls, if_neg (by simp [hnone]), List.append_nil]
      exact hunpaused hnone
    · rw [hnot] at htrue
      exact nomatch htrue
    · rw [hprotocol] at hsome
      rw [Stream.ProtocolPaused, hcalls, if_pos hsome, List.getLast?_concat]
  | resumed v hv hp hr hw hle hf =>
    obtain ⟨hcalls, hprotocol, htrue⟩ := resumed_of_flows hv hf
    have hlow : t.writingLowWaterMark = v.low := congrArg Stream.FlowView.low hf.view
    have hhigh : t.writingHighWaterMark = v.high := congrArg Stream.FlowView.high hf.view
    refine ⟨by rw [hlow, hhigh]; exact hv.marks hmarks, fun hnone => ?_, fun hsome _ => ?_,
      fun _ _ hnot => ?_⟩
    · rw [hprotocol] at hnone
      rw [Stream.ProtocolPaused, hcalls]
      cases s.protocol.resumeWriting with
      | true => simp
      | false => simpa [Stream.ProtocolPaused] using hunpaused hnone
    · rw [hprotocol] at hsome
      rw [Stream.ProtocolPaused, hcalls, if_pos hsome, List.getLast?_concat]
      simp
    · rw [htrue] at hnot
      exact nomatch hnot
  | kept v hv hp hr hsize hlines hf =>
    have hcalls : t.flowCalls = s.flowCalls := (congrArg Stream.FlowView.calls hf.view).trans hv.calls
    have hprotocol : t.protocol = s.protocol :=
      (congrArg Stream.FlowView.protocol hf.view).trans hv.protocol
    have hsame : t.isWriting = s.isWriting :=
      (congrArg Stream.FlowView.isWriting hf.view).trans hv.isWriting
    have hlow : t.writingLowWaterMark = v.low := congrArg Stream.FlowView.low hf.view
    have hhigh : t.writingHighWaterMark = v.high := congrArg Stream.FlowView.high hf.view
    refine ⟨by rw [hlow, hhigh]; exact hv.marks hmarks, ?_, ?_, ?_⟩
    · rw [Stream.ProtocolPaused, hcalls, hprotocol]
      exact hunpaused
    · rw [Stream.ProtocolPaused, hcalls, hprotocol, hsame]
      exact hwriting
    · rw [Stream.ProtocolPaused, hcalls, hprotocol, hsame]
      exact fun hsome hopen => hstopped hsome (hf.closed hopen)
  | aborted hl hp hr hf hclosed =>
    have hcalls : t.flowCalls = s.flowCalls := congrArg Stream.FlowView.calls hf.view
    have hprotocol : t.protocol = s.protocol := congrArg Stream.FlowView.protocol hf.view
    have hnot : t.isWriting = false := congrArg Stream.FlowView.isWriting hf.view
    have hlow : t.writingLowWaterMark = s.writingLowWaterMark := congrArg Stream.FlowView.low hf.view
    have hhigh : t.writingHighWaterMark = s.writingHighWaterMark :=
      congrArg Stream.FlowView.high hf.view
    refine ⟨by rw [hlow, hhigh]; exact hmarks, ?_, fun _ htrue => ?_, fun _ hopen _ => ?_⟩
    · rw [Stream.ProtocolPaused, hcalls, hprotocol]
      exact hunpaused
    · rw [hnot] at htrue
      exact nomatch htrue
    · rw [hclosed] at hopen
      exact nomatch hopen

/-- A step keeps the turns exactly when it meets `ResumesPaused`. -/
theorem callsAlternate_step {m m' : FlowMachine} {e : FlowEvent} (h : FlowInv m.machine.stream)
    (halt : m.CallsAlternate) (hs : m.step e = some m') : m'.CallsAlternate ↔ m.ResumesPaused e := by
  have hflow := step_flow hs
  simp only [ResumesPaused, hs, Option.isSome_some, true_implies]
  unfold CallsAlternate at halt ⊢
  generalize m.machine.stream = s at *
  generalize m'.machine.stream = t at *
  cases hflow with
  | paused v hv hp hr hw hf =>
    obtain ⟨hcalls, -, -⟩ := paused_of_flows hv hf
    rw [hcalls]
    simp only [hp, hr, true_implies, false_implies, true_and]
    cases hsome : s.protocol.pauseWriting with
    | false => simpa using halt
    | true =>
      rw [if_pos rfl, halt.pause_iff]
      cases hresume : s.protocol.resumeWriting with
      | false => simp [Stream.ProtocolPaused]
      | true => simpa [Stream.ProtocolPaused] using h.writing hresume hw
  | resumed v hv hp hr hw hle hf =>
    obtain ⟨hcalls, -, -⟩ := resumed_of_flows hv hf
    rw [hcalls]
    simp only [hp, hr, true_implies, false_implies, and_true]
    cases hresume : s.protocol.resumeWriting with
    | false => simpa using halt
    | true =>
      rw [if_pos rfl, halt.resume_iff]
      cases hsome : s.protocol.pauseWriting with
      | false => simpa [Stream.ProtocolPaused] using h.unpaused hsome
      | true =>
        refine ⟨fun hpaused _ => ⟨rfl, fun _ => hpaused⟩, fun hok => ?_⟩
        cases hclosed : s.closed with
        | true => exact (hok rfl).2 hclosed
        | false => exact h.stopped hsome hclosed hw
  | kept v hv hp hr hsize hlines hf =>
    have hcalls : t.flowCalls = s.flowCalls := (congrArg Stream.FlowView.calls hf.view).trans hv.calls
    rw [hcalls]
    simpa [hp, hr] using halt
  | aborted hl hp hr hf hclosed =>
    have hcalls : t.flowCalls = s.flowCalls := congrArg Stream.FlowView.calls hf.view
    rw [hcalls]
    simpa [hp, hr] using halt

/-- Other events than a failing `write_lines` meet the condition. -/
theorem failingLinesFit_of_not {m : FlowMachine} {e : FlowEvent}
    (hl : ¬ m.machine.stream.FailingLines e) : m.FailingLinesFit e := by
  cases e with
  | setWriteBufferLimits high low => trivial
  | pauseEnded raises => trivial
  | transport e =>
    cases e with
    | writeLines items raises => exact fun _ _ _ hfail => absurd hfail hl
    | _ => trivial

/-- A step keeps the protocol paused above the mark exactly when it meets `FailingLinesFit`. -/
theorem pausedAboveMark_step {m m' : FlowMachine} {e : FlowEvent} (h : FlowInv m.machine.stream)
    (hmark : m.PausedAboveMark) (hs : m.step e = some m') :
    m'.PausedAboveMark ↔ m.FailingLinesFit e := by
  cases step_flow hs with
  | paused v hv hp hr hw hf =>
    refine iff_of_true (fun _ _ _ => ?_)
      (failingLinesFit_of_not (Stream.not_failingLines_of_pauses hp))
    exact congrArg Stream.FlowView.isWriting hf.view
  | resumed v hv hp hr hw hle hf =>
    refine iff_of_true (fun _ _ habove => ?_)
      (failingLinesFit_of_not (Stream.not_failingLines_of_resumes hr))
    have hsize : m'.machine.stream.write.bufferSize = v.bufferSize :=
      congrArg Stream.FlowView.bufferSize hf.view
    have hhigh : m'.machine.stream.writingHighWaterMark = v.high :=
      congrArg Stream.FlowView.high hf.view
    have hordered := hv.marks h.marks
    omega
  | kept v hv hp hr hsize hlines hf =>
    have hsame : m'.machine.stream.isWriting = m.machine.stream.isWriting :=
      (congrArg Stream.FlowView.isWriting hf.view).trans hv.isWriting
    have hsize' : m'.machine.stream.write.bufferSize = v.bufferSize :=
      congrArg Stream.FlowView.bufferSize hf.view
    have hhigh' : m'.machine.stream.writingHighWaterMark = v.high :=
      congrArg Stream.FlowView.high hf.view
    by_cases hl : m.machine.stream.FailingLines e
    · obtain ⟨items, raises, rfl⟩ : ∃ items raises, e = .transport (.writeLines items raises) := by
        cases e with
        | setWriteBufferLimits high low => exact hl.elim
        | pauseEnded raises => exact hl.elim
        | transport e =>
          cases e with
          | writeLines items raises => exact ⟨items, raises, rfl⟩
          | _ => exact hl.elim
      obtain ⟨rfl, hclosing, hclosed⟩ := hlines items raises rfl hl
      rw [PausedAboveMark, hclosing, hclosed, hsame, hsize', hhigh']
      constructor
      · intro hpaused hc hc' hwriting _
        refine Nat.le_of_not_lt fun hlt => ?_
        have hstopped := hpaused hc hc' hlt
        rw [hwriting] at hstopped
        exact nomatch hstopped
      · intro hfit hc hc' hlt
        by_contra hwriting
        rw [Bool.not_eq_false] at hwriting
        exact absurd hlt (Nat.not_lt_of_le (hfit hc hc' hwriting hl))
    · refine iff_of_true (fun hclosing hclosed habove => ?_) (failingLinesFit_of_not hl)
      rw [hsame]
      by_contra hwriting
      rw [Bool.not_eq_false] at hwriting
      obtain hle | ⟨hle, heq⟩ := hsize hl hwriting
      · omega
      · have hstopped := hmark (hf.isClosing hclosing) (hf.closed hclosed) (by omega)
        rw [hwriting] at hstopped
        exact nomatch hstopped
  | aborted hl hp hr hf hclosed =>
    refine iff_of_true (fun _ hopen _ => ?_) (failingLinesFit_of_not hl)
    rw [hclosed] at hopen
    exact nomatch hopen

/-- **Flow control of a stream transport.** In every run the protocol hears `pause_writing` and
`resume_writing` by turns exactly when every step meets `ResumesPaused`; and in every state a transport
that is not closing and has more buffered than the high-water mark is paused exactly when every
`write_lines` that fails meets `FailingLinesFit`. -/
theorem stream_flow_control (protocol : Protocol) (fd fixedFileIndex : ℕ) (ownsFd serverRef : Bool)
    (task : TaskId) (es : List FlowEvent) :
    (Runs.Always step CallsAlternate (init protocol fd fixedFileIndex ownsFd serverRef task) es ↔
        Runs.Along step ResumesPaused (init protocol fd fixedFileIndex ownsFd serverRef task) es) ∧
      (Runs.Always step PausedAboveMark (init protocol fd fixedFileIndex ownsFd serverRef task) es ↔
        Runs.Along step FailingLinesFit (init protocol fd fixedFileIndex ownsFd serverRef task) es) := by
  obtain ⟨hinit, hcalls, hsize⟩ := flowInv_init protocol fd fixedFileIndex ownsFd serverRef task
  have hstep : ∀ u e v, FlowInv u.machine.stream → step u e = some v → FlowInv v.machine.stream :=
    fun u e v hu hs => hu.step (step_flow hs)
  constructor
  · refine Runs.always_iff_along hinit ?_ hstep
      (fun u e v hu halt hs => callsAlternate_step hu halt hs) ?_
    · intro i call hi
      rw [hcalls] at hi
      exact nomatch hi
    · intro u e hs henabled
      rw [hs] at henabled
      exact nomatch henabled
  · refine Runs.always_iff_along hinit ?_ hstep
      (fun u e v hu hmark hs => pausedAboveMark_step hu hmark hs) ?_
    · intro _ _ habove
      rw [hsize] at habove
      exact absurd habove (Nat.not_lt_zero _)
    · intro u e hs
      refine failingLinesFit_of_not fun hl => ?_
      cases e with
      | setWriteBufferLimits high low => exact hl
      | pauseEnded raises => exact hl
      | transport e =>
        cases e with
        | writeLines items raises => simp [step, allows, Machine.step, Event.task?] at hs
        | _ => exact hl

/-- An abort before any `pause_writing`, then `set_write_buffer_limits`: the protocol is told to resume.
And a generator that yields one byte more than the high-water mark and raises leaves the protocol of an
open transport unpaused. -/
theorem stream_flow_control_fails :
    ¬ (∀ es, Runs.Always step CallsAlternate
        (init ⟨.legacy, true, true, true⟩ 5 0 true false 1) es) ∧
      ¬ (∀ es, Runs.Always step PausedAboveMark
        (init ⟨.legacy, true, true, true⟩ 5 0 true false 1) es) := by
  constructor
  · intro h
    have hrun := h [.transport (.forceClose none false false), .setWriteBufferLimits none none]
    have hend := (hrun.2 _ rfl).2 _ rfl
    exact absurd (hend 0 .resumeWriting rfl) (by decide)
  · intro h
    have hrun := h [.setWriteBufferLimits (some 1) none,
      .transport (.writeLines [some [0, 0]] true)]
    have hend := (hrun.2 _ rfl).2 _ rfl
    exact absurd (hend rfl rfl (by decide)) (by decide)

end FlowMachine

end Talyn
