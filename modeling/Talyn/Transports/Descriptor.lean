import Talyn.Transports.Datagram
import Talyn.Transports.Writing

/-!
# The descriptor of a transport

What a transport does with its fd and its slot in the fixed-file table. `FdStep s t` says that either
nothing happens to them, or the fd is torn down: the slot is unregistered, then the fd is closed, and
the transport has neither from then on. It is proved here of every event (`fdStep_step`), for a stream
transport function by function.
-/

namespace Talyn

/-- What happens to an fd and its slot. -/
inductive FdEffect
  | unregisterFixedFile (index : ℕ)
  | closeFd (fd : ℕ)
  deriving DecidableEq, Repr

/-- What an effect does to the fd and its slot. -/
def Effect.fd? : Effect → Option FdEffect
  | .unregisterFixedFile index => some (.unregisterFixedFile index)
  | .closeFd fd => some (.closeFd fd)
  | _ => none

/-- What tearing down an fd does, if it is owned. -/
def teardown (fd : Option ℕ) (index : ℕ) (ownsFd : Bool) : List FdEffect :=
  (if index ≠ 0 then [.unregisterFixedFile index] else []) ++
    if ownsFd then fd.toList.map .closeFd else []

namespace Stream

/-- The effects on the fd and its slot. -/
def fdEffects (es : List Effect) : List FdEffect := es.filterMap Effect.fd?

/-- The fd, its slot, whether the transport owns the fd, and whether it has its read buffer. -/
def descriptor (s : Stream) : Option ℕ × ℕ × Bool × Bool :=
  (s.fd, s.fixedFileIndex, s.ownsFd, s.read.initialized)

/-- The fd and its slot are left alone, or torn down. -/
inductive FdStep (s t : Stream) : Prop
  | kept (es : List Effect) (htrace : t.trace = s.trace ++ es) (hes : fdEffects es = [])
      (hkept : t.descriptor = s.descriptor)
  | torn (es : List Effect) (fd : ℕ) (htrace : t.trace = s.trace ++ es) (hfd : s.fd = some fd)
      (hes : fdEffects es = teardown s.fd s.fixedFileIndex s.ownsFd)
      (htorn : t.descriptor = (none, 0, s.ownsFd, s.read.initialized))

variable {s t u : Stream}

/-- Only what the fd does not depend on changed. -/
theorem FdStep.same (hd : t.descriptor = s.descriptor) (ht : t.trace = s.trace) : FdStep s t :=
  .kept [] (by simp [ht]) rfl hd

theorem FdStep.refl : FdStep s s := .same rfl rfl

/-- An effect is recorded and what the fd does not depend on changes. -/
theorem FdStep.emitting {e : Effect} (he : e.fd? = none) (hd : t.descriptor = s.descriptor)
    (ht : t.trace = s.trace ++ [e]) : FdStep s t :=
  .kept [e] ht (by simp [fdEffects, he]) hd

theorem fdStep_emit (s : Stream) {e : Effect} (he : e.fd? = none) : FdStep s (s.emit e) :=
  .emitting he rfl rfl

theorem fdEffects_append (es es' : List Effect) :
    fdEffects (es ++ es') = fdEffects es ++ fdEffects es' := List.filterMap_append

theorem FdStep.trans (h : FdStep s t) (h' : FdStep t u) : FdStep s u := by
  cases h with
  | kept es htrace hes hkept =>
    have hfd : t.fd = s.fd := congrArg Prod.fst hkept
    have hindex : t.fixedFileIndex = s.fixedFileIndex := congrArg (·.2.1) hkept
    have howns : t.ownsFd = s.ownsFd := congrArg (·.2.2.1) hkept
    have hread : t.read.initialized = s.read.initialized := congrArg (·.2.2.2) hkept
    cases h' with
    | kept es' htrace' hes' hkept' =>
      refine .kept (es ++ es') ?_ ?_ (hkept'.trans hkept)
      · rw [htrace', htrace, List.append_assoc]
      · rw [fdEffects_append, hes, hes', List.append_nil]
    | torn es' fd htrace' hfd' hes' htorn' =>
      refine .torn (es ++ es') fd ?_ (hfd.symm.trans hfd') ?_ (by rw [htorn', howns, hread])
      · rw [htrace', htrace, List.append_assoc]
      · rw [fdEffects_append, hes, hes', List.nil_append, hfd, hindex, howns]
  | torn es fd htrace hfd hes htorn =>
    have hnone : t.fd = none := congrArg Prod.fst htorn
    cases h' with
    | kept es' htrace' hes' hkept' =>
      refine .torn (es ++ es') fd ?_ hfd ?_ (hkept'.trans htorn)
      · rw [htrace', htrace, List.append_assoc]
      · rw [fdEffects_append, hes, hes', List.append_nil]
    | torn es' fd' htrace' hfd' hes' htorn' => exact absurd (hnone.symm.trans hfd') nofun

/-! ### Closing -/

theorem fdStep_detachServer (s : Stream) : FdStep s s.detachServer := by
  unfold detachServer
  split
  · exact .emitting (e := .detachServer) rfl rfl rfl
  · exact .refl

theorem fdStep_scheduleConnectionLostOnce (s : Stream) : FdStep s s.scheduleConnectionLostOnce := by
  unfold scheduleConnectionLostOnce
  dsimp only
  split
  · exact fdStep_detachServer s
  · apply (fdStep_detachServer s).trans
    exact .emitting (e := .connectionLost _) rfl rfl rfl

theorem fdStep_cancelByFd (s : Stream) (fd : ℕ) : FdStep s (s.cancelByFd fd) := by
  unfold cancelByFd
  split
  · exact fdStep_emit s rfl
  · exact .refl

/-- The slot is unregistered before the fd is closed. -/
theorem fdStep_unregister_close {s : Stream} {fd : ℕ} (hfd : s.fd = some fd) :
    FdStep s (s.unregisterFixedFile.closeFd fd) := by
  -- the four shapes of the teardown: with or without a slot, with or without owning the fd
  by_cases hindex : s.fixedFileIndex = 0 <;> by_cases howns : s.ownsFd = true
  · refine .torn [.closeFd fd] fd ?_ hfd ?_ ?_ <;>
      simp [unregisterFixedFile, closeFd, teardown, descriptor, emit, fdEffects, Effect.fd?,
        hindex, howns, hfd]
  · refine .torn [] fd ?_ hfd ?_ ?_ <;>
      simp [unregisterFixedFile, closeFd, teardown, descriptor, fdEffects, hindex, howns]
  · refine .torn [.unregisterFixedFile s.fixedFileIndex, .closeFd fd] fd ?_ hfd ?_ ?_ <;>
      simp [unregisterFixedFile, closeFd, teardown, descriptor, emit, fdEffects, Effect.fd?,
        hindex, howns, hfd]
  · refine .torn [.unregisterFixedFile s.fixedFileIndex] fd ?_ hfd ?_ ?_ <;>
      simp [unregisterFixedFile, closeFd, teardown, descriptor, emit, fdEffects, Effect.fd?,
        hindex, howns]

theorem fdStep_cancelAndCloseFd (s : Stream) : FdStep s s.cancelAndCloseFd := by
  unfold cancelAndCloseFd
  split
  · exact .refl
  next fd hfd =>
    apply (fdStep_cancelByFd s fd).trans
    have hfd' : (s.cancelByFd fd).fd = some fd := by
      unfold cancelByFd
      split <;> exact hfd
    exact fdStep_unregister_close hfd'

theorem fdStep_maybeCloseFd (s : Stream) : FdStep s s.maybeCloseFd := by
  unfold maybeCloseFd
  split
  · refine FdStep.trans ?_ (fdStep_scheduleConnectionLostOnce _)
    refine FdStep.trans ?_ (fdStep_cancelAndCloseFd _)
    exact .same rfl rfl
  · exact .refl

/-- A change of the write side alone, and what follows when it closed that side. -/
theorem fdStep_settleWrite (s : Stream) (write : WriteTransport) :
    FdStep s { s with write := write }.maybeCloseFd := by
  refine FdStep.trans ?_ (fdStep_maybeCloseFd _)
  exact .same rfl rfl

/-- A change of the read side alone, and what follows when it closed that side. -/
theorem fdStep_settleRead (s : Stream) {read : ReadTransport}
    (hread : read.initialized = s.read.initialized) :
    FdStep s { s with read := read }.maybeCloseFd := by
  refine FdStep.trans ?_ (fdStep_maybeCloseFd _)
  exact .same (by simp only [descriptor, hread]) rfl

theorem fdStep_readClose (s : Stream) : FdStep s s.readClose := by
  unfold readClose
  split
  · exact .refl
  · split
    · exact fdStep_settleRead s rfl
    · dsimp only
      split
      · exact .same rfl rfl
      · exact .emitting (e := .cancelIo _) rfl rfl rfl

theorem fdStep_writeClose (s : Stream) : FdStep s s.writeClose := by
  unfold writeClose
  split
  · exact .refl
  · dsimp only
    split
    · exact fdStep_settleWrite s _
    · exact .same rfl rfl

theorem fdStep_closeTransports (s : Stream) (exc : Exc) : FdStep s (s.closeTransports exc) := by
  unfold closeTransports
  dsimp only
  generalize hv : (if (!s.closed && s.pendingLostExc.isNone) = true then
    { s with pendingLostExc := some exc } else s) = v
  have hsv : FdStep s v := by
    rw [← hv]
    split
    · exact .same rfl rfl
    · exact .refl
  have hu : FdStep s { v.readClose.writeClose with isReading := false, isClosing := true } := by
    apply hsv.trans
    apply (fdStep_readClose v).trans
    exact (fdStep_writeClose _).trans (.same rfl rfl)
  split
  · exact hu
  · exact hu.trans ((fdStep_detachServer _).trans (fdStep_maybeCloseFd _))

theorem fdStep_transportClose (s : Stream) : FdStep s s.transportClose := by
  unfold transportClose
  split
  · exact .refl
  · dsimp only
    split
    · refine FdStep.trans ?_ (fdStep_scheduleConnectionLostOnce _)
      refine FdStep.trans ?_ (fdStep_cancelAndCloseFd _)
      exact .same rfl rfl
    · refine FdStep.trans ?_ (fdStep_closeTransports _ _)
      exact .same rfl rfl

theorem fdStep_readForceClose (s : Stream) (fails : Bool) : FdStep s (s.readForceClose fails) := by
  unfold readForceClose
  split
  · exact .refl
  · dsimp only
    split
    · exact .emitting (e := .cancelIo _) rfl rfl rfl
    · exact .same rfl rfl

theorem fdStep_writeForceClose (s : Stream) (fails : Bool) : FdStep s (s.writeForceClose fails) := by
  unfold writeForceClose
  split
  · exact .refl
  · dsimp only
    split
    · split
      · exact .same rfl rfl
      · refine FdStep.trans ?_ (fdStep_maybeCloseFd _)
        exact .emitting (e := .cancelIo _) rfl rfl rfl
    · refine FdStep.trans ?_ (fdStep_maybeCloseFd _)
      exact .same rfl rfl

theorem fdStep_transportForceClose (s : Stream) (exc : Option Exc) (readFails writeFails : Bool) :
    FdStep s (s.transportForceClose exc readFails writeFails) := by
  unfold transportForceClose
  split
  · exact .refl
  · dsimp only
    refine FdStep.trans ?_ (fdStep_cancelAndCloseFd _)
    apply (fdStep_detachServer s).trans
    generalize hv : ({ s.detachServer with
      dispatchGeneration := s.detachServer.dispatchGeneration + 1, closed := true,
      pendingLostExc := exc } : Stream) = v
    have hsv : FdStep s.detachServer v := by
      rw [← hv]
      exact .same rfl rfl
    apply hsv.trans
    apply (fdStep_readForceClose v readFails).trans
    exact (fdStep_writeForceClose _ writeFails).trans (.same rfl rfl)

/-! ### Writing -/

theorem Writes.fdStep (h : Writes s t) : FdStep s t := by
  obtain ⟨write, isWriting, pendingWrites, buffersAcquired, es, rfl, -, hes⟩ := h.exists_eq
  refine .kept es rfl ?_ rfl
  refine List.filterMap_eq_nil_iff.2 fun e he => ?_
  cases e with
  | unregisterFixedFile index => exact nomatch hes _ he
  | closeFd fd => exact nomatch hes _ he
  | _ => rfl

theorem fdStep_rule : WriteRule FdStep where
  trans := .trans
  writes := Writes.fdStep
  maybeCloseFd := fdStep_maybeCloseFd
  closed s _ _ := fdStep_settleWrite s _

/-! ### Reading -/

theorem fdStep_transportPauseReading (s : Stream) : FdStep s s.transportPauseReading := by
  unfold transportPauseReading readCancel
  split
  · exact .refl
  · split
    · exact .refl
    · split
      · exact .same rfl rfl
      · exact .emitting (e := .cancelIo _) rfl rfl rfl

theorem fdStep_readCleanup (s : Stream) : FdStep s s.readCleanup := fdStep_settleRead s rfl

theorem fdStep_readSettled (s : Stream) (err : Errno) : FdStep s (s.readSettled err) := by
  unfold readSettled
  split
  · split
    · exact fdStep_settleRead s rfl
    · exact .refl
  · dsimp only
    split
    · refine FdStep.trans ?_ (fdStep_closeTransports _ _)
      exact .same rfl rfl
    · exact .same rfl rfl

theorem fdStep_releaseProtocolBuffer (s : Stream) (held : Option ℕ) :
    FdStep s (s.releaseProtocolBuffer held) := by
  cases held with
  | none => exact .refl
  | some buffer => exact fdStep_emit s rfl

theorem fdStep_finishRead (s : Stream) (held : Option ℕ) (err : Errno) :
    FdStep s (s.finishRead held err) := by
  apply (fdStep_releaseProtocolBuffer s held).trans
  exact (fdStep_maybeCloseFd _).trans (fdStep_readSettled _ err)

theorem fdStep_failRead (s : Stream) (held : Option ℕ) (exc : Exc) :
    FdStep s (s.failRead held exc).1 := by
  unfold failRead
  dsimp only
  refine FdStep.trans ?_ (fdStep_emit _ (e := .callExceptionHandler) rfl)
  have hreleased : FdStep s (s.releaseProtocolBuffer held).maybeCloseFd :=
    (fdStep_releaseProtocolBuffer s held).trans (fdStep_maybeCloseFd _)
  split
  · exact (hreleased.trans (fdStep_closeTransports _ exc)).trans (.same rfl rfl)
  · exact hreleased.trans (.same rfl rfl)

theorem fdStep_performRead (s : Stream) (task : TaskId) : FdStep s (s.performRead task) :=
  .emitting (e := .performRead task) rfl rfl rfl

theorem fdStep_performBufferedRead (s : Stream) (task : TaskId) :
    FdStep s (s.performBufferedRead task) :=
  .kept [.acquireProtocolBuffer s.protocolBuffersAcquired, .performRead task]
    (by simp [performBufferedRead, performRead, emit]) rfl rfl

theorem fdStep_queueReadOperation (s : Stream) (site : ReadSite) (task : TaskId) :
    FdStep s (s.queueReadOperation site task).1 := by
  unfold queueReadOperation
  split
  · exact .refl
  · split
    · exact .refl
    · split
      · exact fdStep_emit s rfl
      · exact fdStep_performRead s task

theorem fdStep_transportResumeReading (s : Stream) (task : TaskId) :
    FdStep s (s.transportResumeReading task).1 := by
  unfold transportResumeReading
  split
  · exact .refl
  · dsimp only
    split
    · exact .same rfl rfl
    · refine FdStep.trans ?_ (fdStep_queueReadOperation _ _ task)
      exact .same rfl rfl

theorem fdStep_rearmRead (s : Stream) (held : Option ℕ) (err : Errno) (task : TaskId) :
    FdStep s (s.rearmRead held err task).1 := by
  have hqueued := fdStep_queueReadOperation s (.completion held err) task
  unfold rearmRead
  split
  · rename_i heq
    rw [heq] at hqueued
    exact hqueued.trans (fdStep_finishRead _ held err)
  · rename_i heq
    rw [heq] at hqueued
    exact hqueued

theorem fdStep_endOfStream (s : Stream) (held : Option ℕ) : FdStep s (s.endOfStream held) :=
  (fdStep_closeTransports s _).trans (fdStep_finishRead _ held _)

theorem fdStep_streamReadCompleted (s : Stream) (nbytes : ℕ) (err : Errno) (task : TaskId) :
    FdStep s (s.streamReadCompleted nbytes err task).1 := by
  unfold streamReadCompleted
  dsimp only
  have htaken : FdStep s { s with protocolBuffer := none } := .same rfl rfl
  split
  · generalize hv : (if (s.read.isClosing || s.read.closed || s.isClosing || s.closed) = true then
      ({ s with protocolBuffer := none, read := { s.read with closed := true } } : Stream)
      else { s with protocolBuffer := none }) = v
    have hsv : FdStep s v := by
      rw [← hv]
      split
      · exact .same rfl rfl
      · exact htaken
    split
    · exact hsv.trans (fdStep_rearmRead v _ err task)
    · exact hsv.trans (fdStep_finishRead v _ err)
  · split
    · split
      · exact .emitting (e := .eofReceived) rfl rfl rfl
      · exact htaken.trans (fdStep_endOfStream _ _)
    · split
      · exact htaken.trans (fdStep_rearmRead _ _ err task)
      · split
        · exact .emitting (e := .bufferUpdated nbytes) rfl rfl rfl
        · exact .emitting (e := .dataReceived _) rfl rfl rfl

theorem fdStep_readOperationCompleted (s : Stream) (data : CallbackData) (task : TaskId) :
    FdStep s (s.readOperationCompleted data task).1 := by
  unfold readOperationCompleted
  dsimp only
  split
  · refine FdStep.trans ?_ (fdStep_readCleanup _)
    exact .same rfl rfl
  · refine FdStep.trans ?_ (fdStep_streamReadCompleted _ _ _ task)
    split <;> exact .same rfl rfl

/-! ### The machine -/

theorem fdStep_frameReturned (s : Stream) (frame : Frame) (keepOpen : Bool) (task : TaskId) :
    FdStep s (Machine.frameReturned s frame keepOpen task).1 := by
  cases frame with
  | dataReceived held => exact fdStep_rearmRead s held _ task
  | eofReceived held =>
    cases keepOpen with
    | true => exact fdStep_finishRead s held .success
    | false => exact fdStep_endOfStream s held
  | getBuffer site =>
    cases site with
    | completion held err =>
      exact (fdStep_performBufferedRead s task).trans (fdStep_finishRead _ held err)
    | resume => exact fdStep_performBufferedRead s task
  | readCleanup => exact fdStep_readCleanup s
  | resumeWriting midDrain => exact fdStep_rule.writeCallbackReturned s midDrain task
  | writeCleanup => exact .same rfl rfl

theorem fdStep_frameRaised (s : Stream) (frame : Frame) (exc : Exc) :
    FdStep s (Machine.frameRaised s frame exc).1 := by
  cases frame with
  | dataReceived held => exact fdStep_failRead s held exc
  | eofReceived held => exact fdStep_failRead s held exc
  | getBuffer site =>
    cases site with
    | completion held err => exact fdStep_failRead s held exc
    | resume => exact .same rfl rfl
  | readCleanup => exact fdStep_readCleanup s
  | resumeWriting midDrain => exact fdStep_rule.writeCallbackRaised fdStep_closeTransports s exc
  | writeCleanup => exact .same rfl rfl

/-- Whatever happens to a stream transport, its fd and its slot are left alone or torn down. -/
theorem fdStep_step {m m' : Machine} {e : Event} (hs : m.step e = some m') :
    FdStep m.stream m'.stream := by
  cases Machine.step_cases hs with
  | write s frames data => exact (writes_transportWrite s data).fdStep
  | writeLines s frames items raises => exact (writes_transportWriteLines s items raises).fdStep
  | writeEof s frames => exact fdStep_rule.transportWriteEof fdStep_writeClose s
  | close s frames => exact fdStep_transportClose s
  | forceClose s frames exc readFails writeFails =>
    exact fdStep_transportForceClose s exc readFails writeFails
  | pauseReading s frames => exact fdStep_transportPauseReading s
  | resumeReading s frames task => exact fdStep_transportResumeReading s task
  | flush s task => exact (writes_flushBufferedWrites s task).fdStep
  | writeCompleted s slice rest res cancelled task hp hle =>
    exact fdStep_rule.completeWrite fdStep_closeTransports s slice res cancelled task
  | readCompleted s rest res stored cancelled task hp hlen =>
    refine FdStep.trans ?_ (fdStep_readOperationCompleted _ _ task)
    exact .same rfl rfl
  | readHarvested s earlier later stored hp hne => exact .same rfl rfl
  | dataDispatched s data => exact fdStep_emit s rfl
  | bufferDispatched s nbytes => exact fdStep_emit s rfl
  | batchedReadCompleted s n rest cancelled task hp => exact fdStep_readOperationCompleted s _ task
  | returned s frame frames keepOpen task => exact fdStep_frameReturned s frame keepOpen task
  | raised s frame frames exc => exact fdStep_frameRaised s frame exc

end Stream

namespace DatagramTransport

/-- What an effect does to the fd and its slot. -/
def Effect.fd? : Effect → Option FdEffect
  | .unregisterFixedFile index => some (.unregisterFixedFile index)
  | .closeFd fd => some (.closeFd fd)
  | _ => none

/-- The effects on the fd and its slot. -/
def fdEffects (es : List Effect) : List FdEffect := es.filterMap Effect.fd?

/-- The fd and its slot are left alone, or torn down. -/
inductive FdStep (t u : DatagramTransport) : Prop
  | kept (es : List Effect) (htrace : u.trace = t.trace ++ es) (hes : fdEffects es = [])
      (hfd : u.fd = t.fd) (hindex : u.fixedFileIndex = t.fixedFileIndex)
  | torn (es : List Effect) (htrace : u.trace = t.trace ++ es)
      (hes : fdEffects es = teardown t.fd t.fixedFileIndex true) (hfd : u.fd = none)
      (hindex : u.fixedFileIndex = 0)

variable {t u : DatagramTransport}

theorem FdStep.same (hfd : u.fd = t.fd) (hindex : u.fixedFileIndex = t.fixedFileIndex)
    (ht : u.trace = t.trace) : FdStep t u :=
  .kept [] (by simp [ht]) rfl hfd hindex

theorem fdStep_sendto (t : DatagramTransport) (len : ℕ) (failing : Option SendStep) :
    FdStep t (t.sendto len failing) := by
  unfold sendto
  split
  · exact .same rfl rfl rfl
  split
  · exact .same rfl rfl rfl
  split
  · exact .same rfl rfl rfl
  split
  · exact .same rfl rfl rfl
  split
  · exact .kept [.sendMsg len] rfl rfl rfl rfl
  split
  · exact .same rfl rfl rfl
  unfold bufferWatermarkCheck
  dsimp only
  split
  · exact .kept [.sendMsg len, .pauseWriting] (by simp [emit]) rfl rfl rfl
  · exact .kept [.sendMsg len] rfl rfl rfl rfl

theorem fdStep_sendtoCompleted (t : DatagramTransport) (len : ℕ) (err : Errno) (cancelled : Bool) :
    FdStep t (t.sendtoCompleted len err cancelled) := by
  unfold sendtoCompleted
  split
  · exact .same rfl rfl rfl
  split
  · exact .kept [.errorReceived err] rfl rfl rfl rfl
  split
  · exact .kept [.resumeWriting] rfl rfl rfl rfl
  · exact .same rfl rfl rfl

/-- The slot is unregistered. -/
theorem fdStep_cancelPending (t : DatagramTransport) : ∃ es, t.cancelPending =
    { t with trace := t.trace ++ es, fixedFileIndex := 0 } ∧
      fdEffects es = teardown none t.fixedFileIndex true := by
  obtain ⟨fd, readTaskId, index⟩ := t
  refine ⟨(if readTaskId ≠ 0 then [.cancelIo readTaskId] else []) ++ fd.toList.map .cancelByFd ++
    (if index ≠ 0 then [.unregisterFixedFile index] else []), ?_, ?_⟩
  · by_cases hread : readTaskId = 0 <;> by_cases hindex : index = 0 <;> cases fd <;>
      simp [cancelPending, emit, hread, hindex]
  · by_cases hread : readTaskId = 0 <;> by_cases hindex : index = 0 <;> cases fd <;>
      simp [fdEffects, teardown, Effect.fd?, hread, hindex, List.filterMap_cons]

/-- The slot is unregistered before the fd is closed. -/
theorem fdStep_close (t : DatagramTransport) : FdStep t t.close := by
  unfold close
  by_cases hclosed : t.closed = true
  · rw [if_pos hclosed]
    exact .same rfl rfl rfl
  rw [if_neg hclosed]
  obtain ⟨es, heq, hes⟩ := fdStep_cancelPending { t with closed := true }
  rw [heq]
  dsimp only
  simp only [fdEffects, teardown, Option.toList_none, List.map_nil, if_true,
    List.append_nil] at hes
  cases hfd : t.fd with
  | none =>
    refine .torn (es ++ [Effect.connectionLost]) ?_ ?_ ?_ rfl
    · simp [emit]
    · simp [fdEffects, teardown, Effect.fd?, hes, hfd]
    · rfl
  | some fd =>
    refine .torn (es ++ [.closeFd fd, .connectionLost]) ?_ ?_ rfl rfl
    · simp [emit]
    · simp [fdEffects, teardown, Effect.fd?, hes, hfd]

/-- Whatever happens to a datagram transport, its fd and its slot are left alone or torn down. -/
theorem fdStep_step {e : Event} (hs : t.step e = some u) : FdStep t u := by
  unfold step at hs
  split at hs
  · obtain rfl := Option.some.inj hs
    exact fdStep_sendto t _ _
  · obtain rfl := Option.some.inj hs
    exact .same rfl rfl rfl
  · obtain rfl := Option.some.inj hs
    exact fdStep_close t
  · obtain ⟨len, -, rfl⟩ := Option.map_eq_some_iff.mp hs
    rename_i index err cancelled hframes
    rcases fdStep_sendtoCompleted { t with pending := t.pending.eraseIdx index } len err cancelled with
      ⟨es, htrace, hes, hfd, hindex⟩ | ⟨es, htrace, hes, hfd, hindex⟩
    · exact .kept es htrace hes hfd hindex
    · exact .torn es htrace hes hfd hindex
  · obtain ⟨freed, -, rfl⟩ := Option.map_eq_some_iff.mp hs
    rename_i index len err cancelled hframes
    rcases fdStep_sendtoCompleted { t with left := t.left.eraseIdx index } len err cancelled with
      ⟨es, htrace, hes, hfd, hindex⟩ | ⟨es, htrace, hes, hfd, hindex⟩
    · exact .kept es htrace hes hfd hindex
    · exact .torn es htrace hes hfd hindex
  · obtain rfl := Option.some.inj hs
    exact .same rfl rfl rfl
  · exact nomatch hs

end DatagramTransport

end Talyn
