import Talyn.Transports.ReadSide

/-!
# The buffers of a buffered protocol

A transport with a `BufferedProtocol` takes a `Py_buffer` from `get_buffer` for every read it queues. The
field `protocol_buffer` keeps it until the callback of the read takes it over and releases it at its end;
what is still in the field when the transport is dropped, `stream_clear` releases. Queuing a read
overwrites the field. It is safe exactly where the field is empty.

Where `io.queue` fails, the `errdefer` of `queue_read_operation` releases the buffer at once. A read that
was refused leaves no mark: it is `Event.raised` of `get_buffer`, and its buffer gets no number. But
`io.queue` may also fail with the read in the ring (`BufferEvent.readLeft`).

Reads are queued in the order in which their buffers are acquired, and their callbacks run in that order.
-/

namespace Talyn

/-- The buffer that a waiting function will release. -/
def Frame.held : Frame → Option ℕ
  | .dataReceived held | .eofReceived held | .getBuffer (.completion held _) => held
  | _ => none

namespace Stream

/-- The buffers the kernel is reading into. -/
def inFlightBuffers (s : Stream) : List ℕ :=
  s.pendingReads.zipIdx.filterMap fun (op, i) =>
    if op = .inFlight then some (s.protocolBuffersAcquired - s.pendingReads.length + i) else none

/-- The end of the Buffered branch of `queue_read_operation` when `io.queue` fails and leaves the read in
the ring: the buffer is released, and neither `blocking_task_id` nor `protocol_buffer` is set. -/
def leaveBufferedRead (s : Stream) (task : TaskId) : Stream :=
  let buffer := s.protocolBuffersAcquired
  let s := { s with protocolBuffersAcquired := buffer + 1 }.emit (.acquireProtocolBuffer buffer)
  let s : Stream := { s.emit (.performRead task) with pendingReads := s.pendingReads ++ [.inFlight] }
  s.releaseProtocolBuffer (some buffer)

/-- `stream_clear` of the buffer that is left. -/
def clearProtocolBuffer (s : Stream) : Stream :=
  { s.releaseProtocolBuffer s.protocolBuffer with protocolBuffer := none }

/-- What a function of the read side that holds the buffer `held` makes of it. -/
structure Hands (s : Stream) (held : Option ℕ) (r : Stream × Option Frame) : Prop where
  reading : r.1.reading = s.reading
  releases : ∀ buffer, r.1.releases buffer + (r.2.bind Frame.held).toList.count buffer =
    s.releases buffer + held.toList.count buffer

variable {s t : Stream}

theorem Beside.hands (h : Beside s t) : Hands s none (t, none) :=
  ⟨h.reading, fun buffer => by rw [h.releases buffer]; rfl⟩

theorem releases_releaseProtocolBuffer (s : Stream) (held : Option ℕ) (buffer : ℕ) :
    (s.releaseProtocolBuffer held).releases buffer = s.releases buffer + held.toList.count buffer := by
  cases held with
  | none => rfl
  | some b =>
    rw [releaseProtocolBuffer, Stream.releases, emit, List.count_append]
    simp [Stream.releases, List.count_singleton]

theorem reading_releaseProtocolBuffer (s : Stream) (held : Option ℕ) :
    (s.releaseProtocolBuffer held).reading = s.reading := by
  cases held with
  | none => rfl
  | some b => rfl

/-- The held buffer is released, and what follows does not touch the reads. -/
theorem hands_of_released {held : Option ℕ} {frame : Option Frame}
    (h : Beside (s.releaseProtocolBuffer held) t) (hf : frame.bind Frame.held = none) :
    Hands s held (t, frame) where
  reading := h.reading.trans (reading_releaseProtocolBuffer s held)
  releases buffer := by
    rw [hf, h.releases buffer, releases_releaseProtocolBuffer]
    rfl

theorem hands_finishRead (s : Stream) (held : Option ℕ) (err : Errno) :
    Hands s held (s.finishRead held err, none) :=
  hands_of_released ((beside_maybeCloseFd _).trans (beside_readSettled _ err)) rfl

theorem hands_failRead (s : Stream) (held : Option ℕ) (exc : Exc) :
    Hands s held (s.failRead held exc) := by
  unfold failRead
  dsimp only
  refine hands_of_released ?_ rfl
  refine Beside.trans ?_ (beside_emit _ (e := .callExceptionHandler) nofun)
  generalize hv : (if (s.releaseProtocolBuffer held).maybeCloseFd.read.connectionLostCallback = true then
    (s.releaseProtocolBuffer held).maybeCloseFd.closeTransports exc
    else (s.releaseProtocolBuffer held).maybeCloseFd) = v
  have hsv : Beside (s.releaseProtocolBuffer held) v := by
    rw [← hv]
    split
    · exact (beside_maybeCloseFd _).trans (beside_closeTransports _ exc)
    · exact beside_maybeCloseFd _
  exact hsv.trans (.of_closed rfl (fun _ => rfl) fun h => nomatch h.1)

theorem Hands.of_beside {u : Stream} {held : Option ℕ} {r : Stream × Option Frame}
    (h : Beside s u) (hr : Hands u held r) : Hands s held r :=
  ⟨hr.reading.trans h.reading, fun buffer => by rw [hr.releases buffer, h.releases buffer]⟩

theorem hands_endOfStream (s : Stream) (held : Option ℕ) : Hands s held (s.endOfStream held, none) :=
  .of_beside (beside_closeTransports s _) (hands_finishRead _ held _)

/-- Under a buffered protocol, a read is queued by asking for a buffer. -/
theorem queueReadOperation_buffered (hp : s.protocol.type = .buffered) (site : ReadSite)
    (task : TaskId) :
    s.queueReadOperation site task = (s, none) ∨
      s.queueReadOperation site task = (s.emit .getBuffer, some (.getBuffer site)) := by
  unfold queueReadOperation
  split
  · exact .inl rfl
  · split
    · exact .inl rfl
    · rw [hp]
      exact .inr rfl

theorem hands_rearmRead (hp : s.protocol.type = .buffered) (held : Option ℕ) (err : Errno)
    (task : TaskId) : Hands s held (s.rearmRead held err task) := by
  unfold rearmRead
  rcases queueReadOperation_buffered hp (.completion held err) task with h | h
  · rw [h]
    exact hands_finishRead s held err
  · rw [h]
    refine ⟨rfl, fun buffer => ?_⟩
    have := (beside_emit s (e := .getBuffer) nofun).releases buffer
    exact congrArg (· + held.toList.count buffer) this

/-- The callback takes the buffer over. -/
theorem hands_streamReadCompleted (hp : s.protocol.type = .buffered) (nbytes : ℕ) (err : Errno)
    (task : TaskId) :
    Hands { s with protocolBuffer := none } s.protocolBuffer (s.streamReadCompleted nbytes err task) := by
  unfold streamReadCompleted
  dsimp only
  split
  · split
    · refine .of_beside ?_ (hands_rearmRead ?_ _ err task)
      · split
        · exact .of_closed rfl (fun _ => rfl) fun h => nomatch h.2.1
        · exact .refl
      · split
        · exact hp
        · exact hp
    · refine .of_beside ?_ (hands_finishRead _ _ err)
      split
      · exact .of_closed rfl (fun _ => rfl) fun h => nomatch h.2.1
      · exact .refl
  · split
    · split
      · refine ⟨rfl, fun buffer => ?_⟩
        have := (beside_emit { s with protocolBuffer := none } (e := .eofReceived) nofun).releases buffer
        exact congrArg (· + s.protocolBuffer.toList.count buffer) this
      · exact hands_endOfStream _ _
    · split
      · exact @hands_rearmRead { s with protocolBuffer := none } hp _ err task
      · split
        · refine ⟨rfl, fun buffer => ?_⟩
          have := (beside_emit { s with protocolBuffer := none } (e := .bufferUpdated nbytes)
            nofun).releases buffer
          exact congrArg (· + s.protocolBuffer.toList.count buffer) this
        · rename_i hl
          exact nomatch hp.symm.trans hl

/-! ### Writing leaves no buffer in a frame -/

theorem writeCallbackReturned_held (s : Stream) (midDrain : Bool) (task : TaskId) :
    (s.writeCallbackReturned midDrain task).2.bind Frame.held = none := by
  unfold writeCallbackReturned
  dsimp only
  split
  · split <;> rfl
  · rfl

theorem invokeWriteCompleted_held (s : Stream) (dataWritten remaining : ℕ) (midDrain : Bool)
    (task : TaskId) :
    (s.invokeWriteCompleted dataWritten remaining midDrain task).2.bind Frame.held = none := by
  unfold invokeWriteCompleted
  split
  · exact writeCallbackReturned_held s midDrain task
  · split
    · exact writeCallbackReturned_held s midDrain task
    · split
      · dsimp only
        split
        · rfl
        · exact writeCallbackReturned_held _ midDrain task
      · exact writeCallbackReturned_held s midDrain task

theorem writeProgressed_held (s : Stream) (task : TaskId) :
    (s.writeProgressed task).2.bind Frame.held = none := by
  unfold writeProgressed
  split
  · exact invokeWriteCompleted_held _ _ _ _ _
  · split
    · rfl
    · exact invokeWriteCompleted_held _ _ _ _ _

theorem writeOperationCompleted_held (s : Stream) (data : CallbackData) (task : TaskId) :
    (s.writeOperationCompleted data task).2.bind Frame.held = none := by
  unfold writeOperationCompleted
  dsimp only
  split
  · rfl
  · split
    · rfl
    · exact writeProgressed_held _ task

theorem Beside.hands_of {r : Stream × Option Frame} (h : Beside s r.1)
    (hf : r.2.bind Frame.held = none) : Hands s none r :=
  ⟨h.reading, fun buffer => by rw [h.releases buffer, hf]⟩

theorem hands_completeWrite (s : Stream) (slice : Bytes) (res : ℤ) (cancelled : Bool)
    (task : TaskId) : Hands s none (Machine.completeWrite s slice res cancelled task) :=
  (beside_completeWrite s slice res cancelled task).hands_of (writeOperationCompleted_held _ _ task)

/-- `resume_reading` only asks for a buffer. -/
theorem hands_transportResumeReading (hp : s.protocol.type = .buffered) (task : TaskId) :
    Hands s none (s.transportResumeReading task) := by
  unfold transportResumeReading
  split
  · exact Beside.refl.hands
  · dsimp only
    have hs : Beside s { s with isReading := true } := .same rfl rfl rfl
    split
    · exact hs.hands
    · refine .of_beside hs ?_
      rcases queueReadOperation_buffered (s := { s with isReading := true }) hp .resume task with h | h
      · rw [h]
        exact Beside.refl.hands
      · rw [h]
        exact (beside_emit _ (e := .getBuffer) nofun).hands_of rfl

end Stream

namespace Machine

/-- The buffers the transport holds: in `protocol_buffer`, and in its waiting functions. -/
def heldBuffers (m : Machine) : List ℕ :=
  m.stream.protocolBuffer.toList ++ m.frames.filterMap Frame.held

/-- Every acquired buffer is held at one place or was released once, and none that the kernel is reading
into was released. -/
structure BuffersSound (m : Machine) : Prop where
  once : ∀ buffer < m.stream.protocolBuffersAcquired,
    m.stream.releases buffer + m.heldBuffers.count buffer = 1
  inFlight : ∀ buffer ∈ m.stream.inFlightBuffers, m.stream.releases buffer = 0

/-- What can happen to a transport with a buffered protocol. -/
inductive BufferEvent
  | transport (e : Event)
  /-- `get_buffer` returns, and `io.queue` fails for the read it was called for and leaves it in the
  ring -/
  | readLeft (task : TaskId) (exc : Exc)
  deriving DecidableEq

/-- One event; `none` when it cannot happen. -/
def stepBuffers (m : Machine) : BufferEvent → Option Machine
  | .transport e => m.step e
  | .readLeft task exc =>
    match m.frames with
    | .getBuffer site :: frames =>
      some (push frames (frameRaised (m.stream.leaveBufferedRead task) (.getBuffer site) exc))
    | _ => none

/-- A transport in its construction, where `get_buffer` is called for the first read. When it returns and
the read is queued, this is `init`; when not, the transport is dropped and nothing more happens to it. -/
def arming (protocol : Protocol) (fd fixedFileIndex : ℕ) (ownsFd serverRef : Bool) : Machine :=
  ⟨(Stream.new protocol fd fixedFileIndex ownsFd serverRef).emit .getBuffer, [.getBuffer .resume]⟩

/-- Where `get_buffer` returns for a read that is to be queued, the field `protocol_buffer` is empty, and
`io.queue` does not leave the read in the ring when it fails. -/
def TakesFree (m : Machine) : BufferEvent → Prop
  | .transport (.returned _ task) => ∀ site frames, m.frames = .getBuffer site :: frames → task ≠ 0 →
      m.stream.protocolBuffer = none
  | .transport _ => True
  | .readLeft _ _ => ∀ site frames, m.frames ≠ .getBuffer site :: frames

/-- A dropped transport has released each of its buffers exactly once. -/
theorem BuffersSound.dropped {m : Machine} (h : m.BuffersSound) (hf : m.frames = []) :
    ∀ buffer < m.stream.protocolBuffersAcquired,
      m.stream.clearProtocolBuffer.releases buffer = 1 := by
  intro buffer hb
  have honce := h.once buffer hb
  rw [heldBuffers, hf, List.filterMap_nil, List.append_nil] at honce
  exact (Stream.releases_releaseProtocolBuffer _ _ buffer).trans honce

/-- The accounts of the buffers while a function that holds `held` runs above the waiting ones. -/
structure Accounts (s : Stream) (held : Option ℕ) (frames : List Frame) : Prop where
  buffered : s.protocol.type = .buffered
  once : ∀ buffer, s.releases buffer + s.protocolBuffer.toList.count buffer +
      held.toList.count buffer + (frames.filterMap Frame.held).count buffer =
    if buffer < s.protocolBuffersAcquired then 1 else 0
  pending : s.pendingReads = [] ∨ ∃ op n, s.pendingReads = [op] ∧
    s.protocolBuffersAcquired = n + 1 ∧ s.protocolBuffer = some n

variable {s t : Stream} {held : Option ℕ} {frames : List Frame}

theorem Accounts.of_hands {r : Stream × Option Frame} (h : Accounts s held frames)
    (hr : Stream.Hands s held r) : Accounts r.1 none (r.2.toList ++ frames) := by
  have hreading := hr.reading
  simp only [Stream.reading, Prod.mk.injEq] at hreading
  rcases hreading with ⟨hp, hpending, hbuffer, hacquired⟩
  refine ⟨hp ▸ h.buffered, fun buffer => ?_, ?_⟩
  · have hframe : (r.2.toList.filterMap Frame.held).count buffer =
        (r.2.bind Frame.held).toList.count buffer := by
      cases hf : r.2 with
      | none => rfl
      | some frame => cases hh : frame.held <;> simp [hh]
    have hreleases := hr.releases buffer
    have honce := h.once buffer
    rw [hacquired, hbuffer, List.filterMap_append, List.count_append, hframe]
    rw [← honce]
    simp only [Option.toList_none, List.count_nil]
    omega
  · rw [hpending, hbuffer, hacquired]
    exact h.pending

theorem Accounts.pop {frame : Frame} (h : Accounts s none (frame :: frames)) :
    Accounts s frame.held frames := by
  refine ⟨h.buffered, fun buffer => ?_, h.pending⟩
  have honce := h.once buffer
  rw [← honce]
  cases hh : frame.held with
  | none => simp [hh]
  | some b =>
    simp [hh, List.count_cons]
    omega

/-- A read is queued into a new buffer while the transport holds none. -/
theorem Accounts.take (h : Accounts s held frames) (hfree : s.protocolBuffer = none) (task : TaskId) :
    Accounts (s.performBufferedRead task) held frames := by
  have hpending : s.pendingReads = [] := by
    rcases h.pending with hp | ⟨op, n, -, -, hb⟩
    · exact hp
    · exact nomatch hfree.symm.trans hb
  refine ⟨h.buffered, fun buffer => ?_, .inr ⟨.inFlight, s.protocolBuffersAcquired, ?_, rfl, rfl⟩⟩
  · have honce := h.once buffer
    have hreleases : (s.performBufferedRead task).releases buffer = s.releases buffer := by
      simp [Stream.performBufferedRead, Stream.performRead, Stream.releases, Stream.emit]
    rw [hfree] at honce
    rw [hreleases]
    show s.releases buffer + [s.protocolBuffersAcquired].count buffer + _ + _ =
      if buffer < s.protocolBuffersAcquired + 1 then 1 else 0
    simp only [Option.toList_none, List.count_nil] at honce
    rw [List.count_singleton]
    split at honce
    · rename_i hlt
      rw [if_neg (by simp; omega), if_pos (by omega)]
      omega
    · rename_i hge
      by_cases heq : buffer = s.protocolBuffersAcquired
      · rw [if_pos (by simp [heq]), if_pos (by omega)]
        omega
      · rw [if_neg (by simp; omega), if_neg (by omega)]
        omega
  · show s.pendingReads ++ [.inFlight] = [.inFlight]
    rw [hpending]
    rfl

/-- The callback of the read takes the buffer over. -/
theorem Accounts.takeOver (h : Accounts s none frames) (hp : s.pendingReads = []) :
    Accounts { s with protocolBuffer := none } s.protocolBuffer frames := by
  refine ⟨h.buffered, fun buffer => ?_, .inl hp⟩
  have honce := h.once buffer
  show s.releases buffer + ([] : List ℕ).count buffer + s.protocolBuffer.toList.count buffer + _ = _
  rw [← honce]
  simp only [Option.toList_none, List.count_nil]
  omega

theorem Accounts.readOperationCompleted (h : Accounts s none frames) (data : CallbackData)
    (task : TaskId) :
    Accounts (s.readOperationCompleted data task).1 none
      ((s.readOperationCompleted data task).2.toList ++ frames) := by
  have htail : s.pendingReads.tail = [] := by
    rcases h.pending with hp | ⟨op, n, hp, -, -⟩
    · rw [hp]
      rfl
    · rw [hp]
      rfl
  have ht : Accounts { s with pendingReads := s.pendingReads.tail } none frames :=
    ⟨h.buffered, h.once, .inl htail⟩
  unfold Stream.readOperationCompleted
  dsimp only
  split
  · exact ht.of_hands (Stream.beside_readCleanup _).hands
  · generalize hu : (if data.batchDispatched = true then
      { s with pendingReads := s.pendingReads.tail } else
      { s with
        pendingReads := s.pendingReads.tail
        read := { s.read with blockingTaskId := 0, cancelling := false } }) = u
    have hau : Accounts u none frames ∧ u.pendingReads = [] := by
      rw [← hu]
      split
      · exact ⟨ht, htail⟩
      · exact ⟨⟨ht.buffered, ht.once, ht.pending⟩, htail⟩
    generalize hv : ({ u with read :=
      { u.read with batchDispatched := data.batchDispatched } } : Stream) = v
    have hav : Accounts v none frames ∧ v.pendingReads = [] := by
      rw [← hv]
      exact ⟨⟨hau.1.buffered, hau.1.once, hau.1.pending⟩, hau.2⟩
    exact (hav.1.takeOver hav.2).of_hands (Stream.hands_streamReadCompleted hav.1.buffered _ _ task)

theorem accounts_returned {frame : Frame} (h : Accounts s none (frame :: frames)) (keepOpen : Bool)
    (task : TaskId)
    (hok : ∀ site, frame = .getBuffer site → s.protocolBuffer = none) :
    Accounts (frameReturned s frame keepOpen task).1 none
      ((frameReturned s frame keepOpen task).2.toList ++ frames) := by
  have hp := h.pop
  cases frame with
  | dataReceived held => exact hp.of_hands (Stream.hands_rearmRead h.buffered held _ task)
  | eofReceived held =>
    cases keepOpen with
    | true => exact hp.of_hands (Stream.hands_finishRead s held _)
    | false => exact hp.of_hands (Stream.hands_endOfStream s held)
  | getBuffer site =>
    have htaken := hp.take (hok site rfl) task
    cases site with
    | completion held err => exact htaken.of_hands (Stream.hands_finishRead _ held err)
    | resume => exact htaken.of_hands Stream.Beside.refl.hands
  | readCleanup => exact hp.of_hands (Stream.beside_readCleanup s).hands
  | resumeWriting midDrain =>
    exact hp.of_hands ((Stream.beside_writeCallbackReturned s midDrain task).hands_of
      (Stream.writeCallbackReturned_held s midDrain task))
  | writeCleanup => exact hp.of_hands (Stream.Beside.same (s := s) (t := s.writeCleanup) rfl rfl rfl).hands

theorem accounts_raised {frame : Frame} (h : Accounts s none (frame :: frames)) (exc : Exc) :
    Accounts (frameRaised s frame exc).1 none
      ((frameRaised s frame exc).2.toList ++ frames) := by
  have hp := h.pop
  cases frame with
  | dataReceived held => exact hp.of_hands (Stream.hands_failRead s held exc)
  | eofReceived held => exact hp.of_hands (Stream.hands_failRead s held exc)
  | getBuffer site =>
    cases site with
    | completion held err => exact hp.of_hands (Stream.hands_failRead s held exc)
    | resume =>
      exact hp.of_hands
        (Stream.Beside.same (s := s) (t := { s with isReading := false }) rfl rfl rfl).hands
  | readCleanup => exact hp.of_hands (Stream.beside_readCleanup s).hands
  | resumeWriting midDrain =>
    exact hp.of_hands ((Stream.beside_writeCallbackRaised s exc).hands_of rfl)
  | writeCleanup => exact hp.of_hands (Stream.Beside.same (s := s) (t := s.writeCleanup) rfl rfl rfl).hands

/-- One step keeps the accounts, unless a buffer is taken over another one. -/
theorem accounts_step {m m' : Machine} {e : Event} (h : Accounts m.stream none m.frames)
    (hok : m.TakesFree (.transport e)) (hs : m.step e = some m') :
    Accounts m'.stream none m'.frames := by
  have htask : e.task? ≠ some 0 := by
    intro h0
    unfold step at hs
    rw [if_pos h0] at hs
    exact nomatch hs
  cases step_cases hs with
  | write s frames data => exact h.of_hands (s.writes_transportWrite data).beside.hands
  | writeLines s frames items raises =>
    exact h.of_hands (s.writes_transportWriteLines items raises).beside.hands
  | writeEof s frames => exact h.of_hands s.beside_transportWriteEof.hands
  | close s frames => exact h.of_hands s.beside_transportClose.hands
  | forceClose s frames exc readFails writeFails =>
    exact h.of_hands (s.beside_transportForceClose exc readFails writeFails).hands
  | pauseReading s frames => exact h.of_hands s.beside_transportPauseReading.hands
  | resumeReading s frames task =>
    exact h.of_hands (Stream.hands_transportResumeReading h.buffered task)
  | flush s task => exact h.of_hands (s.writes_flushBufferedWrites task).beside.hands
  | writeCompleted s slice rest res cancelled task hp hle =>
    exact h.of_hands (s.hands_completeWrite slice res cancelled task)
  | readCompleted s rest res stored cancelled task hp hlen =>
    have hs' : Accounts { s with read := { s.read with buffer := stored } } none [] :=
      ⟨h.buffered, h.once, h.pending⟩
    exact hs'.readOperationCompleted _ task
  | readHarvested s earlier later stored hp hne =>
    refine ⟨h.buffered, h.once, ?_⟩
    rcases h.pending with hnil | ⟨op, n, hone, hacquired, hbuffer⟩
    · exact absurd (hp.symm.trans hnil) (List.append_ne_nil_of_right_ne_nil _ (List.cons_ne_nil _ _))
    · have hlen : (earlier ++ .inFlight :: later).length = 1 := by
        rw [← hp]
        exact congrArg List.length hone
      simp only [List.length_append, List.length_cons] at hlen
      obtain rfl : earlier = [] := List.length_eq_zero_iff.1 (by omega)
      obtain rfl : later = [] := List.length_eq_zero_iff.1 (by omega)
      exact .inr ⟨.batched stored.length, n, rfl, hacquired, hbuffer⟩
  | dataDispatched s data =>
    exact h.of_hands (s.beside_emit (e := .dataReceived data) nofun).hands
  | bufferDispatched s nbytes =>
    exact h.of_hands (s.beside_emit (e := .bufferUpdated nbytes) nofun).hands
  | batchedReadCompleted s n rest cancelled task hp => exact h.readOperationCompleted _ task
  | returned s frame frames keepOpen task =>
    refine accounts_returned h keepOpen task fun site hsite => ?_
    exact hok site frames (congrArg (· :: frames) hsite) fun h0 => htask (congrArg some h0)
  | raised s frame frames exc => exact accounts_raised h exc

theorem Accounts.sound {m : Machine} (h : Accounts m.stream none m.frames) : m.BuffersSound := by
  have honce : ∀ buffer, m.stream.releases buffer + m.heldBuffers.count buffer =
      if buffer < m.stream.protocolBuffersAcquired then 1 else 0 := by
    intro buffer
    have := h.once buffer
    rw [heldBuffers, List.count_append, ← this]
    simp only [Option.toList_none, List.count_nil]
    omega
  refine ⟨fun buffer hb => ?_, fun buffer hb => ?_⟩
  · rw [honce buffer, if_pos hb]
  · rcases h.pending with hp | ⟨op, n, hp, hacquired, hbuffer⟩
    · rw [Stream.inFlightBuffers, hp] at hb
      exact nomatch hb
    · -- the only read in flight reads into the buffer that is held
      have hbn : buffer = n := by
        rw [Stream.inFlightBuffers, hp, hacquired] at hb
        simp only [List.zipIdx_singleton, List.filterMap_cons, List.filterMap_nil] at hb
        split at hb
        · exact nomatch hb
        · rename_i hsome
          split at hsome
          · obtain rfl := Option.some.inj hsome
            simpa using hb
          · exact nomatch hsome
      have hheld : 0 < m.heldBuffers.count buffer := by
        rw [heldBuffers, hbuffer, hbn]
        exact List.count_pos_iff.2 (List.mem_append_left _ (List.mem_singleton.2 rfl))
      have := honce buffer
      rw [if_pos (by omega)] at this
      omega

/-- A buffer over which another one is taken is lost. -/
theorem lost_of_overwritten {r : Stream × Option Frame} {task : TaskId} {buffer : ℕ}
    (h : Accounts s held frames) (hb : s.protocolBuffer = some buffer)
    (hr : Stream.Hands (s.performBufferedRead task) held r) : ¬ (push frames r).BuffersSound := by
  intro hsound
  have hreading := hr.reading
  simp only [Stream.reading, Prod.mk.injEq] at hreading
  rcases hreading with ⟨-, -, hbuffer, hacquired⟩
  have honce := h.once buffer
  rw [hb] at honce
  simp only [Option.toList_some, List.count_singleton_self] at honce
  have hlt : buffer < s.protocolBuffersAcquired := by
    by_contra hge
    rw [if_neg hge] at honce
    omega
  rw [if_pos hlt] at honce
  have hsum := hsound.once buffer (by
    show buffer < r.1.protocolBuffersAcquired
    rw [hacquired]
    exact Nat.lt_succ_of_lt hlt)
  have hreleases := hr.releases buffer
  have hperform : (s.performBufferedRead task).releases buffer = s.releases buffer := by
    simp [Stream.performBufferedRead, Stream.performRead, Stream.releases, Stream.emit]
  have hframe : (r.2.toList.filterMap Frame.held).count buffer =
      (r.2.bind Frame.held).toList.count buffer := by
    cases hf : r.2 with
    | none => rfl
    | some frame => cases hh : frame.held <;> simp [hh]
  have hnew : r.1.protocolBuffer.toList.count buffer = 0 := by
    rw [hbuffer]
    show [s.protocolBuffersAcquired].count buffer = 0
    rw [List.count_singleton, if_neg (by simp; omega)]
  have hheld : (push frames r).heldBuffers.count buffer =
      r.1.protocolBuffer.toList.count buffer + ((r.2.bind Frame.held).toList.count buffer +
        (frames.filterMap Frame.held).count buffer) := by
    rw [heldBuffers, List.count_append, push, List.filterMap_append, List.count_append, hframe]
  rw [hheld] at hsum
  have hstream : (push frames r).stream.releases buffer = r.1.releases buffer := rfl
  omega

/-- The buffer of the last read in flight. -/
theorem mem_inFlightBuffers {earlier : List ReadOp} {n : ℕ} (hp : s.pendingReads = earlier ++ [.inFlight])
    (hn : s.protocolBuffersAcquired = n + 1) (hle : earlier.length ≤ n) : n ∈ s.inFlightBuffers := by
  rw [Stream.inFlightBuffers, hp, hn, List.mem_filterMap]
  refine ⟨(.inFlight, earlier.length), ?_, ?_⟩
  · rw [List.zipIdx_append]
    exact List.mem_append_right _ (by simp)
  · dsimp only
    rw [if_pos rfl, List.length_append, List.length_singleton]
    congr 1
    omega

/-- The buffer of a read that is left in the ring was released. -/
theorem not_sound_of_left {r : Stream × Option Frame} {task : TaskId} (h : Accounts s held frames)
    (hr : Stream.Hands (s.leaveBufferedRead task) held r) (hf : r.2.bind Frame.held = none) :
    ¬ (push frames r).BuffersSound := by
  intro hsound
  have hreading := hr.reading
  simp only [Stream.reading, Prod.mk.injEq] at hreading
  rcases hreading with ⟨-, hpending, -, hacquired⟩
  have hle : s.pendingReads.length ≤ s.protocolBuffersAcquired := by
    rcases h.pending with hp | ⟨op, n, hp, hn, -⟩
    · simp [hp]
    · simp [hp, hn]
  replace hpending : r.1.pendingReads = s.pendingReads ++ [.inFlight] := hpending
  have hmem : s.protocolBuffersAcquired ∈ (push frames r).stream.inFlightBuffers :=
    mem_inFlightBuffers hpending hacquired hle
  have hreleases := hr.releases s.protocolBuffersAcquired
  rw [Stream.leaveBufferedRead, Stream.releases_releaseProtocolBuffer, hf] at hreleases
  have hzero : r.1.releases s.protocolBuffersAcquired = 0 := hsound.inFlight _ hmem
  rw [hzero] at hreleases
  simp at hreleases
  omega

/-- A step that keeps every buffer accounted for takes none over another one, and leaves no read in the
ring. -/
theorem takesFree_of_sound {m m' : Machine} {e : BufferEvent} (h : Accounts m.stream none m.frames)
    (hs : m.stepBuffers e = some m') (hsound : m'.BuffersSound) : m.TakesFree e := by
  cases e with
  | transport e =>
    cases step_cases hs with
    | returned s frame frames keepOpen task =>
      intro site frames' hframes _
      obtain ⟨rfl, rfl⟩ := List.cons.inj hframes
      cases hb : s.protocolBuffer with
      | none => rfl
      | some buffer =>
        have hp := h.pop
        cases site with
        | completion held err =>
          exact absurd hsound (lost_of_overwritten hp hb (Stream.hands_finishRead _ held err))
        | resume => exact absurd hsound (lost_of_overwritten hp hb Stream.Beside.refl.hands)
    | _ => trivial
  | readLeft task exc =>
    intro site frames hframes
    obtain ⟨s, _⟩ := m
    obtain rfl := hframes
    obtain rfl := Option.some.inj hs
    have hp := h.pop
    cases site with
    | completion held err =>
      exact not_sound_of_left hp (Stream.hands_failRead _ held exc) rfl hsound
    | resume =>
      have hbeside : Stream.Beside (s.leaveBufferedRead task)
          { s.leaveBufferedRead task with isReading := false } := .same rfl rfl rfl
      have hhands : Stream.Hands (s.leaveBufferedRead task) none
          ({ s.leaveBufferedRead task with isReading := false }, none) := hbeside.hands
      exact not_sound_of_left hp hhands rfl hsound

/-- One step keeps the accounts under the condition. -/
theorem accounts_stepBuffers {m m' : Machine} {e : BufferEvent} (h : Accounts m.stream none m.frames)
    (hok : m.TakesFree e) (hs : m.stepBuffers e = some m') : Accounts m'.stream none m'.frames := by
  cases e with
  | transport e => exact accounts_step h hok hs
  | readLeft task exc =>
    unfold stepBuffers at hs
    dsimp only at hs
    split at hs
    · rename_i site frames hframes
      exact absurd hframes (hok site frames)
    · exact nomatch hs

theorem accounts_arming (eofReceived pauseWriting resumeWriting : Bool) (fd fixedFileIndex : ℕ)
    (ownsFd serverRef : Bool) :
    Accounts (arming ⟨.buffered, eofReceived, pauseWriting, resumeWriting⟩ fd fixedFileIndex ownsFd
      serverRef).stream none [.getBuffer .resume] :=
  ⟨rfl, fun _ => rfl, .inl rfl⟩

/-- **The buffers of `get_buffer`.** In a run of a transport with a buffered protocol every buffer is
released exactly once and none while the kernel reads into it, exactly when no read is queued into a new
buffer while the transport still holds one, and no failing `io.queue` leaves a read in the ring. -/
theorem protocol_buffers_released_once (eofReceived pauseWriting resumeWriting : Bool)
    (fd fixedFileIndex : ℕ) (ownsFd serverRef : Bool) (es : List BufferEvent) :
    Runs.Always stepBuffers BuffersSound
        (arming ⟨.buffered, eofReceived, pauseWriting, resumeWriting⟩ fd fixedFileIndex ownsFd
          serverRef) es ↔
      Runs.Along stepBuffers TakesFree
        (arming ⟨.buffered, eofReceived, pauseWriting, resumeWriting⟩ fd fixedFileIndex ownsFd
          serverRef) es := by
  apply Runs.always_iff_along_of_break (I := fun m => Accounts m.stream none m.frames)
  · exact accounts_arming eofReceived pauseWriting resumeWriting fd fixedFileIndex ownsFd serverRef
  · intro m h
    exact h.sound
  · intro m e m' h hok hs
    exact accounts_stepBuffers h hok hs
  · intro m e m' h hs hsound
    exact takesFree_of_sound h hs hsound
  · intro m e hs
    cases e with
    | transport e =>
      cases e with
      | returned keepOpen task =>
        intro site frames hframes htask
        rcases m with ⟨s, fs⟩
        obtain rfl : fs = _ := hframes
        unfold stepBuffers step at hs
        dsimp only at hs
        rw [if_neg (by simpa [Event.task?] using htask)] at hs
        exact nomatch hs
      | _ => trivial
    | readLeft task exc =>
      intro site frames hframes
      rcases m with ⟨s, fs⟩
      obtain rfl : fs = _ := hframes
      exact nomatch hs

/-- A batched read is dispatched, and `buffer_updated` pauses and resumes reading: the next read is queued
into a new buffer over the one the batched read still holds, and the callback of the batched read releases
the buffer the kernel is reading into. A read left in the ring reads into a released buffer as well. -/
theorem protocol_buffer_overwritten :
    (¬ ∀ es, Runs.Always stepBuffers BuffersSound
      (arming ⟨.buffered, false, false, false⟩ 5 1 true false) es) ∧
    ¬ Runs.Always stepBuffers BuffersSound (arming ⟨.buffered, false, false, false⟩ 5 1 true false)
      [.readLeft 10 (.raised 1)] := by
  refine ⟨fun h => ?_, fun h => ?_⟩
  · have := (h [.transport (.returned false 10), .transport (.readHarvested [1]),
      .transport (.readDispatched (.bufferUpdated 1)), .transport .pauseReading,
      .transport (.resumeReading 20), .transport (.returned false 20),
      .transport (.batchedReadCompleted false 30)]).last rfl
    exact absurd (this.inFlight 1 (by decide)) (by decide)
  · exact absurd ((h.last rfl).inFlight 0 (by decide)) (by decide)

end Machine

end Talyn
