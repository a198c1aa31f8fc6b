import Talyn.Transports.Machine

/-!
# The write queue: every byte once and in order

`WriteInv` is the invariant of the write side. Its core is `order`: what the kernel reported written,
followed by the bytes still in the pending buffers, is what was appended, which is the data of the calls
of `write` and `write_lines` (`writeInv_run`). Each function of the
transport keeps it; the functions of the read side and the closing machinery do not touch what the
invariant is about (`Stream.writeSide`), except that they may close the write side gracefully.

The invariant is about runs without `abort`, without a write error and without a protocol exception
in `resume_writing` (`GracefulWrites`).
-/

namespace Talyn

namespace Effect

/-- The bytes this effect reports written. -/
@[simp] def writtenBytes : Effect → Bytes
  | .written data => data
  | _ => []

/-- The bytes this effect appends to the write queue. -/
@[simp] def appendedBytes : Effect → Bytes
  | .acquireBuffer _ data => data
  | _ => []

/-- The `Py_buffer` acquired for writing by this effect. -/
@[simp] def acquiredBuffers : Effect → List ℕ
  | .acquireBuffer buffer _ => [buffer]
  | _ => []

/-- The `Py_buffer` released by this effect. -/
@[simp] def releasedBuffers : Effect → List ℕ
  | .releaseBuffer buffer => [buffer]
  | _ => []

end Effect

/-- The slice the next write submits: the rest of the current buffer. -/
def WriteTransport.currentChunk (w : WriteTransport) : Bytes :=
  (w.pendingBuffers[w.pendingBufferIndex]?.getD []).drop w.pendingBufferOffset

/-- The bytes of the pending buffers that were not reported written. -/
def WriteTransport.unwritten (w : WriteTransport) : Bytes :=
  (w.pendingBuffers.drop w.pendingBufferIndex).flatten.drop w.pendingBufferOffset

/-- What the write invariant is about: the write queue, the slices submitted and not completed, the
`Py_buffer`s acquired, and what was recorded about them. -/
structure WriteSide where
  queue : WriteTransport
  submitted : List Bytes
  buffersAcquired : ℕ
  /-- the byte ranges reported written, in order -/
  written : Bytes
  /-- the appended buffers, in call order -/
  appended : Bytes
  acquired : List ℕ
  released : List ℕ

/-- The write side of a transport. -/
def Stream.writeSide (s : Stream) : WriteSide where
  queue := s.write
  submitted := s.pendingWrites
  buffersAcquired := s.buffersAcquired
  written := s.trace.flatMap Effect.writtenBytes
  appended := s.trace.flatMap Effect.appendedBytes
  acquired := s.trace.flatMap Effect.acquiredBuffers
  released := s.trace.flatMap Effect.releasedBuffers

/-- The invariant of the write side; `bytes` is the data of the calls that were made. -/
structure WriteInv (bytes : Bytes) (v : WriteSide) : Prop where
  initialized : v.queue.initialized = true
  sameLength : v.queue.pendingPyBuffers.length = v.queue.pendingBuffers.length
  nonempty : ∀ b ∈ v.queue.pendingBuffers, b ≠ []
  index_le : v.queue.pendingBufferIndex ≤ v.queue.pendingBuffers.length
  offset : v.queue.pendingBufferOffset = 0 ∨
    ∃ b, v.queue.pendingBuffers[v.queue.pendingBufferIndex]? = some b ∧
      v.queue.pendingBufferOffset < b.length
  size : v.queue.bufferSize = v.queue.unwritten.length
  data : v.appended = bytes
  order : v.written ++ v.queue.unwritten = v.appended
  inFlight : v.submitted = if v.queue.writeInFlight then [v.queue.currentChunk] else []
  inFlight_lt : v.queue.writeInFlight = true →
    v.queue.pendingBufferIndex < v.queue.pendingBuffers.length
  closed : v.queue.closed = true → v.queue.bufferSize = 0 ∧ v.queue.writeInFlight = false
  acquired : v.acquired = List.range v.buffersAcquired
  released : (v.released ++ v.queue.pendingPyBuffers.drop v.queue.pendingBufferIndex).Perm
    (List.range v.buffersAcquired)

variable {bytes : Bytes}

namespace Stream

/-! ### Functions that leave the write side alone -/

theorem detachServer_writeSide (s : Stream) : s.detachServer.writeSide = s.writeSide := by
  unfold detachServer
  split
  · simp [writeSide, emit]
  · rfl

theorem cancelAndCloseFd_writeSide (s : Stream) : s.cancelAndCloseFd.writeSide = s.writeSide := by
  unfold cancelAndCloseFd
  cases s.fd with
  | none => rfl
  | some fd =>
    dsimp only [closeFd, unregisterFixedFile, cancelByFd]
    split <;> split <;> split <;> simp [writeSide, emit]

theorem scheduleConnectionLostOnce_writeSide (s : Stream) :
    s.scheduleConnectionLostOnce.writeSide = s.writeSide := by
  rw [← detachServer_writeSide s]
  unfold scheduleConnectionLostOnce
  dsimp only
  split
  · rfl
  · simp [writeSide, emit]

theorem maybeCloseFd_writeSide (s : Stream) : s.maybeCloseFd.writeSide = s.writeSide := by
  unfold maybeCloseFd
  split
  · dsimp only
    rw [scheduleConnectionLostOnce_writeSide, cancelAndCloseFd_writeSide]
    rfl
  · rfl

theorem readClose_writeSide (s : Stream) : s.readClose.writeSide = s.writeSide := by
  unfold readClose
  split
  · rfl
  · split
    · rw [maybeCloseFd_writeSide]
      rfl
    · dsimp only
      split <;> simp [writeSide, emit]

theorem readCancel_writeSide (s : Stream) : s.readCancel.writeSide = s.writeSide := by
  unfold readCancel
  split
  · rfl
  · simp [writeSide, emit]

theorem releaseProtocolBuffer_writeSide (s : Stream) (held : Option ℕ) :
    (s.releaseProtocolBuffer held).writeSide = s.writeSide := by
  cases held with
  | none => rfl
  | some buffer => simp [releaseProtocolBuffer, writeSide, emit]

theorem performRead_writeSide (s : Stream) (task : TaskId) :
    (s.performRead task).writeSide = s.writeSide := by
  simp [performRead, writeSide, emit]

theorem performBufferedRead_writeSide (s : Stream) (task : TaskId) :
    (s.performBufferedRead task).writeSide = s.writeSide := by
  simp [performBufferedRead, performRead, writeSide, emit]

theorem queueReadOperation_writeSide (s : Stream) (site : ReadSite) (task : TaskId) :
    (s.queueReadOperation site task).1.writeSide = s.writeSide := by
  unfold queueReadOperation
  split
  · rfl
  · split
    · rfl
    · cases s.protocol.type with
      | buffered => simp [writeSide, emit]
      | legacy => exact performRead_writeSide s task

theorem transportPauseReading_writeSide (s : Stream) :
    s.transportPauseReading.writeSide = s.writeSide := by
  unfold transportPauseReading
  split
  · rfl
  · split
    · rfl
    · rw [← readCancel_writeSide s]
      rfl

theorem transportResumeReading_writeSide (s : Stream) (task : TaskId) :
    (s.transportResumeReading task).1.writeSide = s.writeSide := by
  unfold transportResumeReading
  split
  · rfl
  · dsimp only
    split
    · rfl
    · rw [queueReadOperation_writeSide]
      rfl

/-! ### Closing and reading keep the invariant -/

theorem writeInv_writeClose {s : Stream} (h : WriteInv bytes s.writeSide) :
    WriteInv bytes s.writeClose.writeSide := by
  unfold writeClose
  split
  · exact h
  · dsimp only
    split
    · rename_i hidle
      simp only [Bool.and_eq_true, Bool.not_eq_true', decide_eq_true_eq] at hidle
      rw [maybeCloseFd_writeSide]
      exact { h with closed := fun _ => ⟨hidle.2, hidle.1⟩ }
    · exact { h with }

theorem writeInv_closeTransports {s : Stream} (h : WriteInv bytes s.writeSide) (exc : Exc) :
    WriteInv bytes (s.closeTransports exc).writeSide := by
  unfold closeTransports
  dsimp only
  have hstash : WriteInv bytes
      (if (!s.closed && s.pendingLostExc.isNone) = true then
        { s with pendingLostExc := some exc } else s).writeSide := by
    split <;> exact h
  have hclose := writeInv_writeClose
    (s := Stream.readClose
      (if (!s.closed && s.pendingLostExc.isNone) = true then
        { s with pendingLostExc := some exc } else s)) (by rw [readClose_writeSide]; exact hstash)
  split
  · exact hclose
  · rw [maybeCloseFd_writeSide, detachServer_writeSide]
    exact hclose

theorem writeInv_transportClose {s : Stream} (h : WriteInv bytes s.writeSide) :
    WriteInv bytes s.transportClose.writeSide := by
  unfold transportClose
  split
  · exact h
  · dsimp only
    split
    · rw [scheduleConnectionLostOnce_writeSide, cancelAndCloseFd_writeSide]
      exact h
    · exact writeInv_closeTransports (s := { s with isClosing := true }) h _

theorem writeInv_readSettled {s : Stream} (h : WriteInv bytes s.writeSide) (err : Errno) :
    WriteInv bytes (s.readSettled err).writeSide := by
  unfold readSettled
  split
  · split
    · rw [maybeCloseFd_writeSide]
      exact h
    · exact h
  · dsimp only
    split
    · exact writeInv_closeTransports
        (s := { s with read := { s.read with isClosing := true, closed := true } }) h _
    · exact h

theorem writeInv_finishRead {s : Stream} (h : WriteInv bytes s.writeSide) (held : Option ℕ) (err : Errno) :
    WriteInv bytes (s.finishRead held err).writeSide := by
  refine writeInv_readSettled ?_ err
  rw [maybeCloseFd_writeSide, releaseProtocolBuffer_writeSide]
  exact h

theorem writeInv_failRead {s : Stream} (h : WriteInv bytes s.writeSide) (held : Option ℕ) (exc : Exc) :
    WriteInv bytes (s.failRead held exc).1.writeSide := by
  unfold failRead
  dsimp only
  have hdone : WriteInv bytes (s.releaseProtocolBuffer held).maybeCloseFd.writeSide := by
    rw [maybeCloseFd_writeSide, releaseProtocolBuffer_writeSide]
    exact h
  split
  · have := writeInv_closeTransports hdone exc
    simpa [writeSide, emit] using this
  · simpa [writeSide, emit] using hdone

theorem writeInv_rearmRead {s : Stream} (h : WriteInv bytes s.writeSide) (held : Option ℕ) (err : Errno)
    (task : TaskId) : WriteInv bytes (s.rearmRead held err task).1.writeSide := by
  have hq : WriteInv bytes (s.queueReadOperation (.completion held err) task).1.writeSide := by
    rw [queueReadOperation_writeSide]
    exact h
  unfold rearmRead
  split
  · rename_i heq
    rw [heq] at hq
    exact writeInv_finishRead hq held err
  · rename_i heq
    rw [heq] at hq
    exact hq

theorem writeInv_endOfStream {s : Stream} (h : WriteInv bytes s.writeSide) (held : Option ℕ) :
    WriteInv bytes (s.endOfStream held).writeSide :=
  writeInv_finishRead (writeInv_closeTransports h _) held _

theorem writeInv_streamReadCompleted {s : Stream} (h : WriteInv bytes s.writeSide) (nbytes : ℕ)
    (err : Errno) (task : TaskId) : WriteInv bytes (s.streamReadCompleted nbytes err task).1.writeSide := by
  have h0 : WriteInv bytes { s with protocolBuffer := none }.writeSide := h
  unfold streamReadCompleted
  dsimp only
  split
  · have hc : WriteInv bytes
        (if (s.read.isClosing || s.read.closed || s.isClosing || s.closed) = true then
          { s with protocolBuffer := none, read := { s.read with closed := true } }
        else { s with protocolBuffer := none }).writeSide := by
      split <;> exact h
    split
    · exact writeInv_rearmRead hc _ _ _
    · exact writeInv_finishRead hc _ _
  · split
    · split
      · simpa [writeSide, emit] using h
      · exact writeInv_endOfStream h0 _
    · split
      · exact writeInv_rearmRead h0 _ _ _
      · split <;> simpa [writeSide, emit] using h

theorem writeInv_readCleanup {s : Stream} (h : WriteInv bytes s.writeSide) :
    WriteInv bytes s.readCleanup.writeSide := by
  unfold readCleanup
  rw [maybeCloseFd_writeSide]
  exact h

theorem writeInv_readOperationCompleted {s : Stream} (h : WriteInv bytes s.writeSide) (data : CallbackData)
    (task : TaskId) : WriteInv bytes (s.readOperationCompleted data task).1.writeSide := by
  unfold readOperationCompleted
  dsimp only
  split
  · exact writeInv_readCleanup (s := { s with pendingReads := s.pendingReads.tail }) h
  · apply writeInv_streamReadCompleted
    split <;> exact h

theorem writeInv_readFrameReturned {s : Stream} (h : WriteInv bytes s.writeSide) (frame : Frame)
    (keepOpen : Bool) (task : TaskId) :
    WriteInv bytes (s.readFrameReturned frame keepOpen task).1.writeSide := by
  have hp : WriteInv bytes (s.performBufferedRead task).writeSide := by
    rw [performBufferedRead_writeSide]
    exact h
  cases frame with
  | dataReceived held => exact writeInv_rearmRead h held _ task
  | eofReceived held =>
    cases keepOpen with
    | true => exact writeInv_finishRead h held _
    | false => exact writeInv_endOfStream h held
  | getBuffer site =>
    cases site with
    | completion held err => exact writeInv_finishRead hp held err
    | resume => exact hp
  | readCleanup => exact writeInv_readCleanup h
  | resumeWriting midDrain => exact h
  | writeCleanup => exact h

theorem writeInv_readFrameRaised {s : Stream} (h : WriteInv bytes s.writeSide) (frame : Frame) (exc : Exc) :
    WriteInv bytes (s.readFrameRaised frame exc).1.writeSide := by
  cases frame with
  | dataReceived held => exact writeInv_failRead h held exc
  | eofReceived held => exact writeInv_failRead h held exc
  | getBuffer site =>
    cases site with
    | completion held err => exact writeInv_failRead h held exc
    | resume => exact h
  | readCleanup => exact writeInv_readCleanup h
  | resumeWriting midDrain => exact h
  | writeCleanup => exact h

end Stream

/-! ### The write queue -/

namespace WriteInv

variable {v : WriteSide}

/-- The offset lies inside the bytes of the buffers from the current one on. -/
theorem offset_le (h : WriteInv bytes v) :
    v.queue.pendingBufferOffset ≤
      (v.queue.pendingBuffers.drop v.queue.pendingBufferIndex).flatten.length := by
  rcases h.offset with hzero | ⟨b, hb, hlt⟩
  · omega
  · obtain ⟨hi, rfl⟩ := List.getElem?_eq_some_iff.1 hb
    rw [List.drop_eq_getElem_cons hi, List.flatten_cons, List.length_append]
    omega

/-- With a current buffer, the unwritten bytes are the rest of that buffer and the later buffers. -/
theorem unwritten_eq (h : WriteInv bytes v)
    (hi : v.queue.pendingBufferIndex < v.queue.pendingBuffers.length) :
    v.queue.unwritten =
      v.queue.currentChunk ++ (v.queue.pendingBuffers.drop (v.queue.pendingBufferIndex + 1)).flatten := by
  unfold WriteTransport.unwritten WriteTransport.currentChunk
  rw [List.drop_eq_getElem_cons hi, List.flatten_cons, List.getElem?_eq_getElem hi]
  rw [Option.getD_some, List.drop_append_of_le_length]
  rcases h.offset with hzero | ⟨b, hb, hlt⟩
  · omega
  · rw [List.getElem?_eq_getElem hi] at hb
    obtain rfl := Option.some.inj hb
    omega

/-- The current buffer is not used up. -/
theorem offset_lt (h : WriteInv bytes v)
    (hi : v.queue.pendingBufferIndex < v.queue.pendingBuffers.length) :
    v.queue.pendingBufferOffset < (v.queue.pendingBuffers.get ⟨v.queue.pendingBufferIndex, hi⟩).length := by
  rcases h.offset with hzero | ⟨b, hb, hlt⟩
  · rw [hzero]
    exact List.length_pos_iff.2 (h.nonempty _ (List.getElem_mem hi))
  · rw [List.getElem?_eq_getElem hi] at hb
    obtain rfl := Option.some.inj hb
    exact hlt

/-- The current chunk is not empty, so bytes are pending. -/
theorem currentChunk_ne_nil (h : WriteInv bytes v)
    (hi : v.queue.pendingBufferIndex < v.queue.pendingBuffers.length) :
    v.queue.currentChunk ≠ [] := by
  have hlt := h.offset_lt hi
  intro hnil
  have hlen := congrArg List.length hnil
  rw [WriteTransport.currentChunk, List.getElem?_eq_getElem hi] at hlen
  simp only [Option.getD_some, List.length_drop, List.length_nil, List.get_eq_getElem] at hlen hlt
  omega

/-- Bytes are pending exactly when there is a current buffer. -/
theorem bufferSize_pos_iff (h : WriteInv bytes v) :
    v.queue.bufferSize > 0 ↔ v.queue.pendingBufferIndex < v.queue.pendingBuffers.length := by
  constructor
  · intro hpos
    by_contra hge
    have hnil : v.queue.unwritten = [] := by
      rw [WriteTransport.unwritten, List.drop_eq_nil_of_le (Nat.le_of_not_lt hge)]
      simp
    have := h.size
    rw [hnil, List.length_nil] at this
    omega
  · intro hi
    have := List.length_pos_iff.2 (h.currentChunk_ne_nil hi)
    rw [h.size, h.unwritten_eq hi, List.length_append]
    omega

/-- Acquiring an empty buffer and releasing it at once. -/
theorem append_empty (h : WriteInv bytes v) :
    WriteInv bytes
      { v with
        buffersAcquired := v.buffersAcquired + 1
        acquired := v.acquired ++ [v.buffersAcquired]
        released := v.released ++ [v.buffersAcquired] } := by
  refine { h with acquired := ?_, released := ?_ }
  · simp only [h.acquired, List.range_succ]
  · simp only [List.range_succ, List.append_assoc]
    refine List.Perm.trans ?_ (h.released.append_right [v.buffersAcquired])
    rw [List.append_assoc]
    exact List.Perm.append_left _ List.perm_append_comm

/-- Appending a buffer to the pending buffers appends its bytes to the unwritten ones. -/
theorem append (h : WriteInv bytes v) (hopen : v.queue.closed = false) {data : Bytes} (hne : data ≠ []) :
    WriteInv (bytes ++ data)
      { v with
        queue :=
          { v.queue with
            pendingPyBuffers := v.queue.pendingPyBuffers ++ [v.buffersAcquired]
            pendingBuffers := v.queue.pendingBuffers ++ [data]
            bufferSize := v.queue.bufferSize + data.length }
        buffersAcquired := v.buffersAcquired + 1
        appended := v.appended ++ data
        acquired := v.acquired ++ [v.buffersAcquired] } := by
  have hun :
      ((v.queue.pendingBuffers ++ [data]).drop v.queue.pendingBufferIndex).flatten.drop
        v.queue.pendingBufferOffset = v.queue.unwritten ++ data := by
    rw [List.drop_append_of_le_length h.index_le, List.flatten_append,
      List.drop_append_of_le_length h.offset_le]
    simp [WriteTransport.unwritten]
  refine
    { initialized := h.initialized, sameLength := ?_, nonempty := ?_, index_le := ?_, offset := ?_, size := ?_, data := ?_, order := ?_
      inFlight := ?_, inFlight_lt := ?_, closed := ?_, acquired := ?_, released := ?_ }
  · simp [h.sameLength]
  · intro b hb
    rcases List.mem_append.1 hb with hb | hb
    · exact h.nonempty b hb
    · rw [List.mem_singleton.1 hb]
      exact hne
  · have := h.index_le
    simp only [List.length_append]
    omega
  · rcases h.offset with hzero | ⟨b, hb, hlt⟩
    · exact .inl hzero
    · refine .inr ⟨b, ?_, hlt⟩
      rw [← hb]
      exact List.getElem?_append_left (List.getElem?_eq_some_iff.1 hb).1
  · simp only [WriteTransport.unwritten, hun, List.length_append, h.size]
  · exact congrArg (· ++ data) h.data
  · rw [← h.order, List.append_assoc, ← hun]
    rfl
  · rw [h.inFlight]
    by_cases hf : v.queue.writeInFlight = true
    · simp only [hf, if_true, WriteTransport.currentChunk,
        List.getElem?_append_left (h.inFlight_lt hf)]
    · simp only [hf, Bool.false_eq_true, if_false]
  · intro hf
    have := h.inFlight_lt hf
    simp only [List.length_append]
    omega
  · intro hc
    rw [show v.queue.closed = true from hc] at hopen
    cases hopen
  · simp only [h.acquired, List.range_succ]
  · have hlen := h.sameLength
    have hidx := h.index_le
    simp only [List.range_succ]
    rw [List.drop_append_of_le_length (by omega), ← List.append_assoc]
    exact h.released.append_right _

end WriteInv

namespace Stream

/-- The skipping loop stops at once: the current buffer is never used up. -/
theorem skipEmpty_eq {s : Stream} (h : WriteInv bytes s.writeSide)
    (hi : s.write.pendingBufferIndex < s.write.pendingBuffers.length) :
    skipEmpty (s.write.pendingBuffers.drop s.write.pendingBufferIndex) s.write.pendingBufferIndex
      s.write.pendingBufferOffset = (s.write.pendingBufferIndex, s.write.pendingBufferOffset) := by
  have hlt := h.offset_lt hi
  rw [List.get_eq_getElem] at hlt
  rw [List.drop_eq_getElem_cons hi, skipEmpty, if_pos]
  exact Nat.sub_pos_of_lt hlt

/-- With a current buffer and no write in flight, the rest of that buffer is submitted. -/
theorem submitNextChunk_eq {s : Stream} (h : WriteInv bytes s.writeSide)
    (hi : s.write.pendingBufferIndex < s.write.pendingBuffers.length)
    (hf : s.write.writeInFlight = false) (task : TaskId) :
    s.submitNextChunk task = .ok
      { s.emit (.performWrite task s.write.currentChunk) with
        pendingWrites := s.pendingWrites ++ [s.write.currentChunk]
        write :=
          { s.write with
            blockingTaskId := task, writevCount := s.write.writevCount + 1, writeInFlight := true } } := by
  unfold submitNextChunk
  simp only [hf, Bool.false_eq_true, if_false, if_neg (Nat.not_le.2 hi), skipEmpty_eq h hi,
    List.getElem?_eq_getElem hi]
  simp [WriteTransport.currentChunk, List.getElem?_eq_getElem hi]

theorem writeInv_submitNextChunk {s t : Stream} (h : WriteInv bytes s.writeSide) {task : TaskId}
    (hs : s.submitNextChunk task = .ok t) : WriteInv bytes t.writeSide := by
  by_cases hf : s.write.writeInFlight = true
  · rw [submitNextChunk, if_pos hf] at hs
    obtain rfl := Except.ok.inj hs
    exact h
  · rw [Bool.not_eq_true] at hf
    by_cases hi : s.write.pendingBufferIndex < s.write.pendingBuffers.length
    · rw [submitNextChunk_eq h hi hf] at hs
      obtain rfl := Except.ok.inj hs
      have hnil : s.pendingWrites = [] := by
        have := h.inFlight
        simpa [writeSide, hf] using this
      refine
        { initialized := h.initialized, sameLength := h.sameLength, nonempty := h.nonempty, index_le := h.index_le
          offset := h.offset, size := h.size, data := ?_, order := ?_, inFlight := ?_
          inFlight_lt := fun _ => hi, closed := ?_, acquired := ?_, released := ?_ }
      · simpa [writeSide, emit] using h.data
      · simpa [writeSide, emit, WriteTransport.unwritten] using h.order
      · simp [writeSide, hnil, WriteTransport.currentChunk]
      · intro hc
        have := (h.closed hc).1
        have := h.bufferSize_pos_iff.2 hi
        omega
      · simpa [writeSide, emit] using h.acquired
      · simpa [writeSide, emit] using h.released
    · have hz : ¬ s.write.bufferSize > 0 := fun hpos => hi (h.bufferSize_pos_iff.1 hpos)
      rw [submitNextChunk] at hs
      simp only [hf, Bool.false_eq_true, if_false, ge_iff_le, Nat.le_of_not_lt hi, if_true, if_neg hz] at hs
      obtain rfl := Except.ok.inj hs
      have hw : { s.write with writeInFlight := false } = s.write := by rw [← hf]
      rw [hw]
      exact h

/-- `submit_next_chunk` never reports an index overflow. -/
theorem submitNextChunk_ok {s : Stream} (h : WriteInv bytes s.writeSide) (task : TaskId) :
    ∃ t, s.submitNextChunk task = .ok t := by
  by_cases hf : s.write.writeInFlight = true
  · exact ⟨s, by rw [submitNextChunk, if_pos hf]⟩
  · rw [Bool.not_eq_true] at hf
    by_cases hi : s.write.pendingBufferIndex < s.write.pendingBuffers.length
    · exact ⟨_, submitNextChunk_eq h hi hf task⟩
    · have hz : ¬ s.write.bufferSize > 0 := fun hpos => hi (h.bufferSize_pos_iff.1 hpos)
      rw [submitNextChunk]
      simp only [hf, Bool.false_eq_true, if_false, ge_iff_le, Nat.le_of_not_lt hi, if_true, if_neg hz]
      exact ⟨_, rfl⟩

theorem writeInv_flushBufferedWrites {s : Stream} (h : WriteInv bytes s.writeSide) (task : TaskId) :
    WriteInv bytes (s.flushBufferedWrites task).writeSide := by
  unfold flushBufferedWrites
  split
  · obtain ⟨t, ht⟩ := submitNextChunk_ok h task
    rw [ht]
    exact writeInv_submitNextChunk h ht
  · exact h

/-- What `append_new_buffer_to_write` does to the invariant, and that it closes nothing. -/
theorem writeInv_appendNewBufferToWrite {s t : Stream} (h : WriteInv bytes s.writeSide)
    {data : Option Bytes} {size : ℕ} (hs : s.appendNewBufferToWrite data = .ok (size, t)) :
    WriteInv (bytes ++ data.getD []) t.writeSide ∧ s.write.closed = false ∧
      t.write.closed = false ∧ data.isSome = true := by
  unfold appendNewBufferToWrite at hs
  split at hs
  · cases hs
  · rename_i hopen
    simp only [Bool.or_eq_true, Bool.not_eq_true', not_or, Bool.not_eq_true] at hopen
    cases data with
    | none => cases hs
    | some data =>
      dsimp only at hs
      split at hs
      · rename_i hempty
        rw [List.length_eq_zero_iff] at hempty
        subst hempty
        rw [← (Prod.mk.inj (Except.ok.inj hs)).2]
        refine ⟨?_, hopen.2, hopen.2, rfl⟩
        simpa [writeSide, emit] using h.append_empty
      · rename_i hne
        rw [← (Prod.mk.inj (Except.ok.inj hs)).2]
        have hnil : data ≠ [] := fun hnil => hne (by rw [hnil, List.length_nil])
        refine ⟨?_, hopen.2, hopen.2, rfl⟩
        simpa [writeSide, emit] using h.append hopen.2 hnil

/-- An open write side refuses only what has no buffer. -/
theorem appendNewBufferToWrite_refused {s : Stream} (h : WriteInv bytes s.writeSide)
    {data : Option Bytes} {err : WriteError} (hs : s.appendNewBufferToWrite data = .error err) :
    s.write.closed = true ∨ data = none := by
  have hinit : s.write.initialized = true := h.initialized
  unfold appendNewBufferToWrite at hs
  split at hs
  · rename_i hclosed
    exact .inl (by simpa [hinit] using hclosed)
  · cases data with
    | none => exact .inr rfl
    | some data =>
      dsimp only at hs
      split at hs
      · exact nomatch hs
      · exact nomatch hs

theorem writeInv_pauseIfAbove {s : Stream} (h : WriteInv bytes s.writeSide) (size : ℕ) :
    WriteInv bytes (s.pauseIfAbove size).writeSide := by
  unfold pauseIfAbove
  split
  · dsimp only
    split
    · simpa [writeSide, emit] using h
    · exact h
  · exact h

/-- A call of `write` or `write_lines` is neither ignored nor refused. -/
def acceptsWrites (s : Stream) : Bool :=
  !(s.write.isClosing && !s.write.eofPending) && !s.write.closed

end Stream

/-- The bytes of `write`, and of the items of `write_lines` before the first without a buffer. -/
def Event.appends (s : Stream) : Event → Bytes
  | .write data => if s.acceptsWrites then data.getD [] else []
  | .writeLines items _ =>
      if s.acceptsWrites then (items.takeWhile Option.isSome).flatMap (Option.getD · []) else []
  | _ => []

namespace Stream

theorem writeInv_transportWrite {s : Stream} (h : WriteInv bytes s.writeSide) (data : Option Bytes) :
    WriteInv (bytes ++ if s.acceptsWrites then data.getD [] else []) (s.transportWrite data).writeSide := by
  cases hignored : (s.write.isClosing && !s.write.eofPending) with
  | true =>
    rw [transportWrite, acceptsWrites, hignored, if_pos rfl]
    simpa using h
  | false =>
    rw [transportWrite, acceptsWrites, hignored, if_neg Bool.false_ne_true]
    cases happend : s.appendNewBufferToWrite data with
    | error err =>
      rcases appendNewBufferToWrite_refused h happend with hclosed | rfl
      · simpa [hclosed] using h
      · simpa using h
    | ok r =>
      obtain ⟨hinv, hopen, -, -⟩ := writeInv_appendNewBufferToWrite h happend
      rw [hopen]
      exact writeInv_pauseIfAbove hinv _

theorem writeInv_appendLines {s : Stream} (h : WriteInv bytes s.writeSide)
    (hopen : s.write.closed = false) (size : ℕ) (items : List (Option Bytes)) :
    WriteInv (bytes ++ (items.takeWhile Option.isSome).flatMap (Option.getD · []))
      (s.appendLines size items).2.writeSide := by
  induction items generalizing s size bytes with
  | nil => simpa [appendLines] using h
  | cons item items ih =>
    unfold appendLines
    split
    · rename_i heq
      rcases appendNewBufferToWrite_refused h heq with hclosed | rfl
      · exact nomatch hopen.symm.trans hclosed
      · simpa using h
    · rename_i heq
      obtain ⟨hinv, -, hopen', hsome⟩ := writeInv_appendNewBufferToWrite h heq
      rw [List.takeWhile_cons_of_pos hsome, List.flatMap_cons, ← List.append_assoc]
      exact ih hinv hopen' _

/-- A closed write side refuses every line. -/
theorem appendLines_closed {s : Stream} (h : s.write.closed = true) (size : ℕ)
    (items : List (Option Bytes)) : (s.appendLines size items).2 = s := by
  cases items with
  | nil => rfl
  | cons item items =>
    have hrefused : s.appendNewBufferToWrite item = .error .transportClosed := by
      unfold appendNewBufferToWrite
      rw [if_pos (by simp [h])]
    rw [appendLines, hrefused]

theorem writeInv_transportWriteLines {s : Stream} (h : WriteInv bytes s.writeSide)
    (items : List (Option Bytes)) (raises : Bool) :
    WriteInv (bytes ++ if s.acceptsWrites then
        (items.takeWhile Option.isSome).flatMap (Option.getD · []) else [])
      (s.transportWriteLines items raises).writeSide := by
  cases hignored : (s.write.isClosing && !s.write.eofPending) with
  | true =>
    rw [transportWriteLines, acceptsWrites, hignored, if_pos rfl]
    simpa using h
  | false =>
    rw [transportWriteLines, acceptsWrites, hignored, if_neg Bool.false_ne_true]
    have hl : WriteInv (bytes ++ if (!false && !s.write.closed) = true then
        (items.takeWhile Option.isSome).flatMap (Option.getD · []) else [])
        (s.appendLines 0 items).2.writeSide := by
      cases hclosed : s.write.closed with
      | true =>
        rw [appendLines_closed hclosed]
        simpa using h
      | false => exact writeInv_appendLines h hclosed 0 items
    generalize s.appendLines 0 items = r at hl ⊢
    obtain ⟨size, t⟩ := r
    cases size with
    | none => exact hl
    | some size =>
      dsimp only
      cases raises with
      | true => exact hl
      | false => exact writeInv_pauseIfAbove hl _

theorem writeInv_transportWriteEof {s : Stream} (h : WriteInv bytes s.writeSide) :
    WriteInv bytes s.transportWriteEof.writeSide := by
  unfold transportWriteEof
  split
  · exact h
  · unfold queueEof
    split
    · exact writeInv_writeClose (s := { s with write := { s.write with eofPending := true } })
        { h with }
    · refine writeInv_writeClose ?_
      simpa [writeSide, emit] using h

end Stream

/-- The write side after the kernel reported `n` bytes of the slice in flight as written. -/
def WriteSide.reported (v : WriteSide) (n : ℕ) : WriteSide :=
  let w := { v.queue with writeInFlight := false, bufferSize := v.queue.bufferSize - n }
  let v := { v with submitted := [], written := v.written ++ v.queue.currentChunk.take n }
  if n < v.queue.currentChunk.length then
    { v with queue := { w with pendingBufferOffset := w.pendingBufferOffset + n } }
  else
    { v with
      queue := { w with pendingBufferIndex := w.pendingBufferIndex + 1, pendingBufferOffset := 0 }
      released := v.released ++ w.pendingPyBuffers[w.pendingBufferIndex]?.toList }

namespace WriteInv

variable {v : WriteSide}

/-- The completion of a write moves the reported bytes from the unwritten ones to the written ones,
and a buffer that is used up is released. -/
theorem reported (h : WriteInv bytes v) (hf : v.queue.writeInFlight = true) {n : ℕ}
    (hn : n ≤ v.queue.currentChunk.length) : WriteInv bytes (v.reported n) := by
  have hi := h.inFlight_lt hf
  have hun := h.unwritten_eq hi
  have hopen : v.queue.closed = false := by
    by_contra hc
    rw [Bool.not_eq_false] at hc
    rw [(h.closed hc).2] at hf
    cases hf
  have hsize : v.queue.bufferSize - n = (v.queue.unwritten.drop n).length := by
    rw [List.length_drop, h.size]
  have horder : v.written ++ v.queue.currentChunk.take n ++ v.queue.unwritten.drop n = v.appended := by
    have htake : v.queue.currentChunk.take n = v.queue.unwritten.take n := by
      rw [hun, List.take_append_of_le_length hn]
    rw [htake, List.append_assoc, List.take_append_drop, h.order]
  have hchunk : v.queue.currentChunk.length =
      v.queue.pendingBuffers[v.queue.pendingBufferIndex].length - v.queue.pendingBufferOffset := by
    rw [WriteTransport.currentChunk, List.getElem?_eq_getElem hi, Option.getD_some, List.length_drop]
  unfold WriteSide.reported
  dsimp only
  split
  · rename_i hlt
    have hdrop : (v.queue.pendingBuffers.drop v.queue.pendingBufferIndex).flatten.drop
        (v.queue.pendingBufferOffset + n) = v.queue.unwritten.drop n := by
      rw [WriteTransport.unwritten, List.drop_drop]
    refine
      { initialized := h.initialized, sameLength := h.sameLength, nonempty := h.nonempty, index_le := h.index_le
        offset := ?_, size := ?_, data := h.data, order := ?_, inFlight := rfl, inFlight_lt := ?_, closed := ?_
        acquired := h.acquired, released := h.released }
    · refine .inr ⟨_, List.getElem?_eq_getElem hi, ?_⟩
      simp only
      omega
    · simp only [WriteTransport.unwritten, hdrop, hsize]
    · simp only [WriteTransport.unwritten, hdrop]
      exact horder
    · intro hf
      cases hf
    · intro hc
      rw [show v.queue.closed = true from hc] at hopen
      cases hopen
  · rename_i hge
    obtain rfl : n = v.queue.currentChunk.length := by omega
    have hdrop : (v.queue.pendingBuffers.drop (v.queue.pendingBufferIndex + 1)).flatten.drop 0 =
        v.queue.unwritten.drop v.queue.currentChunk.length := by
      rw [hun, List.drop_zero, List.drop_left]
    refine
      { initialized := h.initialized, sameLength := h.sameLength, nonempty := h.nonempty, index_le := hi
        offset := .inl rfl, size := ?_, data := h.data, order := ?_, inFlight := rfl, inFlight_lt := ?_, closed := ?_
        acquired := h.acquired, released := ?_ }
    · simp only [WriteTransport.unwritten, hdrop, hsize]
    · simp only [WriteTransport.unwritten, hdrop]
      exact horder
    · intro hf
      cases hf
    · intro hc
      rw [show v.queue.closed = true from hc] at hopen
      cases hopen
    · have hip : v.queue.pendingBufferIndex < v.queue.pendingPyBuffers.length := by
        rw [h.sameLength]
        exact hi
      have hr := h.released
      rw [List.drop_eq_getElem_cons hip] at hr
      simp only [List.getElem?_eq_getElem hip, Option.toList_some, List.append_assoc,
        List.singleton_append]
      exact hr

/-- A completion that reports no byte ends the write; the slice will be submitted again. -/
theorem unreported (h : WriteInv bytes v) (hf : v.queue.writeInFlight = true) :
    WriteInv bytes { v with queue := { v.queue with writeInFlight := false }, submitted := [] } := by
  refine { h with inFlight := rfl, inFlight_lt := ?_, closed := ?_ }
  · intro hf'
    cases hf'
  · intro hc
    rw [(h.closed hc).2] at hf
    cases hf

/-- With nothing unwritten every `Py_buffer` of the queue was released. -/
theorem pendingPyBuffers_drop (h : WriteInv bytes v) (hz : v.queue.bufferSize = 0) :
    v.queue.pendingPyBuffers.drop v.queue.pendingBufferIndex = [] := by
  have hi : ¬ v.queue.pendingBufferIndex < v.queue.pendingBuffers.length := by
    intro hi
    have := h.bufferSize_pos_iff.2 hi
    omega
  have := h.sameLength
  exact List.drop_eq_nil_of_le (by omega)

/-- The drained queue is emptied. -/
theorem drained (h : WriteInv bytes v) (hz : v.queue.bufferSize = 0) (hf : v.queue.writeInFlight = false) :
    WriteInv bytes
      { v with
        queue :=
          { v.queue with
            pendingBuffers := [], pendingPyBuffers := [], pendingBufferIndex := 0
            pendingBufferOffset := 0 } } := by
  have hnil : v.queue.unwritten = [] := by
    rw [← List.length_eq_zero_iff, ← h.size, hz]
  refine
    { initialized := h.initialized, sameLength := rfl, nonempty := by simp
      index_le := le_refl 0, offset := .inl rfl
      size := hz, data := h.data, order := ?_, inFlight := ?_, inFlight_lt := ?_, closed := fun _ => ⟨hz, hf⟩
      acquired := h.acquired, released := ?_ }
  · rw [← h.order, hnil]
    rfl
  · rw [h.inFlight, hf]
    rfl
  · intro hf'
    rw [show v.queue.writeInFlight = true from hf'] at hf
    cases hf
  · have hr := h.released
    rw [h.pendingPyBuffers_drop hz] at hr
    exact hr

end WriteInv

namespace Stream

theorem releaseBuffers_writeSide (s : Stream) (buffers : List ℕ) :
    (s.releaseBuffers buffers).writeSide =
      { s.writeSide with released := s.writeSide.released ++ buffers } := by
  simp [releaseBuffers, writeSide, List.flatMap_map]

/-- The completed operation is forgotten and the reported bytes are taken off the queue. -/
theorem writeInv_advanceWritten {s : Stream} (h : WriteInv bytes s.writeSide)
    (hf : s.write.writeInFlight = true) {n : ℕ} (hn : n ≤ s.write.currentChunk.length) :
    WriteInv bytes
      ((s.emit (.written (s.write.currentChunk.take n))).endWriteOperation.advanceWritten n).writeSide := by
  have hr := h.reported hf (n := n) hn
  have hsub : s.pendingWrites.tail = [] := by
    have := h.inFlight
    simp only [writeSide, hf, if_true] at this
    rw [this, List.tail_cons]
  have hmin : s.write.bufferSize - min n s.write.bufferSize = s.write.bufferSize - n := by omega
  have hlen : s.write.currentChunk.length =
      (s.write.pendingBuffers[s.write.pendingBufferIndex]?.getD []).length -
        s.write.pendingBufferOffset := by
    rw [WriteTransport.currentChunk, List.length_drop]
  unfold WriteSide.reported at hr
  unfold advanceWritten endWriteOperation
  simp only [writeSide, hlen] at hr
  simp only [emit, hmin]
  split at hr
  · rename_i hlt
    rw [if_pos hlt]
    simpa [writeSide, emit, hsub] using { hr with }
  · rename_i hge
    rw [if_neg hge, releaseBuffers_writeSide]
    simpa [writeSide, emit, hsub] using { hr with }

theorem writeInv_writeCallbackReturned {s : Stream} (h : WriteInv bytes s.writeSide) (midDrain : Bool)
    (task : TaskId) : WriteInv bytes (s.writeCallbackReturned midDrain task).1.writeSide := by
  have hm : WriteInv bytes s.maybeCloseFd.writeSide := by
    rw [maybeCloseFd_writeSide]
    exact h
  unfold writeCallbackReturned
  dsimp only
  split
  · obtain ⟨t, ht⟩ := submitNextChunk_ok hm task
    rw [ht]
    exact writeInv_submitNextChunk hm ht
  · exact hm

theorem writeInv_invokeWriteCompleted {s : Stream} (h : WriteInv bytes s.writeSide)
    (dataWritten remaining : ℕ) (midDrain : Bool) (task : TaskId) :
    WriteInv bytes (s.invokeWriteCompleted dataWritten remaining midDrain task).1.writeSide := by
  have hdone := writeInv_writeCallbackReturned h midDrain task
  unfold invokeWriteCompleted
  split
  · exact hdone
  · split
    · exact hdone
    · split
      · dsimp only
        split
        · simpa [writeSide, emit] using h
        · exact writeInv_writeCallbackReturned (s := { s with isWriting := true }) h midDrain task
      · exact hdone

theorem writeInv_writeDrained {s : Stream} (h : WriteInv bytes s.writeSide) (hz : s.write.bufferSize = 0)
    (hf : s.write.writeInFlight = false) : WriteInv bytes s.writeDrained.writeSide := by
  have hdrop : s.write.pendingPyBuffers.drop s.write.pendingBufferIndex = [] :=
    h.pendingPyBuffers_drop hz
  have hd := h.drained hz hf
  unfold writeDrained sendPendingEof clearPending
  simp only [hdrop, releaseBuffers, List.map_nil, List.append_nil]
  split <;> split
  · rw [maybeCloseFd_writeSide]
    simpa [writeSide, emit] using { hd with closed := fun _ => ⟨hz, hf⟩ }
  · simpa [writeSide, emit] using { hd with }
  · rw [maybeCloseFd_writeSide]
    exact { hd with closed := fun _ => ⟨hz, hf⟩ }
  · exact hd

theorem writeInv_writeProgressed {s : Stream} (h : WriteInv bytes s.writeSide)
    (hf : s.write.writeInFlight = false) (task : TaskId) :
    WriteInv bytes (s.writeProgressed task).1.writeSide := by
  unfold writeProgressed
  split
  · exact writeInv_invokeWriteCompleted h _ _ _ _
  · rename_i hdrained
    split
    · exact h
    · rename_i hopen
      have hz : s.write.bufferSize = 0 := by
        simp only [Bool.not_eq_true] at hopen
        simp only [hopen, Bool.not_false, Bool.true_and, decide_eq_true_eq] at hdrained
        omega
      refine writeInv_invokeWriteCompleted ?_ _ _ _ _
      exact { writeInv_writeDrained h hz hf with }

/-- A completion of a write that reports bytes, or that was cancelled, keeps the invariant. -/
theorem writeInv_completeWrite {s : Stream} (h : WriteInv bytes s.writeSide) {slice : Bytes}
    {rest : List Bytes} (hp : s.pendingWrites = slice :: rest) {res : ℤ} (hres : 0 ≤ res ∨ res = -125)
    (hle : res ≤ slice.length) (task : TaskId) :
    WriteInv bytes (Machine.completeWrite s slice res false task).1.writeSide := by
  have hin : slice :: rest = if s.write.writeInFlight then [s.write.currentChunk] else [] := by
    rw [← hp]
    exact h.inFlight
  have hf : s.write.writeInFlight = true := by
    by_contra hf
    rw [if_neg hf] at hin
    cases hin
  rw [if_pos hf] at hin
  obtain ⟨hslice, hrest⟩ := List.cons.inj hin
  have herr : ¬ (Errno.ofRes res ≠ .success ∧ Errno.ofRes res ≠ .canceled) := by
    rcases hres with hpos | rfl
    · have : ¬ (res > -4096 ∧ res < 0) := by omega
      simp [Errno.ofRes, this]
    · decide
  unfold Machine.completeWrite writeOperationCompleted
  simp only [Bool.false_eq_true, if_false, if_neg herr, and_true]
  by_cases hpos : res > 0
  · simp only [if_pos hpos]
    refine writeInv_writeProgressed ?_ ?_ task
    · have := writeInv_advanceWritten h hf (n := res.toNat) (by rw [← hslice]; omega)
      rw [← hslice] at this
      exact this
    · unfold advanceWritten
      dsimp only
      split <;> rfl
  · simp only [if_neg hpos]
    refine writeInv_writeProgressed ?_ rfl task
    have := h.unreported hf
    simpa [writeSide, endWriteOperation, hp, hrest] using { this with }

end Stream

/-! ### Whole runs -/

/-- No abort, no write error, no teardown of the loop, and `resume_writing` does not raise. -/
def GracefulWrites (m : Machine) : Event → Prop
  | .forceClose _ _ _ => False
  | .writeCompleted res cancelled _ => cancelled = false ∧ (0 ≤ res ∨ res = -125)
  | .raised _ => ∀ midDrain, m.frames.head? ≠ some (.resumeWriting midDrain)
  | _ => True

open Talyn.Stream in
/-- One step keeps the invariant of the write side, and appends the bytes of its event. -/
theorem writeInv_step {m m' : Machine} {e : Event} (h : WriteInv bytes m.stream.writeSide)
    (hok : GracefulWrites m e) (hs : m.step e = some m') :
    WriteInv (bytes ++ e.appends m.stream) m'.stream.writeSide := by
  have hkeep : e.appends m.stream = [] → WriteInv bytes m'.stream.writeSide →
      WriteInv (bytes ++ e.appends m.stream) m'.stream.writeSide := by
    intro hnone h'
    rw [hnone, List.append_nil]
    exact h'
  cases Machine.step_cases hs with
  | write s frames data => exact writeInv_transportWrite h data
  | writeLines s frames items raises => exact writeInv_transportWriteLines h items raises
  | writeEof s frames => exact hkeep rfl (writeInv_transportWriteEof h)
  | close s frames => exact hkeep rfl (writeInv_transportClose h)
  | forceClose s frames exc readFails writeFails => exact hok.elim
  | pauseReading s frames =>
    refine hkeep rfl ?_
    rw [transportPauseReading_writeSide]
    exact h
  | resumeReading s frames task =>
    refine hkeep rfl ?_
    rw [Machine.push, transportResumeReading_writeSide]
    exact h
  | flush s task => exact hkeep rfl (writeInv_flushBufferedWrites h task)
  | writeCompleted s slice rest res cancelled task hp hle =>
    obtain ⟨rfl, hres⟩ := hok
    exact hkeep rfl (writeInv_completeWrite h hp hres hle task)
  | readCompleted s rest res stored cancelled task hp hlen =>
    exact hkeep rfl (writeInv_readOperationCompleted
      (s := { s with read := { s.read with buffer := stored } }) h _ task)
  | readHarvested s earlier later stored hp hne => exact hkeep rfl h
  | dataDispatched s data => exact hkeep rfl (by simpa [writeSide, emit] using h)
  | bufferDispatched s nbytes => exact hkeep rfl (by simpa [writeSide, emit] using h)
  | batchedReadCompleted s n rest cancelled task hp =>
    exact hkeep rfl (writeInv_readOperationCompleted h _ task)
  | returned s frame frames keepOpen task =>
    refine hkeep rfl ?_
    cases frame with
    | resumeWriting midDrain => exact writeInv_writeCallbackReturned h midDrain task
    | writeCleanup => exact { h with }
    | dataReceived held => exact writeInv_readFrameReturned h _ keepOpen task
    | eofReceived held => exact writeInv_readFrameReturned h _ keepOpen task
    | getBuffer site => exact writeInv_readFrameReturned h _ keepOpen task
    | readCleanup => exact writeInv_readFrameReturned h _ keepOpen task
  | raised s frame frames exc =>
    refine hkeep rfl ?_
    cases frame with
    | resumeWriting midDrain => exact absurd rfl (hok midDrain)
    | writeCleanup => exact { h with }
    | dataReceived held => exact writeInv_readFrameRaised h _ exc
    | eofReceived held => exact writeInv_readFrameRaised h _ exc
    | getBuffer site => exact writeInv_readFrameRaised h _ exc
    | readCleanup => exact writeInv_readFrameRaised h _ exc

/-- The bytes that the calls of a run append, in call order. -/
def Machine.appends : Machine → List Event → Bytes
  | _, [] => []
  | m, e :: es => e.appends m.stream ++ ((m.step e).map fun m' => m'.appends es).getD []

/-- What was appended in a run is the data of its calls of `write` and `write_lines`. -/
theorem writeInv_run {m m' : Machine} {es : List Event} (h : WriteInv bytes m.stream.writeSide)
    (hok : Runs.Along Machine.step GracefulWrites m es) (hes : Runs.exec Machine.step m es = some m') :
    WriteInv (bytes ++ m.appends es) m'.stream.writeSide := by
  induction es generalizing m bytes with
  | nil =>
    obtain rfl := Option.some.inj hes
    simpa [Machine.appends] using h
  | cons e es ih =>
    obtain ⟨u, hu, hrest⟩ := Option.bind_eq_some_iff.1 hes
    have := ih (writeInv_step h hok.1 hu) (hok.2 u hu) hrest
    simpa [Machine.appends, hu] using this

theorem writeInv_init (protocol : Protocol) (fd fixedFileIndex : ℕ) (ownsFd serverRef : Bool)
    (task : TaskId) :
    WriteInv [] (Machine.init protocol fd fixedFileIndex ownsFd serverRef task).stream.writeSide := by
  have hnew : WriteInv [] (Stream.new protocol fd fixedFileIndex ownsFd serverRef).writeSide :=
    { initialized := rfl, sameLength := rfl, nonempty := by simp [Stream.writeSide, Stream.new]
      index_le := le_refl 0
      offset := .inl rfl, size := rfl, data := rfl, order := rfl, inFlight := rfl, inFlight_lt := nofun
      closed := nofun, acquired := rfl, released := .refl _ }
  unfold Machine.init
  dsimp only
  split
  · rw [Stream.performRead_writeSide]
    exact hnew
  · rw [Stream.performBufferedRead_writeSide]
    simpa [Stream.writeSide, Stream.emit] using hnew

/-- The next prepare hook puts the next bytes of the queue in flight, unless they already are. -/
theorem WriteInv.flush {s : Stream} (h : WriteInv bytes s.writeSide) (hpos : s.write.bufferSize > 0)
    (task : TaskId) :
    ∃ slice, slice ≠ [] ∧ (s.flushBufferedWrites task).pendingWrites = [slice] ∧
      s.writeSide.written ++ slice <+: s.writeSide.appended := by
  have hi : s.write.pendingBufferIndex < s.write.pendingBuffers.length := h.bufferSize_pos_iff.1 hpos
  refine ⟨s.write.currentChunk, h.currentChunk_ne_nil hi, ?_, ?_⟩
  · have hopen : s.write.closed = false := by
      by_contra hc
      rw [Bool.not_eq_false] at hc
      have : s.write.bufferSize = 0 := (h.closed hc).1
      omega
    have hin : s.pendingWrites = if s.write.writeInFlight then [s.write.currentChunk] else [] :=
      h.inFlight
    unfold Stream.flushBufferedWrites
    by_cases hf : s.write.writeInFlight = true
    · rw [if_pos hf] at hin
      simp [hf, hin]
    · rw [Bool.not_eq_true] at hf
      simp only [hf, Bool.false_eq_true, if_false] at hin
      simp [hopen, hf, hpos, Stream.submitNextChunk_eq h hi hf, hin]
  · rw [← h.order]
    refine (List.prefix_append_right_inj _).2 ?_
    rw [h.unwritten_eq hi]
    exact List.prefix_append _ _

/-- Every `Py_buffer` was released once `deinit` has run. -/
theorem WriteInv.deinit {s : Stream} (h : WriteInv bytes s.writeSide) :
    s.writeDeinit.writeSide.released.Perm s.writeSide.acquired := by
  have hinit : s.write.initialized = true := h.initialized
  have hr := h.released
  rw [← h.acquired] at hr
  have hd := Stream.releaseBuffers_writeSide s
    (s.write.pendingPyBuffers.drop s.write.pendingBufferIndex)
  unfold Stream.writeDeinit
  simp only [hinit, Bool.not_true, Bool.false_eq_true, if_false]
  have hreleased := congrArg WriteSide.released hd
  simp only [Stream.writeSide] at hreleased hr ⊢
  rw [hreleased]
  exact hr

/-- **The write queue.** In every state of every run without abort, write error or exception in
`resume_writing`: the bytes reported written are a prefix of the bytes appended, in call order, and
`buffer_size` counts the rest; the write side is closed only when nothing is left and no write is in
flight; while something is left, the next prepare hook has the next bytes in flight; and every
`Py_buffer` is released at most once, and exactly once when `deinit` ends the transport's life. -/
theorem write_queue_in_order (protocol : Protocol) (fd fixedFileIndex : ℕ) (ownsFd serverRef : Bool)
    (task : TaskId) {m : Machine}
    (hr : Runs.Reaches Machine.step GracefulWrites
      (Machine.init protocol fd fixedFileIndex ownsFd serverRef task) m) :
    m.stream.writeSide.written <+: m.stream.writeSide.appended ∧
    m.stream.write.bufferSize + m.stream.writeSide.written.length =
      m.stream.writeSide.appended.length ∧
    (m.stream.write.closed = true →
      m.stream.write.bufferSize = 0 ∧ m.stream.write.writeInFlight = false ∧
        m.stream.pendingWrites = [] ∧ m.stream.writeSide.written = m.stream.writeSide.appended) ∧
    (m.stream.write.bufferSize > 0 → ∀ task, ∃ slice, slice ≠ [] ∧
      (m.stream.flushBufferedWrites task).pendingWrites = [slice] ∧
        m.stream.writeSide.written ++ slice <+: m.stream.writeSide.appended) ∧
    m.stream.writeSide.acquired.Nodup ∧ m.stream.writeSide.released.Nodup ∧
    m.stream.writeDeinit.writeSide.released.Perm m.stream.writeSide.acquired := by
  obtain ⟨es, hes, hok⟩ := hr
  have h := writeInv_run (writeInv_init protocol fd fixedFileIndex ownsFd serverRef task) hok hes
  have hlen : m.stream.write.bufferSize + m.stream.writeSide.written.length =
      m.stream.writeSide.appended.length := by
    have hsize : m.stream.write.bufferSize = m.stream.write.unwritten.length := h.size
    rw [← h.order, List.length_append, hsize]
    exact Nat.add_comm _ _
  have hpre : m.stream.writeSide.written <+: m.stream.writeSide.appended := ⟨_, h.order⟩
  refine ⟨hpre, hlen, ?_, fun hpos task => h.flush hpos task, ?_, ?_, h.deinit⟩
  · intro hc
    obtain ⟨hz, hf⟩ : m.stream.write.bufferSize = 0 ∧ m.stream.write.writeInFlight = false :=
      h.closed hc
    refine ⟨hz, hf, ?_, ?_⟩
    · have hin : m.stream.pendingWrites =
          if m.stream.write.writeInFlight then [m.stream.write.currentChunk] else [] := h.inFlight
      rw [hin, hf]
      rfl
    · exact hpre.eq_of_length (by omega)
  · rw [h.acquired]
    exact List.nodup_range
  · exact (List.nodup_append.1 (h.released.nodup_iff.2 List.nodup_range)).1

/-- A run with a partial write: three bytes appended, two of them reported written. -/
theorem write_queue_in_order_partial_write :
    ∃ m, Runs.Reaches Machine.step GracefulWrites
        (Machine.init ⟨.legacy, true, true, true⟩ 5 1 true false 10) m ∧
      m.stream.writeSide.written = [1, 2] ∧
      m.stream.write.bufferSize + m.stream.writeSide.written.length =
        m.stream.writeSide.appended.length := by
  have hr : Runs.Reaches Machine.step GracefulWrites
      (Machine.init ⟨.legacy, true, true, true⟩ 5 1 true false 10) _ :=
    .head (e := .write (some [1, 2, 3])) rfl trivial <|
    .head (e := .flush 20) rfl trivial <|
    .head (e := .writeCompleted 2 false 30) rfl ⟨rfl, .inl (by decide)⟩ (.refl _)
  exact ⟨_, hr, by decide, (write_queue_in_order _ _ _ _ _ _ hr).2.1⟩

end Talyn
