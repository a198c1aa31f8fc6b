import Talyn.Transports.Machine

/-!
# What writing touches

The functions of the write side that close nothing change the buffers, the pending slice and the marks of
flow control, and record effects that concern nobody else: `Writes s t`. The others are made of these and of
the closing functions; so a relation that holds of both is kept by all of them (`WriteRule`), and what a
relation says of the read side, the fd or the server is proved of the closing functions only.
-/

namespace Talyn

/-- The effect is one of writing, or tells the exception handler. -/
def Effect.ofWriting : Effect → Bool
  | .performWrite _ _ | .written _ | .acquireBuffer _ _ | .releaseBuffer _ | .socketShutdown
  | .pauseWriting | .resumeWriting | .callExceptionHandler => true
  | _ => false

/-- What closing reads of the write side. -/
def WriteTransport.side (w : WriteTransport) : Bool × Bool × Bool × Bool :=
  (w.initialized, w.isClosing, w.closed, w.connectionLostCallback)

namespace Stream

/-- Only the write side changed, and closed nothing. -/
structure Writes (s t : Stream) : Prop where
  rest : { t with
    write := s.write
    isWriting := s.isWriting
    pendingWrites := s.pendingWrites
    buffersAcquired := s.buffersAcquired
    trace := s.trace } = s
  side : t.write.side = s.write.side
  effects : ∃ es, t.trace = s.trace ++ es ∧ ∀ e ∈ es, e.ofWriting = true

variable {s t u : Stream}

theorem Writes.refl : Writes s s := ⟨rfl, rfl, [], (List.append_nil _).symm, nofun⟩

theorem Writes.trans (h : Writes s t) (h' : Writes t u) : Writes s u where
  rest :=
    (congrArg (fun v : Stream => { v with
      write := s.write
      isWriting := s.isWriting
      pendingWrites := s.pendingWrites
      buffersAcquired := s.buffersAcquired
      trace := s.trace }) h'.rest).trans h.rest
  side := h'.side.trans h.side
  effects := by
    obtain ⟨es, htrace, hes⟩ := h.effects
    obtain ⟨es', htrace', hes'⟩ := h'.effects
    refine ⟨es ++ es', ?_, fun e he => ?_⟩
    · rw [htrace', htrace, List.append_assoc]
    · rcases List.mem_append.1 he with he | he
      · exact hes e he
      · exact hes' e he

/-- The sides, the fd and the server are as they were. -/
theorem Writes.exists_eq (h : Writes s t) : ∃ write isWriting pendingWrites buffersAcquired es,
    t = { s with
      write := write
      isWriting := isWriting
      pendingWrites := pendingWrites
      buffersAcquired := buffersAcquired
      trace := s.trace ++ es } ∧
      write.side = s.write.side ∧ ∀ e ∈ es, e.ofWriting = true := by
  obtain ⟨es, htrace, hes⟩ := h.effects
  refine ⟨t.write, t.isWriting, t.pendingWrites, t.buffersAcquired, es, ?_, h.side, hes⟩
  rw [← htrace]
  exact congrArg (fun v : Stream => { v with
    write := t.write
    isWriting := t.isWriting
    pendingWrites := t.pendingWrites
    buffersAcquired := t.buffersAcquired
    trace := t.trace }) h.rest

theorem Writes.read_eq (h : Writes s t) : t.read = s.read := by
  have hread := congrArg Stream.read h.rest
  exact hread

theorem Writes.isClosing_eq (h : Writes s t) : t.write.isClosing = s.write.isClosing :=
  congrArg (fun side => side.2.1) h.side

/-- An effect of writing is recorded. -/
theorem writes_emit (s : Stream) {e : Effect} (he : e.ofWriting = true) : Writes s (s.emit e) :=
  ⟨rfl, rfl, [e], rfl, fun _ hmem => List.mem_singleton.1 hmem ▸ he⟩

/-- The buffers and the flow control change. -/
theorem writes_set (s : Stream) (write : WriteTransport) (isWriting : Bool) (pendingWrites : List Bytes)
    (buffersAcquired : ℕ) (hside : write.side = s.write.side) :
    Writes s { s with
      write := write
      isWriting := isWriting
      pendingWrites := pendingWrites
      buffersAcquired := buffersAcquired } :=
  ⟨rfl, hside, [], (List.append_nil _).symm, nofun⟩

/-! ### The functions that only write -/

theorem writes_submitNextChunk {task : TaskId} (hs : s.submitNextChunk task = .ok t) : Writes s t := by
  unfold submitNextChunk at hs
  dsimp only at hs
  split at hs
  · obtain rfl := Except.ok.inj hs
    exact .refl
  · split at hs
    · split at hs
      · exact nomatch hs
      · obtain rfl := Except.ok.inj hs
        exact writes_set s _ _ _ _ rfl
    · split at hs
      · obtain rfl := Except.ok.inj hs
        exact writes_set s _ _ _ _ rfl
      · obtain rfl := Except.ok.inj hs
        exact (writes_emit s (e := .performWrite _ _) rfl).trans (writes_set _ _ _ _ _ rfl)

theorem writes_flushBufferedWrites (s : Stream) (task : TaskId) :
    Writes s (s.flushBufferedWrites task) := by
  unfold flushBufferedWrites
  split
  · split
    · rename_i heq
      exact writes_submitNextChunk heq
    · exact .refl
  · exact .refl

theorem writes_appendNewBufferToWrite {data : Option Bytes} {size : ℕ}
    (hs : s.appendNewBufferToWrite data = .ok (size, t)) : Writes s t := by
  unfold appendNewBufferToWrite at hs
  split at hs
  · exact nomatch hs
  · cases data with
    | none => exact nomatch hs
    | some data =>
      have hacquired : Writes s ({ s with buffersAcquired := s.buffersAcquired + 1 }.emit
          (.acquireBuffer s.buffersAcquired data)) :=
        (writes_set s s.write s.isWriting s.pendingWrites (s.buffersAcquired + 1) rfl).trans
          (writes_emit _ rfl)
      dsimp only at hs
      split at hs
      · rw [← (Prod.mk.inj (Except.ok.inj hs)).2]
        exact hacquired.trans (writes_emit _ rfl)
      · rw [← (Prod.mk.inj (Except.ok.inj hs)).2]
        exact hacquired.trans (writes_set _ _ _ _ _ rfl)

theorem writes_pauseIfAbove (s : Stream) (size : ℕ) : Writes s (s.pauseIfAbove size) := by
  have hpaused : Writes s { s with isWriting := false } :=
    writes_set s s.write false s.pendingWrites s.buffersAcquired rfl
  unfold pauseIfAbove
  split
  · dsimp only
    split
    · exact hpaused.trans (writes_emit _ rfl)
    · exact hpaused
  · exact .refl

theorem writes_transportWrite (s : Stream) (data : Option Bytes) : Writes s (s.transportWrite data) := by
  unfold transportWrite
  split
  · exact .refl
  · split
    · exact .refl
    · rename_i heq
      exact (writes_appendNewBufferToWrite heq).trans (writes_pauseIfAbove _ _)

theorem writes_appendLines (s : Stream) (size : ℕ) (items : List (Option Bytes)) :
    Writes s (s.appendLines size items).2 := by
  induction items generalizing s size with
  | nil => exact .refl
  | cons item items ih =>
    unfold appendLines
    split
    · exact .refl
    · rename_i heq
      exact (writes_appendNewBufferToWrite heq).trans (ih _ _)

theorem writes_transportWriteLines (s : Stream) (items : List (Option Bytes)) (raises : Bool) :
    Writes s (s.transportWriteLines items raises) := by
  have hlines := writes_appendLines s 0 items
  unfold transportWriteLines
  split
  · exact .refl
  · split
    · rename_i heq
      rw [heq] at hlines
      exact hlines
    · rename_i heq
      rw [heq] at hlines
      split
      · exact hlines
      · exact hlines.trans (writes_pauseIfAbove _ _)

theorem writes_releaseBuffers (s : Stream) (buffers : List ℕ) : Writes s (s.releaseBuffers buffers) := by
  refine ⟨rfl, rfl, buffers.map .releaseBuffer, rfl, fun e he => ?_⟩
  obtain ⟨buffer, -, rfl⟩ := List.mem_map.1 he
  rfl

theorem writes_advanceWritten (s : Stream) (written : ℕ) : Writes s (s.advanceWritten written) := by
  unfold advanceWritten
  dsimp only
  split
  · exact writes_set s _ _ _ _ rfl
  · refine Writes.trans ?_ (writes_releaseBuffers _ _)
    exact writes_set s _ _ _ _ rfl

theorem writes_clearPending (s : Stream) : Writes s s.clearPending :=
  (writes_releaseBuffers s _).trans (writes_set _ _ _ _ _ rfl)

theorem writes_sendPendingEof (s : Stream) : Writes s s.sendPendingEof := by
  unfold sendPendingEof
  split
  · refine Writes.trans ?_ (writes_emit _ rfl)
    exact writes_set s _ _ _ _ rfl
  · exact .refl

theorem writes_writeCleanup (s : Stream) : Writes s s.writeCleanup := writes_set s _ _ _ _ rfl

/-- The completed write is taken off, and the buffers advance by what was written. -/
theorem writes_endWriteOperation (s : Stream) (res : ℤ) :
    Writes s (if res > 0 then s.endWriteOperation.advanceWritten res.toNat else s.endWriteOperation) := by
  have hended : Writes s s.endWriteOperation := writes_set s _ _ _ _ rfl
  split
  · exact hended.trans (writes_advanceWritten _ _)
  · exact hended

/-! ### What all functions of the write side keep -/

/-- A relation that holds of what only writes, and of the end of the write side. -/
structure WriteRule (R : Stream → Stream → Prop) : Prop where
  trans {s t u : Stream} : R s t → R t u → R s u
  writes {s t : Stream} : Writes s t → R s t
  maybeCloseFd (s : Stream) : R s s.maybeCloseFd
  closed (s : Stream) (isClosing : Bool) : (s.write.isClosing = true → isClosing = true) →
    R s { s with write := { s.write with isClosing := isClosing, closed := true } }.maybeCloseFd

namespace WriteRule

variable {R : Stream → Stream → Prop}

theorem writeCallbackReturned (h : WriteRule R) (s : Stream) (midDrain : Bool) (task : TaskId) :
    R s (s.writeCallbackReturned midDrain task).1 := by
  unfold Stream.writeCallbackReturned
  dsimp only
  split
  · split
    · rename_i heq
      exact h.trans (h.maybeCloseFd s) (h.writes (writes_submitNextChunk heq))
    · exact h.trans (h.maybeCloseFd s) (h.writes (writes_emit _ rfl))
  · exact h.maybeCloseFd s

theorem invokeWriteCompleted (h : WriteRule R) (s : Stream) (dataWritten remaining : ℕ) (midDrain : Bool)
    (task : TaskId) : R s (s.invokeWriteCompleted dataWritten remaining midDrain task).1 := by
  have hdone := h.writeCallbackReturned s midDrain task
  have hresumed : Writes s { s with isWriting := true } :=
    writes_set s s.write true s.pendingWrites s.buffersAcquired rfl
  unfold Stream.invokeWriteCompleted
  split
  · exact hdone
  · split
    · exact hdone
    · split
      · dsimp only
        split
        · exact h.writes (hresumed.trans (writes_emit _ rfl))
        · exact h.trans (h.writes hresumed) (h.writeCallbackReturned _ midDrain task)
      · exact hdone

theorem writeDrained (h : WriteRule R) (s : Stream) : R s s.writeDrained := by
  have hsent := h.writes ((writes_clearPending s).trans (writes_sendPendingEof _))
  unfold Stream.writeDrained
  dsimp only
  split
  · exact h.trans hsent (h.closed _ _ id)
  · exact hsent

theorem writeProgressed (h : WriteRule R) (s : Stream) (task : TaskId) :
    R s (s.writeProgressed task).1 := by
  unfold Stream.writeProgressed
  split
  · exact h.invokeWriteCompleted s _ _ _ _
  · split
    · exact h.writes .refl
    · refine h.trans (h.writeDrained s) (h.trans ?_ (h.invokeWriteCompleted _ _ _ _ _))
      exact h.writes (writes_set _ _ _ _ _ rfl)

section Close

/-! A write that fails closes the transport. -/

variable (h : WriteRule R) (hclose : ∀ s exc, R s (closeTransports s exc))
include h hclose

theorem writeFailed (s : Stream) (err : Errno) : R s (s.writeFailed err) := by
  unfold Stream.writeFailed
  split
  · exact h.closed s _ id
  · dsimp only
    refine h.trans ?_ (h.closed _ true fun _ => rfl)
    split
    · exact hclose s _
    · exact h.writes .refl

theorem writeCallbackRaised (s : Stream) (exc : Exc) : R s (s.writeCallbackRaised exc).1 := by
  unfold Stream.writeCallbackRaised
  dsimp only
  refine h.trans (h.trans ?_ (h.closed _ true fun _ => rfl)) (h.writes (writes_emit _ rfl))
  split
  · exact h.trans (h.maybeCloseFd s) (hclose _ exc)
  · exact h.maybeCloseFd s

theorem writeOperationCompleted (s : Stream) (data : CallbackData) (task : TaskId) :
    R s (s.writeOperationCompleted data task).1 := by
  unfold Stream.writeOperationCompleted
  dsimp only
  split
  · exact h.writes (writes_set s _ _ _ _ rfl)
  · have hended := h.writes (writes_endWriteOperation s data.res)
    split
    · exact h.trans hended (h.writeFailed hclose _ _)
    · exact h.trans hended (h.writeProgressed _ task)

theorem completeWrite (s : Stream) (slice : Bytes) (res : ℤ) (cancelled : Bool) (task : TaskId) :
    R s (Machine.completeWrite s slice res cancelled task).1 := by
  unfold Machine.completeWrite
  dsimp only
  refine h.trans ?_ (h.writeOperationCompleted hclose _ _ task)
  split
  · exact h.writes (writes_emit s rfl)
  · exact h.writes .refl

end Close

theorem transportWriteEof (h : WriteRule R) (hclose : ∀ s, R s (writeClose s)) (s : Stream) :
    R s s.transportWriteEof := by
  unfold Stream.transportWriteEof
  split
  · exact h.writes .refl
  · unfold queueEof
    split
    · refine h.trans ?_ (hclose _)
      exact h.writes (writes_set s _ _ _ _ rfl)
    · exact h.trans (h.writes (writes_emit s rfl)) (hclose _)

end WriteRule

end Stream

end Talyn
