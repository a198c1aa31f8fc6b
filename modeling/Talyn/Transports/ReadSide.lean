import Talyn.Transports.ServerRef

/-!
# The read side of a stream transport

What a transport knows of its reads, and what the rest of it leaves alone. Writing and closing queue no
read, take no buffer from `get_buffer` and release none; while the transport stays open they do not move
`dispatch_generation` either. `Beside s t` is that statement, proved here function by function.
-/

namespace Talyn

namespace Stream

/-- What a transport knows of its reads. -/
def reading (s : Stream) : Protocol × List ReadOp × Option ℕ × ℕ :=
  (s.protocol, s.pendingReads, s.protocolBuffer, s.protocolBuffersAcquired)

/-- How often a buffer of `get_buffer` was released. -/
def releases (s : Stream) (buffer : ℕ) : ℕ := s.trace.count (.releaseProtocolBuffer buffer)

/-- No side of the transport is closed or closing: the data that arrives is for the protocol. -/
def IsOpen (s : Stream) : Prop :=
  s.read.isClosing = false ∧ s.read.closed = false ∧ s.isClosing = false ∧ s.closed = false

instance (s : Stream) : Decidable s.IsOpen := inferInstanceAs (Decidable (_ ∧ _))

/-- What decides whether a record of the completion batch is still dispatched and its data wanted. -/
def gate (s : Stream) : Bool × Bool × Bool × Bool × ℕ :=
  (s.read.isClosing, s.read.closed, s.isClosing, s.closed, s.dispatchGeneration)

theorem IsOpen.of_gate {s t : Stream} (h : t.IsOpen) (hg : t.gate = s.gate) : s.IsOpen := by
  simp only [gate, Prod.mk.injEq] at hg
  rcases hg with ⟨h1, h2, h3, h4, -⟩
  exact ⟨h1 ▸ h.1, h2 ▸ h.2.1, h3 ▸ h.2.2.1, h4 ▸ h.2.2.2⟩

/-- What does not touch the reads. -/
structure Beside (s t : Stream) : Prop where
  reading : t.reading = s.reading
  releases : ∀ buffer, t.releases buffer = s.releases buffer
  gate : t.IsOpen → t.gate = s.gate

variable {s t u : Stream}

/-- Only the trace changed, or what the reads do not depend on. -/
theorem Beside.same (hr : t.reading = s.reading) (hg : t.gate = s.gate) (ht : t.trace = s.trace) :
    Beside s t where
  reading := hr
  releases buffer := by rw [Stream.releases, ht, Stream.releases]
  gate _ := hg

theorem Beside.refl : Beside s s := .same rfl rfl rfl

theorem Beside.trans (h : Beside s t) (h' : Beside t u) : Beside s u where
  reading := h'.reading.trans h.reading
  releases buffer := (h'.releases buffer).trans (h.releases buffer)
  gate hu := by
    have hut := h'.gate hu
    exact hut.trans (h.gate (hu.of_gate hut))

/-- The transport is closed. -/
theorem Beside.of_closed (hr : t.reading = s.reading)
    (ht : ∀ buffer, t.releases buffer = s.releases buffer) (hc : ¬ t.IsOpen) : Beside s t where
  reading := hr
  releases := ht
  gate h := absurd h hc

theorem beside_emit (s : Stream) {e : Effect} (he : ∀ buffer, e ≠ .releaseProtocolBuffer buffer) :
    Beside s (s.emit e) where
  reading := rfl
  releases buffer := by simp [Stream.releases, emit, he buffer]
  gate _ := rfl

/-- An effect is recorded and what the reads do not depend on changes. -/
theorem Beside.emitting {e : Effect} (he : ∀ buffer, e ≠ .releaseProtocolBuffer buffer)
    (hr : t.reading = s.reading) (hg : t.gate = s.gate) (ht : t.trace = s.trace ++ [e]) :
    Beside s t where
  reading := hr
  releases buffer := by simp [Stream.releases, ht, he buffer]
  gate _ := hg

/-! ### Closing -/

theorem beside_detachServer (s : Stream) : Beside s s.detachServer := by
  unfold detachServer
  split
  · exact .emitting (e := .detachServer) nofun rfl rfl rfl
  · exact .refl

theorem beside_scheduleConnectionLostOnce (s : Stream) : Beside s s.scheduleConnectionLostOnce := by
  unfold scheduleConnectionLostOnce
  dsimp only
  split
  · exact beside_detachServer s
  · refine (beside_detachServer s).trans ?_
    exact .emitting (e := .connectionLost _) nofun rfl rfl rfl

theorem beside_cancelByFd (s : Stream) (fd : ℕ) : Beside s (s.cancelByFd fd) := by
  unfold cancelByFd
  split
  · exact beside_emit s nofun
  · exact .refl

theorem beside_unregisterFixedFile (s : Stream) : Beside s s.unregisterFixedFile := by
  unfold unregisterFixedFile
  split
  · exact .emitting (e := .unregisterFixedFile _) nofun rfl rfl rfl
  · exact .refl

theorem beside_closeFd (s : Stream) (fd : ℕ) : Beside s (s.closeFd fd) := by
  unfold closeFd
  split
  · exact .emitting (e := .closeFd fd) nofun rfl rfl rfl
  · exact .same rfl rfl rfl

theorem beside_cancelAndCloseFd (s : Stream) : Beside s s.cancelAndCloseFd := by
  unfold cancelAndCloseFd
  split
  · exact .refl
  · refine Beside.trans ?_ (beside_closeFd _ _)
    exact (beside_cancelByFd s _).trans (beside_unregisterFixedFile _)

/-- The fully closed transport. -/
theorem beside_maybeCloseFd (s : Stream) : Beside s s.maybeCloseFd := by
  unfold maybeCloseFd
  split
  · dsimp only
    refine Beside.trans ?_ (beside_scheduleConnectionLostOnce _)
    refine Beside.trans ?_ (beside_cancelAndCloseFd _)
    exact .of_closed rfl (fun _ => rfl) fun h => nomatch h.2.2.2
  · exact .refl

/-- A change of the write side alone, and what follows when it closed that side. -/
theorem beside_settleWrite (s : Stream) (write : WriteTransport) :
    Beside s { s with write := write }.maybeCloseFd := by
  refine Beside.trans ?_ (beside_maybeCloseFd _)
  exact .same rfl rfl rfl

theorem beside_readClose (s : Stream) : Beside s s.readClose := by
  unfold readClose
  split
  · exact .refl
  · split
    · refine Beside.trans ?_ (beside_maybeCloseFd _)
      exact .of_closed rfl (fun _ => rfl) fun h => nomatch h.1
    · dsimp only
      split
      · exact .of_closed rfl (fun _ => rfl) fun h => nomatch h.1
      · refine .of_closed rfl (fun buffer => ?_) fun h => nomatch h.1
        exact (beside_emit s (e := .cancelIo s.read.blockingTaskId) nofun).releases buffer

theorem beside_writeClose (s : Stream) : Beside s s.writeClose := by
  unfold writeClose
  split
  · exact .refl
  · dsimp only
    split
    · exact (Beside.same rfl rfl rfl).trans (beside_settleWrite _ _)
    · exact .same rfl rfl rfl

theorem beside_closeTransports (s : Stream) (exc : Exc) : Beside s (s.closeTransports exc) := by
  unfold closeTransports
  dsimp only
  generalize hv : (if (!s.closed && s.pendingLostExc.isNone) = true then
    { s with pendingLostExc := some exc } else s) = v
  have hsv : Beside s v := by
    rw [← hv]
    split
    · exact .same rfl rfl rfl
    · exact .refl
  have hu : Beside s { v.readClose.writeClose with isReading := false, isClosing := true } := by
    refine Beside.trans (t := v.readClose.writeClose) ?_ ?_
    · exact hsv.trans ((beside_readClose v).trans (beside_writeClose _))
    · exact .of_closed rfl (fun _ => rfl) fun h => nomatch h.2.2.1
  split
  · exact hu
  · exact hu.trans ((beside_detachServer _).trans (beside_maybeCloseFd _))

theorem beside_transportClose (s : Stream) : Beside s s.transportClose := by
  unfold transportClose
  split
  · exact .refl
  · dsimp only
    split
    · refine Beside.trans ?_ (beside_scheduleConnectionLostOnce _)
      refine Beside.trans ?_ (beside_cancelAndCloseFd _)
      exact .of_closed rfl (fun _ => rfl) fun h => nomatch h.2.2.2
    · refine Beside.trans ?_ (beside_closeTransports _ _)
      exact .of_closed rfl (fun _ => rfl) fun h => nomatch h.2.2.1

theorem beside_readForceClose (s : Stream) (fails : Bool) : Beside s (s.readForceClose fails) := by
  unfold readForceClose
  split
  · exact .refl
  · dsimp only
    split
    · refine .of_closed rfl (fun buffer => ?_) fun h => nomatch h.1
      exact (beside_emit s (e := .cancelIo s.read.blockingTaskId) nofun).releases buffer
    · exact .of_closed rfl (fun _ => rfl) fun h => nomatch h.1

theorem beside_writeForceClose (s : Stream) (fails : Bool) : Beside s (s.writeForceClose fails) := by
  unfold writeForceClose
  split
  · exact .refl
  · dsimp only
    split
    · split
      · exact .same rfl rfl rfl
      · refine Beside.trans ?_ (beside_maybeCloseFd _)
        exact .emitting (e := .cancelIo _) nofun rfl rfl rfl
    · refine Beside.trans ?_ (beside_maybeCloseFd _)
      exact .same rfl rfl rfl

theorem beside_transportForceClose (s : Stream) (exc : Option Exc) (readFails writeFails : Bool) :
    Beside s (s.transportForceClose exc readFails writeFails) := by
  unfold transportForceClose
  split
  · exact .refl
  · dsimp only
    refine Beside.trans ?_ (beside_cancelAndCloseFd _)
    generalize hv : ({ s.detachServer with
      dispatchGeneration := s.detachServer.dispatchGeneration + 1, closed := true,
      pendingLostExc := exc } : Stream) = v
    have hsv : Beside s v := by
      rw [← hv]
      refine (beside_detachServer s).trans ?_
      exact .of_closed rfl (fun _ => rfl) fun h => nomatch h.2.2.2
    have hu : Beside s ((v.readForceClose readFails).writeForceClose writeFails) :=
      hsv.trans ((beside_readForceClose v readFails).trans (beside_writeForceClose _ writeFails))
    exact hu.trans (.same rfl rfl rfl)

/-! ### Writing -/

theorem Writes.beside (h : Writes s t) : Beside s t := by
  obtain ⟨write, isWriting, pendingWrites, buffersAcquired, es, rfl, -, hes⟩ := h.exists_eq
  refine ⟨rfl, fun buffer => ?_, fun _ => rfl⟩
  have hno : Effect.releaseProtocolBuffer buffer ∉ es := fun hmem => nomatch hes _ hmem
  rw [Stream.releases, List.count_append, List.count_eq_zero_of_not_mem hno]
  rfl

theorem beside_rule : WriteRule Beside where
  trans := .trans
  writes := Writes.beside
  maybeCloseFd := beside_maybeCloseFd
  closed s _ _ := beside_settleWrite s _

theorem beside_writeCallbackReturned (s : Stream) (midDrain : Bool) (task : TaskId) :
    Beside s (s.writeCallbackReturned midDrain task).1 :=
  beside_rule.writeCallbackReturned s midDrain task

theorem beside_writeCallbackRaised (s : Stream) (exc : Exc) : Beside s (s.writeCallbackRaised exc).1 :=
  beside_rule.writeCallbackRaised beside_closeTransports s exc

theorem beside_completeWrite (s : Stream) (slice : Bytes) (res : ℤ) (cancelled : Bool)
    (task : TaskId) : Beside s (Machine.completeWrite s slice res cancelled task).1 :=
  beside_rule.completeWrite beside_closeTransports s slice res cancelled task

theorem beside_transportWriteEof (s : Stream) : Beside s s.transportWriteEof :=
  beside_rule.transportWriteEof beside_writeClose s

/-! ### The end of a read -/

theorem beside_transportPauseReading (s : Stream) : Beside s s.transportPauseReading := by
  unfold transportPauseReading readCancel
  split
  · exact .refl
  · split
    · exact .refl
    · split
      · exact .same rfl rfl rfl
      · exact .emitting (e := .cancelIo _) nofun rfl rfl rfl

/-- The read side may be closed, not opened. -/
theorem beside_settleRead (s : Stream) {read : ReadTransport}
    (hc : read.isClosing = true ∨ read.isClosing = s.read.isClosing ∧ read.closed = s.read.closed) :
    Beside s { s with read := read }.maybeCloseFd := by
  refine Beside.trans ?_ (beside_maybeCloseFd _)
  rcases hc with hc | ⟨hclosing, hclosed⟩
  · exact .of_closed rfl (fun _ => rfl) fun h => nomatch hc.symm.trans h.1
  · refine ⟨rfl, fun _ => rfl, fun _ => ?_⟩
    simp only [Stream.gate, hclosing, hclosed]

theorem beside_readCleanup (s : Stream) : Beside s s.readCleanup := by
  apply beside_settleRead
  by_cases hc : s.read.isClosing = true
  · exact .inl hc
  · exact .inr ⟨rfl, by simp [hc]⟩

theorem beside_readSettled (s : Stream) (err : Errno) : Beside s (s.readSettled err) := by
  unfold readSettled
  split
  · split
    · rename_i hclosing
      exact beside_settleRead s (.inl hclosing)
    · exact .refl
  · dsimp only
    have hclosed : Beside s { s with read := { s.read with isClosing := true, closed := true } } :=
      .of_closed rfl (fun _ => rfl) fun h => nomatch h.1
    split
    · exact hclosed.trans (beside_closeTransports _ _)
    · exact hclosed

end Stream

end Talyn
