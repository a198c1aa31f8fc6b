import Talyn.Transports.ConnectionLost

/-!
# The server reference of a stream transport

An accepted transport refers to the server that accepted it, and tells it once that it is gone
(`detach_server`): when it begins to close. `connection_lost` is scheduled when both sides are closed. Both
happen in one step only if, where the transport begins to close, no read is in flight and nothing is left
to write.

`Ties p s t` is what every function keeps; `p` is what it needs to know of `s` so that a reference which is
released comes with the notification.
-/

namespace Talyn

namespace Stream

/-- How often the server was told. -/
def detaches (s : Stream) : ℕ := s.trace.count .detachServer

/-- `ReadTransport.close` closes the side at once. -/
def ReadIdle (s : Stream) : Prop :=
  s.read.closed = true ∨ s.read.isClosing = false ∧ s.read.blockingTaskId = 0

/-- `WriteTransport.close` closes the side at once. -/
def WriteIdle (s : Stream) : Prop :=
  s.write.closed = true ∨
    s.write.isClosing = false ∧ s.write.writeInFlight = false ∧ s.write.bufferSize = 0

/-- A transport that still has its server does not wait for anything when it closes. -/
def Idle (s : Stream) : Prop := s.serverRef = true → s.ReadIdle ∧ s.WriteIdle

/-- What a function does to the server reference. -/
structure Ties (p : Prop) (s t : Stream) : Prop where
  detaches : t.detaches + t.serverRef.toNat = s.detaches + s.serverRef.toNat
  ref : t.serverRef = true → s.serverRef = true
  notified : s.connectionLostNotified = true → t.connectionLostNotified = true
  exclusive : (s.connectionLostNotified = true → s.serverRef = false) →
    t.connectionLostNotified = true → t.serverRef = false
  released : p → s.serverRef = true → t.serverRef = false → t.connectionLostNotified = true
  batches : ∀ n, .batched n ∈ t.pendingReads → .batched n ∈ s.pendingReads ∨ 0 < n

variable {p q : Prop} {s t u : Stream}

/-- Neither the reference nor the notification changes. -/
theorem Ties.same (hr : t.serverRef = s.serverRef)
    (hn : t.connectionLostNotified = s.connectionLostNotified) (hd : t.detaches = s.detaches)
    (hp : t.pendingReads = s.pendingReads) : Ties p s t where
  detaches := by rw [hd, hr]
  ref h := hr ▸ h
  notified h := hn ▸ h
  exclusive h hl := by
    rw [hr]
    exact h (hn ▸ hl)
  released _ h h' := nomatch (hr.symm.trans h').symm.trans h
  batches _ hop := .inl (hp ▸ hop)

theorem Ties.refl : Ties p s s := .same rfl rfl rfl rfl

theorem Ties.trans_of (h : Ties p s t) (h' : Ties q t u) (hpq : p → t.serverRef = true → q) :
    Ties p s u where
  detaches := h'.detaches.trans h.detaches
  ref hu := h.ref (h'.ref hu)
  notified hs := h'.notified (h.notified hs)
  exclusive hs hu := h'.exclusive (h.exclusive hs) hu
  released hp hs hu := by
    cases ht : t.serverRef with
    | false => exact h'.notified (h.released hp hs ht)
    | true => exact h'.released (hpq hp ht) ht hu
  batches n hop := by
    rcases h'.batches n hop with hop | hpos
    · exact h.batches n hop
    · exact .inr hpos

theorem Ties.trans (h : Ties p s t) (h' : Ties p t u) : Ties p s u := h.trans_of h' fun hp _ => hp

theorem Ties.weaken (h : Ties p s t) (hqp : q → p) : Ties q s t :=
  ⟨h.detaches, h.ref, h.notified, h.exclusive, fun hq => h.released (hqp hq), h.batches⟩

/-- The notification goes out in any case. -/
theorem Ties.of_notified (h : Ties False s t)
    (hn : p → s.serverRef = true → t.connectionLostNotified = true) : Ties p s t :=
  ⟨h.detaches, h.ref, h.notified, h.exclusive, fun hp href _ => hn hp href, h.batches⟩

theorem ties_emit (s : Stream) {e : Effect} (he : e ≠ .detachServer) : Ties p s (s.emit e) :=
  .same rfl rfl (by simp [Stream.detaches, emit, he]) rfl

/-! ### Closing -/

theorem ties_detachServer (s : Stream) : Ties False s s.detachServer := by
  unfold detachServer
  split
  · rename_i href
    exact ⟨by simp [Stream.detaches, emit, href], nofun, id, fun _ _ => rfl, nofun,
      fun _ hop => .inl hop⟩
  · exact .refl

theorem ties_scheduleConnectionLostOnce (s : Stream) : Ties p s s.scheduleConnectionLostOnce := by
  have hd := ties_detachServer s
  have href : s.detachServer.serverRef = false := by
    unfold detachServer
    split
    · rfl
    · rename_i h
      simpa using h
  have hs : Ties False s s.scheduleConnectionLostOnce := by
    unfold scheduleConnectionLostOnce
    dsimp only
    split
    · exact hd
    · refine hd.trans ?_
      exact ⟨by simp [Stream.detaches, emit], id, fun _ => rfl, fun _ _ => href, nofun,
        fun _ hop => .inl hop⟩
  exact hs.of_notified fun _ _ => by simp

theorem ties_cancelAndCloseFd (s : Stream) : Ties p s s.cancelAndCloseFd := by
  have hd : s.cancelAndCloseFd.detaches = s.detaches := by
    unfold cancelAndCloseFd
    split
    · rfl
    · unfold closeFd unregisterFixedFile cancelByFd Stream.detaches
      split <;> split <;> split <;> simp [emit]
  obtain ⟨trace, index, heq⟩ := s.cancelAndCloseFd_cases
  exact .same (by rw [heq]) (by rw [heq]) hd (by rw [heq])

theorem ties_maybeCloseFd (s : Stream) : Ties p s s.maybeCloseFd := by
  unfold maybeCloseFd
  split
  · refine Ties.trans ?_ (ties_scheduleConnectionLostOnce _)
    refine Ties.trans ?_ (ties_cancelAndCloseFd _)
    exact .same rfl rfl rfl rfl
  · exact .refl

theorem maybeCloseFd_notified (hr : s.read.closed = true) (hw : s.write.closed = true) :
    s.maybeCloseFd.connectionLostNotified = true := by
  unfold maybeCloseFd
  rw [if_pos (by simp [hr, hw])]
  simp

theorem ties_readClose (s : Stream) : Ties p s s.readClose := by
  unfold readClose
  split
  · exact .refl
  · split
    · refine Ties.trans ?_ (ties_maybeCloseFd _)
      exact .same rfl rfl rfl rfl
    · dsimp only
      split
      · exact .same rfl rfl rfl rfl
      · exact .same rfl rfl (by simp [Stream.detaches, emit]) rfl

theorem ties_writeClose (s : Stream) : Ties p s s.writeClose := by
  unfold writeClose
  split
  · exact .refl
  · dsimp only
    split
    · refine Ties.trans ?_ (ties_maybeCloseFd _)
      exact .same rfl rfl rfl rfl
    · exact .same rfl rfl rfl rfl

theorem readClose_write (s : Stream) : s.readClose.write = s.write := by
  unfold readClose
  split
  · rfl
  · split
    · simp
    · dsimp only
      split <;> rfl

theorem writeClose_read (s : Stream) : s.writeClose.read = s.read := by
  unfold writeClose
  split
  · rfl
  · dsimp only
    split
    · simp
    · rfl

theorem readClose_closed (h : s.ReadIdle) : s.readClose.read.closed = true := by
  unfold readClose
  rcases h with hc | ⟨hclosing, htask⟩
  · rw [if_pos (by simp [hc])]
    exact hc
  · by_cases hc : s.read.closed = true
    · rw [if_pos (by simp [hc])]
      exact hc
    · rw [if_neg (by simp [hc, hclosing]), if_pos htask]
      simp

theorem writeClose_closed (h : s.WriteIdle) : s.writeClose.write.closed = true := by
  unfold writeClose
  rcases h with hc | ⟨hclosing, hflight, hsize⟩
  · rw [if_pos (by simp [hc])]
    exact hc
  · by_cases hc : s.write.closed = true
    · rw [if_pos (by simp [hc])]
      exact hc
    · rw [if_neg (by simp [hc, hclosing])]
      dsimp only
      rw [if_pos (by simp [hflight, hsize])]
      simp

/-- What a transport is like when its function begins to close it. -/
theorem ties_closeTransports (s : Stream) (exc : Exc) :
    Ties (s.closed = true ∨ s.Idle) s (s.closeTransports exc) := by
  unfold closeTransports
  dsimp only
  generalize hv : (if (!s.closed && s.pendingLostExc.isNone) = true then
    { s with pendingLostExc := some exc } else s) = v
  have hsv : Ties (s.closed = true ∨ s.Idle) s v := by
    rw [← hv]
    split
    · exact .same rfl rfl rfl rfl
    · exact .refl
  have hread : v.read = s.read := by
    rw [← hv]
    split <;> rfl
  have hwrite : v.write = s.write := by
    rw [← hv]
    split <;> rfl
  have hu : Ties (s.closed = true ∨ s.Idle) s
      { v.readClose.writeClose with isReading := false, isClosing := true } := by
    refine Ties.trans (t := v.readClose.writeClose) ?_ (.same rfl rfl rfl rfl)
    exact hsv.trans ((ties_readClose v).trans (ties_writeClose _))
  split
  · exact hu
  · rename_i hc
    refine hu.trans_of (q := s.Idle) ?_ fun hp _ => hp.resolve_left hc
    generalize hw : ({ v.readClose.writeClose with isReading := false, isClosing := true } : Stream) = w
      at hu
    -- the reference is released here, and both sides are closed if the transport was idle
    refine ((ties_detachServer w).trans (ties_maybeCloseFd _)).of_notified fun hidle href => ?_
    obtain ⟨hri, hwi⟩ := hidle (hu.ref href)
    have hvr : v.ReadIdle := by
      unfold ReadIdle
      rw [hread]
      exact hri
    have hvw : v.readClose.WriteIdle := by
      unfold WriteIdle
      rw [readClose_write, hwrite]
      exact hwi
    apply maybeCloseFd_notified
    · rw [detachServer_read, ← hw]
      show v.readClose.writeClose.read.closed = true
      rw [writeClose_read]
      exact readClose_closed hvr
    · rw [detachServer_write, ← hw]
      exact writeClose_closed hvw

theorem closeTransports_read_closed {s : Stream} (exc : Exc) (h : s.ReadIdle) :
    (s.closeTransports exc).read.closed = true := by
  unfold closeTransports
  dsimp only
  generalize hv : (if (!s.closed && s.pendingLostExc.isNone) = true then
    { s with pendingLostExc := some exc } else s) = v
  have hvr : v.ReadIdle := by
    unfold ReadIdle
    rw [← hv]
    split
    · exact h
    · exact h
  have hclosed : v.readClose.writeClose.read.closed = true := by
    rw [writeClose_read]
    exact readClose_closed hvr
  split
  · exact hclosed
  · rw [maybeCloseFd_read, detachServer_read]
    exact hclosed

theorem ties_transportClose (s : Stream) : Ties s.Idle s s.transportClose := by
  unfold transportClose
  split
  · exact .refl
  · dsimp only
    split
    · refine Ties.trans ?_ (ties_scheduleConnectionLostOnce _)
      refine Ties.trans ?_ (ties_cancelAndCloseFd _)
      exact .same rfl rfl rfl rfl
    · refine Ties.trans_of ?_ (ties_closeTransports _ _) fun hp _ => .inr hp
      exact .same rfl rfl rfl rfl

theorem ties_readForceClose (s : Stream) (fails : Bool) : Ties p s (s.readForceClose fails) := by
  unfold readForceClose
  split
  · exact .refl
  · dsimp only
    split
    · exact .same rfl rfl (by simp [Stream.detaches, emit]) rfl
    · exact .same rfl rfl rfl rfl

theorem ties_writeForceClose (s : Stream) (fails : Bool) : Ties p s (s.writeForceClose fails) := by
  unfold writeForceClose
  split
  · exact .refl
  · dsimp only
    split
    · split
      · exact .same rfl rfl rfl rfl
      · refine Ties.trans ?_ (ties_maybeCloseFd _)
        exact .same rfl rfl (by simp [Stream.detaches, emit]) rfl
    · refine Ties.trans ?_ (ties_maybeCloseFd _)
      exact .same rfl rfl rfl rfl

theorem writeForceClose_notified {fails : Bool} (hr : s.read.closed = true)
    (hw : s.write.closed = false) (hf : fails = true → ¬ s.CancelsWrite) :
    (s.writeForceClose fails).connectionLostNotified = true := by
  unfold writeForceClose
  rw [if_neg (by simp [hw])]
  dsimp only
  split
  · rename_i hpending
    split
    · rename_i hfails
      simp only [Bool.and_eq_true, decide_eq_true_eq, Bool.not_eq_true'] at hpending
      exact absurd ⟨hw, hpending⟩ (hf hfails)
    · exact maybeCloseFd_notified hr rfl
  · exact maybeCloseFd_notified hr rfl

/-- An abort notifies when the write side is still open and the `CancelIO` of its write, if it needs one,
can be queued. -/
theorem ties_transportForceClose (s : Stream) (exc : Option Exc) (readFails writeFails : Bool) :
    Ties (s.serverRef = true → s.closed = true ∨
        s.write.closed = false ∧ (writeFails = true → ¬ s.CancelsWrite)) s
      (s.transportForceClose exc readFails writeFails) := by
  by_cases hc : s.closed = true
  · unfold transportForceClose
    rw [if_pos hc]
    exact .refl
  · rw [transportForceClose_eq s exc readFails writeFails (by simpa using hc)]
    have hwrite : ((s.aborted exc).readForceClose readFails).write = s.write :=
      (readForceClose_write _ _).trans (detachServer_write s)
    generalize hu : ({ (s.aborted exc).readForceClose readFails with closed := true } : Stream) = u
    have hwrite' : u.write = s.write := by
      rw [← hu]
      exact hwrite
    have ha : Ties False s u := by
      rw [← hu]
      refine Ties.trans (t := (s.aborted exc).readForceClose readFails) ?_ (.same rfl rfl rfl rfl)
      refine Ties.trans (t := s.aborted exc) ?_ (ties_readForceClose _ _)
      exact (ties_detachServer s).trans (.same rfl rfl rfl rfl)
    have hall : Ties False s { u.writeForceClose writeFails with
        isReading := false, isWriting := false }.cancelAndCloseFd := by
      refine Ties.trans ?_ (ties_cancelAndCloseFd _)
      refine Ties.trans (t := u.writeForceClose writeFails) ?_ (.same rfl rfl rfl rfl)
      exact ha.trans (ties_writeForceClose u writeFails)
    refine hall.of_notified fun hp href => ?_
    obtain ⟨hopen, hf⟩ := (hp href).resolve_left hc
    rw [cancelAndCloseFd_connectionLostNotified]
    apply writeForceClose_notified
    · rw [← hu]
      exact readForceClose_read_closed _ _
    · rw [hwrite']
      exact hopen
    · unfold CancelsWrite
      rw [hwrite']
      exact hf

/-! ### Writing -/

theorem Writes.ties (h : Writes s t) : Ties p s t := by
  obtain ⟨write, isWriting, pendingWrites, buffersAcquired, es, rfl, -, hes⟩ := h.exists_eq
  have hno : Effect.detachServer ∉ es := fun hmem => nomatch hes _ hmem
  refine .same rfl rfl ?_ rfl
  rw [Stream.detaches, List.count_append, List.count_eq_zero_of_not_mem hno]
  rfl

theorem ties_settleWrite (s : Stream) (write : WriteTransport) :
    Ties p s { s with write := write }.maybeCloseFd := by
  refine Ties.trans ?_ (ties_maybeCloseFd _)
  exact .same rfl rfl rfl rfl

theorem ties_rule (p : Prop) : WriteRule (Ties p) where
  trans := .trans
  writes := Writes.ties
  maybeCloseFd := ties_maybeCloseFd
  closed s _ _ := ties_settleWrite s _

theorem ties_transportWriteEof (s : Stream) : Ties p s s.transportWriteEof :=
  (ties_rule p).transportWriteEof ties_writeClose s

/-- A write that fails closes the write side; the reference is released with the notification when no read
is in flight. -/
theorem ties_closeWrite (s : Stream) (exc : Exc) (isClosing : Bool) :
    Ties (s.serverRef = true → s.ReadIdle) s
      { s.closeTransports exc with
        write := { (s.closeTransports exc).write with
          isClosing := isClosing, closed := true } }.maybeCloseFd := by
  have hc : Ties False s (s.closeTransports exc) := (ties_closeTransports s exc).weaken False.elim
  have hm : Ties False s { s.closeTransports exc with
      write := { (s.closeTransports exc).write with
        isClosing := isClosing, closed := true } }.maybeCloseFd := by
    refine Ties.trans (hc.trans ?_) (ties_maybeCloseFd _)
    exact .same rfl rfl rfl rfl
  refine hm.of_notified fun hidle href => ?_
  apply maybeCloseFd_notified
  · exact closeTransports_read_closed exc (hidle href)
  · rfl

theorem ties_writeFailed (s : Stream) (err : Errno) :
    Ties (s.serverRef = true → s.write.isClosing = true ∨ s.ReadIdle) s (s.writeFailed err) := by
  unfold writeFailed
  split
  · exact ties_settleWrite s _
  · rename_i hclosing
    dsimp only
    split
    · exact (ties_closeWrite s _ true).weaken fun h href => (h href).resolve_left hclosing
    · exact ties_settleWrite s _

theorem ties_writeCallbackRaised (s : Stream) (exc : Exc) :
    Ties (s.serverRef = true → s.ReadIdle) s (s.writeCallbackRaised exc).1 := by
  unfold writeCallbackRaised
  dsimp only
  refine Ties.trans ?_ (ties_emit _ (by simp))
  refine Ties.trans_of (q := s.maybeCloseFd.serverRef = true → s.maybeCloseFd.ReadIdle)
    (ties_maybeCloseFd s) ?_ fun h href _ => ?_
  · split
    · exact ties_closeWrite _ exc true
    · exact ties_settleWrite _ _
  · unfold ReadIdle
    rw [maybeCloseFd_read]
    exact h ((ties_maybeCloseFd (p := True) s).ref href)

/-- The write failed: the transport is closed, unless the write side already is. -/
def WriteFails (s : Stream) (data : CallbackData) : Prop :=
  data.cancelled = false ∧ data.err ≠ .success ∧ data.err ≠ .canceled ∧ s.write.isClosing = false

theorem ties_writeOperationCompleted (s : Stream) (data : CallbackData) (task : TaskId) :
    Ties (s.serverRef = true → s.WriteFails data → s.ReadIdle) s
      (s.writeOperationCompleted data task).1 := by
  unfold writeOperationCompleted
  dsimp only
  split
  · exact .same rfl rfl rfl rfl
  · rename_i hcan
    have hwrites := writes_endWriteOperation s data.res
    split
    · rename_i herr
      refine hwrites.ties.trans_of (ties_writeFailed _ data.err) fun h href _ => ?_
      cases hc : s.write.isClosing with
      | true => exact .inl (hwrites.isClosing_eq.trans hc)
      | false =>
        right
        unfold ReadIdle
        rw [hwrites.read_eq]
        exact h ((hwrites.ties (p := True)).ref href) ⟨by simpa using hcan, herr.1, herr.2, hc⟩
    · exact hwrites.ties.trans ((ties_rule _).writeProgressed _ task)

theorem ties_completeWrite (s : Stream) (slice : Bytes) (res : ℤ) (cancelled : Bool) (task : TaskId) :
    Ties (s.serverRef = true → s.WriteFails ⟨res, .ofRes res, cancelled, false⟩ → s.ReadIdle) s
      (Machine.completeWrite s slice res cancelled task).1 := by
  unfold Machine.completeWrite
  dsimp only
  split
  · exact Ties.trans_of (ties_emit s (by simp)) (ties_writeOperationCompleted _ _ task)
      fun h _ => h
  · exact ties_writeOperationCompleted s _ task

/-! ### Reading -/

theorem ties_releaseProtocolBuffer (s : Stream) (held : Option ℕ) :
    Ties p s (s.releaseProtocolBuffer held) := by
  cases held with
  | none => exact .refl
  | some buffer => exact ties_emit s (by simp)

theorem ties_performRead (s : Stream) (task : TaskId) : Ties p s (s.performRead task) := by
  have hs : Ties p s (s.emit (.performRead task)) := ties_emit s (by simp)
  refine ⟨hs.detaches, hs.ref, hs.notified, hs.exclusive, hs.released, fun n hop => ?_⟩
  left
  simpa [performRead] using hop

theorem ties_performBufferedRead (s : Stream) (task : TaskId) :
    Ties p s (s.performBufferedRead task) := by
  unfold performBufferedRead
  refine Ties.trans (t := { s with protocolBuffersAcquired := s.protocolBuffersAcquired + 1 }.emit
    (.acquireProtocolBuffer s.protocolBuffersAcquired)) ?_ ?_
  · exact .same rfl rfl (by simp [Stream.detaches, emit]) rfl
  · refine Ties.trans (ties_performRead _ task) ?_
    exact .same rfl rfl rfl rfl

theorem ties_queueReadOperation (s : Stream) (site : ReadSite) (task : TaskId) :
    Ties p s (s.queueReadOperation site task).1 := by
  unfold queueReadOperation
  split
  · exact .refl
  · split
    · exact .refl
    · split
      · exact ties_emit s (by simp)
      · exact ties_performRead s task

theorem ties_transportPauseReading (s : Stream) : Ties p s s.transportPauseReading := by
  unfold transportPauseReading readCancel
  split
  · exact .refl
  · split
    · exact .refl
    · split
      · exact .same rfl rfl rfl rfl
      · exact .same rfl rfl (by simp [Stream.detaches, emit]) rfl

theorem ties_transportResumeReading (s : Stream) (task : TaskId) :
    Ties p s (s.transportResumeReading task).1 := by
  unfold transportResumeReading
  split
  · exact .refl
  · dsimp only
    split
    · exact .same rfl rfl rfl rfl
    · refine Ties.trans ?_ (ties_queueReadOperation _ _ _)
      exact .same rfl rfl rfl rfl

theorem ties_settleRead (s : Stream) (read : ReadTransport) :
    Ties p s { s with read := read }.maybeCloseFd := by
  refine Ties.trans ?_ (ties_maybeCloseFd _)
  exact .same rfl rfl rfl rfl

theorem ties_readCleanup (s : Stream) : Ties p s s.readCleanup := ties_settleRead s _

/-- The read failed: the transport is closed, unless the read side already is. -/
def BadRead (s : Stream) (err : Errno) : Prop :=
  err ≠ .success ∧ err ≠ .canceled ∧ s.read.isClosing = false

theorem ties_readSettled (s : Stream) (err : Errno) :
    Ties (s.serverRef = true → s.BadRead err → s.WriteIdle) s (s.readSettled err) := by
  unfold readSettled
  split
  · split
    · exact ties_settleRead s _
    · exact .refl
  · rename_i herr
    simp only [not_or] at herr
    dsimp only
    split
    · refine Ties.trans_of ?_ (ties_closeTransports _ _) ?_
      · exact .same rfl rfl rfl rfl
      · intro h href
        right
        intro _
        exact ⟨.inl rfl, h href ⟨herr.1, herr.2.1, by simpa using herr.2.2⟩⟩
    · exact .same rfl rfl rfl rfl

/-- A completed read gives its buffer back, and the fd is closed when nothing uses it any more. -/
theorem ties_putBack (s : Stream) (held : Option ℕ) (p : Prop) :
    Ties p s (s.releaseProtocolBuffer held).maybeCloseFd :=
  (ties_releaseProtocolBuffer s held).trans (ties_maybeCloseFd _)

theorem read_putBack (s : Stream) (held : Option ℕ) :
    (s.releaseProtocolBuffer held).maybeCloseFd.read = s.read := by
  rw [maybeCloseFd_read]
  cases held <;> rfl

theorem write_putBack (s : Stream) (held : Option ℕ) :
    (s.releaseProtocolBuffer held).maybeCloseFd.write = s.write := by
  rw [maybeCloseFd_write]
  cases held <;> rfl

theorem ties_finishRead (s : Stream) (held : Option ℕ) (err : Errno) :
    Ties (s.serverRef = true → s.BadRead err → s.WriteIdle) s (s.finishRead held err) := by
  refine (ties_putBack s held _).trans_of (ties_readSettled _ err) fun h href _ hbad => ?_
  unfold BadRead at hbad
  rw [read_putBack] at hbad
  unfold WriteIdle
  rw [write_putBack]
  exact h ((ties_putBack s held True).ref href) hbad

theorem ties_finishRead_ok (s : Stream) (held : Option ℕ) {err : Errno}
    (h : err = .success ∨ err = .canceled) : Ties p s (s.finishRead held err) := by
  refine (ties_finishRead s held err).weaken fun _ _ hbad => ?_
  rcases h with rfl | rfl
  · exact absurd rfl hbad.1
  · exact absurd rfl hbad.2.1

theorem ties_rearmRead (s : Stream) (held : Option ℕ) {err : Errno} (task : TaskId)
    (h : err = .success ∨ err = .canceled) : Ties p s (s.rearmRead held err task).1 := by
  have hq : Ties p s (s.queueReadOperation (.completion held err) task).1 :=
    ties_queueReadOperation s _ task
  unfold rearmRead
  split
  · rename_i heq
    rw [heq] at hq
    exact hq.trans (ties_finishRead_ok _ held h)
  · rename_i heq
    rw [heq] at hq
    exact hq

theorem ties_failRead (s : Stream) (held : Option ℕ) (exc : Exc) :
    Ties s.Idle s (s.failRead held exc).1 := by
  have hm := ties_putBack s held
  have hread := read_putBack s held
  have hwrite := write_putBack s held
  unfold failRead
  generalize (s.releaseProtocolBuffer held).maybeCloseFd = u at hm hread hwrite ⊢
  have hidle : s.Idle → u.serverRef = true → u.closed = true ∨ u.Idle := by
    intro h href
    right
    intro _
    unfold ReadIdle WriteIdle
    rw [hread, hwrite]
    exact h ((hm True).ref href)
  have hend : ∀ v : Stream, Ties s.Idle s v → Ties s.Idle s
      ({ v with read := { v.read with isClosing := true, closed := true } }.emit
        .callExceptionHandler) := by
    intro v hv
    refine Ties.trans (t := { v with read := { v.read with isClosing := true, closed := true } }) ?_
      (ties_emit _ (by simp))
    exact hv.trans (.same rfl rfl rfl rfl)
  apply hend
  split
  · exact (hm _).trans_of (ties_closeTransports u exc) hidle
  · exact hm _

theorem ties_endOfStream (s : Stream) (held : Option ℕ) : Ties s.Idle s (s.endOfStream held) := by
  refine Ties.trans ?_ (ties_finishRead_ok _ held (.inl rfl))
  exact (ties_closeTransports s .pyNone).weaken .inr

/-- The completion of a read ends the connection: it failed, or nothing is left to read and the protocol
has no `eof_received`. -/
def ReadEnds (s : Stream) (nbytes : ℕ) (err : Errno) : Prop :=
  s.BadRead err ∨ err = .success ∧ nbytes = 0 ∧ s.protocol.eofReceived = false

theorem ties_streamReadCompleted (s : Stream) (nbytes : ℕ) (err : Errno) (task : TaskId) :
    Ties (s.serverRef = true → s.ReadEnds nbytes err → s.WriteIdle ∧ s.read.blockingTaskId = 0) s
      (s.streamReadCompleted nbytes err task).1 := by
  unfold streamReadCompleted
  dsimp only
  cases hclosing : (s.read.isClosing || s.read.closed || s.isClosing || s.closed) with
  | true =>
    simp only [or_true, if_true, Bool.true_eq_false, and_false, if_false]
    refine Ties.trans_of ?_ (ties_finishRead _ _ err) ?_
    · exact .same rfl rfl rfl rfl
    · intro h href _ hbad
      exact (h href (.inl hbad)).1
  | false =>
    simp only [Bool.false_eq_true, or_false, if_false, and_true]
    split
    · split
      · rename_i hcan
        refine Ties.trans ?_ (ties_rearmRead _ _ task (.inr hcan))
        exact .same rfl rfl rfl rfl
      · refine Ties.trans_of ?_ (ties_finishRead _ _ err) ?_
        · exact .same rfl rfl rfl rfl
        · intro h href _ hbad
          exact (h href (.inl hbad)).1
    · rename_i hok
      split
      · rename_i hzero
        split
        · exact .same rfl rfl (by simp [Stream.detaches, emit]) rfl
        · rename_i heof
          refine Ties.trans_of ?_ (ties_endOfStream _ _) ?_
          · exact .same rfl rfl rfl rfl
          · intro h _ href
            obtain ⟨hw, htask⟩ := h href (.inr ⟨by simpa using hok, hzero, by simpa using heof⟩)
            refine ⟨.inr ⟨?_, htask⟩, hw⟩
            simp only [Bool.or_eq_false_iff] at hclosing
            exact hclosing.1.1.1
      · split
        · refine Ties.trans ?_ (ties_rearmRead _ _ task (.inl (by simpa using hok)))
          exact .same rfl rfl rfl rfl
        · split
          · exact .same rfl rfl (by simp [Stream.detaches, emit]) rfl
          · exact .same rfl rfl (by simp [Stream.detaches, emit]) rfl

/-- The completion of a read ends the connection. -/
def ReadFails (s : Stream) (data : CallbackData) : Prop :=
  data.cancelled = false ∧
    s.ReadEnds (if data.err = .success then data.res.toNat else 0) data.err

theorem ties_readOperationCompleted (s : Stream) (data : CallbackData) (task : TaskId) :
    Ties (s.serverRef = true → s.ReadFails data → s.WriteIdle ∧ data.batchDispatched = false) s
      (s.readOperationCompleted data task).1 := by
  have htail : ∀ {p : Prop}, Ties p s { s with pendingReads := s.pendingReads.tail } := by
    intro p
    have hs : Ties p s s := .refl
    exact ⟨hs.detaches, hs.ref, hs.notified, hs.exclusive, hs.released,
      fun n hop => .inl (List.mem_of_mem_tail hop)⟩
  unfold readOperationCompleted
  dsimp only
  split
  · exact htail.trans (ties_readCleanup _)
  · rename_i hcan
    split
    · rename_i hb
      refine Ties.trans_of ?_ (ties_streamReadCompleted _ _ _ task) ?_
      · exact htail.trans (.same rfl rfl rfl rfl)
      · intro h href _ hends
        obtain ⟨-, hb'⟩ := h href ⟨by simpa using hcan, hends⟩
        exact nomatch hb.symm.trans hb'
    · refine Ties.trans_of ?_ (ties_streamReadCompleted _ _ _ task) ?_
      · exact htail.trans (.same rfl rfl rfl rfl)
      · intro h href _ hends
        exact ⟨(h href ⟨by simpa using hcan, hends⟩).1, rfl⟩

end Stream

namespace Machine

/-- The condition on an event: where it closes a transport that has its server, no read is in flight and
nothing is left to write; where it aborts one, the write side is open and its write in flight, if there is
one, can be cancelled. -/
def ClosesAtOnce (m : Machine) (e : Event) : Prop :=
  m.stream.serverRef = true →
    match e, m.frames with
    | .close, _ => m.stream.ReadIdle ∧ m.stream.WriteIdle
    | .forceClose _ _ writeFails, _ => m.stream.closed = true ∨
        m.stream.write.closed = false ∧ (writeFails = true → ¬ m.stream.CancelsWrite)
    | .writeCompleted res cancelled _, _ =>
      m.stream.WriteFails ⟨res, .ofRes res, cancelled, false⟩ → m.stream.ReadIdle
    | .readCompleted res _ cancelled _, _ =>
      m.stream.ReadFails ⟨res, .ofRes res, cancelled, false⟩ → m.stream.WriteIdle
    | .returned keepOpen _, .eofReceived _ :: _ =>
      keepOpen = false → m.stream.ReadIdle ∧ m.stream.WriteIdle
    | .returned _ _, .getBuffer (.completion _ err) :: _ => m.stream.BadRead err → m.stream.WriteIdle
    | .raised _, .dataReceived _ :: _ | .raised _, .eofReceived _ :: _
    | .raised _, .getBuffer (.completion _ _) :: _ => m.stream.ReadIdle ∧ m.stream.WriteIdle
    | .raised _, .resumeWriting _ :: _ => m.stream.ReadIdle
    | _, _ => True

/-- The batched reads stored something. -/
def Batches (m : Machine) : Prop := ∀ n, .batched n ∈ m.stream.pendingReads → 0 < n

/-- One event keeps the tie under its condition. -/
theorem ties_step {m m' : Machine} {e : Event} (hb : m.Batches) (hs : m.step e = some m') :
    Stream.Ties (m.ClosesAtOnce e) m.stream m'.stream := by
  have hpush : ∀ {p : Prop} {s : Stream} {frames : List Frame} {r : Stream × Option Frame},
      Stream.Ties p s r.1 → Stream.Ties p s (push frames r).stream := fun h => h
  cases step_cases hs with
  | write s frames data => exact (s.writes_transportWrite data).ties
  | writeLines s frames items raises => exact (s.writes_transportWriteLines items raises).ties
  | writeEof s frames => exact s.ties_transportWriteEof
  | close s frames => exact s.ties_transportClose
  | forceClose s frames exc readFails writeFails =>
    exact s.ties_transportForceClose exc readFails writeFails
  | pauseReading s frames => exact s.ties_transportPauseReading
  | resumeReading s frames task => exact s.ties_transportResumeReading task
  | flush s task => exact (s.writes_flushBufferedWrites task).ties
  | writeCompleted s slice rest res cancelled task hp hle =>
    exact s.ties_completeWrite slice res cancelled task
  | readCompleted s rest res stored cancelled task hp hlen =>
    refine Stream.Ties.trans_of (t := { s with read := { s.read with buffer := stored } }) ?_
      (Stream.ties_readOperationCompleted _ _ task) ?_
    · exact .same rfl rfl rfl rfl
    · intro h _ href hfails
      exact ⟨h href hfails, rfl⟩
  | readHarvested s earlier later stored hp hne =>
    refine ⟨rfl, id, id, id, fun _ h h' => (nomatch h.symm.trans h'), fun n hop => ?_⟩
    have hop' : ReadOp.batched n ∈ earlier ++ .batched stored.length :: later := hop
    rw [List.mem_append, List.mem_cons] at hop'
    rcases hop' with hop' | hop' | hop'
    · left
      show ReadOp.batched n ∈ s.pendingReads
      rw [hp]
      exact List.mem_append_left _ hop'
    · right
      rw [ReadOp.batched.inj hop']
      exact List.length_pos_of_ne_nil hne
    · left
      show ReadOp.batched n ∈ s.pendingReads
      rw [hp]
      exact List.mem_append_right _ (List.mem_cons_of_mem _ hop')
  | dataDispatched s data => exact s.ties_emit (by simp)
  | bufferDispatched s nbytes => exact s.ties_emit (by simp)
  | batchedReadCompleted s n rest cancelled task hp =>
    refine (s.ties_readOperationCompleted _ task).weaken fun _ _ hfails => ?_
    -- a batched read stored something, so it does not end the connection
    have hpos : 0 < n := hb n (by simp [hp])
    rcases hfails.2 with hbad | ⟨-, hzero, -⟩
    · exact absurd rfl hbad.1
    · simp at hzero
      omega
  | returned s frame frames keepOpen task =>
    apply hpush
    cases frame with
    | dataReceived held => exact s.ties_rearmRead held task (.inl rfl)
    | eofReceived held =>
      unfold frameReturned Stream.readFrameReturned
      dsimp only
      split
      · exact s.ties_finishRead_ok held (.inl rfl)
      · rename_i hkeep
        exact (s.ties_endOfStream held).weaken fun h href => h href (by simpa using hkeep)
    | getBuffer site =>
      cases site with
      | completion held err =>
        refine Stream.Ties.trans_of (s.ties_performBufferedRead task)
          (Stream.ties_finishRead _ held err) ?_
        intro h _ href hbad
        exact h href hbad
      | resume => exact s.ties_performBufferedRead task
    | readCleanup => exact s.ties_readCleanup
    | resumeWriting midDrain => exact (Stream.ties_rule _).writeCallbackReturned s midDrain task
    | writeCleanup => exact .same rfl rfl rfl rfl
  | raised s frame frames exc =>
    apply hpush
    cases frame with
    | dataReceived held => exact (s.ties_failRead held exc).weaken fun h => h
    | eofReceived held => exact (s.ties_failRead held exc).weaken fun h => h
    | getBuffer site =>
      cases site with
      | completion held err => exact (s.ties_failRead held exc).weaken fun h => h
      | resume => exact .same rfl rfl rfl rfl
    | readCleanup => exact s.ties_readCleanup
    | resumeWriting midDrain => exact (s.ties_writeCallbackRaised exc).weaken fun h => h
    | writeCleanup => exact .same rfl rfl rfl rfl

/-- A change that keeps the ties keeps the batches. -/
theorem Batches.of_ties {m m' : Machine} {p : Prop} (hb : m.Batches)
    (h : Stream.Ties p m.stream m'.stream) : m'.Batches := by
  intro n hop
  rcases h.batches n hop with hop | hpos
  · exact hb n hop
  · exact hpos

theorem Batches.step {m m' : Machine} {e : Event} (hb : m.Batches) (hs : m.step e = some m') :
    m'.Batches :=
  hb.of_ties (ties_step hb hs)

end Machine

end Talyn
