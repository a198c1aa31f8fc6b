import Talyn.Transports.Writing

/-!
# `connection_lost` is scheduled exactly once

`CloseInv` is what holds between the steps of the closing machinery: `connection_lost` was scheduled
at most once, only after both sides were closed, and the file descriptor is closed at most once.
`Settled` is the other direction: both sides closed means that the notification went out. Every
function that closes a side ends in `maybe_close_fd`, which settles the transport; the exceptions are
`ReadTransport.force_close`, and `WriteTransport.force_close` when it cannot queue its `CancelIO`. So an
abort of a transport whose write side is already closed, or whose write in flight it cannot cancel, leaves
it unsettled unless a completion of the transport is still to come (`Awaited`).
-/

namespace Talyn

namespace Effect

/-- The effect schedules `protocol.connection_lost`. -/
def isConnectionLost : Effect → Bool
  | .connectionLost _ => true
  | _ => false

/-- The effect closes a file descriptor. -/
def isCloseFd : Effect → Bool
  | .closeFd _ => true
  | _ => false

end Effect

/-- A frame of a completion callback: its function calls `maybe_close_fd` when it ends. -/
def Frame.completes : Frame → Bool
  | .dataReceived _ | .eofReceived _ | .getBuffer (.completion _ _) | .readCleanup
  | .resumeWriting _ => true
  | .getBuffer .resume | .writeCleanup => false

namespace Stream

/-- How often `connection_lost` was scheduled. -/
def lostCount (s : Stream) : ℕ := s.trace.countP Effect.isConnectionLost

/-- How often the file descriptor was closed. -/
def fdCloses (s : Stream) : ℕ := s.trace.countP Effect.isCloseFd

/-- What the closing machinery keeps. -/
structure CloseInv (s : Stream) : Prop where
  lost : s.lostCount = s.connectionLostNotified.toNat
  fdCloses : s.fdCloses = (s.ownsFd && s.fd.isNone).toNat
  notified : s.connectionLostNotified = true →
    s.read.closed = true ∧ s.write.closed = true ∧ s.fd = none
  closed : s.closed = true → s.read.closed = true ∧ s.write.closed = true
  readCallback : s.read.connectionLostCallback = false → s.read.isClosing = true
  writeCallback : s.write.connectionLostCallback = false → s.write.isClosing = true

/-- Once both sides are closed the notification went out. -/
def Settled (s : Stream) : Prop :=
  s.read.closed = true → s.write.closed = true → s.connectionLostNotified = true

/-! ### The closing machinery -/

theorem lostCount_emit (s : Stream) (e : Effect) :
    (s.emit e).lostCount = s.lostCount + e.isConnectionLost.toNat := by
  rw [lostCount, lostCount, emit, List.countP_append, List.countP_singleton]
  cases e.isConnectionLost <;> rfl

theorem fdCloses_emit (s : Stream) (e : Effect) :
    (s.emit e).fdCloses = s.fdCloses + e.isCloseFd.toNat := by
  rw [fdCloses, fdCloses, emit, List.countP_append, List.countP_singleton]
  cases e.isCloseFd <;> rfl

namespace CloseInv

variable {s : Stream}

/-- An effect other than the two counted ones. -/
theorem emit (h : CloseInv s) {e : Effect} (hl : e.isConnectionLost = false)
    (hf : e.isCloseFd = false) : CloseInv (s.emit e) :=
  { h with
    lost := by
      rw [lostCount_emit, hl]
      exact h.lost
    fdCloses := by
      rw [fdCloses_emit, hf]
      exact h.fdCloses }

theorem detachServer (h : CloseInv s) : CloseInv s.detachServer := by
  unfold Stream.detachServer
  split
  · exact emit (s := { s with serverRef := false }) { h with } rfl rfl
  · exact h

theorem cancelByFd (h : CloseInv s) (fd : ℕ) : CloseInv (s.cancelByFd fd) := by
  unfold Stream.cancelByFd
  split
  · exact h.emit rfl rfl
  · exact h

theorem unregisterFixedFile (h : CloseInv s) : CloseInv s.unregisterFixedFile := by
  unfold Stream.unregisterFixedFile
  split
  · exact { h.emit (e := .unregisterFixedFile _) rfl rfl with }
  · exact h

theorem closeFd (h : CloseInv s) {fd : ℕ} (hfd : s.fd = some fd) : CloseInv (s.closeFd fd) := by
  have hcount : s.fdCloses = 0 := by
    rw [h.fdCloses, hfd, Option.isNone_some, Bool.and_false]
    rfl
  unfold Stream.closeFd
  by_cases howns : s.ownsFd = true
  · rw [if_pos howns]
    refine { h with lost := ?_, fdCloses := ?_, notified := ?_ }
    · exact (lostCount_emit s (.closeFd fd)).trans h.lost
    · refine (fdCloses_emit s (.closeFd fd)).trans ?_
      rw [hcount]
      simp [Stream.emit, howns, Effect.isCloseFd]
    · intro hn
      exact ⟨(h.notified hn).1, (h.notified hn).2.1, rfl⟩
  · rw [if_neg howns]
    refine { h with fdCloses := ?_, notified := ?_ }
    · refine Eq.trans hcount ?_
      simp [howns]
    · intro hn
      exact ⟨(h.notified hn).1, (h.notified hn).2.1, rfl⟩

theorem cancelAndCloseFd (h : CloseInv s) : CloseInv s.cancelAndCloseFd := by
  unfold Stream.cancelAndCloseFd
  cases hfd : s.fd with
  | none => exact h
  | some fd =>
    refine closeFd (h.cancelByFd fd).unregisterFixedFile ?_
    unfold Stream.unregisterFixedFile Stream.cancelByFd
    split <;> split <;> exact hfd

theorem scheduleConnectionLostOnce (h : CloseInv s) (hr : s.read.closed = true)
    (hw : s.write.closed = true) (hfd : s.fd = none) : CloseInv s.scheduleConnectionLostOnce := by
  have hd := h.detachServer
  unfold Stream.scheduleConnectionLostOnce
  dsimp only
  split
  · exact hd
  · rename_i hn
    refine
      { hd with
        lost := ?_
        fdCloses := (fdCloses_emit _ _).trans hd.fdCloses
        notified := ?_ }
    · refine (lostCount_emit _ _).trans ?_
      have hzero : s.detachServer.lostCount = 0 := by
        rw [hd.lost, Bool.eq_false_of_not_eq_true hn]
        rfl
      exact congrArg (· + 1) hzero
    · intro _
      refine ⟨?_, ?_, ?_⟩
      · simpa [Stream.emit] using hr
      · simpa [Stream.emit] using hw
      · simpa [Stream.emit] using hfd

theorem maybeCloseFd (h : CloseInv s) : CloseInv s.maybeCloseFd := by
  unfold Stream.maybeCloseFd
  split
  · rename_i hboth
    rw [Bool.and_eq_true] at hboth
    refine scheduleConnectionLostOnce ?_ (by simpa using hboth.1) (by simpa using hboth.2) (by simp)
    refine cancelAndCloseFd ?_
    exact { h with closed := fun _ => hboth }
  · exact h

end CloseInv

/-- `maybe_close_fd` settles the transport. -/
theorem settled_maybeCloseFd (s : Stream) : Settled s.maybeCloseFd := by
  intro hr hw
  rw [maybeCloseFd_read] at hr
  rw [maybeCloseFd_write] at hw
  unfold maybeCloseFd
  rw [if_pos (by rw [hr, hw]; rfl)]
  exact scheduleConnectionLostOnce_connectionLostNotified _

/-- `t` comes from `s` by a function that is not the end of a read: the invariant is kept, a settled
transport stays settled and pending reads stay pending. -/
structure Graceful (s t : Stream) : Prop where
  inv : CloseInv s → CloseInv t
  settled : CloseInv s → Settled s → Settled t
  pendingReads : s.pendingReads ≠ [] → t.pendingReads ≠ []

theorem Graceful.refl (s : Stream) : Graceful s s := ⟨id, fun _ h => h, id⟩

theorem Graceful.trans {s t u : Stream} (h₁ : Graceful s t) (h₂ : Graceful t u) : Graceful s u :=
  ⟨fun h => h₂.inv (h₁.inv h), fun h hs => h₂.settled (h₁.inv h) (h₁.settled h hs),
    fun hp => h₂.pendingReads (h₁.pendingReads hp)⟩

/-- Closing a side and then `maybe_close_fd`. -/
theorem Graceful.maybeCloseFd {s t : Stream} (hinv : CloseInv s → CloseInv t)
    (hp : t.pendingReads = s.pendingReads) : Graceful s t.maybeCloseFd :=
  ⟨fun h => (hinv h).maybeCloseFd, fun _ _ => settled_maybeCloseFd t,
    fun hne => by rw [maybeCloseFd_pendingReads, hp]; exact hne⟩

theorem graceful_detachServer (s : Stream) : Graceful s s.detachServer := by
  refine ⟨CloseInv.detachServer, ?_, by simp⟩
  intro _ hs hr hw
  simp only [detachServer_read, detachServer_write, detachServer_connectionLostNotified] at hr hw ⊢
  exact hs hr hw

theorem graceful_readClose (s : Stream) : Graceful s s.readClose := by
  unfold readClose
  split
  · exact .refl s
  · split
    · refine .maybeCloseFd ?_ rfl
      intro h
      exact
        { h with
          notified := fun hn => ⟨rfl, (h.notified hn).2⟩
          closed := fun hc => ⟨rfl, (h.closed hc).2⟩
          readCallback := fun _ => rfl }
    · dsimp only
      split
      · exact ⟨fun h => { h with readCallback := fun _ => rfl }, fun _ hs => hs, id⟩
      · refine ⟨fun h => ?_, fun _ hs => hs, id⟩
        exact { h.emit (e := .cancelIo _) rfl rfl with readCallback := fun _ => rfl }

theorem graceful_writeClose (s : Stream) : Graceful s s.writeClose := by
  unfold writeClose
  split
  · exact .refl s
  · dsimp only
    split
    · refine .maybeCloseFd ?_ rfl
      intro h
      exact
        { h with
          notified := fun hn => ⟨(h.notified hn).1, rfl, (h.notified hn).2.2⟩
          closed := fun hc => ⟨(h.closed hc).1, rfl⟩
          writeCallback := fun _ => rfl }
    · exact ⟨fun h => { h with writeCallback := fun _ => rfl }, fun _ hs => hs, id⟩

theorem graceful_closeTransports (s : Stream) (exc : Exc) : Graceful s (s.closeTransports exc) := by
  unfold closeTransports
  dsimp only
  refine Graceful.trans (t := if (!s.closed && s.pendingLostExc.isNone) = true then
      { s with pendingLostExc := some exc } else s) ?_ ?_
  · split
    · exact ⟨fun h => { h with }, fun _ hs => hs, id⟩
    · exact .refl s
  · refine Graceful.trans ((graceful_readClose _).trans (graceful_writeClose _)) ?_
    generalize (Stream.readClose _).writeClose = u
    have hu : Graceful u { u with isReading := false, isClosing := true } :=
      ⟨fun h => { h with }, fun _ hs => hs, id⟩
    split
    · exact hu
    · refine hu.trans (.trans (graceful_detachServer _) (.maybeCloseFd id rfl))

/-- `close_transports` settles a transport that is not marked closed. -/
theorem settled_closeTransports (s : Stream) (exc : Exc) (hc : s.closed = false) :
    Settled (s.closeTransports exc) := by
  unfold closeTransports
  simp only [hc, Bool.false_eq_true, if_false]
  exact settled_maybeCloseFd _

theorem graceful_transportClose (s : Stream) : Graceful s s.transportClose := by
  unfold transportClose
  split
  · exact .refl s
  · dsimp only
    split
    · rename_i hboth
      rw [Bool.and_eq_true] at hboth
      refine ⟨?_, ?_, ?_⟩
      · intro h
        refine CloseInv.scheduleConnectionLostOnce ?_ ?_ ?_ ?_
        · exact CloseInv.cancelAndCloseFd { h with closed := fun _ => hboth }
        · rw [cancelAndCloseFd_read]
          exact hboth.1
        · rw [cancelAndCloseFd_write]
          exact hboth.2
        · exact cancelAndCloseFd_fd _
      · intro _ _ _ _
        exact scheduleConnectionLostOnce_connectionLostNotified _
      · simp
    · refine Graceful.trans ?_ (graceful_closeTransports _ _)
      exact ⟨fun h => { h with }, fun _ hs => hs, id⟩

/-! ### Aborting -/

/-- The read side of an abort; `closed` is raised before it in the source. -/
theorem readForceClose_closed (s : Stream) (fails : Bool) :
    { s with closed := true }.readForceClose fails =
      { s.readForceClose fails with closed := true } := by
  unfold readForceClose
  dsimp only
  split
  · rfl
  · split <;> rfl

theorem readForceClose_read_closed (s : Stream) (fails : Bool) :
    (s.readForceClose fails).read.closed = true := by
  unfold readForceClose
  split
  · assumption
  · dsimp only
    split <;> rfl

theorem readForceClose_write (s : Stream) (fails : Bool) :
    (s.readForceClose fails).write = s.write := by
  unfold readForceClose
  split
  · rfl
  · dsimp only
    split <;> rfl

theorem readForceClose_pendingReads (s : Stream) (fails : Bool) :
    (s.readForceClose fails).pendingReads = s.pendingReads := by
  unfold readForceClose
  split
  · rfl
  · dsimp only
    split <;> rfl

theorem readForceClose_notified (s : Stream) (fails : Bool) :
    (s.readForceClose fails).connectionLostNotified = s.connectionLostNotified := by
  unfold readForceClose
  split
  · rfl
  · dsimp only
    split <;> rfl

theorem CloseInv.readForceClose {s : Stream} (h : CloseInv s) (fails : Bool) :
    CloseInv (s.readForceClose fails) := by
  have hclosed : CloseInv
      { s with read :=
          { s.read with closed := true, isClosing := true, connectionLostCallback := false } } :=
    { h with
      notified := fun hn => ⟨rfl, (h.notified hn).2⟩
      closed := fun hc => ⟨rfl, (h.closed hc).2⟩
      readCallback := fun _ => rfl }
  unfold Stream.readForceClose
  split
  · exact h
  · dsimp only
    split
    · exact { hclosed.emit (e := .cancelIo _) rfl rfl with }
    · exact hclosed

/-- The write side of an abort, with the read side closed before it. -/
theorem CloseInv.writeForceClose {s : Stream} (h : CloseInv s) (hr : s.read.closed = true)
    (fails : Bool) : CloseInv ({ s with closed := true }.writeForceClose fails) := by
  unfold Stream.writeForceClose
  split
  · rename_i hw
    exact { h with closed := fun _ => ⟨hr, hw⟩ }
  · have hclosed : CloseInv
        { s with
          closed := true
          write :=
            { s.write with closed := true, isClosing := true, connectionLostCallback := false } } :=
      { h with
        notified := fun hn => ⟨hr, rfl, (h.notified hn).2.2⟩
        closed := fun _ => ⟨hr, rfl⟩
        writeCallback := fun _ => rfl }
    dsimp only
    split
    · split
      · exact hclosed
      · exact CloseInv.maybeCloseFd { hclosed.emit (e := .cancelIo _) rfl rfl with }
    · exact hclosed.maybeCloseFd

theorem writeForceClose_pendingReads (s : Stream) (fails : Bool) :
    (s.writeForceClose fails).pendingReads = s.pendingReads := by
  unfold writeForceClose
  split
  · rfl
  · dsimp only
    split
    · split
      · rfl
      · rw [maybeCloseFd_pendingReads]
        rfl
    · rw [maybeCloseFd_pendingReads]

/-- An abort has a write to cancel. -/
def CancelsWrite (s : Stream) : Prop :=
  s.write.closed = false ∧ 0 < s.write.blockingTaskId ∧ s.write.cancelling = false

instance (s : Stream) : Decidable s.CancelsWrite := inferInstanceAs (Decidable (_ ∧ _))

/-- An abort settles the transport, unless its write side was closed before or the `CancelIO` of its
write cannot be queued. -/
theorem settled_writeForceClose {s : Stream} {fails : Bool} (hs : s.write.closed = true → Settled s)
    (hf : fails = true → ¬ s.CancelsWrite) : Settled (s.writeForceClose fails) := by
  unfold writeForceClose
  split
  · rename_i hw
    exact hs hw
  · rename_i hw
    dsimp only
    split
    · rename_i hpending
      split
      · rename_i hfails
        simp only [Bool.and_eq_true, decide_eq_true_eq, Bool.not_eq_true'] at hpending
        exact absurd ⟨by simpa using hw, hpending⟩ (hf hfails)
      · exact settled_maybeCloseFd _
    · exact settled_maybeCloseFd _

/-- The transport as an abort hands it to the two force-closes. -/
def aborted (s : Stream) (exc : Option Exc) : Stream :=
  { s.detachServer with
    dispatchGeneration := s.detachServer.dispatchGeneration + 1, pendingLostExc := exc }

theorem transportForceClose_eq (s : Stream) (exc : Option Exc) (readFails writeFails : Bool)
    (hc : s.closed = false) :
    s.transportForceClose exc readFails writeFails =
      { { (s.aborted exc).readForceClose readFails with closed := true }.writeForceClose writeFails with
        isReading := false, isWriting := false }.cancelAndCloseFd := by
  rw [← readForceClose_closed]
  unfold transportForceClose
  rw [if_neg (by rw [hc]; exact Bool.false_ne_true)]
  rfl

theorem CloseInv.transportForceClose {s : Stream} (h : CloseInv s) (exc : Option Exc)
    (readFails writeFails : Bool) : CloseInv (s.transportForceClose exc readFails writeFails) := by
  cases hc : s.closed with
  | true =>
    rw [Stream.transportForceClose, if_pos hc]
    exact h
  | false =>
    rw [transportForceClose_eq s exc readFails writeFails hc]
    have ha : CloseInv (s.aborted exc) := { h.detachServer with }
    have := (ha.readForceClose readFails).writeForceClose (readForceClose_read_closed _ _) writeFails
    exact CloseInv.cancelAndCloseFd { this with }

theorem transportForceClose_pendingReads (s : Stream) (exc : Option Exc)
    (readFails writeFails : Bool) :
    (s.transportForceClose exc readFails writeFails).pendingReads = s.pendingReads := by
  cases hc : s.closed with
  | true => rw [transportForceClose, if_pos hc]
  | false =>
    rw [transportForceClose_eq s exc readFails writeFails hc, cancelAndCloseFd_pendingReads]
    refine (writeForceClose_pendingReads _ _).trans ?_
    refine (readForceClose_pendingReads _ _).trans ?_
    exact detachServer_pendingReads s

/-- An abort keeps a transport settled if its write side is open or its read side is closed, and the
`CancelIO` it may need for its write can be queued. -/
theorem settled_transportForceClose {s : Stream} (hs : Settled s) (exc : Option Exc)
    {readFails writeFails : Bool} (hok : s.write.closed = true → s.read.closed = true)
    (hf : writeFails = true → ¬ s.CancelsWrite) :
    Settled (s.transportForceClose exc readFails writeFails) := by
  cases hc : s.closed with
  | true =>
    rw [transportForceClose, if_pos hc]
    exact hs
  | false =>
    rw [transportForceClose_eq s exc readFails writeFails hc]
    have hwrite : ((s.aborted exc).readForceClose readFails).write = s.write :=
      (readForceClose_write _ _).trans (detachServer_write s)
    intro hr hw
    rw [cancelAndCloseFd_connectionLostNotified]
    rw [cancelAndCloseFd_read] at hr
    rw [cancelAndCloseFd_write] at hw
    refine settled_writeForceClose ?_ ?_ hr hw
    · intro hw' _ _
      have hw'' : s.write.closed = true := by
        rw [← hwrite]
        exact hw'
      have : ((s.aborted exc).readForceClose readFails).connectionLostNotified =
          s.connectionLostNotified :=
        (readForceClose_notified _ _).trans (detachServer_connectionLostNotified s)
      rw [← hs (hok hw'') hw'', ← this]
    · intro hfails hcancels
      refine hf hfails ?_
      unfold CancelsWrite at hcancels ⊢
      rw [← hwrite]
      exact hcancels

/-! ### Writing -/

/-- An effect other than the two counted ones, after an update of fields that do not matter here. -/
theorem Graceful.emit (s : Stream) {e : Effect} (hl : e.isConnectionLost = false)
    (hf : e.isCloseFd = false) : Graceful s (s.emit e) :=
  ⟨fun h => h.emit hl hf, fun _ hs => hs, id⟩

theorem Writes.graceful {s t : Stream} (h : Writes s t) : Graceful s t := by
  obtain ⟨write, isWriting, pendingWrites, buffersAcquired, es, rfl, hside, hes⟩ := h.exists_eq
  simp only [WriteTransport.side, Prod.mk.injEq] at hside
  obtain ⟨-, hclosing, hclosed, hcallback⟩ := hside
  have hlost : es.countP Effect.isConnectionLost = 0 := by
    refine List.countP_eq_zero.2 fun e he hl => ?_
    cases e with
    | connectionLost exc => exact nomatch hes _ he
    | _ => exact nomatch hl
  have hcloses : es.countP Effect.isCloseFd = 0 := by
    refine List.countP_eq_zero.2 fun e he hf => ?_
    cases e with
    | closeFd fd => exact nomatch hes _ he
    | _ => exact nomatch hf
  refine ⟨fun h => ?_, fun _ hs hr hw => hs hr (hclosed ▸ hw), id⟩
  refine
    { h with
      lost := ?_
      fdCloses := ?_
      notified := fun hn => ⟨(h.notified hn).1, hclosed.trans (h.notified hn).2.1, (h.notified hn).2.2⟩
      closed := fun hc => ⟨(h.closed hc).1, hclosed.trans (h.closed hc).2⟩
      writeCallback := fun hcb => hclosing.trans (h.writeCallback (hcallback ▸ hcb)) }
  · refine Eq.trans ?_ h.lost
    rw [lostCount, List.countP_append, hlost]
    rfl
  · refine Eq.trans ?_ h.fdCloses
    rw [Stream.fdCloses, List.countP_append, hcloses]
    rfl

/-- The write side is marked closed and the transport settled. -/
theorem graceful_closeWriteSide (s : Stream) (isClosing : Bool)
    (hclosing : s.write.isClosing = true → isClosing = true) :
    Graceful s { s with write := { s.write with isClosing := isClosing, closed := true } }.maybeCloseFd := by
  refine .maybeCloseFd ?_ rfl
  intro h
  exact
    { h with
      notified := fun hn => ⟨(h.notified hn).1, rfl, (h.notified hn).2.2⟩
      closed := fun hc => ⟨(h.closed hc).1, rfl⟩
      writeCallback := fun hcb => hclosing (h.writeCallback hcb) }

theorem graceful_rule : WriteRule Graceful where
  trans := .trans
  writes := Writes.graceful
  maybeCloseFd _ := .maybeCloseFd id rfl
  closed := graceful_closeWriteSide

theorem settled_writeCallbackReturned (s : Stream) (h : CloseInv s) (midDrain : Bool)
    (task : TaskId) : Settled (s.writeCallbackReturned midDrain task).1 := by
  unfold writeCallbackReturned
  dsimp only
  split
  · split
    · rename_i heq
      exact (writes_submitNextChunk heq).graceful.settled h.maybeCloseFd (settled_maybeCloseFd s)
    · exact settled_maybeCloseFd s
  · exact settled_maybeCloseFd s

theorem settled_writeCallbackRaised (s : Stream) (exc : Exc) :
    Settled (s.writeCallbackRaised exc).1 := by
  unfold writeCallbackRaised
  exact settled_maybeCloseFd _

/-! ### Reading -/

theorem graceful_releaseProtocolBuffer (s : Stream) (held : Option ℕ) :
    Graceful s (s.releaseProtocolBuffer held) := by
  cases held with
  | none => exact .refl s
  | some buffer => exact .emit s rfl rfl

theorem graceful_transportPauseReading (s : Stream) : Graceful s s.transportPauseReading := by
  unfold transportPauseReading readCancel
  split
  · exact .refl s
  · split
    · exact .refl s
    · split
      · exact ⟨fun h => { h with }, fun _ hs => hs, id⟩
      · exact ⟨fun h => { h.emit (e := .cancelIo _) rfl rfl with }, fun _ hs => hs, id⟩

theorem graceful_readSettled (s : Stream) (err : Errno) : Graceful s (s.readSettled err) := by
  have hread : ∀ isClosing, CloseInv s → (s.read.isClosing = true → isClosing = true) →
      CloseInv { s with read := { s.read with isClosing := isClosing, closed := true } } := by
    intro isClosing h hi
    exact
      { h with
        notified := fun hn => ⟨rfl, (h.notified hn).2⟩
        closed := fun hc => ⟨rfl, (h.closed hc).2⟩
        readCallback := fun hcb => hi (h.readCallback hcb) }
  unfold readSettled
  split
  · split
    · exact .maybeCloseFd (fun h => hread s.read.isClosing h id) rfl
    · exact .refl s
  · rename_i herr
    simp only [not_or] at herr
    dsimp only
    split
    · have hg := graceful_closeTransports
        { s with read := { s.read with isClosing := true, closed := true } } (.osError err)
      refine ⟨fun h => hg.inv (hread true h fun _ => rfl), fun h hs => ?_, hg.pendingReads⟩
      by_cases hc : s.closed = true
      · obtain ⟨hr, hw⟩ := h.closed hc
        exact hg.settled (hread true h fun _ => rfl) fun _ _ => hs hr hw
      · exact settled_closeTransports _ _ (by simpa using hc)
    · rename_i hcb
      refine ⟨fun h => ?_, fun h hs => ?_, id⟩
      · exact absurd (h.readCallback (by simpa using hcb)) herr.2.2
      · exact absurd (h.readCallback (by simpa using hcb)) herr.2.2

theorem graceful_queueReadOperation (s : Stream) (site : ReadSite) (task : TaskId) :
    Graceful s (s.queueReadOperation site task).1 := by
  unfold queueReadOperation
  split
  · exact .refl s
  · split
    · exact .refl s
    · cases s.protocol.type with
      | buffered => exact .emit s rfl rfl
      | legacy =>
        refine ⟨fun h => { h.emit (e := .performRead task) rfl rfl with }, fun _ hs => hs, ?_⟩
        intro _
        exact List.append_ne_nil_of_right_ne_nil _ (List.cons_ne_nil _ _)

theorem graceful_performBufferedRead (s : Stream) (task : TaskId) :
    Graceful s (s.performBufferedRead task) := by
  have hacq : Graceful s
      ({ s with protocolBuffersAcquired := s.protocolBuffersAcquired + 1 }.emit
        (.acquireProtocolBuffer s.protocolBuffersAcquired)) :=
    Graceful.trans (t := { s with protocolBuffersAcquired := s.protocolBuffersAcquired + 1 })
      ⟨fun h => { h with }, fun _ hs => hs, id⟩ (.emit _ rfl rfl)
  refine hacq.trans ⟨fun h => ?_, fun _ hs => hs, ?_⟩
  · exact { h.emit (e := .performRead task) rfl rfl with }
  · intro _
    exact List.append_ne_nil_of_right_ne_nil _ (List.cons_ne_nil _ _)

theorem graceful_transportResumeReading (s : Stream) (task : TaskId) :
    Graceful s (s.transportResumeReading task).1 := by
  unfold transportResumeReading
  split
  · exact .refl s
  · have hset : Graceful s { s with isReading := true } :=
      ⟨fun h => { h with }, fun _ hs => hs, id⟩
    dsimp only
    split
    · exact hset
    · exact hset.trans (graceful_queueReadOperation _ .resume task)

/-- What a completion of a read leaves: a settled transport, or a frame that will settle it. -/
def Completes (r : Stream × Option Frame) : Prop :=
  CloseInv r.1 ∧ (Settled r.1 ∨ ∃ frame, r.2 = some frame ∧ frame.completes = true)

theorem completes_finishRead {s : Stream} (h : CloseInv s) (held : Option ℕ) (err : Errno) :
    Completes (s.finishRead held err, none) := by
  have hm : CloseInv (s.releaseProtocolBuffer held).maybeCloseFd :=
    ((graceful_releaseProtocolBuffer s held).inv h).maybeCloseFd
  have hsettled := (graceful_readSettled _ err).settled hm (settled_maybeCloseFd _)
  exact ⟨(graceful_readSettled _ err).inv hm, .inl hsettled⟩

theorem completes_failRead {s : Stream} (h : CloseInv s) (held : Option ℕ) (exc : Exc) :
    Completes (s.failRead held exc) := by
  have hm : CloseInv (s.releaseProtocolBuffer held).maybeCloseFd :=
    ((graceful_releaseProtocolBuffer s held).inv h).maybeCloseFd
  refine ⟨?_, .inr ⟨.readCleanup, rfl, rfl⟩⟩
  unfold failRead
  dsimp only
  refine CloseInv.emit ?_ rfl rfl
  have hc : CloseInv (if (s.releaseProtocolBuffer held).maybeCloseFd.read.connectionLostCallback = true
      then (s.releaseProtocolBuffer held).maybeCloseFd.closeTransports exc
      else (s.releaseProtocolBuffer held).maybeCloseFd) := by
    split
    · exact (graceful_closeTransports _ exc).inv hm
    · exact hm
  exact
    { hc with
      notified := fun hn => ⟨rfl, (hc.notified hn).2⟩
      closed := fun hcl => ⟨rfl, (hc.closed hcl).2⟩
      readCallback := fun _ => rfl }

theorem queueReadOperation_frame (s : Stream) (site : ReadSite) (task : TaskId) {frame : Frame}
    (hf : (s.queueReadOperation site task).2 = some frame) : frame = .getBuffer site := by
  unfold queueReadOperation at hf
  split at hf
  · cases hf
  · split at hf
    · cases hf
    · split at hf
      · exact (Option.some.inj hf).symm
      · cases hf

theorem completes_rearmRead {s : Stream} (h : CloseInv s) (held : Option ℕ) (err : Errno)
    (task : TaskId) : Completes (s.rearmRead held err task) := by
  have hq := (graceful_queueReadOperation s (.completion held err) task).inv h
  have hf := @queueReadOperation_frame s (.completion held err) task
  unfold rearmRead
  split
  · rename_i heq
    rw [heq] at hq
    exact completes_finishRead hq held err
  · rename_i u frame heq
    rw [heq] at hq
    rw [heq] at hf
    obtain rfl := hf rfl
    exact ⟨hq, .inr ⟨_, rfl, rfl⟩⟩

theorem completes_endOfStream {s : Stream} (h : CloseInv s) (held : Option ℕ) :
    Completes (s.endOfStream held, none) :=
  completes_finishRead ((graceful_closeTransports s _).inv h) held _

theorem completes_streamReadCompleted {s : Stream} (h : CloseInv s) (nbytes : ℕ) (err : Errno)
    (task : TaskId) : Completes (s.streamReadCompleted nbytes err task) := by
  have h0 : CloseInv { s with protocolBuffer := none } := { h with }
  unfold streamReadCompleted
  dsimp only
  split
  · have hc : CloseInv
        (if (s.read.isClosing || s.read.closed || s.isClosing || s.closed) = true then
          { s with protocolBuffer := none, read := { s.read with closed := true } }
        else { s with protocolBuffer := none }) := by
      split
      · exact
          { h0 with
            notified := fun hn => ⟨rfl, (h.notified hn).2⟩
            closed := fun hcl => ⟨rfl, (h.closed hcl).2⟩ }
      · exact h0
    split
    · exact completes_rearmRead hc _ _ _
    · exact completes_finishRead hc _ _
  · split
    · split
      · exact ⟨h0.emit rfl rfl, .inr ⟨_, rfl, rfl⟩⟩
      · exact completes_endOfStream h0 _
    · split
      · exact completes_rearmRead h0 _ _ _
      · split
        · exact ⟨h0.emit rfl rfl, .inr ⟨_, rfl, rfl⟩⟩
        · exact ⟨h0.emit rfl rfl, .inr ⟨_, rfl, rfl⟩⟩

theorem completes_readCleanup {s : Stream} (h : CloseInv s) : Completes (s.readCleanup, none) := by
  refine ⟨?_, .inl (settled_maybeCloseFd _)⟩
  refine CloseInv.maybeCloseFd ?_
  exact
    { h with
      notified := fun hn => ⟨by simp [(h.notified hn).1], (h.notified hn).2⟩
      closed := fun hcl => ⟨by simp [(h.closed hcl).1], (h.closed hcl).2⟩ }

theorem completes_readOperationCompleted {s : Stream} (h : CloseInv s) (data : CallbackData)
    (task : TaskId) : Completes (s.readOperationCompleted data task) := by
  unfold readOperationCompleted
  dsimp only
  split
  · exact completes_readCleanup (s := { s with pendingReads := s.pendingReads.tail }) { h with }
  · apply completes_streamReadCompleted
    split <;> exact { h with }

end Stream

namespace Machine

/-- A completion of the transport is still to come, or its callback has not ended: when it ends, it
calls `maybe_close_fd`. -/
def Awaited (m : Machine) : Prop :=
  m.stream.pendingReads ≠ [] ∨ ∃ frame ∈ m.frames, frame.completes = true

/-- No operation of the transport is in flight and none of its completion callbacks is running. -/
def Quiet (m : Machine) : Prop :=
  m.stream.pendingReads = [] ∧ m.stream.pendingWrites = [] ∧
    ∀ frame ∈ m.frames, frame.completes = false

/-- The invariant of the machine: the transport is settled, or a completion will settle it. -/
structure LostInv (m : Machine) : Prop where
  close : m.stream.CloseInv
  settles : m.stream.Settled ∨ m.Awaited

/-- While no completion of the transport is still to come, no abort that finds the write side closed and
the read side open, or that cannot queue the `CancelIO` of the write in flight. -/
def AbortsInTime (m : Machine) : Event → Prop
  | .forceClose _ _ writeFails =>
      m.stream.write.closed = true ∧ m.stream.read.closed = false ∨
          writeFails = true ∧ m.stream.CancelsWrite → m.Awaited
  | _ => True

theorem LostInv.of_graceful {s t : Stream} {frames : List Frame} (h : LostInv ⟨s, frames⟩)
    (hg : s.Graceful t) : LostInv ⟨t, frames⟩ := by
  refine ⟨hg.inv h.close, ?_⟩
  rcases h.settles with hs | hp | hf
  · exact .inl (hg.settled h.close hs)
  · exact .inr (.inl (hg.pendingReads hp))
  · exact .inr (.inr hf)

/-- A graceful function that leaves a frame on the stack. -/
theorem LostInv.push_graceful {s : Stream} {frames : List Frame} (h : LostInv ⟨s, frames⟩)
    {r : Stream × Option Frame} (hg : s.Graceful r.1) : LostInv (push frames r) := by
  refine ⟨hg.inv h.close, ?_⟩
  rcases h.settles with hs | hp | ⟨frame, hmem, hf⟩
  · exact .inl (hg.settled h.close hs)
  · exact .inr (.inl (hg.pendingReads hp))
  · exact .inr (.inr ⟨frame, List.mem_append_right _ hmem, hf⟩)

/-- The end of a completion callback. -/
theorem LostInv.of_completes {r : Stream × Option Frame} (hr : Stream.Completes r)
    (frames : List Frame) : LostInv (push frames r) := by
  refine ⟨hr.1, ?_⟩
  rcases hr.2 with hs | ⟨frame, hf, hc⟩
  · exact .inl hs
  · refine .inr (.inr ⟨frame, ?_, hc⟩)
    rw [push, hf]
    exact List.mem_append_left _ (List.mem_singleton.2 rfl)

theorem completes_frameReturned {s : Stream} (h : s.CloseInv) {frame : Frame}
    (hf : frame.completes = true) (keepOpen : Bool) (task : TaskId) :
    Stream.Completes (frameReturned s frame keepOpen task) := by
  cases frame with
  | dataReceived held => exact Stream.completes_rearmRead h held _ task
  | eofReceived held =>
    cases keepOpen with
    | true => exact Stream.completes_finishRead h held _
    | false => exact Stream.completes_endOfStream h held
  | getBuffer site =>
    cases site with
    | completion held err =>
      exact Stream.completes_finishRead ((s.graceful_performBufferedRead task).inv h) held err
    | resume => cases hf
  | readCleanup => exact Stream.completes_readCleanup h
  | resumeWriting midDrain =>
    exact ⟨(Stream.graceful_rule.writeCallbackReturned s midDrain task).inv h,
      .inl (s.settled_writeCallbackReturned h midDrain task)⟩
  | writeCleanup => cases hf

theorem completes_frameRaised {s : Stream} (h : s.CloseInv) {frame : Frame}
    (hf : frame.completes = true) (exc : Exc) : Stream.Completes (frameRaised s frame exc) := by
  cases frame with
  | dataReceived held => exact Stream.completes_failRead h held exc
  | eofReceived held => exact Stream.completes_failRead h held exc
  | getBuffer site =>
    cases site with
    | completion held err => exact Stream.completes_failRead h held exc
    | resume => cases hf
  | readCleanup => exact Stream.completes_readCleanup h
  | resumeWriting midDrain =>
    exact ⟨(Stream.graceful_rule.writeCallbackRaised Stream.graceful_closeTransports s exc).inv h,
      .inl (s.settled_writeCallbackRaised exc)⟩
  | writeCleanup => cases hf

/-- A frame that is not a completion's leaves the stack: what was awaited still is. -/
theorem LostInv.pop {s : Stream} {frame : Frame} {frames : List Frame}
    (h : LostInv ⟨s, frame :: frames⟩) (hf : frame.completes = false) : LostInv ⟨s, frames⟩ := by
  refine ⟨h.close, ?_⟩
  rcases h.settles with hs | hp | ⟨frame', hmem, hc⟩
  · exact .inl hs
  · exact .inr (.inl hp)
  · rcases List.mem_cons.1 hmem with rfl | hmem
    · rw [hf] at hc
      cases hc
    · exact .inr (.inr ⟨frame', hmem, hc⟩)

/-- The frames that do not complete an operation. -/
theorem Frame.of_not_completes {frame : Frame} (hf : frame.completes = false) :
    frame = .getBuffer .resume ∨ frame = .writeCleanup := by
  cases frame with
  | getBuffer site =>
    cases site with
    | completion held err => cases hf
    | resume => exact .inl rfl
  | writeCleanup => exact .inr rfl
  | dataReceived held => cases hf
  | eofReceived held => cases hf
  | readCleanup => cases hf
  | resumeWriting midDrain => cases hf

theorem lostInv_returned {s : Stream} {frame : Frame} {frames : List Frame}
    (h : LostInv ⟨s, frame :: frames⟩) (keepOpen : Bool) (task : TaskId) :
    LostInv (push frames (frameReturned s frame keepOpen task)) := by
  cases hf : frame.completes with
  | true => exact .of_completes (completes_frameReturned h.close hf keepOpen task) frames
  | false =>
    rcases Frame.of_not_completes hf with rfl | rfl
    · exact (h.pop hf).push_graceful (s.graceful_performBufferedRead task)
    · exact (h.pop hf).push_graceful s.writes_writeCleanup.graceful

theorem lostInv_raised {s : Stream} {frame : Frame} {frames : List Frame}
    (h : LostInv ⟨s, frame :: frames⟩) (exc : Exc) :
    LostInv (push frames (frameRaised s frame exc)) := by
  cases hf : frame.completes with
  | true => exact .of_completes (completes_frameRaised h.close hf exc) frames
  | false =>
    rcases Frame.of_not_completes hf with rfl | rfl
    · exact (h.pop hf).push_graceful ⟨fun hi => { hi with }, fun _ hs => hs, id⟩
    · exact (h.pop hf).push_graceful s.writes_writeCleanup.graceful

theorem lostInv_forceClose {s : Stream} {frames : List Frame} (h : LostInv ⟨s, frames⟩)
    (exc : Option Exc) {readFails writeFails : Bool}
    (hok : s.write.closed = true ∧ s.read.closed = false ∨ writeFails = true ∧ s.CancelsWrite →
      Awaited ⟨s, frames⟩) :
    LostInv ⟨s.transportForceClose exc readFails writeFails, frames⟩ := by
  have hp := s.transportForceClose_pendingReads exc readFails writeFails
  refine ⟨h.close.transportForceClose exc readFails writeFails, ?_⟩
  by_cases ha : Awaited ⟨s, frames⟩
  · refine .inr ?_
    rcases ha with ha | ha
    · exact .inl (by rw [hp]; exact ha)
    · exact .inr ha
  · have hs := h.settles.resolve_right ha
    refine .inl (Stream.settled_transportForceClose hs exc ?_ ?_)
    · intro hw
      by_contra hr
      exact ha (hok (.inl ⟨hw, by simpa using hr⟩))
    · exact fun hfails hcancels => ha (hok (.inr ⟨hfails, hcancels⟩))

/-- One step keeps the invariant. -/
theorem lostInv_step {m m' : Machine} {e : Event} (h : m.LostInv) (hok : m.AbortsInTime e)
    (hs : m.step e = some m') : m'.LostInv := by
  cases step_cases hs with
  | write s frames data => exact h.of_graceful (s.writes_transportWrite data).graceful
  | writeLines s frames items raises =>
    exact h.of_graceful (s.writes_transportWriteLines items raises).graceful
  | writeEof s frames => exact h.of_graceful (Stream.graceful_rule.transportWriteEof Stream.graceful_writeClose s)
  | close s frames => exact h.of_graceful s.graceful_transportClose
  | forceClose s frames exc readFails writeFails => exact lostInv_forceClose h exc hok
  | pauseReading s frames => exact h.of_graceful s.graceful_transportPauseReading
  | resumeReading s frames task => exact h.push_graceful (s.graceful_transportResumeReading task)
  | flush s task => exact h.of_graceful (s.writes_flushBufferedWrites task).graceful
  | writeCompleted s slice rest res cancelled task hp hle =>
    exact h.push_graceful
      (Stream.graceful_rule.completeWrite Stream.graceful_closeTransports s slice res cancelled task)
  | readCompleted s rest res stored cancelled task hp hlen =>
    refine .of_completes (Stream.completes_readOperationCompleted ?_ _ task) []
    exact { h.close with }
  | readHarvested s earlier later stored hp hne =>
    refine ⟨{ h.close with }, .inr (.inl ?_)⟩
    exact List.append_ne_nil_of_right_ne_nil _ (List.cons_ne_nil _ _)
  | dataDispatched s data => exact h.of_graceful (.emit s rfl rfl)
  | bufferDispatched s nbytes => exact h.of_graceful (.emit s rfl rfl)
  | batchedReadCompleted s n rest cancelled task hp =>
    exact .of_completes (Stream.completes_readOperationCompleted h.close _ task) []
  | returned s frame frames keepOpen task => exact lostInv_returned h keepOpen task
  | raised s frame frames exc => exact lostInv_raised h exc

theorem lostInv_init (protocol : Protocol) (fd fixedFileIndex : ℕ) (ownsFd serverRef : Bool)
    (task : TaskId) : (init protocol fd fixedFileIndex ownsFd serverRef task).LostInv := by
  have hnew : (Stream.new protocol fd fixedFileIndex ownsFd serverRef).CloseInv :=
    { lost := rfl, fdCloses := by simp [Stream.new, Stream.fdCloses], notified := nofun
      closed := nofun, readCallback := nofun, writeCallback := nofun }
  unfold init
  dsimp only
  split
  · exact ⟨{ hnew.emit (e := .performRead task) rfl rfl with }, .inl nofun⟩
  · refine ⟨(Stream.graceful_performBufferedRead _ task).inv (hnew.emit rfl rfl), .inl nofun⟩

end Machine

end Talyn
