import Talyn.Lib.Runs
import Talyn.Transports.Basic

/-!
# Datagram transports: flow control

`DatagramTransportObject` of `transports/datagram/main.zig` with `transports/datagram/write.zig`: the
sends, their completions, the water marks and `close`. A send is known by the length of its datagram.

A completion callback gives the bytes back in a deferred statement, so after the protocol method it
calls; in between it is a `Frame`. Whether the protocol is told to resume is decided before that, with
the bytes of the completed datagram still counted (`sendtoCompleted`).

When `io.queue` fails in its flush the send is in the ring, and its `SendToData` has been freed: it
completes with whatever is in that memory then.
-/

namespace Talyn

/-- What passes between a datagram transport and the outside. -/
inductive DatagramTransport.Effect
  | sendMsg (len : ℕ)
  | pauseWriting
  | resumeWriting
  | errorReceived (err : Errno)
  | cancelIo (task : TaskId)
  | cancelByFd (fd : ℕ)
  | unregisterFixedFile (index : ℕ)
  | closeFd (fd : ℕ)
  | connectionLost
  deriving DecidableEq, Repr

/-- `DatagramTransportObject`, without the read buffer. `fd = none` is the source's `fd = -1`. -/
structure DatagramTransport where
  fd : Option ℕ
  readTaskId : TaskId
  fixedFileIndex : ℕ
  bufferSize : ℕ
  writingHighWaterMark : ℕ
  writingLowWaterMark : ℕ
  isWriting : Bool
  closed : Bool
  /-- the sends whose completion callback has not been entered -/
  pending : List ℕ
  /-- the sends in the ring whose `SendToData` was freed, because `io.queue` failed behind them -/
  left : List ℕ
  /-- the completion callbacks waiting for a protocol method, by the length of their datagram -/
  frames : List ℕ
  trace : List DatagramTransport.Effect
  deriving DecidableEq, Repr

namespace DatagramTransport

/-- Record an effect. -/
def emit (t : DatagramTransport) (e : Effect) : DatagramTransport := { t with trace := t.trace ++ [e] }

/-- The transport after `init_configuration` and the first `queue_read`. -/
def new (fd fixedFileIndex : ℕ) (readTaskId : TaskId) : DatagramTransport where
  fd := some fd
  readTaskId := readTaskId
  fixedFileIndex := fixedFileIndex
  bufferSize := 0
  writingHighWaterMark := 2 ^ 63 - 1
  writingLowWaterMark := 2 ^ 63 - 1
  isWriting := true
  closed := false
  pending := []
  left := []
  frames := []
  trace := []

/-- `buffer_watermark_check`; what `pause_writing` raises is raised by `sendto`, after the send was
queued. -/
def bufferWatermarkCheck (t : DatagramTransport) (len : ℕ) : DatagramTransport :=
  let t := { t with bufferSize := t.bufferSize + len }
  if t.bufferSize > t.writingHighWaterMark && t.isWriting then
    { t with isWriting := false }.emit .pauseWriting
  else t

/-- A step of `sendto` that can fail; when `io.queue` does, the send can be in the ring all the same
(`left`). -/
inductive SendStep
  | dataArgument
  | buffer
  | dataBuffer
  | sendToData
  | address
  | queue (left : Bool)
  deriving DecidableEq, Repr

/-- `z_datagram_sendto` of `len` bytes. -/
def sendto (t : DatagramTransport) (len : ℕ) (failing : Option SendStep) : DatagramTransport :=
  if failing = some .dataArgument then t
  else if t.closed then t
  else if failing = some .buffer then t
  else if len = 0 then t
  else if failing = some (.queue true) then { t with left := t.left ++ [len] }.emit (.sendMsg len)
  else if failing.isSome then t
  else ({ t with pending := t.pending ++ [len] }.emit (.sendMsg len)).bufferWatermarkCheck len

/-- `z_datagram_set_write_buffer_limits`. -/
def setWriteBufferLimits (t : DatagramTransport) (high : ℕ) (low : Option ℕ) : DatagramTransport :=
  { t with
    writingHighWaterMark := high
    writingLowWaterMark := min (low.getD (high / 4)) high }

/-- The deferred statement of `sendto_completed`. -/
def releaseBytes (t : DatagramTransport) (len : ℕ) : DatagramTransport :=
  { t with bufferSize := t.bufferSize - min t.bufferSize len }

/-- `sendto_completed`, up to the protocol method it calls; `cancelled` is set when the loop is torn
down. -/
def sendtoCompleted (t : DatagramTransport) (len : ℕ) (err : Errno) (cancelled : Bool) :
    DatagramTransport :=
  if cancelled || t.closed then t.releaseBytes len
  else if err ≠ .success then { t with frames := len :: t.frames }.emit (.errorReceived err)
  else if !t.isWriting && decide (t.bufferSize ≤ t.writingLowWaterMark) then
    { t with isWriting := true, frames := len :: t.frames }.emit .resumeWriting
  else t.releaseBytes len

/-- The statements of `datagram_close` for an open loop. -/
def cancelPending (t : DatagramTransport) : DatagramTransport :=
  let t := if t.readTaskId ≠ 0 then t.emit (.cancelIo t.readTaskId) else t
  let t := match t.fd with
    | some fd => t.emit (.cancelByFd fd)
    | none => t
  if t.fixedFileIndex ≠ 0 then
    { t.emit (.unregisterFixedFile t.fixedFileIndex) with fixedFileIndex := 0 }
  else t

/-- `datagram_close`; `datagram_abort` is the same. -/
def close (t : DatagramTransport) : DatagramTransport :=
  if t.closed then t
  else
    let t := { t with closed := true }.cancelPending
    let t := match t.fd with
      | some fd => { t.emit (.closeFd fd) with fd := none }
      | none => t
    t.emit .connectionLost

/-- What can happen to a datagram transport. -/
inductive Event
  | sendto (len : ℕ) (failing : Option SendStep)
  | setWriteBufferLimits (high : ℕ) (low : Option ℕ)
  /-- the completion callback of a send; the sends complete in any order -/
  | completed (index : ℕ) (err : Errno) (cancelled : Bool)
  /-- that of a send whose `SendToData` was freed, with the length that is in that memory -/
  | completedLeft (index len : ℕ) (err : Errno) (cancelled : Bool)
  /-- the protocol method a completion callback waits for returned or raised -/
  | ended
  | close
  deriving DecidableEq, Repr

/-- One event; `none` when it cannot happen. The loop completes no send inside a callback. -/
def step (t : DatagramTransport) (e : Event) : Option DatagramTransport :=
  match e, t.frames with
  | .sendto len failing, _ => some (t.sendto len failing)
  | .setWriteBufferLimits high low, _ => some (t.setWriteBufferLimits high low)
  | .close, _ => some t.close
  | .completed index err cancelled, [] =>
    (t.pending[index]?).map fun len =>
      { t with pending := t.pending.eraseIdx index }.sendtoCompleted len err cancelled
  | .completedLeft index len err cancelled, [] =>
    (t.left[index]?).map fun _ =>
      { t with left := t.left.eraseIdx index }.sendtoCompleted len err cancelled
  | .ended, len :: frames => some ({ t with frames := frames }.releaseBytes len)
  | _, _ => none

/-! ### The bytes that are outstanding -/

/-- The bytes of the sends that were queued and have not completed. -/
def outstanding (t : DatagramTransport) : ℕ := t.pending.sum + t.left.sum + t.frames.sum

/-- No send is left in the ring by an `io.queue` that fails. -/
def NoneLeft (t : DatagramTransport) : Event → Prop
  | .sendto len failing => t.closed = false → len ≠ 0 → failing ≠ some (.queue true)
  | _ => True

/-- What holds of a datagram transport. -/
structure Inv (t : DatagramTransport) : Prop where
  counted : t.bufferSize = t.outstanding
  left : t.left = []
  positive : ∀ len ∈ t.pending ++ t.frames, 0 < len
  marks : t.writingLowWaterMark ≤ t.writingHighWaterMark

variable {t t' : DatagramTransport}

theorem sendto_cases {len : ℕ} {failing : Option SendStep} (hok : t.NoneLeft (.sendto len failing)) :
    t.sendto len failing = t ∨ 0 < len ∧ ∃ trace, t.sendto len failing =
      { t with
        bufferSize := t.bufferSize + len
        isWriting := t.isWriting && decide (t.bufferSize + len ≤ t.writingHighWaterMark)
        pending := t.pending ++ [len]
        trace := trace } := by
  unfold sendto
  split
  · exact .inl rfl
  split
  · exact .inl rfl
  rename_i hopen
  split
  · exact .inl rfl
  split
  · exact .inl rfl
  rename_i hlen
  split
  · rename_i hleft
    exact absurd hleft (hok (Bool.eq_false_of_not_eq_true hopen) hlen)
  split
  · exact .inl rfl
  refine .inr ⟨Nat.pos_of_ne_zero hlen, ?_⟩
  unfold bufferWatermarkCheck
  dsimp only [emit]
  cases t.isWriting <;> split <;> simp_all

/-- `close` leaves flow control alone. -/
theorem close_cases (t : DatagramTransport) : ∃ fd index trace, t.close =
    { t with fd := fd, fixedFileIndex := index, trace := trace, closed := true } := by
  unfold close
  split
  · rename_i hclosed
    exact ⟨t.fd, t.fixedFileIndex, t.trace, by rw [← hclosed]⟩
  have hcancel : ∀ t : DatagramTransport, ∃ index trace, t.cancelPending =
      { t with fixedFileIndex := index, trace := trace } := by
    intro t
    unfold cancelPending emit
    dsimp only
    split <;> split <;> split <;> exact ⟨_, _, rfl⟩
  obtain ⟨index, trace, heq⟩ := hcancel { t with closed := true }
  rw [heq]
  dsimp only [emit]
  split
  · exact ⟨none, index, _, rfl⟩
  · exact ⟨t.fd, index, _, rfl⟩

theorem Inv.new (fd fixedFileIndex : ℕ) (readTaskId : TaskId) :
    Inv (new fd fixedFileIndex readTaskId) :=
  ⟨rfl, rfl, by simp [DatagramTransport.new], le_rfl⟩

/-- Bytes are given back when a send is no longer outstanding. -/
theorem Inv.releaseBytes {len : ℕ} (hcount : t.bufferSize = len + t.outstanding) (hleft : t.left = [])
    (hpos : ∀ len ∈ t.pending ++ t.frames, 0 < len)
    (hmarks : t.writingLowWaterMark ≤ t.writingHighWaterMark) : Inv (t.releaseBytes len) := by
  refine ⟨?_, hleft, hpos, hmarks⟩
  show t.bufferSize - min t.bufferSize len = t.outstanding
  omega

/-- **The bytes are counted**, as long as no send is left in the ring. -/
theorem Inv.step {e : Event} (h : Inv t) (hok : t.NoneLeft e) (hs : t.step e = some t') : Inv t' := by
  obtain ⟨hcount, hleft, hpos, hmarks⟩ := h
  unfold DatagramTransport.step at hs
  split at hs
  · rename_i len failing
    obtain rfl := Option.some.inj hs
    obtain heq | ⟨hlen, trace, heq⟩ := sendto_cases hok
    · rw [heq]
      exact ⟨hcount, hleft, hpos, hmarks⟩
    · rw [heq]
      refine ⟨?_, hleft, ?_, hmarks⟩
      · simp only [outstanding, List.sum_append, List.sum_singleton] at hcount ⊢
        omega
      · intro len' hin
        simp only [List.mem_append, List.mem_singleton] at hin hpos
        obtain (hin | rfl) | hin := hin
        · exact hpos _ (.inl hin)
        · exact hlen
        · exact hpos _ (.inr hin)
  · obtain rfl := Option.some.inj hs
    exact ⟨hcount, hleft, hpos, min_le_right _ _⟩
  · obtain rfl := Option.some.inj hs
    obtain ⟨fd, index, trace, heq⟩ := t.close_cases
    rw [heq]
    exact ⟨hcount, hleft, hpos, hmarks⟩
  · rename_i index err cancelled hframes
    obtain ⟨len, hlen, rfl⟩ := Option.map_eq_some_iff.1 hs
    obtain ⟨hlt, hget⟩ := List.getElem?_eq_some_iff.1 hlen
    have hsum : len + (t.pending.eraseIdx index).sum = t.pending.sum := by
      rw [← hget, ← List.sum_cons]
      exact (List.getElem_cons_eraseIdx_perm hlt).sum_eq
    have hsub : ∀ len' ∈ (t.pending.eraseIdx index) ++ t.frames, 0 < len' := by
      intro len' hin
      refine hpos len' ?_
      simp only [List.mem_append] at hin ⊢
      exact hin.imp_left List.mem_of_mem_eraseIdx
    have hkept : ∀ len' ∈ t.pending.eraseIdx index ++ len :: t.frames, 0 < len' := by
      intro len' hin
      simp only [List.mem_append, List.mem_cons] at hin
      obtain hin | rfl | hin := hin
      · exact hsub len' (List.mem_append_left _ hin)
      · exact hpos _ (List.mem_append_left _ (List.mem_of_getElem? hlen))
      · exact hsub len' (List.mem_append_right _ hin)
    have hrelease : Inv ({ t with pending := t.pending.eraseIdx index }.releaseBytes len) := by
      refine .releaseBytes ?_ hleft hsub hmarks
      simp only [outstanding] at hcount ⊢
      omega
    have hframe : t.bufferSize = (t.pending.eraseIdx index).sum + t.left.sum + (len :: t.frames).sum := by
      simp only [outstanding, List.sum_cons] at hcount ⊢
      omega
    unfold sendtoCompleted
    split
    · exact hrelease
    split
    · exact ⟨hframe, hleft, hkept, hmarks⟩
    split
    · exact ⟨hframe, hleft, hkept, hmarks⟩
    · exact hrelease
  · simp [hleft] at hs
  · rename_i len frames hframes
    obtain rfl := Option.some.inj hs
    refine .releaseBytes ?_ hleft ?_ hmarks
    · simp only [outstanding, hframes, List.sum_cons] at hcount ⊢
      omega
    · intro len' hin
      refine hpos len' ?_
      rw [hframes]
      simp only [List.mem_append, List.mem_cons] at hin ⊢
      exact hin.imp_right .inr
  · exact nomatch hs

/-! ### Who is left paused -/

/-- Once all sends have completed, an open transport is not paused. -/
def NotLeftPaused (t : DatagramTransport) : Prop :=
  t.bufferSize = 0 → t.closed = false → t.isWriting = true

/-- At the low-water mark an open transport is not paused. -/
def ResumedAtLowMark (t : DatagramTransport) : Prop :=
  t.bufferSize ≤ t.writingLowWaterMark → t.closed = false → t.isWriting = true

/-- When the completion that gives the last bytes back finds the protocol paused, it resumes it: it
succeeds, and its datagram is no longer than the low-water mark. -/
def LastCompletionResumes (t : DatagramTransport) : Event → Prop
  | .completed index err cancelled =>
    t.frames = [] → t.closed = false → t.isWriting = false → ∀ len ∈ t.pending[index]?,
      len = t.bufferSize → cancelled = false ∧ (err = .success → len ≤ t.writingLowWaterMark)
  | .ended =>
    t.closed = false → t.isWriting = false → ∀ len ∈ t.frames.head?, len ≠ t.bufferSize
  | _ => True

/-- While the protocol is paused, `buffer_size` stays above the low-water mark. -/
def StaysAboveLowMark (t : DatagramTransport) : Event → Prop
  | .completed index err cancelled =>
    t.frames = [] → t.closed = false → t.isWriting = false → ∀ len ∈ t.pending[index]?,
      cancelled = true ∨ err = .success → t.writingLowWaterMark < t.bufferSize - len
  | .ended =>
    t.closed = false → t.isWriting = false →
      ∀ len ∈ t.frames.head?, t.writingLowWaterMark < t.bufferSize - len
  | .setWriteBufferLimits high low =>
    t.closed = false → t.isWriting = false → min (low.getD (high / 4)) high < t.bufferSize
  | _ => True

/-- A completion does not close the transport, move its marks or pause the protocol. -/
theorem sendtoCompleted_frame (t : DatagramTransport) (len : ℕ) (err : Errno) (cancelled : Bool) :
    (t.sendtoCompleted len err cancelled).closed = t.closed ∧
      (t.sendtoCompleted len err cancelled).writingLowWaterMark = t.writingLowWaterMark ∧
      (t.isWriting = true → (t.sendtoCompleted len err cancelled).isWriting = true) := by
  unfold sendtoCompleted
  split
  · exact ⟨rfl, rfl, id⟩
  split
  · exact ⟨rfl, rfl, id⟩
  split
  · exact ⟨rfl, rfl, fun _ => rfl⟩
  · exact ⟨rfl, rfl, id⟩

/-- A completion that finds the protocol of an open transport paused. -/
theorem sendtoCompleted_paused (hopen : t.closed = false) (hpaused : t.isWriting = false) (len : ℕ)
    (err : Errno) (cancelled : Bool) :
    ((cancelled = true ∨ err = .success ∧ t.writingLowWaterMark < t.bufferSize) ∧
        (t.sendtoCompleted len err cancelled).isWriting = false ∧
        (t.sendtoCompleted len err cancelled).bufferSize = t.bufferSize - len) ∨
      (cancelled = false ∧ err = .success ∧ t.bufferSize ≤ t.writingLowWaterMark ∧
        (t.sendtoCompleted len err cancelled).isWriting = true) ∨
      (cancelled = false ∧ err ≠ .success ∧
        (t.sendtoCompleted len err cancelled).isWriting = false ∧
        (t.sendtoCompleted len err cancelled).bufferSize = t.bufferSize) := by
  have hrelease : (t.releaseBytes len).isWriting = false ∧
      (t.releaseBytes len).bufferSize = t.bufferSize - len :=
    ⟨hpaused, by show t.bufferSize - min t.bufferSize len = _; omega⟩
  unfold sendtoCompleted
  rw [hopen, Bool.or_false, hpaused, Bool.not_false, Bool.true_and]
  cases cancelled with
  | true => exact .inl ⟨.inl rfl, hrelease⟩
  | false =>
    rw [if_neg Bool.false_ne_true]
    by_cases herr : err = .success
    · rw [if_neg (not_not_intro herr)]
      by_cases hlow : t.bufferSize ≤ t.writingLowWaterMark
      · rw [if_pos (decide_eq_true hlow)]
        exact .inr (.inl ⟨rfl, herr, hlow, rfl⟩)
      · rw [if_neg (by simpa using hlow)]
        exact .inl ⟨.inr ⟨herr, Nat.lt_of_not_le hlow⟩, hrelease⟩
    · rw [if_pos herr]
      exact .inr (.inr ⟨rfl, herr, rfl, rfl⟩)

/-- The datagrams a transport counts are not longer than its buffer. -/
theorem Inv.le_bufferSize {len : ℕ} (h : Inv t) (hin : len ∈ t.pending ++ t.frames) :
    0 < len ∧ len ≤ t.bufferSize := by
  refine ⟨h.positive len hin, ?_⟩
  rw [h.counted, outstanding, h.left, List.sum_nil, Nat.add_zero, ← List.sum_append]
  exact List.single_le_sum (fun _ _ => Nat.zero_le _) _ hin

/-- The protocol is paused by a send that goes above the marks, and not otherwise. -/
theorem step_unpaused {e : Event} (h : Inv t) (hok : t.NoneLeft e) (hs : t.step e = some t')
    (hflow : t.closed = true ∨ t.isWriting = true) :
    t'.closed = true ∨ t'.isWriting = true ∨ t'.writingLowWaterMark < t'.bufferSize := by
  have hmarks := h.marks
  have hsame : t'.closed = t.closed → (t.isWriting = true → t'.isWriting = true) →
      t'.closed = true ∨ t'.isWriting = true ∨ t'.writingLowWaterMark < t'.bufferSize := by
    intro hclosed hwriting
    exact hflow.elim (fun hc => .inl (hclosed.trans hc)) fun hw => .inr (.inl (hwriting hw))
  unfold step at hs
  split at hs
  · rename_i len failing
    obtain rfl := Option.some.inj hs
    obtain heq | ⟨hlen, trace, heq⟩ := sendto_cases hok
    · rw [heq] at hsame ⊢
      exact hsame rfl id
    · rw [heq]
      refine hflow.imp id fun hwriting => ?_
      dsimp only
      rw [hwriting, Bool.true_and, decide_eq_true_eq]
      omega
  · obtain rfl := Option.some.inj hs
    exact hsame rfl id
  · obtain rfl := Option.some.inj hs
    obtain ⟨fd, index, trace, heq⟩ := t.close_cases
    rw [heq]
    exact .inl rfl
  · rename_i index err cancelled hframes
    obtain ⟨len, -, rfl⟩ := Option.map_eq_some_iff.1 hs
    obtain ⟨hclosed, -, hwriting⟩ := sendtoCompleted_frame
      { t with pending := t.pending.eraseIdx index } len err cancelled
    exact hsame hclosed hwriting
  · simp [h.left] at hs
  · obtain rfl := Option.some.inj hs
    exact hsame rfl id
  · exact nomatch hs

/-- What a state of a paused, open transport says about the two properties. -/
theorem flow_of_paused (hopen : t.closed = false) (hpaused : t.isWriting = false) :
    (NotLeftPaused t ↔ 0 < t.bufferSize) ∧
      (ResumedAtLowMark t ↔ t.writingLowWaterMark < t.bufferSize) := by
  simp [NotLeftPaused, ResumedAtLowMark, hopen, hpaused, Nat.pos_iff_ne_zero]

/-- **A step while the protocol of an open transport is paused**: when it stays paused with nothing to
send, and when `buffer_size` comes down to the low-water mark. -/
theorem step_paused {e : Event} (h : Inv t) (hok : t.NoneLeft e) (hs : t.step e = some t') (hopen : t.closed = false)
    (hpaused : t.isWriting = false) (hsize : 0 < t.bufferSize) :
    (NotLeftPaused t' ↔ LastCompletionResumes t e) ∧
      (t.writingLowWaterMark < t.bufferSize → (ResumedAtLowMark t' ↔ StaysAboveLowMark t e)) := by
  unfold step at hs
  split at hs
  · rename_i len failing
    obtain rfl := Option.some.inj hs
    have hgrows : (t.sendto len failing).closed = false ∧ (t.sendto len failing).isWriting = false ∧
        t.bufferSize ≤ (t.sendto len failing).bufferSize ∧
        (t.sendto len failing).writingLowWaterMark = t.writingLowWaterMark := by
      obtain heq | ⟨-, trace, heq⟩ := sendto_cases hok
      · rw [heq]
        exact ⟨hopen, hpaused, le_rfl, rfl⟩
      · rw [heq]
        exact ⟨hopen, by simp [hpaused], Nat.le_add_right _ _, rfl⟩
    obtain ⟨hopen', hpaused', hle, hlow⟩ := hgrows
    obtain ⟨hleft, hmark⟩ := flow_of_paused hopen' hpaused'
    rw [hleft, hmark, hlow]
    exact ⟨iff_of_true (by omega) trivial, fun hlt => iff_of_true (by omega) trivial⟩
  · rename_i high low
    obtain rfl := Option.some.inj hs
    obtain ⟨hleft, hmark⟩ := flow_of_paused (t := t.setWriteBufferLimits high low) hopen hpaused
    rw [hleft, hmark]
    refine ⟨iff_of_true hsize trivial, fun _ => ⟨fun hlt _ _ => hlt, fun hok => hok hopen hpaused⟩⟩
  · obtain rfl := Option.some.inj hs
    obtain ⟨fd, index, trace, heq⟩ := t.close_cases
    rw [heq]
    exact ⟨iff_of_true nofun trivial, fun _ => iff_of_true nofun trivial⟩
  · rename_i index err cancelled hframes
    obtain ⟨len, hlen, rfl⟩ := Option.map_eq_some_iff.1 hs
    obtain ⟨hpos, hle⟩ := h.le_bufferSize (List.mem_append_left t.frames (List.mem_of_getElem? hlen))
    have hframe := sendtoCompleted_frame { t with pending := t.pending.eraseIdx index } len err
      cancelled
    have hcases := sendtoCompleted_paused (t := { t with pending := t.pending.eraseIdx index }) hopen
      hpaused len err cancelled
    dsimp only at hframe hcases
    generalize sendtoCompleted _ len err cancelled = u at hframe hcases ⊢
    obtain ⟨hopen', hlow, -⟩ := hframe
    rw [hopen] at hopen'
    simp only [LastCompletionResumes, StaysAboveLowMark, hframes, hopen, hpaused, hlen,
      Option.mem_some_iff, forall_eq', forall_const]
    obtain ⟨hwhen, hpaused', hsize'⟩ | ⟨rfl, rfl, hresume, hwriting⟩ | ⟨rfl, herr, hpaused', hsize'⟩ :=
      hcases
    · obtain ⟨hleft, hmark⟩ := flow_of_paused hopen' hpaused'
      rw [hleft, hmark, hlow, hsize']
      refine ⟨⟨fun hlt heq => absurd heq (by omega), fun hok => ?_⟩, fun _ =>
        ⟨fun hlt _ => hlt, fun hok => hok (hwhen.imp_right And.left)⟩⟩
      by_contra hnone
      obtain ⟨rfl, hshort⟩ := hok (by omega)
      obtain ⟨herr, hlt⟩ := hwhen.resolve_left Bool.false_ne_true
      have := hshort herr
      omega
    · refine ⟨iff_of_true (fun _ _ => hwriting) fun _ => ⟨rfl, fun _ => by omega⟩, fun hlt => ?_⟩
      exact absurd hresume (Nat.not_le.2 hlt)
    · obtain ⟨hleft, hmark⟩ := flow_of_paused hopen' hpaused'
      rw [hleft, hmark, hlow, hsize']
      refine ⟨iff_of_true hsize fun _ => ⟨rfl, fun hsuccess => absurd hsuccess herr⟩, fun hlt =>
        iff_of_true hlt fun hor => ?_⟩
      exact absurd (hor.resolve_left Bool.false_ne_true) herr
  · simp [h.left] at hs
  · rename_i len frames hframes
    obtain rfl := Option.some.inj hs
    obtain ⟨hpos, hle⟩ := h.le_bufferSize (show len ∈ t.pending ++ t.frames by simp [hframes])
    obtain ⟨hleft, hmark⟩ := flow_of_paused (t := { t with frames := frames }.releaseBytes len) hopen
      hpaused
    have hsize' : ({ t with frames := frames }.releaseBytes len).bufferSize = t.bufferSize - len := by
      show t.bufferSize - min t.bufferSize len = _
      omega
    rw [hleft, hmark, hsize']
    simp only [LastCompletionResumes, StaysAboveLowMark, hframes, hopen, hpaused, List.head?_cons,
      Option.mem_some_iff, forall_eq', forall_const]
    exact ⟨by omega, fun _ => Iff.rfl⟩
  · exact nomatch hs

/-- Where no condition applies. -/
theorem conditions_of_unpaused (e : Event) (hflow : t.closed = true ∨ t.isWriting = true) :
    LastCompletionResumes t e ∧ StaysAboveLowMark t e := by
  have hnot : t.closed = false → t.isWriting = false → False := by
    intro hopen hpaused
    simp [hopen, hpaused] at hflow
  cases e with
  | completed index err cancelled =>
    exact ⟨fun _ hopen hpaused => (hnot hopen hpaused).elim,
      fun _ hopen hpaused => (hnot hopen hpaused).elim⟩
  | ended =>
    exact ⟨fun hopen hpaused => (hnot hopen hpaused).elim,
      fun hopen hpaused => (hnot hopen hpaused).elim⟩
  | setWriteBufferLimits high low => exact ⟨trivial, fun hopen hpaused => (hnot hopen hpaused).elim⟩
  | sendto | completedLeft | close => exact ⟨trivial, trivial⟩

/-- An event that cannot happen meets the conditions. -/
theorem conditions_of_disabled {e : Event} (hs : t.step e = none) :
    LastCompletionResumes t e ∧ StaysAboveLowMark t e := by
  unfold step at hs
  cases e with
  | completed index err cancelled =>
    have hnone : t.frames = [] → t.pending[index]? = none := by
      intro hframes
      simpa [hframes] using hs
    constructor
    · intro hframes _ _ len hlen
      exact nomatch (hnone hframes).symm.trans hlen
    · intro hframes _ _ len hlen
      exact nomatch (hnone hframes).symm.trans hlen
  | ended =>
    have hnone : t.frames.head? = none := by
      cases hframes : t.frames with
      | nil => rfl
      | cons len frames => simp [hframes] at hs
    constructor
    · intro _ _ len hlen
      exact nomatch hnone.symm.trans hlen
    · intro _ _ len hlen
      exact nomatch hnone.symm.trans hlen
  | sendto len failing => simp at hs
  | setWriteBufferLimits high low => simp at hs
  | completedLeft index len err cancelled => exact ⟨trivial, trivial⟩
  | close => simp at hs

theorem noneLeft_of_disabled {e : Event} (hs : t.step e = none) : t.NoneLeft e := by
  cases e with
  | sendto len failing => simp [step] at hs
  | _ => trivial

/-- The bytes of a send that is left in the ring are not counted. -/
theorem counted_iff {e : Event} (h : Inv t) (hs : t.step e = some t') :
    t'.bufferSize = t'.outstanding ↔ t.NoneLeft e := by
  refine ⟨fun hcounted => ?_, fun hok => (h.step hok hs).counted⟩
  cases e with
  | sendto len failing =>
    intro hopen hlen hleft
    subst hleft
    obtain rfl := Option.some.inj hs
    have hsend : t.sendto len (some (.queue true)) =
        { t with left := t.left ++ [len] }.emit (.sendMsg len) := by
      simp [sendto, hopen, hlen]
    rw [hsend] at hcounted
    have hbytes : t.bufferSize = t.pending.sum + (t.left ++ [len]).sum + t.frames.sum := hcounted
    rw [h.counted, outstanding, List.sum_append, List.sum_singleton] at hbytes
    omega
  | _ => trivial

/-- A step of an open or closed transport keeps it from being left paused exactly when it meets the condition. -/
theorem notLeftPaused_step_iff {e : Event} (h : Inv t) (hI : NotLeftPaused t) (hok : t.NoneLeft e)
    (hs : t.step e = some t') : NotLeftPaused t' ↔ LastCompletionResumes t e := by
  by_cases hflow : t.closed = true ∨ t.isWriting = true
  · refine iff_of_true (fun hsize hopen => ?_) (conditions_of_unpaused e hflow).1
    obtain hclosed | hwriting | hlt := step_unpaused h hok hs hflow
    · exact absurd hopen (by simp [hclosed])
    · exact hwriting
    · omega
  · obtain ⟨hopen, hpaused⟩ : t.closed = false ∧ t.isWriting = false := by simpa using hflow
    have hsize : 0 < t.bufferSize := (flow_of_paused hopen hpaused).1.1 hI
    exact (step_paused h hok hs hopen hpaused hsize).1

theorem resumedAtLowMark_step_iff {e : Event} (h : Inv t) (hI : ResumedAtLowMark t) (hok : t.NoneLeft e)
    (hs : t.step e = some t') : ResumedAtLowMark t' ↔ StaysAboveLowMark t e := by
  by_cases hflow : t.closed = true ∨ t.isWriting = true
  · refine iff_of_true (fun hsize hopen => ?_) (conditions_of_unpaused e hflow).2
    obtain hclosed | hwriting | hlt := step_unpaused h hok hs hflow
    · exact absurd hopen (by simp [hclosed])
    · exact hwriting
    · omega
  · obtain ⟨hopen, hpaused⟩ : t.closed = false ∧ t.isWriting = false := by simpa using hflow
    have hlow : t.writingLowWaterMark < t.bufferSize := (flow_of_paused hopen hpaused).2.1 hI
    exact (step_paused h hok hs hopen hpaused (Nat.zero_lt_of_lt hlow)).2 hlow

/-- **Flow control of a datagram transport.** A run counts the bytes exactly when it leaves no send in
the ring. No state of such a run leaves the protocol of an open transport paused with nothing to send
exactly when the completion that gives the last bytes back resumes it; and the protocol is resumed as
soon as `buffer_size` is down at the low-water mark exactly when it never comes down while the protocol
is paused. -/
theorem datagram_flow_control (fd fixedFileIndex : ℕ) (readTaskId : TaskId) (es : List Event) :
    (Runs.Always step (fun t => t.bufferSize = t.outstanding) (new fd fixedFileIndex readTaskId) es ↔
        Runs.Along step NoneLeft (new fd fixedFileIndex readTaskId) es) ∧
      (Runs.Along step NoneLeft (new fd fixedFileIndex readTaskId) es →
        (Runs.Always step NotLeftPaused (new fd fixedFileIndex readTaskId) es ↔
          Runs.Along step LastCompletionResumes (new fd fixedFileIndex readTaskId) es) ∧
        (Runs.Always step ResumedAtLowMark (new fd fixedFileIndex readTaskId) es ↔
          Runs.Along step StaysAboveLowMark (new fd fixedFileIndex readTaskId) es)) := by
  have hnew : Inv (new fd fixedFileIndex readTaskId) := .new fd fixedFileIndex readTaskId
  refine ⟨?_, fun hnone => ⟨?_, ?_⟩⟩
  · exact Runs.always_iff_along_of_break hnew (fun u hu => hu.counted)
      (fun u e v hu hok hs => hu.step hok hs) (fun u e v hu hs hcounted => (counted_iff hu hs).1 hcounted)
      fun u e hs => noneLeft_of_disabled hs
  · refine Runs.always_iff_along_within (I := fun u => Inv u ∧ NotLeftPaused u) hnone
      ⟨hnew, fun _ _ => rfl⟩ (fun u hu => hu.2) (fun u e v hu hq hok hs => ⟨hu.1.step hq hs, ?_⟩)
      (fun u e v hu hq hs hI => ?_) fun u e hs => (conditions_of_disabled hs).1
    · exact (notLeftPaused_step_iff hu.1 hu.2 hq hs).2 hok
    · exact (notLeftPaused_step_iff hu.1 hu.2 hq hs).1 hI
  · refine Runs.always_iff_along_within (I := fun u => Inv u ∧ ResumedAtLowMark u) hnone
      ⟨hnew, fun _ _ => rfl⟩ (fun u hu => hu.2) (fun u e v hu hq hok hs => ⟨hu.1.step hq hs, ?_⟩)
      (fun u e v hu hq hs hI => ?_) fun u e hs => (conditions_of_disabled hs).2
    · exact (resumedAtLowMark_step_iff hu.1 hu.2 hq hs).2 hok
    · exact (resumedAtLowMark_step_iff hu.1 hu.2 hq hs).1 hI

/-- A single datagram above the high-water mark of 10 is longer than the low-water mark of 2: its own
completion still counts it, and nothing completes after it. And a send that is left in the ring gives back
bytes of another. -/
theorem paused_with_nothing_to_send :
    (¬ ∀ (fd fixedFileIndex : ℕ) (readTaskId : TaskId) (es : List Event),
      Runs.Always step NotLeftPaused (new fd fixedFileIndex readTaskId) es) ∧
    (Runs.exec step (new 5 0 1) [.sendto 20 none, .sendto 20 (some (.queue true)),
      .completedLeft 0 20 .success false]).map (fun t => (t.bufferSize, t.pending)) = some (0, [20]) := by
  refine ⟨fun h => ?_, rfl⟩
  have hrun := h 5 0 1 [.setWriteBufferLimits 10 none, .sendto 20 none, .completed 0 .success false]
  have hend := (hrun.2 _ rfl).2 _ rfl |>.2 _ rfl
  exact absurd (hend rfl rfl) (by decide)

end DatagramTransport

end Talyn
