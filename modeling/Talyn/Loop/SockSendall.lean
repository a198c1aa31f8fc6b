import Talyn.Lib.Runs
import Talyn.Transports.Basic

/-!
# `sock_sendall`

`loop/python/io/socket/ops/sendall.zig`, one call. It copies the data, queues a write of all of it and returns a
future; `sock_sendall_callback` queues the rest until nothing is left. When `io.queue` fails, the call and the
callback release everything, as if nothing had been queued; but when it fails in its flush the write is in the
ring, and goes on with memory that has been freed.
-/

namespace Talyn

/-- What a write completes with. -/
inductive SockSendall.Result
  | written (n : ℕ)
  | error (err : Errno)
  deriving DecidableEq, Repr

/-- What `io.queue` does with a write. -/
inductive SockSendall.Queue
  | queued
  /-- it fails, and nothing is in the ring -/
  | refused
  /-- it fails in the flush, and the write is in the ring -/
  | left
  deriving DecidableEq, Repr

/-- The exception of a future. -/
inductive SockSendall.Exn
  | runtimeError (message : String)
  | osError (err : Errno) (message : String)
  /-- the error of `io.queue`, or of making the `OSError` -/
  | other
  deriving DecidableEq, Repr

/-- The future of the call. -/
inductive SockSendall.Future
  /-- there is none, or the call raised and gave it up -/
  | absent
  | pending
  /-- its result is `None` -/
  | result
  | exception (exc : SockSendall.Exn)
  deriving DecidableEq, Repr

/-- The write in the ring: the offset its slice begins at, and its result once the kernel has completed it. -/
structure SockSendall.Write where
  start : ℕ
  result : Option SockSendall.Result
  deriving DecidableEq, Repr

/-- What a call takes and has to give back: the copy of the data, the `SockSendAllData`, and the references to the
future and the loop that are in it. -/
inductive SockSendall.Resource
  | buffer
  | state
  | future
  | loop
  deriving DecidableEq, Repr

/-- The arguments of a call, and how its steps come out, in their order. -/
structure SockSendall.Call where
  data : Bytes
  /-- the checks of the loop and of the arguments, and `fileno` -/
  accepted : Bool
  /-- `fast_new_future` and the two allocations -/
  future : Bool
  buffer : Bool
  state : Bool
  queue : SockSendall.Queue
  deriving DecidableEq, Repr

/-- A call of `sock_sendall`. -/
structure SockSendall where
  called : Bool
  data : Bytes
  /-- what is in the memory of the copy -/
  buffer : Bytes
  offset : ℕ
  write : Option SockSendall.Write
  future : SockSendall.Future
  /-- how often the future has been resolved -/
  resolutions : ℕ
  taken : SockSendall.Resource → ℕ
  released : SockSendall.Resource → ℕ
  /-- what has been written to the socket -/
  sent : Bytes

namespace SockSendall

/-- No call yet. -/
def new : SockSendall := ⟨false, [], [], 0, none, .absent, 0, fun _ => 0, fun _ => 0, []⟩

/-- `call_done_callbacks`, behind the result or the exception that was stored. -/
def resolve (s : SockSendall) (future : Future) : SockSendall :=
  { s with future, resolutions := s.resolutions + 1 }

/-- `future_fast_set_result` with `None`. -/
def setResult (s : SockSendall) : SockSendall := if s.future = .pending then s.resolve .result else s

/-- `set_future_exception`, and `future_fast_set_exception` behind the check of the status. -/
def setException (s : SockSendall) (exc : Exn) : SockSendall :=
  if s.future = .pending then s.resolve (.exception exc) else s

/-- `cleanup_sendall`, and all errdefers of the call together. -/
def cleanup (s : SockSendall) : SockSendall := { s with released := fun r => s.released r + 1 }

/-- A write of the data from the offset on gets into the ring. -/
def queueWrite (s : SockSendall) : SockSendall := { s with write := some ⟨s.offset, none⟩ }

/-- The call when it gets to `io.queue`. -/
def begun (c : Call) : SockSendall :=
  { new with called := true, data := c.data, buffer := c.data, taken := fun _ => 1 }

/-- `z_loop_sock_sendall`. The future is only kept when it is returned. -/
def sendall (c : Call) : SockSendall :=
  let s := { new with called := true, data := c.data }
  if c.accepted = false then s
  else if c.future = false then s
  else if c.data = [] then { s with future := .pending }.setResult
  else if c.buffer = false then s
  else
    let s := { s with buffer := c.data, taken := Function.update s.taken .buffer 1 }
    if c.state = false then { s with released := Function.update s.released .buffer 1 }
    else
      match c.queue with
      | .queued => { (begun c).queueWrite with future := .pending }
      | .refused => (begun c).cleanup
      | .left => (begun c).queueWrite.cleanup

/-- `sock_sendall_callback`; `objects` is whether the `OSError` can be made. -/
def callback (s : SockSendall) (result : Result) (cancelled objects : Bool) (queue : Queue) : SockSendall :=
  if cancelled then (s.setException (.runtimeError "Socket operation cancelled")).cleanup
  else
    match result with
    | .error err =>
      (s.setException (if objects then .osError err "Sendall call failed" else .other)).cleanup
    | .written n =>
      let s := { s with offset := s.offset + n }
      if s.offset < s.buffer.length then
        match queue with
        | .queued => s.queueWrite
        | .refused => (s.setException .other).cleanup
        | .left => (s.queueWrite.setException .other).cleanup
      else s.setResult.cleanup

/-- What can happen. -/
inductive Event
  | call (c : Call)
  /-- the kernel completes the write -/
  | complete (result : Result)
  /-- the callback of a completed write is run -/
  | run (cancelled objects : Bool) (queue : Queue)
  /-- the ring is closed before the write is completed, and its callback run with the cancelled flag; the result is
  the 0 that was in it when it was queued -/
  | close
  /-- the memory of a buffer that has been freed gets another content -/
  | reuse (bytes : Bytes)
  deriving DecidableEq, Repr

/-- The bytes the kernel takes off the buffer for a result. -/
def bytesOf (s : SockSendall) (start : ℕ) : Result → Bytes
  | .written n => (s.buffer.drop start).take n
  | .error _ => []

/-- The kernel completes the write. -/
def complete (s : SockSendall) (start : ℕ) (result : Result) : SockSendall :=
  { s with write := some ⟨start, some result⟩, sent := s.sent ++ s.bytesOf start result }

/-- A result the kernel can give for the slice from `start` on. -/
def Result.Fits (s : SockSendall) (start : ℕ) : Result → Prop
  | .written n => start + n ≤ s.buffer.length
  | .error _ => True

instance (s : SockSendall) (start : ℕ) (result : Result) : Decidable (result.Fits s start) := by
  cases result <;> unfold Result.Fits <;> infer_instance

/-- One event. -/
def step (s : SockSendall) : Event → Option SockSendall
  | .call c => if s.called = false then some (sendall c) else none
  | .complete result =>
    match s.write with
    | some ⟨start, none⟩ => if result.Fits s start then some (s.complete start result) else none
    | _ => none
  | .run cancelled objects queue =>
    match s.write with
    | some ⟨_, some result⟩ => some ({ s with write := none }.callback result cancelled objects queue)
    | _ => none
  | .close =>
    match s.write with
    | some ⟨_, none⟩ => some ({ s with write := none }.callback (.written 0) true true .refused)
    | _ => none
  | .reuse bytes => if s.released .buffer ≠ 0 then some { s with buffer := bytes } else none

/-- How many bytes of the data a write and those before it have written. -/
def Write.reached (w : Write) : ℕ :=
  w.start + match w.result with
    | some (.written n) => n
    | _ => 0

/-- The future has been resolved. -/
def Future.Done : Future → Prop
  | .result | .exception _ => True
  | _ => False

/-- The bytes written are the beginning of the data, each written once. The future is pending as long as there is a
write, and has been resolved once when it is not pending any more: with its result exactly when all of the data is
written. A call that raised has written nothing. Whatever was taken is released once, when there is no write. -/
structure Sound (s : SockSendall) : Prop where
  order : s.sent <+: s.data
  pending : s.future = .pending ↔ s.write ≠ none
  once : (s.future.Done ∧ s.resolutions = 1) ∨ (¬s.future.Done ∧ s.resolutions = 0)
  succeeded : s.future.Done → (s.future = .result ↔ s.sent = s.data)
  raised : s.future = .absent → s.sent = []
  released : ∀ r, s.taken r ≤ 1 ∧ s.released r + (if s.write = none then 0 else 1) = s.taken r

/-- The call gets to `io.queue`. -/
def Call.Queues (c : Call) : Prop :=
  c.accepted = true ∧ c.future = true ∧ c.data ≠ [] ∧ c.buffer = true ∧ c.state = true

/-- The condition on an event: `io.queue` does not fail with the write in the ring, and the callback of the write
that was the last is not run with the cancelled flag. -/
def Holds (s : SockSendall) : Event → Prop
  | .call c => s.called = false → c.Queues → c.queue ≠ .left
  | .run cancelled _ queue =>
    ∀ start n, s.write = some ⟨start, some (.written n)⟩ →
      if s.offset + n < s.buffer.length then cancelled = false → queue ≠ .left else cancelled = false
  | _ => True

/-- What holds in every run: as long as the buffer has not been freed, a write goes on where the last ended. -/
def Inv (s : SockSendall) : Prop :=
  ∀ w, s.write = some w → s.released .buffer = 0 →
    s.buffer = s.data ∧ w.start = s.offset ∧ s.offset < s.data.length ∧ w.reached ≤ s.data.length ∧
      s.sent = s.data.take w.reached

variable {s s' : SockSendall} {w : Write} {start : ℕ} {result : Result}

theorem Sound.new : Sound new :=
  ⟨List.prefix_refl _, ⟨Future.noConfusion, fun h => absurd rfl h⟩, .inr ⟨id, rfl⟩, fun h => h.elim, fun _ => rfl,
    fun _ => ⟨Nat.zero_le _, rfl⟩⟩

theorem Inv.new : Inv new := fun _ h => nomatch h

theorem Future.done_result : Future.result.Done := trivial

theorem Future.done_exception (exc : Exn) : (Future.exception exc).Done := trivial

theorem setResult_of_pending (h : s.future = .pending) : s.setResult = s.resolve .result := if_pos h

theorem setException_of_pending (h : s.future = .pending) (exc : Exn) :
    s.setException exc = s.resolve (.exception exc) := if_pos h

/-- As long as there is a write nothing has been released. -/
theorem Sound.held (h : Sound s) (hw : s.write = some w) (r : Resource) : s.released r = 0 ∧ s.taken r = 1 := by
  obtain ⟨htaken, hreleased⟩ := h.released r
  rw [if_neg (by simp [hw])] at hreleased
  omega

/-- A write in the ring when everything has been released. -/
theorem Sound.not_left (h : Sound s) (hw : s.write = some w) (hwrite : s'.write ≠ none)
    (htaken : s'.taken = s.taken) (hreleased : s'.released = fun r => s.released r + 1) : ¬Sound s' := by
  intro h'
  obtain ⟨-, hsum⟩ := h'.released .state
  obtain ⟨hzero, hone⟩ := h.held hw .state
  rw [if_neg hwrite, htaken, hreleased, hone] at hsum
  exact absurd hsum (by simp [hzero])

/-- The call ends: sound when the future gets its result exactly if all of the data is written. -/
theorem Sound.ends_iff (h : Sound s) (hw : s.write = some w) (offset : ℕ) {future : Future} (hdone : future.Done) :
    Sound ({ s with write := none, offset := offset }.resolve future).cleanup ↔
      (future = .result ↔ s.sent = s.data) := by
  constructor
  · intro h'
    exact h'.succeeded hdone
  · intro hiff
    have hpending := h.pending.2 (by simp [hw])
    have hunresolved : s.resolutions = 0 := by
      rcases h.once with ⟨hdone', -⟩ | ⟨-, hzero⟩
      · rw [hpending] at hdone'
        exact hdone'.elim
      · exact hzero
    constructor
    · exact h.order
    · refine iff_of_false ?_ (fun hne => hne rfl)
      rintro rfl
      exact hdone
    · exact .inl ⟨hdone, congrArg Nat.succ hunresolved⟩
    · exact fun _ => hiff
    · rintro rfl
      exact hdone.elim
    · intro r
      obtain ⟨hzero, hone⟩ := h.held hw r
      exact ⟨hone.le, by simp [cleanup, resolve, hzero, hone]⟩

/-- The rest is queued. -/
theorem Sound.requeued (h : Sound s) (hw : s.write = some w) (offset : ℕ) :
    Sound { s with write := none, offset := offset }.queueWrite := by
  have hpending := h.pending.2 (by simp [hw])
  constructor
  · exact h.order
  · exact iff_of_true hpending (Option.some_ne_none _)
  · exact h.once
  · exact h.succeeded
  · exact h.raised
  · intro r
    obtain ⟨hzero, hone⟩ := h.held hw r
    exact ⟨hone.le, by simp [queueWrite, hzero, hone]⟩

/-! ### What the events do -/

theorem complete_eq (hs : s.step (.complete result) = some s') :
    ∃ start, s.write = some ⟨start, none⟩ ∧ result.Fits s start ∧
      s' = s.complete start result := by
  simp only [step] at hs
  split at hs
  · rename_i start hw
    obtain ⟨hfits, hs⟩ := Option.ite_none_right_eq_some.1 hs
    exact ⟨start, hw, hfits, (Option.some.inj hs).symm⟩
  · exact nomatch hs

theorem run_eq {cancelled objects : Bool} {queue : Queue} (hs : s.step (.run cancelled objects queue) = some s') :
    ∃ start result, s.write = some ⟨start, some result⟩ ∧
      s' = { s with write := none }.callback result cancelled objects queue := by
  simp only [step] at hs
  split at hs
  · rename_i start result hw
    exact ⟨start, result, hw, (Option.some.inj hs).symm⟩
  · exact nomatch hs

theorem close_eq (hs : s.step .close = some s') :
    ∃ start, s.write = some ⟨start, none⟩ ∧
      s' = { s with write := none }.callback (.written 0) true true .refused := by
  simp only [step] at hs
  split at hs
  · rename_i start hw
    exact ⟨start, hw, (Option.some.inj hs).symm⟩
  · exact nomatch hs

@[simp] theorem setException_write (s : SockSendall) (exc : Exn) : (s.setException exc).write = s.write := by
  unfold setException
  split_ifs <;> rfl

@[simp] theorem setResult_write (s : SockSendall) : s.setResult.write = s.write := by
  unfold setResult
  split_ifs <;> rfl

@[simp] theorem setException_released (s : SockSendall) (exc : Exn) :
    (s.setException exc).released = s.released := by
  unfold setException
  split_ifs <;> rfl

@[simp] theorem setException_taken (s : SockSendall) (exc : Exn) : (s.setException exc).taken = s.taken := by
  unfold setException
  split_ifs <;> rfl

theorem callback_rest {n : ℕ} (h : s.offset + n < s.buffer.length) (objects : Bool) (queue : Queue) :
    s.callback (.written n) false objects queue =
      match queue with
      | .queued => { s with offset := s.offset + n }.queueWrite
      | .refused => ({ s with offset := s.offset + n }.setException .other).cleanup
      | .left => ({ s with offset := s.offset + n }.queueWrite.setException .other).cleanup := if_pos h

theorem callback_last {n : ℕ} (h : ¬s.offset + n < s.buffer.length) (objects : Bool) (queue : Queue) :
    s.callback (.written n) false objects queue = { s with offset := s.offset + n }.setResult.cleanup := if_neg h

/-- The callback leaves no write, or has freed the buffer, or the rest is queued. -/
theorem callback_write (s : SockSendall) (result : Result) (cancelled objects : Bool) (queue : Queue) :
    (s.callback result cancelled objects queue).write = s.write ∨
      (s.callback result cancelled objects queue).released .buffer ≠ 0 ∨
      ∃ n, result = .written n ∧ s.offset + n < s.buffer.length ∧
        s.callback result cancelled objects queue = { s with offset := s.offset + n }.queueWrite := by
  cases cancelled with
  | true => exact .inl (setException_write s _)
  | false =>
    cases result with
    | error err => exact .inl (setException_write s _)
    | written n =>
      by_cases hrest : s.offset + n < s.buffer.length
      · rw [callback_rest hrest]
        cases queue with
        | queued => exact .inr (.inr ⟨n, rfl, hrest, rfl⟩)
        | refused => exact .inl (setException_write _ _)
        | left => exact .inr (.inl (Nat.succ_ne_zero _))
      · rw [callback_last hrest]
        exact .inl (setResult_write _)

/-- A call that does not get to `io.queue` leaves no write. -/
theorem sendall_write {c : Call} (h : ¬c.Queues) : (sendall c).write = none := by
  unfold sendall
  dsimp only
  split_ifs with haccepted hfuture hempty hbuffer hstate
  · rfl
  · rfl
  · rfl
  · rfl
  · rfl
  · simp only [Bool.not_eq_false] at haccepted hfuture hbuffer hstate
    exact absurd ⟨haccepted, hfuture, hempty, hbuffer, hstate⟩ h

theorem sendall_of_queues {c : Call} (h : c.Queues) :
    sendall c =
      match c.queue with
      | .queued => { (begun c).queueWrite with future := .pending }
      | .refused => (begun c).cleanup
      | .left => (begun c).queueWrite.cleanup := by
  obtain ⟨haccepted, hfuture, hempty, hbuffer, hstate⟩ := h
  simp [sendall, haccepted, hfuture, hempty, hbuffer, hstate]

theorem Inv.sendall (c : Call) : Inv (sendall c) := by
  intro w hw hfree
  by_cases hqueues : c.Queues
  · rw [sendall_of_queues hqueues] at hw hfree ⊢
    obtain ⟨-, -, hempty, -, -⟩ := hqueues
    cases hq : c.queue with
    | queued =>
      rw [hq] at hw
      obtain rfl := Option.some.inj hw
      exact ⟨rfl, rfl, List.length_pos_iff.2 hempty, Nat.zero_le _, rfl⟩
    | refused =>
      rw [hq] at hw
      exact nomatch hw
    | left =>
      rw [hq] at hfree
      exact absurd hfree (Nat.succ_ne_zero _)
  · exact nomatch (sendall_write hqueues).symm.trans hw

theorem Inv.step {e : Event} (h : Inv s) (hs : s.step e = some s') : Inv s' := by
  cases e with
  | call c =>
    obtain ⟨-, hs⟩ := Option.ite_none_right_eq_some.1 hs
    obtain rfl := Option.some.inj hs
    exact Inv.sendall c
  | complete result =>
    obtain ⟨start, hw, hfits, rfl⟩ := complete_eq hs
    intro w hw' hfree
    obtain rfl := Option.some.inj hw'
    obtain ⟨hbuffer, hstart, hoffset, -, hsent⟩ := h _ hw hfree
    cases result with
    | error err =>
      refine ⟨hbuffer, hstart, hoffset, ?_, ?_⟩
      · exact (Nat.le_of_eq hstart).trans hoffset.le
      · exact (List.append_nil _).trans hsent
    | written n =>
      have hn : start + n ≤ s.buffer.length := hfits
      refine ⟨hbuffer, hstart, hoffset, hbuffer ▸ hn, ?_⟩
      show s.sent ++ (s.buffer.drop start).take n = s.data.take (start + n)
      rw [hsent, hbuffer, List.take_add]
      rfl
  | run cancelled objects queue =>
    obtain ⟨start, result, hw, rfl⟩ := run_eq hs
    intro w hw' hfree
    obtain hnone | hfreed | ⟨n, rfl, hrest, heq⟩ :=
      callback_write { s with write := none } result cancelled objects queue
    · exact nomatch hnone.symm.trans hw'
    · exact absurd hfree hfreed
    · rw [heq] at hw' hfree ⊢
      obtain rfl := Option.some.inj hw'
      obtain ⟨hbuffer, hstart, -, hreached, hsent⟩ := h _ hw hfree
      have hreach : Write.reached ⟨start, some (.written n)⟩ = s.offset + n := congrArg (· + n) hstart
      rw [hreach] at hreached hsent
      exact ⟨hbuffer, rfl, hbuffer ▸ hrest, hreached, hsent⟩
  | close =>
    obtain ⟨start, hw, rfl⟩ := close_eq hs
    intro w hw'
    exact nomatch (setException_write { s with write := none } _).symm.trans hw'
  | reuse bytes =>
    obtain ⟨hfreed, hs⟩ := Option.ite_none_right_eq_some.1 hs
    obtain rfl := Option.some.inj hs
    intro w _ hfree
    exact absurd hfree hfreed

/-! ### When the call is sound -/

/-- A call that does not get to `io.queue` is over when it returns. -/
theorem Sound.of_not_queues {c : Call} (h : ¬c.Queues) : Sound (sendall c) := by
  have hraises : ∀ s : SockSendall, s.sent = [] → s.write = none → s.future = .absent → s.resolutions = 0 →
      (∀ r, s.taken r ≤ 1 ∧ s.released r = s.taken r) → Sound s := by
    intro s hsent hw hfuture hres hreleased
    refine ⟨hsent ▸ List.nil_prefix, by simp [hfuture, hw], .inr ⟨by simp [hfuture, Future.Done], hres⟩, ?_,
      fun _ => hsent, by simpa [hw] using hreleased⟩
    rw [hfuture]
    exact False.elim
  unfold sendall
  dsimp only
  split_ifs with haccepted hfuture hempty hbuffer hstate
  · exact hraises _ rfl rfl rfl rfl fun _ => ⟨Nat.zero_le _, rfl⟩
  · exact hraises _ rfl rfl rfl rfl fun _ => ⟨Nat.zero_le _, rfl⟩
  · -- nothing to write: the future gets its result at once
    rw [setResult_of_pending rfl]
    refine ⟨List.nil_prefix, by simp [resolve, SockSendall.new], .inl ⟨trivial, rfl⟩, ?_, ?_, fun _ => ⟨Nat.zero_le _, rfl⟩⟩
    · exact fun _ => iff_of_true rfl hempty.symm
    · exact fun h => Future.noConfusion h
  · exact hraises _ rfl rfl rfl rfl fun _ => ⟨Nat.zero_le _, rfl⟩
  · refine hraises _ rfl rfl rfl rfl fun r => ?_
    cases r <;> simp [SockSendall.new]
  · simp only [Bool.not_eq_false] at haccepted hfuture hbuffer hstate
    exact absurd ⟨haccepted, hfuture, hempty, hbuffer, hstate⟩ h

/-- A call is sound unless `io.queue` fails with its write in the ring. -/
theorem sound_sendall_iff (c : Call) : Sound (sendall c) ↔ (c.Queues → c.queue ≠ .left) := by
  by_cases hqueues : c.Queues
  · rw [sendall_of_queues hqueues]
    simp only [hqueues, true_implies]
    cases hq : c.queue with
    | queued =>
      refine iff_of_true ?_ Queue.noConfusion
      refine ⟨List.nil_prefix, by simp [queueWrite], .inr ⟨id, rfl⟩, fun h => h.elim, ?_, ?_⟩
      · exact fun h => Future.noConfusion h
      · exact fun r => ⟨le_refl _, rfl⟩
    | refused =>
      refine iff_of_true ?_ Queue.noConfusion
      refine ⟨List.nil_prefix, by simp [cleanup, begun, SockSendall.new], .inr ⟨id, rfl⟩, fun h => h.elim, fun _ => rfl, ?_⟩
      exact fun r => ⟨le_refl _, rfl⟩
    | left =>
      refine iff_of_false ?_ fun h => h rfl
      intro h
      exact absurd (h.pending.2 (Option.some_ne_none _)) Future.noConfusion
  · exact iff_of_true (.of_not_queues hqueues) fun h => absurd h hqueues

/-- The kernel completes the write. -/
theorem Sound.complete (hinv : Inv s) (h : Sound s) (hw : s.write = some ⟨start, none⟩)
    (hfits : result.Fits s start) : Sound (s.complete start result) := by
  obtain ⟨hfree, -⟩ := h.held hw .buffer
  have hpending := h.pending.2 (by simp [hw])
  have hinv' : Inv (s.complete start result) := hinv.step (e := .complete result) (by simp [step, hw, hfits])
  obtain ⟨-, -, -, -, hsent⟩ := hinv' _ rfl hfree
  constructor
  · rw [hsent]
    exact List.take_prefix _ _
  · exact iff_of_true hpending (Option.some_ne_none _)
  · exact h.once
  · intro hdone
    rw [show (s.complete start result).future = .pending from hpending] at hdone
    exact hdone.elim
  · intro habsent
    exact Future.noConfusion (hpending.symm.trans habsent)
  · intro r
    have hr := h.released r
    rw [hw] at hr
    exact hr

/-- All of the data has been written when the write has got to its end. -/
theorem sent_eq_iff (hinv : Inv s) (h : Sound s) (hw : s.write = some w) :
    s.sent = s.data ↔ ¬w.reached < s.data.length := by
  obtain ⟨-, -, -, hreached, hsent⟩ := hinv _ hw (h.held hw .buffer).1
  rw [hsent, List.take_eq_self_iff, not_lt]

/-- The future gets an exception: sound when not all of the data is written. -/
theorem sound_exception_iff (hinv : Inv s) (h : Sound s) (hw : s.write = some w) (offset : ℕ) (exc : Exn) :
    Sound ({ s with write := none, offset := offset }.setException exc).cleanup ↔ w.reached < s.data.length := by
  have hpending := h.pending.2 (by simp [hw])
  rw [@setException_of_pending { s with write := none, offset := offset } hpending,
    h.ends_iff hw offset (Future.done_exception exc), sent_eq_iff hinv h hw]
  simp

/-- The callback of a completed write. -/
theorem sound_run_iff {cancelled objects : Bool} {queue : Queue} (hinv : Inv s) (h : Sound s)
    (hw : s.write = some ⟨start, some result⟩) :
    Sound ({ s with write := none }.callback result cancelled objects queue) ↔
      Holds s (.run cancelled objects queue) := by
  obtain ⟨hbuffer, hstart, hoffset, -, -⟩ := hinv _ hw (h.held hw .buffer).1
  have hpending := h.pending.2 (by simp [hw])
  cases result with
  | error err =>
    have hreached : Write.reached ⟨start, some (.error err)⟩ < s.data.length := lt_of_eq_of_lt hstart hoffset
    refine iff_of_true ?_ fun start n hw' => by simp [hw] at hw'
    cases cancelled with
    | true => exact (sound_exception_iff hinv h hw s.offset _).2 hreached
    | false => exact (sound_exception_iff hinv h hw s.offset _).2 hreached
  | written n =>
    have hreached : Write.reached ⟨start, some (.written n)⟩ = s.offset + n := congrArg (· + n) hstart
    have hholds : Holds s (.run cancelled objects queue) ↔
        if s.offset + n < s.data.length then cancelled = false → queue ≠ .left else cancelled = false := by
      simp [Holds, hw, hbuffer]
    rw [hholds]
    cases cancelled with
    | true =>
      have hexc := sound_exception_iff hinv h hw s.offset (.runtimeError "Socket operation cancelled")
      rw [hreached] at hexc
      refine hexc.trans ?_
      simp
    | false =>
      by_cases hrest : s.offset + n < s.data.length
      · rw [callback_rest (s := { s with write := none }) (hbuffer ▸ hrest), if_pos hrest]
        simp only [true_implies]
        cases queue with
        | queued => exact iff_of_true (h.requeued hw _) Queue.noConfusion
        | refused =>
          refine iff_of_true ?_ Queue.noConfusion
          exact (sound_exception_iff hinv h hw _ _).2 (hreached ▸ hrest)
        | left =>
          refine iff_of_false (h.not_left hw ?_ ?_ ?_) fun hne => hne rfl
          · exact fun hnone => Option.some_ne_none _ ((setException_write _ _).symm.trans hnone)
          · exact setException_taken _ _
          · exact congrArg (fun f : Resource → ℕ => fun r => f r + 1) (setException_released _ _)
      · rw [callback_last (s := { s with write := none }) (hbuffer ▸ hrest), if_neg hrest,
          @setResult_of_pending { s with write := none, offset := s.offset + n } hpending,
          h.ends_iff hw _ Future.done_result, sent_eq_iff hinv h hw, hreached]
        exact iff_of_true (iff_of_true rfl hrest) rfl

/-- One event is sound exactly when it meets the condition. -/
theorem sound_iff {e : Event} (hinv : Inv s) (h : Sound s) (hs : s.step e = some s') :
    Sound s' ↔ Holds s e := by
  cases e with
  | call c =>
    obtain ⟨hcalled, hs⟩ := Option.ite_none_right_eq_some.1 hs
    obtain rfl := Option.some.inj hs
    simp [sound_sendall_iff, Holds, hcalled]
  | complete result =>
    obtain ⟨start, hw, hfits, rfl⟩ := complete_eq hs
    exact iff_of_true (h.complete hinv hw hfits) trivial
  | run cancelled objects queue =>
    obtain ⟨start, result, hw, rfl⟩ := run_eq hs
    exact sound_run_iff hinv h hw
  | close =>
    obtain ⟨start, hw, rfl⟩ := close_eq hs
    obtain ⟨-, hstart, hoffset, -, -⟩ := hinv _ hw (h.held hw .buffer).1
    refine iff_of_true ?_ trivial
    exact (sound_exception_iff hinv h hw s.offset _).2 (lt_of_eq_of_lt hstart hoffset)
  | reuse bytes =>
    obtain ⟨-, hs⟩ := Option.ite_none_right_eq_some.1 hs
    obtain rfl := Option.some.inj hs
    exact iff_of_true ⟨h.order, h.pending, h.once, h.succeeded, h.raised, h.released⟩ trivial

theorem holds_of_none {e : Event} (hs : s.step e = none) : Holds s e := by
  cases e with
  | call c =>
    intro hcalled
    simp [step, hcalled] at hs
  | run cancelled objects queue =>
    intro start n hw
    simp [step, hw] at hs
  | complete result => trivial
  | close => trivial
  | reuse bytes => trivial

/-- In a run the bytes written are the beginning of the data, the future is resolved once, with its result exactly
when all of the data is written, and everything that was taken is released once, exactly when `io.queue` never
fails with the write in the ring and the callback of the last write is not run with the cancelled flag. -/
theorem sendall_sound_iff (es : List Event) :
    Runs.Always step Sound new es ↔ Runs.Along step Holds new es :=
  Runs.always_iff_along Inv.new Sound.new (fun _ _ _ => Inv.step) (fun _ _ _ => sound_iff)
    fun _ _ => holds_of_none

/-- The rest of a write gets into the ring although `io.queue` fails: the state is released twice, and what
is written is not the data. And a call whose data is all written gets an exception. -/
theorem write_left :
    ((Runs.exec step new [.call ⟨[1, 2, 3], true, true, true, true, .queued⟩, .complete (.written 1),
        .run false true .left, .reuse [7, 8, 9], .complete (.written 2), .run false true .queued]).map fun s =>
          (s.sent, s.future, s.taken .state, s.released .state)) = some ([1, 8, 9], .exception .other, 1, 2) ∧
      ((Runs.exec step new [.call ⟨[1, 2, 3], true, true, true, true, .queued⟩, .complete (.written 3),
        .run true true .queued]).map fun s => (s.sent, s.future)) =
          some ([1, 2, 3], .exception (.runtimeError "Socket operation cancelled")) ∧
      ¬Runs.Always step Sound new [.call ⟨[1, 2, 3], true, true, true, true, .queued⟩, .complete (.written 1),
        .run false true .left, .reuse [7, 8, 9], .complete (.written 2), .run false true .queued] := by
  refine ⟨by decide, by decide, fun h => ?_⟩
  exact absurd (h.last rfl).order (by decide)

end SockSendall

end Talyn
