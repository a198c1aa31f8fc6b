import Talyn.Loop.UnixSignals

/-!
# Reading signals

The reads of the signal descriptor: `enqueue_signal_fd`, with which `link` and a thread that takes over
the ring arm a read, and the completion callback `signal_handler`, which arms the next one. All reads
share one buffer. `blocking_task_id` is what these places know of the read in flight; it is cleared when
the callback runs, not when the kernel completes the read.

The task of a read is a number that is not used again. An address can be: then it is that of a later
read, which is known by it.
-/

namespace Talyn

namespace SignalReads

open Signals

/-- A read in flight. -/
structure Read where
  task : ℕ
  /-- a `CancelIO` was submitted for it -/
  cancelled : Bool
  deriving DecidableEq, Repr

/-- How a read ends: with `ECANCELED`, with another error, or with `res` bytes in the buffer and the number
of the signal among them. -/
inductive Result
  | canceled
  | error
  | success (res signo : ℕ)
  deriving DecidableEq, Repr

/-- The operation `enqueue_signal_fd` fails for. When `queue_unlocked` fails in its flush, the operation is in the
ring all the same (`left`). -/
inductive QueueFailure
  | cancel (left : Bool)
  | read (left : Bool)
  deriving DecidableEq, Repr

/-- How the last part of `link` ends: it fails before the read is queued, `enqueue_signal_fd` fails, or the
callback is stored, whatever happens after that. -/
inductive Linked
  | signalfdFails
  | enqueueFails (failure : QueueFailure)
  | stored
  deriving DecidableEq, Repr

/-- What the callback of a read meets: the dispatch of the signal's callback fails, or `io.queue` fails for the
next read, which can be in the ring all the same (`left`). -/
inductive Rearm
  | dispatchFails
  | queueFails (left : Bool)
  | succeeds
  deriving DecidableEq, Repr

end SignalReads

open SignalReads Signals in
/-- The reads of the signal descriptor. -/
structure SignalReads where
  /-- the loop is open -/
  alive : Bool
  /-- the signals that have a callback -/
  linked : List ℕ
  /-- `blocking_task_id` -/
  blockingTaskId : ℕ
  inFlight : List Read
  /-- the reads that were completed, and whose callback has not run -/
  completed : List Result
  /-- the next task -/
  next : ℕ
  /-- `loop.stopping` was set by an error -/
  stopping : Bool
  deriving DecidableEq, Repr

namespace SignalReads

open Signals

/-- Before the first `link`. -/
def new : SignalReads where
  alive := true
  linked := []
  blockingTaskId := 0
  inFlight := []
  completed := []
  next := 1
  stopping := false

/-- The size of `signalfd_siginfo`. -/
def siginfoSize : ℕ := 128

/-- Submit a `CancelIO` for a task. -/
def cancel (s : SignalReads) (task : ℕ) : SignalReads :=
  { s with inFlight :=
      s.inFlight.map fun r => if r.task = task then { r with cancelled := true } else r }

/-- Queue a read and store its task. -/
def arm (s : SignalReads) : SignalReads :=
  { s with
    inFlight := s.inFlight ++ [⟨s.next, false⟩]
    blockingTaskId := s.next
    next := s.next + 1 }

/-- A read is in the ring, although `io.queue` has failed: its task is not stored. -/
def leave (s : SignalReads) : SignalReads :=
  { s with inFlight := s.inFlight ++ [⟨s.next, false⟩], next := s.next + 1 }

/-- The `CancelIO` of `enqueue_signal_fd`, when it is asked to cancel the old read. -/
def cancelOld (s : SignalReads) : SignalReads :=
  if s.blockingTaskId > 0 then s.cancel s.blockingTaskId else s

/-- The end of `link`, from `signalfd` on. -/
def link (s : SignalReads) (sig : ℕ) : Linked → SignalReads
  | .signalfdFails | .enqueueFails (.cancel false) => s
  | .enqueueFails (.cancel true) | .enqueueFails (.read false) => s.cancelOld
  | .enqueueFails (.read true) => s.cancelOld.leave
  | .stored =>
    { s.cancelOld.arm with linked := if sig ∈ s.linked then s.linked else sig :: s.linked }

/-- `unlink`, which does not read; a callback is removed whatever fails. -/
def unlink (s : SignalReads) (sig : ℕ) : SignalReads := { s with linked := s.linked.erase sig }

/-- `signal_handler` for a completed read. -/
def signalHandler (s : SignalReads) (result : Result) (rearm : Rearm) : SignalReads :=
  match result with
  | .canceled => s
  | .error => { s with blockingTaskId := 0, stopping := true }
  | .success res signo =>
    let s := { s with blockingTaskId := 0 }
    if res < siginfoSize then s
    else if signo < 1 ∨ signo > 64 then s
    else
      match rearm with
      | .dispatchFails => if signo ∈ s.linked then s else s.arm
      | .queueFails left => if left then s.leave else s
      | .succeeds => s.arm

/-- `ensure_ring_for_current_thread`, once only the two persistent reads are found in the ring that is
given up; with `ok` the read is queued on the new one, which is closed otherwise. -/
def handOver (s : SignalReads) (ok : Bool) : SignalReads :=
  let s := { s with inFlight := [] }
  if ok then s.arm else s

/-- `deinit`; with `cancels` its `CancelIO` gets into the ring. -/
def deinit (s : SignalReads) (cancels : Bool) : SignalReads :=
  { (if cancels then s.cancelOld else s) with blockingTaskId := 0, linked := [], alive := false }

/-- What can happen. -/
inductive Event
  | link (sig : ℕ) (outcome : Linked)
  | unlink (sig : ℕ)
  /-- the kernel completes a read -/
  | complete (r : Read) (result : Result)
  /-- the callback of the read that was completed first runs -/
  | callback (rearm : Rearm)
  | handOver (ok : Bool)
  | deinit (cancels : Bool)
  deriving DecidableEq, Repr

/-- One event; `none` when it cannot happen. A read ends with `ECANCELED` only when that was asked for, and a
ring is handed over only before anything was submitted. -/
def step (s : SignalReads) : Event → Option SignalReads
  | .link sig outcome => if s.alive then some (s.link sig outcome) else none
  | .unlink sig => if s.alive then some (s.unlink sig) else none
  | .complete r result =>
    if r ∈ s.inFlight ∧ (result = .canceled → r.cancelled = true) then
      some { s with inFlight := s.inFlight.erase r, completed := s.completed ++ [result] }
    else none
  | .callback rearm =>
    match s.completed with
    | [] => none
    | result :: completed =>
      let s := { s with completed := completed }
      -- the callbacks of a loop that is closed are cancelled
      some (if s.alive then s.signalHandler result rearm else s)
  | .handOver ok =>
    if s.alive ∧ s.completed = [] ∧ s.inFlight.length ≤ 1 ∧
        ∀ r ∈ s.inFlight, r = ⟨s.blockingTaskId, false⟩ then
      some (s.handOver ok)
    else none
  | .deinit cancels => if s.alive then some (s.deinit cancels) else none

/-- The reads in flight for which no cancel was submitted. -/
def active (s : SignalReads) : List Read := s.inFlight.filter (!·.cancelled)

/-- At most one read uses the buffer, and while the loop is alive and a signal is linked, a read is in flight
or its callback is to come. -/
structure Reading (s : SignalReads) : Prop where
  single : s.active.length ≤ 1
  served : s.alive = true → s.linked ≠ [] → s.inFlight ≠ [] ∨ s.completed ≠ []

/-- A read gets into the ring. -/
def Linked.arms : Linked → Bool
  | .stored | .enqueueFails (.read true) => true
  | _ => false

/-- The callback arms the next read. -/
def Rearms (s : SignalReads) (result : Result) (rearm : Rearm) : Prop :=
  match result with
  | .success res signo => siginfoSize ≤ res ∧ 1 ≤ signo ∧ signo ≤ 64 ∧
      (rearm = .succeeds ∨ rearm = .queueFails true ∨ rearm = .dispatchFails ∧ signo ∉ s.linked)
  | _ => False

/-- The condition on an event. A `link` that arms a read knows all reads that were not cancelled; a
callback that arms one runs when there are none; one that does not is not the last while a signal is
linked; and a ring is handed over with its read. -/
def Careful (s : SignalReads) : Event → Prop
  | .link _ outcome => outcome.arms = true → s.alive = true →
      ∀ r ∈ s.active, r.task = s.blockingTaskId ∧ 0 < r.task
  | .callback rearm => s.alive = true → ∀ result completed, s.completed = result :: completed →
      (s.Rearms result rearm → s.active = []) ∧
      (¬ s.Rearms result rearm → s.linked ≠ [] → s.inFlight ≠ [] ∨ completed ≠ [])
  | .handOver ok => s.alive = true → s.completed = [] → s.inFlight.length ≤ 1 →
      (∀ r ∈ s.inFlight, r = ⟨s.blockingTaskId, false⟩) → ok = true ∨ s.linked = []
  | _ => True

theorem active_cancel (s : SignalReads) (task : ℕ) :
    (s.cancel task).active = s.active.filter (·.task ≠ task) := by
  unfold active cancel
  dsimp only
  induction s.inFlight with
  | nil => rfl
  | cons r reads ih =>
    rw [List.map_cons]
    by_cases hc : r.cancelled = true
    · by_cases ht : r.task = task
      · simpa [ht, hc] using ih
      · simpa [ht, hc] using ih
    · by_cases ht : r.task = task
      · simpa [ht, hc] using ih
      · simpa [ht, hc] using ih

theorem active_leave (s : SignalReads) : s.leave.active = s.active ++ [⟨s.next, false⟩] := by
  simp [active, leave]

theorem length_active_cancelOld (s : SignalReads) : s.cancelOld.active.length ≤ s.active.length := by
  unfold cancelOld
  split
  · rw [active_cancel]
    exact List.length_filter_le ..
  · exact le_rfl

/-- After `cancelOld` nothing is active exactly when the stored task was that of all active reads. -/
theorem active_cancelOld_eq_nil (s : SignalReads) :
    s.cancelOld.active = [] ↔ ∀ r ∈ s.active, r.task = s.blockingTaskId ∧ 0 < r.task := by
  unfold cancelOld
  split
  · rename_i hpos
    rw [active_cancel, List.filter_eq_nil_iff]
    constructor
    · intro h r hr
      have ht : r.task = s.blockingTaskId := by simpa using h r hr
      exact ⟨ht, ht ▸ hpos⟩
    · intro h r hr
      simpa using (h r hr).1
  · rename_i hpos
    constructor
    · intro h r hr
      rw [h] at hr
      exact nomatch hr
    · intro h
      refine List.eq_nil_iff_forall_not_mem.2 fun r hr => ?_
      obtain ⟨ht, hp⟩ := h r hr
      omega

theorem length_active_leave (s : SignalReads) : s.leave.active.length ≤ 1 ↔ s.active = [] := by
  rw [active_leave, List.length_append, List.length_singleton, ← List.length_eq_zero_iff]
  omega

/-- Only these fields count. -/
def SameReads (s t : SignalReads) : Prop :=
  t.inFlight = s.inFlight ∧ t.linked = s.linked ∧ t.alive = s.alive ∧ t.completed = s.completed

/-- The callback arms the next read, or leaves the reads alone. -/
theorem signalHandler_cases (s : SignalReads) (result : Result) (rearm : Rearm) :
    (s.Rearms result rearm ∧ ∃ t, SameReads s t ∧ SameReads t.leave (s.signalHandler result rearm)) ∨
      (¬ s.Rearms result rearm ∧ SameReads s (s.signalHandler result rearm)) := by
  unfold Rearms signalHandler
  cases result with
  | canceled => exact .inr ⟨id, rfl, rfl, rfl, rfl⟩
  | error => exact .inr ⟨id, rfl, rfl, rfl, rfl⟩
  | success res signo =>
    dsimp only
    split
    · rename_i hres
      exact .inr ⟨fun h => by omega, rfl, rfl, rfl, rfl⟩
    · split
      · rename_i hsig
        exact .inr ⟨fun h => by omega, rfl, rfl, rfl, rfl⟩
      · rename_i hres hsig
        have hrange : siginfoSize ≤ res ∧ 1 ≤ signo ∧ signo ≤ 64 := by omega
        cases rearm with
        | queueFails left =>
          cases left with
          | false => exact .inr ⟨by simp, rfl, rfl, rfl, rfl⟩
          | true =>
            exact .inl ⟨⟨hrange.1, hrange.2.1, hrange.2.2, .inr (.inl rfl)⟩,
              { s with blockingTaskId := 0 }, ⟨rfl, rfl, rfl, rfl⟩, rfl, rfl, rfl, rfl⟩
        | succeeds =>
          exact .inl ⟨⟨hrange.1, hrange.2.1, hrange.2.2, .inl rfl⟩,
            { s with blockingTaskId := 0 }, ⟨rfl, rfl, rfl, rfl⟩, rfl, rfl, rfl, rfl⟩
        | dispatchFails =>
          dsimp only
          split
          · rename_i hmem
            exact .inr ⟨by simp [hmem], rfl, rfl, rfl, rfl⟩
          · rename_i hmem
            exact .inl ⟨⟨hrange.1, hrange.2.1, hrange.2.2, .inr (.inr ⟨rfl, hmem⟩)⟩,
              { s with blockingTaskId := 0 }, ⟨rfl, rfl, rfl, rfl⟩, rfl, rfl, rfl, rfl⟩

theorem SameReads.active {s t : SignalReads} (h : SameReads s t) : t.active = s.active := by
  unfold SignalReads.active
  rw [h.1]

theorem SameReads.reading {s t : SignalReads} (h : SameReads s t) (hs : s.Reading) : t.Reading := by
  obtain ⟨hflight, hlinked, halive, hcompleted⟩ := h
  refine ⟨(SameReads.active ⟨hflight, hlinked, halive, hcompleted⟩).symm ▸ hs.single, ?_⟩
  rw [hflight, hlinked, halive, hcompleted]
  exact hs.served

theorem SameReads.symm {s t : SignalReads} (h : SameReads s t) : SameReads t s :=
  ⟨h.1.symm, h.2.1.symm, h.2.2.1.symm, h.2.2.2.symm⟩

/-- A read that just got into the ring serves; it is the only one if there was none. -/
theorem reading_leave {s t : SignalReads} (h : SameReads s.leave t) : t.Reading ↔ s.active = [] := by
  constructor
  · exact fun ht => (length_active_leave s).1 (h.symm.reading ht).single
  · intro hs
    refine h.reading ⟨(length_active_leave s).2 hs, fun _ _ => .inl ?_⟩
    simp [leave]

theorem Reading.cancelOld {s : SignalReads} (h : s.Reading) : s.cancelOld.Reading := by
  refine ⟨(length_active_cancelOld s).trans h.single, fun ha hl => ?_⟩
  unfold SignalReads.cancelOld at ha hl ⊢
  split_ifs at ha hl ⊢
  · simpa [cancel] using h.served ha hl
  · exact h.served ha hl

theorem Reading.link_iff {s : SignalReads} (h : s.Reading) (ha : s.alive = true) (sig : ℕ)
    (outcome : Linked) : (s.link sig outcome).Reading ↔ s.Careful (.link sig outcome) := by
  have hcareful : (outcome.arms = true → s.alive = true →
      ∀ r ∈ s.active, r.task = s.blockingTaskId ∧ 0 < r.task) ↔
        (outcome.arms = true → s.cancelOld.active = []) := by
    rw [active_cancelOld_eq_nil]
    exact ⟨fun hok harms => hok harms ha, fun hok harms _ => hok harms⟩
  refine Iff.trans ?_ hcareful.symm
  cases outcome with
  | signalfdFails => exact iff_of_true h fun harms => absurd harms Bool.false_ne_true
  | enqueueFails failure =>
    rcases failure with ⟨_ | _⟩ | ⟨_ | _⟩
    · exact iff_of_true h fun harms => absurd harms Bool.false_ne_true
    · exact iff_of_true h.cancelOld fun harms => absurd harms Bool.false_ne_true
    · exact iff_of_true h.cancelOld fun harms => absurd harms Bool.false_ne_true
    · -- the read is in the ring, and no task is stored for it
      have hleft := reading_leave (s := s.cancelOld) (t := s.cancelOld.leave) ⟨rfl, rfl, rfl, rfl⟩
      exact hleft.trans ⟨fun hnil _ => hnil, fun hok => hok rfl⟩
  | stored =>
    have harm := reading_leave (s := s.cancelOld) (t := s.cancelOld.arm) ⟨rfl, rfl, rfl, rfl⟩
    constructor
    · exact fun hr _ => harm.1 ⟨hr.single, fun _ _ => .inl (by simp [arm])⟩
    · intro hok
      exact ⟨(harm.2 (hok rfl)).single, fun _ _ => .inl (by simp [SignalReads.link, arm])⟩

theorem Reading.callback_iff {s : SignalReads} (h : s.Reading) (ha : s.alive = true)
    {result : Result} {completed : List Result} (hc : s.completed = result :: completed)
    (rearm : Rearm) : (signalHandler { s with completed := completed } result rearm).Reading ↔
      s.Careful (.callback rearm) := by
  have hcareful : s.Careful (.callback rearm) ↔
      (s.Rearms result rearm → s.active = []) ∧
        (¬ s.Rearms result rearm → s.linked ≠ [] → s.inFlight ≠ [] ∨ completed ≠ []) := by
    refine ⟨fun hok => hok ha result completed hc, fun hok _ result' completed' hc' => ?_⟩
    obtain ⟨rfl, rfl⟩ := List.cons.inj (hc.symm.trans hc')
    exact hok
  rw [hcareful]
  obtain ⟨hr, t, hsame, hleave⟩ | ⟨hr, hsame⟩ :=
    signalHandler_cases { s with completed := completed } result rearm
  · rw [reading_leave hleave, hsame.active]
    exact ⟨fun he => ⟨fun _ => he, fun hno => absurd hr hno⟩, fun hok => hok.1 hr⟩
  · constructor
    · refine fun hreading => ⟨fun hyes => absurd hyes hr, fun _ hl => ?_⟩
      have hserved := hreading.served (hsame.2.2.1.trans ha) (by rw [hsame.2.1]; exact hl)
      rwa [hsame.1, hsame.2.2.2] at hserved
    · refine fun hok => ⟨by rw [hsame.active]; exact h.single, fun _ hl => ?_⟩
      rw [hsame.2.1] at hl
      rw [hsame.1, hsame.2.2.2]
      exact hok.2 hr hl

theorem Reading.complete {s : SignalReads} (h : s.Reading) (r : Read) (result : Result) :
    Reading { s with inFlight := s.inFlight.erase r, completed := s.completed ++ [result] } := by
  refine ⟨?_, fun _ _ => .inr (by simp)⟩
  exact ((List.erase_sublist.filter _).length_le).trans h.single

theorem Reading.handOver_iff {s : SignalReads} (ok : Bool) (hc : s.completed = [])
    (ha : s.alive = true) : (s.handOver ok).Reading ↔ ok = true ∨ s.linked = [] := by
  unfold SignalReads.handOver
  cases ok with
  | true =>
    refine iff_of_true ?_ (.inl rfl)
    let given := { s with inFlight := [] }
    exact (reading_leave (s := given) (t := given.arm) ⟨rfl, rfl, rfl, rfl⟩).2 rfl
  | false =>
    constructor
    · intro h
      right
      by_contra hl
      obtain hf | hcompleted := h.served ha hl
      · exact hf rfl
      · exact hcompleted hc
    · rintro (h | hl)
      · exact nomatch h
      · exact ⟨Nat.zero_le _, fun _ hne => absurd hl hne⟩

/-- One event keeps the reads in order exactly when it meets the condition. -/
theorem Reading.step_iff {s s' : SignalReads} {e : Event} (h : s.Reading)
    (hs : s.step e = some s') : s'.Reading ↔ s.Careful e := by
  unfold step at hs
  cases e with
  | link sig outcome =>
    dsimp only at hs
    split at hs
    · rename_i ha
      obtain rfl := Option.some.inj hs
      exact h.link_iff ha sig outcome
    · exact nomatch hs
  | unlink sig =>
    dsimp only at hs
    split at hs
    · rename_i ha
      obtain rfl := Option.some.inj hs
      refine iff_of_true ⟨h.single, fun _ hl => h.served ha fun he => hl ?_⟩ trivial
      simp [unlink, he]
    · exact nomatch hs
  | complete r result =>
    dsimp only at hs
    split at hs
    · obtain rfl := Option.some.inj hs
      exact iff_of_true (h.complete r result) trivial
    · exact nomatch hs
  | callback rearm =>
    dsimp only at hs
    split at hs
    · exact nomatch hs
    · rename_i result completed hc
      by_cases ha : s.alive = true
      · rw [if_pos ha] at hs
        obtain rfl := Option.some.inj hs
        exact h.callback_iff ha hc rearm
      · rw [if_neg ha] at hs
        obtain rfl := Option.some.inj hs
        exact iff_of_true ⟨h.single, fun halive => absurd halive ha⟩ fun halive => absurd halive ha
  | handOver ok =>
    dsimp only at hs
    split at hs
    · rename_i hen
      obtain rfl := Option.some.inj hs
      rw [Reading.handOver_iff ok hen.2.1 hen.1]
      exact ⟨fun hr _ _ _ _ => hr, fun hok => hok hen.1 hen.2.1 hen.2.2.1 hen.2.2.2⟩
    · exact nomatch hs
  | deinit cancels =>
    dsimp only at hs
    split at hs
    · obtain rfl := Option.some.inj hs
      refine iff_of_true ⟨?_, fun halive => absurd halive Bool.false_ne_true⟩ trivial
      cases cancels with
      | true => exact h.cancelOld.single
      | false => exact h.single
    · exact nomatch hs

end SignalReads

end Talyn
