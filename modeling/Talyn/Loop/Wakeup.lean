import Talyn.Loop.Ready
import Talyn.Loop.TaskPool

/-!
# Waking a parked loop

`poll_blocking_events` of `loop/runner.zig` parks the thread of the loop in the kernel when there is
nothing to run, and lets go of the mutex of the loop meanwhile. Other threads push callbacks
(`Soon.dispatch`, `Soon.dispatch_guaranteed`) and queue operations (`IO.queue`) under the mutex; when they
find `ring_blocked` set, they write to the eventfd, and a read of the eventfd that is always in the ring
ends the wait. `eventfd_callback` queues that read again each time it has completed.

The threads interleave step by step. What a caller does between `lock` and `unlock` are several steps; as
only the thread that holds the mutex makes them, they are a part of `holder`. The runner has the mutex while it
polls without being parked. `eventfd_callback` is called by the runner, which is not parked then, so what it
does under the mutex is one step. The kernel completes the operations in flight in any order. A read of the
eventfd can complete at any time too, and leaves the counter at 0 then: nothing here depends on the kernel
waiting for a write.

The ready queues are those of `Ready`, and a step of the loop says which step they make. The submission and the
completion queue are lists of operations, and of an operation only its callback is kept.
-/

namespace Talyn

/-- A callback in the ready queues. -/
inductive Wakeup.Callback (α : Type*)
  | user (c : α)
  /-- `eventfd_callback` -/
  | wakeRead
  deriving DecidableEq, Repr

/-- An operation on the ring, with the callback it has, if any. -/
inductive Wakeup.Operation (α : Type*)
  /-- the read of the eventfd -/
  | wakeRead
  /-- the timeout that ends a wait after 100 ms -/
  | watchdog
  | other (callback : Option α)
  deriving DecidableEq, Repr

/-- An entry of the submission queue. -/
structure Wakeup.Sqe (α : Type*) where
  operation : Wakeup.Operation α
  /-- the call that queued it has returned an error -/
  failed : Bool
  deriving DecidableEq, Repr

/-- How `queue_unlocked` comes out. -/
inductive Wakeup.Outcome
  /-- there is no task or no entry for the operation -/
  | refused
  | queued
  /-- it is queued, and everything has been submitted behind it -/
  | flushed
  /-- it is queued, and the flush behind it fails -/
  | left
  deriving DecidableEq, Repr

/-- What a thread locks the mutex for. -/
inductive Wakeup.Job (α : Type*)
  /-- `dispatch` or `dispatch_guaranteed`; `fresh` is the outcome of the allocation of a full buffer -/
  | dispatch (c : α) (fresh : Option (ℕ → Wakeup.Callback α))
  /-- `queue` -/
  | queue (callback : Option α) (outcome : Wakeup.Outcome)

/-- Where a caller is that holds the mutex. -/
inductive Wakeup.Holder (α : Type*)
  /-- behind `lock` -/
  | entered (job : Wakeup.Job α)
  /-- in front of the load of `ring_blocked` -/
  | pushed
  /-- `ring_blocked` is set; in front of the write to the eventfd -/
  | ringing
  /-- in front of `unlock` -/
  | leaving

/-- Where the runner is in `poll_blocking_events`. -/
inductive Wakeup.Poll
  | entering
  /-- past `flush_pending_sqes`, in front of `copy_cqes` -/
  | peeking
  /-- `ring_blocked` is set and the mutex unlocked; the ring is copied, once or again after a full batch -/
  | draining (again : Bool)
  /-- the ring was empty -/
  | arming
  /-- in `copy_cqes(_, 1)` -/
  | waiting
  /-- in `nanosleep`, as the watchdog could not be armed -/
  | sleeping
  /-- awake; `armed` until the watchdog is removed, then in front of `lock` -/
  | relocking (armed failed : Bool)
  /-- in `fetch_completed_tasks`; `full` is whether the batch filled the buffer -/
  | harvesting (full : Bool)
  deriving DecidableEq, Repr

/-- A loop and the threads that use it. -/
structure Wakeup (α : Type*) where
  ready : Ready (Wakeup.Callback α)
  /-- `wait_for_blocking_events` -/
  wait : Bool
  poll : Wakeup.Poll
  /-- the caller that holds the mutex -/
  holder : Option (Wakeup.Holder α)
  ringBlocked : Bool
  /-- the counter of the eventfd -/
  eventfd : ℕ
  sq : List (Wakeup.Sqe α)
  inFlight : List (Wakeup.Operation α)
  cq : List (Wakeup.Operation α)
  /-- `blocking_ready_tasks` up to `nevents` -/
  copied : List (Wakeup.Operation α)
  /-- `eventfd_callback` has been called, and has not queued its read again -/
  rearming : Bool

/-- What happens. -/
inductive Wakeup.Event (α : Type*)
  /-- a thread locks the mutex -/
  | lock (job : Wakeup.Job α)
  /-- the next step of the caller that holds it -/
  | advance
  /-- the kernel completes an operation in flight -/
  | complete (i : ℕ)
  /-- `run_forever` calls `Runner.start` -/
  | start
  /-- the runner sets `ring_blocked` and unlocks the mutex -/
  | park
  /-- `flush_pending_sqes` of the branch that does not wait -/
  | flush
  /-- this branch fails, or the process is a fork of the owner of the loop -/
  | fails
  /-- its `copy_cqes` -/
  | peek
  /-- a `copy_cqes` of the drain -/
  | drain (again : Bool)
  /-- `copy_cqes(_, 1)` returns, or the `copy_cqes` behind `nanosleep` -/
  | waited (armed : Bool)
  /-- a `copy_cqes` of the parked runner fails -/
  | copyFails (armed : Bool)
  /-- the watchdog is put into the ring, if there is room, and everything submitted -/
  | arm (prepared submitted : Bool)
  /-- the removal of the watchdog is -/
  | disarm (prepared submitted failed : Bool)
  /-- the runner has looked for signals, and locks the mutex -/
  | relock (raised failed : Bool)
  /-- `fetch_completed_tasks` takes the next completion -/
  | handOver (full : Bool) (fresh : Option (ℕ → Wakeup.Callback α))
  /-- the batch has been handed over, and the buffer was full -/
  | peekAgain
  /-- `poll_blocking_events` returns, the index is flipped and the mutex unlocked -/
  | polled
  /-- the next ready callback is called -/
  | call
  /-- `eventfd_callback` queues its read again -/
  | rearm (outcome : Wakeup.Outcome)
  /-- an exception leaves the tick -/
  | interrupt (byHandler : Bool)
  /-- the tick ends -/
  | tickDone (idleHooks : Bool)
  /-- `loop.stop()` -/
  | stop

namespace Wakeup

variable {α : Type*}

/-- The callback of a completed operation. -/
def Operation.callback : Operation α → Option (Callback α)
  | .wakeRead => some .wakeRead
  | .watchdog => none
  | .other c => c.map .user

/-- The call has queued its operation, and returns no error. -/
def Outcome.queues : Outcome → Bool
  | .queued | .flushed => true
  | .refused | .left => false

/-- The runner has let go of the mutex. -/
def Poll.parked : Poll → Bool
  | .draining _ | .arming | .waiting | .sleeping | .relocking _ _ => true
  | .entering | .peeking | .harvesting _ => false

/-- In a `copy_cqes` of the parked runner, with or without a watchdog. -/
def Poll.copies : Poll → Option Bool
  | .draining _ | .sleeping => some false
  | .waiting => some true
  | _ => none

/-- The largest counter of an eventfd. -/
def maxCounter : ℕ := 2 ^ 64 - 2

/-- `Loop.init`, which queues the first read of the eventfd. -/
def init (fresh : ℕ → Callback α) (capacity : ℕ) : Option (Wakeup α) :=
  (Ready.init fresh capacity).map fun ready =>
    { ready
      wait := false
      poll := .entering
      holder := none
      ringBlocked := false
      eventfd := 0
      sq := [⟨.wakeRead, false⟩]
      inFlight := []
      cq := []
      copied := []
      rearming := false }

/-- The runner is in `poll_blocking_events`. -/
def polls (s : Wakeup α) : Bool :=
  match s.ready.phase with
  | .polling _ => true
  | _ => false

/-- The loop may wait: the last tick called nothing, and the buffer it polls for is empty. -/
def Idles (s : Wakeup α) : Prop := s.wait = true ∧ (s.ready.queues s.ready.index).contents = []

/-- `wakeup_eventfd`: at its largest value the counter stays, with a warning in the log. -/
def wakeupEventfd (s : Wakeup α) : Wakeup α :=
  { s with eventfd := if s.eventfd < maxCounter then s.eventfd + 1 else s.eventfd }

/-- Behind a write the counter is positive, also when the write has failed. -/
theorem wakeupEventfd_pos (s : Wakeup α) : 0 < s.wakeupEventfd.eventfd := by
  by_cases hlt : s.eventfd < maxCounter
  · simp [wakeupEventfd, hlt]
  · have hmax : 0 < maxCounter := by decide
    simp only [wakeupEventfd, hlt, if_false]
    omega

/-- A `submit` that takes the whole queue. -/
def submit (s : Wakeup α) : Wakeup α :=
  { s with sq := [], inFlight := s.inFlight ++ s.sq.map Sqe.operation }

/-- An entry at the end of the submission queue. -/
def prepare (s : Wakeup α) (operation : Operation α) (failed : Bool) : Wakeup α :=
  { s with sq := s.sq ++ [⟨operation, failed⟩] }

/-- `queue_unlocked`. -/
def queueUnlocked (s : Wakeup α) (operation : Operation α) : Outcome → Wakeup α
  | .refused => s
  | .queued => s.prepare operation false
  | .flushed => (s.prepare operation false).submit
  | .left => s.prepare operation true

/-- An operation that the runner puts into the ring past `queue`, and the `submit` behind it. -/
def ask (s : Wakeup α) (operation : Operation α) (prepared submitted : Bool) : Wakeup α :=
  let s := if prepared then s.prepare operation false else s
  if submitted then s.submit else s

/-- The steps of a caller. -/
def advance (s : Wakeup α) : Wakeup α :=
  match s.holder with
  | some (.entered (.dispatch c fresh)) =>
    -- a push that fails raises in the caller
    let pushes := (s.ready.push s.ready.index (.user c) fresh).isSome
    { s with holder := some (if pushes then .pushed else .leaving) }
  | some (.entered (.queue callback outcome)) =>
    { s.queueUnlocked (.other callback) outcome with
      holder := some (if outcome.queues then .pushed else .leaving) }
  | some .pushed => { s with holder := some (if s.ringBlocked then .ringing else .leaving) }
  | some .ringing => { s.wakeupEventfd with holder := some .leaving }
  | some .leaving => { s with holder := none }
  | none => s

/-- The kernel completes an operation; the read of the eventfd takes the counter. -/
def complete (s : Wakeup α) (i : ℕ) : Wakeup α :=
  match s.inFlight[i]? with
  | some operation =>
    { s with
      inFlight := s.inFlight.eraseIdx i
      cq := s.cq ++ [operation]
      eventfd := match operation with
        | .wakeRead => 0
        | _ => s.eventfd }
  | none => s

/-- `poll_blocking_events` returns an error, and `start` unlocks the mutex. What was copied is not handed
over. -/
def pollFails (s : Wakeup α) : Wakeup α :=
  { s with poll := .entering, ringBlocked := false, copied := [] }

/-- `copy_cqes` copies at most one buffer. -/
def copyCqes (s : Wakeup α) : Wakeup α :=
  { s with copied := s.cq.take totalTasksItems, cq := s.cq.drop totalTasksItems }

/-- The buffer is full. -/
def full (s : Wakeup α) : Bool := s.copied.length = totalTasksItems

/-- Where the runner goes on behind a copy of the drain. -/
def drained (s : Wakeup α) (again : Bool) : Wakeup α :=
  let t := s.copyCqes
  if t.full then { t with poll := .draining true }
  else if t.copied = [] then
    -- an empty copy behind a full one keeps the batch
    if again then { s with poll := .relocking false false } else { t with poll := .arming }
  else { t with poll := .relocking false false }

/-- The callback that is called next. -/
def next (s : Wakeup α) : Option (Callback α) :=
  match s.ready.phase with
  | .executing i _ => (s.ready.queues i).contents.head?
  | _ => none

/-- `callbacks_executed` -/
def callbacksExecuted (s : Wakeup α) : ℕ :=
  match s.ready.phase with
  | .executing _ k => k
  | _ => 0

/-- When an event can happen. -/
def Enabled (s : Wakeup α) : Event α → Prop
  | .lock _ | .stop => s.holder = none ∧ (s.polls && !s.poll.parked) = false
  | .advance => s.holder.isSome
  | .complete i => i < s.inFlight.length
  | .start => s.holder = none ∧ s.ready.phase = .idle
  | .park => s.polls = true ∧ s.poll = .entering ∧ s.Idles
  | .flush => s.polls = true ∧ s.poll = .entering ∧ ¬ s.Idles
  | .fails => s.polls = true ∧ (s.poll = .entering ∨ s.poll = .peeking)
  | .peek => s.poll = .peeking
  | .drain again => s.poll = .draining again
  | .waited armed => s.poll = (if armed then .waiting else .sleeping) ∧ (armed = true → s.cq ≠ [])
  | .copyFails armed => s.poll.copies = some armed
  | .arm _ _ => s.poll = .arming
  | .disarm _ _ failed => s.poll = .relocking true failed
  | .relock _ failed => s.poll = .relocking false failed ∧ s.holder = none
  | .handOver full _ => s.poll = .harvesting full ∧ s.copied ≠ []
  | .peekAgain => s.poll = .harvesting true ∧ s.copied = []
  | .polled => s.poll = .harvesting false ∧ s.copied = []
  | .call => s.rearming = false
  | .rearm _ => s.rearming = true ∧ s.holder = none
  | .interrupt _ | .tickDone _ => s.rearming = false ∧ s.holder = none

/-- The step that the ready queues make, if any. -/
def queueEvent (s : Wakeup α) : Event α → Option (ReadyEvent (Callback α))
  | .advance =>
    match s.holder with
    | some (.entered (.dispatch c fresh)) => some (.dispatch (.user c) fresh)
    | _ => none
  | .start => some .start
  | .fails => some .pollFailed
  | .relock raised failed => if failed || raised then some .pollFailed else none
  | .handOver _ fresh => (s.copied.head?.bind Operation.callback).map fun c => .complete c fresh
  | .polled => some .polled
  | .call => some .call
  | .interrupt byHandler => some (.interrupt byHandler)
  | .tickDone _ => some .tickDone
  | .stop => some .stop
  | _ => none

/-- The ready queues behind an event. -/
def moved (s : Wakeup α) (e : Event α) : Option (Ready (Callback α)) :=
  match s.queueEvent e with
  | some e => s.ready.step e
  | none => some s.ready

/-- What an event does past the ready queues, which are `ready` behind it. -/
def apply (s : Wakeup α) (ready : Ready (Callback α)) : Event α → Wakeup α
  | .lock job => { s with holder := some (.entered job) }
  | .advance => s.advance
  | .complete i => s.complete i
  | .start => { s with wait := false, poll := .entering }
  | .park => { s with poll := .draining false, ringBlocked := true }
  | .flush => { s.submit with poll := .peeking }
  | .fails => s.pollFails
  | .peek => { s.copyCqes with poll := .harvesting s.copyCqes.full }
  | .drain again => s.drained again
  | .waited armed => { s.copyCqes with poll := .relocking armed false }
  | .copyFails armed => { s with poll := .relocking armed true }
  | .arm prepared submitted =>
    { s.ask .watchdog prepared submitted with poll := if prepared && submitted then .waiting else .sleeping }
  | .disarm prepared submitted failed =>
    { s.ask (.other none) prepared submitted with poll := .relocking false failed }
  | .relock raised failed =>
    if failed || raised then s.pollFails else { s with ringBlocked := false, poll := .harvesting s.full }
  | .handOver _ _ =>
    match ready.phase with
    -- there is no memory for the callback
    | .idle => s.pollFails
    | _ => { s with copied := s.copied.tail }
  | .peekAgain => { s with poll := .peeking }
  | .polled => { s with poll := .entering }
  | .call =>
    match s.next with
    | some .wakeRead => { s with rearming := true }
    | _ => s
  | .rearm outcome =>
    let s := { s.queueUnlocked .wakeRead outcome with rearming := false }
    if outcome.queues && s.ringBlocked then s.wakeupEventfd else s
  | .tickDone idleHooks => { s with wait := decide (s.callbacksExecuted = 0) && !idleHooks }
  | .interrupt _ | .stop => s

instance (s : Wakeup α) : Decidable s.Idles := by
  change Decidable (_ ∧ _)
  infer_instance

instance (s : Wakeup α) (e : Event α) : Decidable (s.Enabled e) :=
  match e with
  | .complete _ => inferInstanceAs (Decidable (_ < _))
  | .advance | .peek | .drain _ | .copyFails _ | .arm _ _ | .disarm _ _ _ | .call => by
    change Decidable (_ = _)
    infer_instance
  | .lock _ | .stop | .start | .park | .flush | .fails | .waited _ | .relock _ _ | .handOver _ _ | .peekAgain
  | .polled | .rearm _ | .interrupt _ | .tickDone _ => by
    change Decidable (_ ∧ _)
    infer_instance

/-- One step; `none` when the event cannot happen. A `start` that raises is no step. -/
def step (s : Wakeup α) (e : Event α) : Option (Wakeup α) :=
  if s.Enabled e then (s.moved e).map fun ready => { s.apply ready e with ready } else none

theorem step_spec {s t : Wakeup α} {e : Event α} (h : s.step e = some t) :
    s.Enabled e ∧ ∃ ready, s.moved e = some ready ∧ ({ s.apply ready e with ready } : Wakeup α) = t := by
  unfold step at h
  split at h
  · exact ⟨‹_›, Option.map_eq_some_iff.1 h⟩
  · cases h

/-! ### The control of the loop -/

/-- The two copies of the index agree. -/
def Agrees (r : Ready (Callback α)) : Prop :=
  (∀ i, r.phase = .polling i → i = r.index) ∧ ∀ i k, r.phase = .executing i k → r.index = !i

theorem agrees_step {r u : Ready (Callback α)} (h : Agrees r) {e : ReadyEvent (Callback α)}
    (hstep : r.step e = some u) : Agrees u := by
  cases Ready.step_move h.1 hstep with
  | skip => exact h
  | outside _ hp hl => exact ⟨hl, fun i k hk => absurd hk (hp i k)⟩
  | push _ hpush =>
    obtain ⟨b, -, rfl⟩ := Ready.push_spec hpush
    exact h
  | polled _ => exact ⟨by simp, by simp⟩
  | call hs _ =>
    refine ⟨by simp, fun i k hk => ?_⟩
    cases hk
    exact h.2 _ _ hs
  | leaveTick hs _ _ hp hl =>
    exact ⟨fun j hj => (hl j hj).trans (h.2 _ _ hs).symm, fun i k hk => absurd hk (hp i k)⟩

/-- These steps are those of a tick. -/
theorem executing_of_step {r u : Ready (Callback α)} {e : ReadyEvent (Callback α)}
    (he : e = .call ∨ (∃ b, e = .interrupt b) ∨ e = .tickDone) (hstep : r.step e = some u) : r.Executing := by
  cases hp : r.phase with
  | executing i k => exact ⟨i, k, hp⟩
  | idle | polling i => rcases he with rfl | ⟨_, rfl⟩ | rfl <;> simp [Ready.step, hp] at hstep

theorem polls_iff {s : Wakeup α} : s.polls = true ↔ ∃ i, s.ready.phase = .polling i := by
  unfold polls
  split <;> simp_all

/-- What a push leaves alone. -/
theorem push_frame {r u : Ready (Callback α)} {i : Bool} {c : Callback α}
    {fresh : Option (ℕ → Callback α)} (h : r.push i c fresh = some u) :
    u.phase = r.phase ∧ u.index = r.index ∧
      ∀ j, (u.queues j).contents = (r.queues j).contents ++ if j = i then [c] else [] := by
  obtain ⟨b, hb, rfl⟩ := Ready.push_spec h
  refine ⟨rfl, rfl, fun j => ?_⟩
  by_cases hj : j = i
  · subst hj
    simp [hb]
  · simp [hj]

theorem agrees_moved {s : Wakeup α} (h : Agrees s.ready) {e : Event α} {ready : Ready (Callback α)}
    (hm : s.moved e = some ready) : Agrees ready := by
  unfold moved at hm
  split at hm
  · exact agrees_step h hm
  · exact Option.some.inj hm ▸ h

/-- Where the runner is, and what its flags say there. -/
structure Control (s : Wakeup α) : Prop where
  outside : s.poll ≠ .entering → s.polls = true
  blocked : s.ringBlocked = s.poll.parked
  rearming : s.rearming = true → s.ready.Executing
  /-- what was copied has been handed over when the runner looks at the ring again -/
  empty : s.poll = .entering ∨ s.poll = .peeking → s.copied = []
  /-- the loop only waits when the buffer that ran last is empty -/
  other : s.polls = true → s.wait = true → (s.ready.queues (!s.ready.index)).contents = []

namespace Control

variable {s t : Wakeup α}

/-- A step that leaves the ready queues alone. -/
theorem move (h : s.Control) (hready : t.ready = s.ready) (hwait : t.wait = s.wait)
    (houtside : t.poll ≠ .entering → s.polls = true) (hblocked : t.ringBlocked = t.poll.parked)
    (hrearming : t.rearming = true → s.rearming = true)
    (hempty : t.poll = .entering ∨ t.poll = .peeking → t.copied = []) : t.Control := by
  have hpolls : t.polls = s.polls := by rw [polls, hready, polls]
  refine ⟨fun hne => hpolls.trans (houtside hne), hblocked, fun hr => ?_, hempty, fun hp hw => ?_⟩
  · exact hready ▸ h.rearming (hrearming hr)
  · rw [hready]
    exact h.other (hpolls ▸ hp) (hwait ▸ hw)

/-- A step of someone else. -/
theorem frame (h : s.Control) (hready : t.ready = s.ready) (hwait : t.wait = s.wait) (hpoll : t.poll = s.poll)
    (hblocked : t.ringBlocked = s.ringBlocked) (hcopied : t.copied = s.copied)
    (hrearming : t.rearming = true → s.rearming = true) : t.Control := by
  refine h.move hready hwait ?_ ?_ hrearming ?_
  · exact hpoll ▸ h.outside
  · rw [hblocked, hpoll, h.blocked]
  · rw [hpoll, hcopied]
    exact h.empty

/-- A step of the runner within `poll_blocking_events` that leaves the mutex alone. -/
theorem within (h : s.Control) {p : Poll} (hs : s.poll = p) (hp : p ≠ .entering) (hready : t.ready = s.ready)
    (hwait : t.wait = s.wait) (hblocked : t.ringBlocked = s.ringBlocked) (hparked : t.poll.parked = p.parked)
    (hrearming : t.rearming = s.rearming) (hempty : t.poll = .entering ∨ t.poll = .peeking → t.copied = []) :
    t.Control :=
  h.move hready hwait (fun _ => h.outside (hs ▸ hp)) (by rw [hblocked, hparked, ← hs, h.blocked])
    (fun hr => hrearming ▸ hr) hempty

theorem blocked_of (h : s.Control) {p : Poll} (hs : s.poll = p) : s.ringBlocked = p.parked := by
  rw [h.blocked, hs]

/-- Outside of `poll_blocking_events` the runner has its flags cleared. -/
theorem idle (h : s.Control) (hp : s.polls = false) :
    s.poll = .entering ∧ s.ringBlocked = false ∧ s.copied = [] := by
  have hpoll : s.poll = .entering := by
    by_contra hne
    rw [h.outside hne] at hp
    cases hp
  exact ⟨hpoll, h.blocked_of hpoll, h.empty (.inl hpoll)⟩

theorem not_polls_of_executing (hex : s.ready.Executing) : s.polls = false := by
  obtain ⟨i, k, hp⟩ := hex
  simp [polls, hp]

theorem rearming_of_polls (h : s.Control) (hp : s.polls = true) : s.rearming = false := by
  by_contra hr
  rw [Bool.not_eq_false] at hr
  rw [not_polls_of_executing (h.rearming hr)] at hp
  cases hp

/-- The runner at the head of its loop, or outside of it. -/
theorem entering (hpoll : t.poll = .entering) (hblocked : t.ringBlocked = false) (hcopied : t.copied = [])
    (hrearming : t.rearming = true → t.ready.Executing)
    (hother : t.polls = true → t.wait = true → (t.ready.queues (!t.ready.index)).contents = []) : t.Control where
  outside hne := absurd hpoll hne
  blocked := by rw [hblocked, hpoll]; rfl
  rearming := hrearming
  empty _ := hcopied
  other := hother

/-- A poll that fails leaves the run. -/
theorem pollFails (h : s.Control) (hp : s.polls = true) {ready : Ready (Callback α)} (hready : ready.phase = .idle) :
    ({ s.pollFails with ready } : Wakeup α).Control := by
  refine entering rfl rfl rfl (fun hr => ?_) (by simp [polls, hready])
  rw [show s.pollFails.rearming = s.rearming from rfl, h.rearming_of_polls hp] at hr
  cases hr

theorem of_pollFailed (h : s.Control) (hp : s.polls = true) {ready : Ready (Callback α)}
    (hm : s.ready.step .pollFailed = some ready) : ({ s.pollFails with ready } : Wakeup α).Control := by
  obtain ⟨i, hi⟩ := polls_iff.1 hp
  simp only [Ready.step, hi, Option.some.injEq] at hm
  exact h.pollFails hp (by rw [← hm]; rfl)

/-- A push, and what it leaves alone. -/
theorem pushed (h : s.Control) {ready : Ready (Callback α)} {c : Callback α} {fresh : Option (ℕ → Callback α)}
    (hpush : s.ready.push s.ready.index c fresh = some ready) {holder : Option (Holder α)}
    {copied : List (Operation α)} (hcopied : s.poll = .entering ∨ s.poll = .peeking → copied = []) :
    ({ s with ready, holder, copied } : Wakeup α).Control := by
  obtain ⟨hphase, hindex, hqueues⟩ := push_frame hpush
  have hpolls : ({ s with ready, holder, copied } : Wakeup α).polls = s.polls := by
    simp only [polls, hphase]
  refine ⟨fun hne => hpolls.trans (h.outside hne), h.blocked, fun hr => ?_, hcopied, fun hp hw => ?_⟩
  · obtain ⟨i, k, hi⟩ := h.rearming hr
    exact ⟨i, k, hphase.trans hi⟩
  · have hother := h.other (hpolls ▸ hp) hw
    simp [hqueues, hindex, hother]

theorem advance (h : s.Control) {ready : Ready (Callback α)} (hm : s.moved .advance = some ready) :
    ({ s.advance with ready } : Wakeup α).Control := by
  unfold Wakeup.advance
  simp only [moved, queueEvent, Ready.step] at hm
  cases hs : s.holder with
  | none =>
    rw [hs] at hm
    exact Option.some.inj hm ▸ h
  | some a =>
    rw [hs] at hm
    cases a with
    | entered job =>
      cases job with
      | dispatch c fresh =>
        obtain rfl := Option.some.inj hm
        cases hpush : s.ready.push s.ready.index (.user c) fresh with
        | none => exact h.frame rfl rfl rfl rfl rfl id
        | some u => exact h.pushed hpush h.empty
      | queue callback outcome =>
        obtain rfl := Option.some.inj hm
        cases outcome <;> exact h.frame rfl rfl rfl rfl rfl id
    | pushed | ringing | leaving =>
      obtain rfl := Option.some.inj hm
      exact h.frame rfl rfl rfl rfl rfl id

/-- The end of a tick. -/
theorem tickDone (h : s.Control) (hagrees : Agrees s.ready) {idleHooks : Bool} {ready : Ready (Callback α)}
    (hrearming : s.rearming = false) (hm : s.ready.step .tickDone = some ready) :
    ({ s.apply ready (.tickDone idleHooks) with ready } : Wakeup α).Control := by
  have hex := executing_of_step (.inr (.inr rfl)) hm
  obtain ⟨hpoll, hblocked, hcopied⟩ := h.idle (not_polls_of_executing hex)
  obtain ⟨i, k, hi⟩ := hex
  refine entering hpoll hblocked hcopied (fun hr => ?_) fun hp _ => ?_
  · cases hrearming.symm.trans hr
  · -- the buffer that ran is empty now, and it is not the one of the index
    obtain ⟨j, hj⟩ := polls_iff.1 hp
    replace hj : ready.phase = .polling j := hj
    cases Ready.step_move hagrees.1 hm with
    | skip => cases hi.symm.trans hj
    | outside hs => exact absurd ⟨i, k, hi⟩ hs
    | push he => simp at he
    | leaveTick hs hempty hq =>
      show (_ : RingBuffer _).contents = []
      rw [hq, hagrees.2 _ _ hs, Bool.not_not]
      exact hempty.resolve_right (by simp)

/-- Every step keeps the control. -/
theorem step (h : s.Control) (hagrees : Agrees s.ready) {e : Event α} (hstep : s.step e = some t) : t.Control := by
  obtain ⟨he, ready, hm, rfl⟩ := step_spec hstep
  have hkept : s.queueEvent e = none → ready = s.ready := by
    intro hq
    rw [moved, hq] at hm
    exact (Option.some.inj hm).symm
  cases e with
  | lock job => exact h.frame (hkept rfl) rfl rfl rfl rfl id
  | advance => exact h.advance hm
  | complete i =>
    simp only [apply, complete]
    split <;> exact h.frame (hkept rfl) rfl rfl rfl rfl id
  | start =>
    obtain ⟨-, hphase⟩ := he
    obtain ⟨-, hblocked, hcopied⟩ := h.idle (by simp [polls, hphase])
    refine entering rfl hblocked hcopied (fun hr => ?_) fun _ hw => by cases hw
    obtain ⟨i, k, hi⟩ := h.rearming hr
    cases hphase.symm.trans hi
  | park => exact h.move (hkept rfl) rfl (fun _ => he.1) rfl id (by simp [apply])
  | flush =>
    exact h.move (hkept rfl) rfl (fun _ => he.1) (h.blocked_of (p := .entering) he.2.1) id
      fun _ => h.empty (.inl he.2.1)
  | fails => exact h.of_pollFailed he.1 hm
  | peek => exact h.within he (by simp) (hkept rfl) rfl rfl rfl rfl (by simp [apply])
  | drain again =>
    simp only [apply, drained]
    split
    · exact h.within he (by simp) (hkept rfl) rfl rfl rfl rfl (by simp)
    · split
      · split <;> exact h.within he (by simp) (hkept rfl) rfl rfl rfl rfl (by simp)
      · exact h.within he (by simp) (hkept rfl) rfl rfl rfl rfl (by simp)
  | waited armed => cases armed <;> exact h.within he.1 (by simp) (hkept rfl) rfl rfl rfl rfl (by simp [apply])
  | copyFails armed =>
    have hcopies : s.poll.parked = true ∧ s.poll ≠ .entering := by
      replace he : s.poll.copies = some armed := he
      cases hp : s.poll <;> simp_all [Poll.copies, Poll.parked]
    exact h.within rfl hcopies.2 (hkept rfl) rfl rfl hcopies.1.symm rfl (by simp [apply])
  | arm prepared submitted =>
    cases prepared <;> cases submitted <;>
      exact h.within he (by simp) (hkept rfl) rfl rfl rfl rfl (by simp [apply])
  | disarm prepared submitted failed =>
    cases prepared <;> cases submitted <;>
      exact h.within he (by simp) (hkept rfl) rfl rfl rfl rfl (by simp [apply])
  | relock raised failed =>
    have hp := h.outside (by simp [he.1])
    by_cases hfailed : (failed || raised) = true
    · simp only [moved, queueEvent, hfailed, if_true] at hm
      simp only [apply, hfailed, if_true]
      exact h.of_pollFailed hp hm
    · simp only [apply, hfailed, Bool.false_eq_true, if_false]
      exact h.move (hkept (if_neg hfailed)) rfl (fun _ => hp) rfl id (by simp)
  | handOver full fresh =>
    have hp := h.outside (by simp [he.1])
    obtain ⟨i, hi⟩ := polls_iff.1 hp
    have hno : s.poll = .entering ∨ s.poll = .peeking → s.copied.tail = [] := by simp [he.1]
    simp only [apply]
    split
    · exact h.pollFails hp ‹_›
    · rename_i hphase
      cases hc : s.queueEvent (.handOver full fresh) with
      | none => exact h.within rfl (by simp [he.1]) (hkept hc) rfl rfl rfl rfl hno
      | some e =>
        simp only [moved, hc] at hm
        obtain ⟨c, -, rfl⟩ := Option.map_eq_some_iff.1 hc
        simp only [Ready.step, hi, Option.some.injEq] at hm
        rw [hagrees.1 i hi] at hm
        cases hpush : s.ready.push s.ready.index c fresh with
        | none =>
          rw [hpush] at hm
          exact absurd (by rw [← hm]; rfl) hphase
        | some u =>
          rw [hpush] at hm
          obtain rfl : u = ready := hm
          exact h.pushed hpush hno
  | peekAgain => exact h.within he.1 (by simp) (hkept rfl) rfl rfl rfl rfl fun _ => he.2
  | polled =>
    obtain ⟨i, hi⟩ := polls_iff.1 (h.outside (by simp [he.1]))
    simp only [moved, queueEvent, Ready.step, hi, Option.some.injEq] at hm
    subst hm
    exact entering rfl (h.blocked_of he.1) he.2 (fun _ => ⟨i, 0, rfl⟩) (by simp [polls])
  | call =>
    have hex := executing_of_step (.inl rfl) hm
    obtain ⟨hpoll, hblocked, hcopied⟩ := h.idle (not_polls_of_executing hex)
    obtain ⟨i, k, hi⟩ := hex
    simp only [moved, queueEvent, Ready.step, hi, Option.map_eq_some_iff] at hm
    obtain ⟨p, -, rfl⟩ := hm
    simp only [apply]
    split <;> exact entering hpoll hblocked hcopied (fun _ => ⟨i, k + 1, rfl⟩) (by simp [polls])
  | rearm outcome =>
    simp only [apply]
    split <;> cases outcome <;> exact h.frame (hkept rfl) rfl rfl rfl rfl (by simp [wakeupEventfd])
  | interrupt byHandler =>
    have hex := executing_of_step (.inr (.inl ⟨byHandler, rfl⟩)) hm
    obtain ⟨hpoll, hblocked, hcopied⟩ := h.idle (not_polls_of_executing hex)
    obtain ⟨i, k, hi⟩ := hex
    simp only [moved, queueEvent, Ready.step, hi, Option.some.injEq] at hm
    subst hm
    exact entering hpoll hblocked hcopied (fun hr => by cases he.1.symm.trans hr) (by simp [polls, Ready.leave])
  | tickDone idleHooks => exact h.tickDone hagrees he.1 hm
  | stop =>
    obtain rfl := Option.some.inj hm
    exact ⟨h.outside, h.blocked, h.rearming, h.empty, h.other⟩

end Control

theorem control_init {fresh : ℕ → Callback α} {capacity : ℕ} {s : Wakeup α}
    (h : init fresh capacity = some s) : Agrees s.ready ∧ s.Control := by
  obtain ⟨ready, hready, rfl⟩ := Option.map_eq_some_iff.1 h
  obtain ⟨hphase, -⟩ := Ready.init_spec hready
  exact ⟨⟨by simp [hphase], by simp [hphase]⟩, .entering rfl rfl rfl (by simp) (by simp [polls, hphase])⟩

end Wakeup

end Talyn
