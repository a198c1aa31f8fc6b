import Talyn.Future.Basic
import Talyn.Loop.TaskCount

/-!
# Reserved slots

`reserved_slots` of the loop, over everything that changes it: futures and tasks (`future/main.zig`,
`call_done_callbacks`, `task/constructors.zig`, `execute_task_send`), operations on the ring
(`BlockingTasksSet`, `fetch_completed_tasks`), signals (`link` and `unlink`), and the teardown of the
loop. It should be the number of pending futures that are not released, of active blocking tasks and of
linked signals.

What user code, the callbacks in the ready queue and the steps of a coroutine do is any sequence of the
events below, so a callback that runs is only taken off the queue. `fast_new_future` and `fast_new_task`
are `newObject`, an initialisation and, when that fails, `clear`; `ensure_ring_for_current_thread` is
`discard` for the reads that die with the old ring, `newRing`, and the reads queued again. Both ready
queues are one list.
-/

namespace Talyn

namespace SlotLoop

/-- A `FutureObject` or `PythonTaskObject`, as far as its slot is concerned. -/
structure FutureObject where
  isTask : Bool
  future : Future
  /-- `py_loop` is set -/
  hasLoop : Bool
  /-- `coro` is set; a future has none -/
  hasCoro : Bool

/-- A callback in a ready queue. -/
inductive Ready
  | executeTaskSend (task : ℕ)
  /-- with whether `exception` of the task is set -/
  | executeTaskThrow (task : ℕ) (exception : Bool)
  | runFutureCallbacks (future : ℕ)
  | signal (sig : ℕ)
  /-- the callback of an operation, or any other -/
  | callback (id : ℕ)
  deriving DecidableEq, Repr

/-- The task of a queued `execute_task_send`. -/
def Ready.sendsTo : Ready → Option ℕ
  | .executeTaskSend task => some task
  | _ => none

end SlotLoop

/-- The part of a loop that its slots are about; `reserved_slots` is in the pool of `io`. -/
structure SlotLoop where
  io : Io
  initialized : Bool
  objects : List SlotLoop.FutureObject
  ready : List SlotLoop.Ready
  /-- the signals with a callback, the keys of `unix_signals.callbacks` -/
  callbacks : Finset ℕ
  /-- a slot was returned when there was none -/
  underflowed : Bool

namespace SlotLoop

/-- A loop whose `IO` is initialised. -/
def init : SlotLoop where
  io := .init
  initialized := true
  objects := []
  ready := []
  callbacks := ∅
  underflowed := false

/-- `reserved_slots`. -/
def reservedSlots (l : SlotLoop) : ℕ := l.io.pool.reservedSlots

/-- Overwrite the pool. -/
def setPool (l : SlotLoop) (pool : TaskPool) : SlotLoop := { l with io := { l.io with pool := pool } }

/-- `reserve_slots(1)`. -/
def reserve (l : SlotLoop) : SlotLoop :=
  l.setPool { l.io.pool with reservedSlots := l.reservedSlots + 1 }

/-- `reserved_slots -= 1`, so many times. -/
def unreserve (l : SlotLoop) (n : ℕ) : SlotLoop :=
  { l.setPool { l.io.pool with reservedSlots := l.reservedSlots - n } with
    underflowed := l.underflowed || decide (l.reservedSlots < n) }

/-- `Soon.dispatch`; without memory the queue does not grow. -/
def dispatch (l : SlotLoop) (callback : Ready) (pushed : Bool) : SlotLoop :=
  if pushed then { l with ready := l.ready ++ [callback] } else l

/-- `Soon.dispatch_guaranteed`. -/
def dispatchGuaranteed (l : SlotLoop) (callback : Ready) (pushed : Bool) : SlotLoop :=
  (l.unreserve 1).dispatch callback pushed

/-! ### Futures and tasks -/

/-- Overwrite an object. -/
def setObject (l : SlotLoop) (f : ℕ) (o : FutureObject) : SlotLoop := { l with objects := l.objects.set f o }

/-- `release_callbacks_queue`. -/
def releaseCallbacksQueue (future : Future) : Future :=
  (List.range future.callbacks.length).foldl
    (fun future i => future.modify i fun callback => { callback with executed := true }) future

/-- `call_done_callbacks`. -/
def callDoneCallbacks (l : SlotLoop) (f : ℕ) (o : FutureObject) (newStatus : FutureStatus)
    (pushed : Bool) : SlotLoop :=
  if o.future.status ≠ .pending then l
  else
    let future := { o.future with status := newStatus }
    if future.callbacks = [] then (l.setObject f { o with future := future }).unreserve 1
    else if !l.initialized then
      (l.unreserve 1).setObject f { o with future := releaseCallbacksQueue future }
    else (l.setObject f { o with future := future }).dispatchGuaranteed (.runFutureCallbacks f) pushed

/-- `set_result`, `set_exception` and `cancel`: the future is pending and not released. -/
def resolve (l : SlotLoop) (f : ℕ) (o : FutureObject) (newStatus : FutureStatus) (pushed : Bool) :
    SlotLoop :=
  if o.future.released ∨ o.future.status ≠ .pending then l else l.callDoneCallbacks f o newStatus pushed

/-- `Future.release` in `future_clear` and `task_clear`, with what these do to the two pointers. -/
def clear (l : SlotLoop) (f : ℕ) (o : FutureObject) (hasCoro : Bool) : SlotLoop :=
  if o.future.released then l.setObject f { o with hasLoop := false, hasCoro := hasCoro }
  else
    let future := { o.future with
      released := true, callbacksQueue := .empty, exceptionsQueue := .empty }
    let l := if o.future.status = .pending then l.unreserve 1 else l
    l.setObject f { o with future := future, hasLoop := false, hasCoro := hasCoro }

/-- `future_init_configuration`. -/
def initConfiguration (l : SlotLoop) (f : ℕ) (o : FutureObject) (hasCoro : Bool) : SlotLoop :=
  l.reserve.setObject f { o with future := .init, hasLoop := true, hasCoro := hasCoro }

/-- `z_future_init`: an object that has a loop is cleared first. -/
def futureInit (l : SlotLoop) (f : ℕ) (o : FutureObject) : SlotLoop :=
  if o.hasLoop then (l.clear f o o.hasCoro).initConfiguration f o o.hasCoro
  else l.initConfiguration f o o.hasCoro

/-- `z_task_init`. The argument is a coroutine or not; the task is scheduled when the loop is open, the
set of tasks takes it and the ready queue can grow. -/
def taskInit (l : SlotLoop) (f : ℕ) (o : FutureObject) (coroutine registered pushed : Bool) : SlotLoop :=
  if o.hasCoro then l
  else if coroutine && l.initialized && registered && pushed then
    (l.initConfiguration f o true).dispatch (.executeTaskSend f) true
  else l.initConfiguration f o false

/-! ### Operations -/

/-- `IO.queue_unlocked`. -/
def queue (l : SlotLoop) (event : Io.BlockingOperationData) (env : Io.Env) :
    Except Io.Error (Option Io.Task) × SlotLoop :=
  let (result, io) := l.io.queueUnlocked event env
  (result, { l with io := io })

/-- `fetch_completed_tasks` on the completion of a task. -/
def complete (l : SlotLoop) (task : Io.Task) (pushed : Bool) : Option SlotLoop :=
  let l :=
    match l.io.pool.callback? task.1 task.2 with
    | some callback => l.dispatch (.callback callback) pushed
    | none => l
  ((l.unreserve 1).io.pool.deinit task.1 task.2).map (l.unreserve 1).setPool

/-- `BlockingTask.discard` in `ensure_ring_for_current_thread`. -/
def discard (l : SlotLoop) (task : Io.Task) : Option SlotLoop :=
  (l.io.pool.discard task.1 task.2).map fun pool =>
    { l.setPool pool with underflowed := l.underflowed || decide (l.reservedSlots < 1) }

/-! ### Signals -/

/-- The read of the signal descriptor. -/
def signalRead : Io.ReadData := ⟨0, 0, none, none, .buffer, 0, none, false⟩

/-- `enqueue_signal_fd`, with the read in flight if there is one. -/
def enqueueSignalFd (l : SlotLoop) (oldRead : Option (ℕ × Io.Env)) (env : Io.Env) :
    Except Io.Error (Option Io.Task) × SlotLoop :=
  match oldRead with
  | none => l.queue (.performRead signalRead) env
  | some (task, cancelEnv) =>
    match l.queue (.cancelIo task) cancelEnv with
    | (.error e, l) => (.error e, l)
    | (.ok _, l) => l.queue (.performRead signalRead) env

/-- `link`, once `signalfd` succeeded: the read in flight is cancelled, the next one is queued, and the
callback is stored. -/
def link (l : SlotLoop) (sig : ℕ) (oldRead : Option (ℕ × Io.Env)) (env : Io.Env) (pushed : Bool) :
    SlotLoop :=
  match l.enqueueSignalFd oldRead env with
  | (.error _, l) => l
  | (.ok _, l) =>
    if sig ∈ l.callbacks then l.dispatch (.signal sig) pushed
    else { l.reserve with callbacks := insert sig l.callbacks }

/-- `unlink`, up to the mask. -/
def unlink (l : SlotLoop) (sig : ℕ) (pushed : Bool) : SlotLoop :=
  if sig ∈ l.callbacks then
    { l with callbacks := l.callbacks.erase sig }.dispatchGuaranteed (.signal sig) pushed
  else l

/-! ### The teardown -/

/-- `UnixSignals.deinit`; a failing dispatch is logged. -/
def signalsDeinit (l : SlotLoop) (pushed : ℕ → Bool) : SlotLoop :=
  { l.unreserve l.callbacks.card with
    callbacks := ∅
    ready := l.ready ++ ((l.callbacks.sort (· ≤ ·)).filter pushed).map .signal }

/-- `release_dynamic_ring_buffer` on one callback, which is called as cancelled. -/
def releaseReady (l : SlotLoop) (callback : Ready) : SlotLoop :=
  match callback with
  | .executeTaskSend task =>
    match l.objects[task]? with
    | some o =>
      if o.future.status = .pending then
        l.setObject task { o with future := { o.future with status := .canceled } }
      else l
    | none => l
  | .executeTaskThrow task exception =>
    match l.objects[task]? with
    | some o => if exception then l.resolve task o .finished false else l
    | none => l
  | .runFutureCallbacks f =>
    match l.objects[f]? with
    | some o => l.setObject f { o with future := releaseCallbacksQueue o.future }
    | none => l
  | .signal _ | .callback _ => l

/-- `BlockingTasksSet.cancel_all` on the callbacks of a set; the dispatch number `fails` fails, and ends
it. -/
def cancelAll (l : SlotLoop) : List ℕ → Option ℕ → SlotLoop
  | [], _ => l
  | callback :: _, some 0 => l.dispatchGuaranteed (.callback callback) false
  | callback :: rest, some (fails + 1) =>
    (l.dispatchGuaranteed (.callback callback) true).cancelAll rest (some fails)
  | callback :: rest, none => (l.dispatchGuaranteed (.callback callback) true).cancelAll rest none

/-- The callbacks of the tasks of a set, in the order of the slots. -/
def callbacksAt (pool : TaskPool) (a : ℕ) : List ℕ :=
  match pool.sets a with
  | some s => (List.range s.index).filterMap s.taskData
  | none => []

/-- `IO.deinit`: all sets are cancelled and freed, and the ring is closed. -/
def ioDeinit (l : SlotLoop) (fails : ℕ → Option ℕ) : SlotLoop :=
  let pool := l.io.pool
  let l := (pool.set :: pool.busySets).foldl (fun l a => l.cancelAll (callbacksAt pool a) (fails a)) l
  { l with io := { l.io with
      ringOpen := false
      pool := { l.io.pool with sets := fun _ => none, busySets := [], active := fun _ => ∅ } } }

/-- `Loop.init` again, of a loop that was closed. -/
def loopInit (l : SlotLoop) : SlotLoop := { init with objects := l.objects, underflowed := l.underflowed }

/-! ### Runs -/

/-- What can happen to a loop. -/
inductive Event
  /-- `future_new` or `task_new` -/
  | newObject (isTask : Bool)
  | futureInit (f : ℕ)
  | taskInit (f : ℕ) (coroutine registered pushed : Bool)
  | addDoneCallback (f : ℕ) (data : Future.Data) (id : ℕ) (allocated : Bool)
  | setResult (f : ℕ) (pushed : Bool)
  | setException (f : ℕ) (pushed : Bool)
  | cancel (f : ℕ) (pushed : Bool)
  /-- `future_clear` or `task_clear`, from the collector or the destructor -/
  | clear (f : ℕ)
  | queue (event : Io.BlockingOperationData) (env : Io.Env)
  | complete (task : Io.Task) (pushed : Bool)
  | discard (task : Io.Task)
  | newRing
  | link (sig : ℕ) (oldRead : Option (ℕ × Io.Env)) (env : Io.Env) (pushed : Bool)
  | unlink (sig : ℕ) (pushed : Bool)
  | dispatch (callback : Ready) (pushed : Bool)
  /-- the next ready callback is called -/
  | tick
  /-- `loop_close` claims the teardown -/
  | close
  | signalsDeinit (pushed : ℕ → Bool)
  | releaseReady
  | ioDeinit (fails : ℕ → Option ℕ)
  | loopInit

/-- One step, where the event is possible: on an object that exists, a task that is active, an open loop
or a teardown that has come to it. -/
def step (l : SlotLoop) : Event → Option SlotLoop
  | .newObject isTask => some { l with objects := l.objects ++ [⟨isTask, .new, false, false⟩] }
  | .futureInit f => l.objects[f]?.map (l.futureInit f)
  | .taskInit f coroutine registered pushed =>
    (l.objects[f]?.filter FutureObject.isTask).map fun o => l.taskInit f o coroutine registered pushed
  | .addDoneCallback f data id allocated =>
    l.objects[f]?.map fun o =>
      match o.future.addDoneCallback data id allocated with
      | some future => l.setObject f { o with future := future }
      | none => l
  | .setResult f pushed => l.objects[f]?.map fun o => l.resolve f o .finished pushed
  | .setException f pushed => l.objects[f]?.map fun o => l.resolve f o .finished pushed
  | .cancel f pushed => l.objects[f]?.map fun o => l.resolve f o .canceled pushed
  | .clear f => l.objects[f]?.map fun o => l.clear f o false
  | .queue event env => some (l.queue event env).2
  | .complete task pushed =>
    if task.2 ∈ l.io.pool.active task.1 then l.complete task pushed else none
  | .discard task => if task.2 ∈ l.io.pool.active task.1 then l.discard task else none
  | .newRing => some { l with io := { l.io with sq := [], published := 0 } }
  | .link sig oldRead env pushed =>
    if l.initialized then some (l.link sig oldRead env pushed) else none
  | .unlink sig pushed => some (l.unlink sig pushed)
  | .dispatch callback pushed => some (l.dispatch callback pushed)
  | .tick => if l.initialized then some { l with ready := l.ready.tail } else none
  | .close => some { l with initialized := false }
  | .signalsDeinit pushed => if l.initialized then none else some (l.signalsDeinit pushed)
  | .releaseReady =>
    match l.ready with
    | callback :: ready =>
      if l.initialized then none else some ({ l with ready := ready }.releaseReady callback)
    | [] => none
  | .ioDeinit fails =>
    if l.initialized = false ∧ l.io.ringOpen ∧ l.callbacks = ∅ then some (l.ioDeinit fails) else none
  | .loopInit => if l.initialized = false ∧ l.io.ringOpen = false then some l.loopInit else none

/-- The future is pending and not released, so it has a slot. -/
def HoldsSlot (o : FutureObject) : Prop := o.future.status = .pending ∧ o.future.released = false

instance (o : FutureObject) : Decidable (HoldsSlot o) :=
  inferInstanceAs (Decidable (_ ∧ _))

/-- The pending futures that are not released, the tasks among them. -/
def pendingFutures (l : SlotLoop) : ℕ := l.objects.countP fun o => decide (HoldsSlot o)

/-- `reserved_slots` is `k` more than the pending futures, the active blocking tasks and the linked
signals, and was never below zero. -/
structure Booked (l : SlotLoop) (k : ℕ) : Prop where
  count : l.reservedSlots = l.pendingFutures + l.io.pool.activeTasks + l.callbacks.card + k
  noUnderflow : l.underflowed = false

/-- `reserved_slots` is what it should be. -/
def Sound (l : SlotLoop) : Prop := Booked l 0

/-- The condition on a set of tasks: `cancel_all` comes to all of them. -/
def Cancels (pool : TaskPool) (a : ℕ) (s : BlockingTasksSet) (fails : Option ℕ) : Prop :=
  (∀ slot ∈ pool.active a, (s.taskData slot).isSome) ∧ ∀ k, fails = some k → s.activeTasks ≤ k + 1

/-- The condition on an event. A task is not initialised again while its future has a slot; the teardown
finds no queued step of a task that is pending, no active task without a callback, and memory to dispatch
all but the last callback of a set; and a loop is initialised again when no future of it has a slot. -/
def Returns (l : SlotLoop) : Event → Prop
  | .taskInit f _ _ _ => ∀ o, l.objects[f]? = some o → o.hasCoro = false → ¬HoldsSlot o
  | .releaseReady =>
    ∀ task ∈ l.ready.head?.bind Ready.sendsTo, ∀ o, l.objects[task]? = some o → ¬HoldsSlot o
  | .ioDeinit fails => ∀ a s, l.io.pool.sets a = some s → Cancels l.io.pool a s (fails a)
  | .loopInit => ∀ o ∈ l.objects, ¬HoldsSlot o
  | _ => True

/-- The condition on an event that is possible. -/
def Meets (l : SlotLoop) (e : Event) : Prop := (l.step e).isSome → l.Returns e

/-! ### The books -/

variable {l : SlotLoop} {k n f : ℕ} {o o' : FutureObject}

theorem Booked.sound_iff (h : Booked l k) : Sound l ↔ k = 0 := by
  constructor
  · intro hs
    have hcount := h.count
    have hzero := hs.count
    omega
  · rintro rfl
    exact h

theorem Booked.reserve (h : Booked l k) : Booked l.reserve (k + 1) where
  count := by
    have hcount := h.count
    show l.reservedSlots + 1 = l.pendingFutures + l.io.pool.activeTasks + l.callbacks.card + (k + 1)
    omega
  noUnderflow := h.noUnderflow

/-- Slots that are there can be returned. -/
theorem Booked.unreserve (h : Booked l (k + n)) : Booked (l.unreserve n) k where
  count := by
    have hcount := h.count
    show l.reservedSlots - n = l.pendingFutures + l.io.pool.activeTasks + l.callbacks.card + k
    omega
  noUnderflow := by
    have hcount := h.count
    have hge : ¬l.reservedSlots < n := by omega
    show (l.underflowed || decide (l.reservedSlots < n)) = false
    rw [h.noUnderflow, decide_eq_false hge]
    rfl

theorem Booked.dispatch (h : Booked l k) (callback : Ready) (pushed : Bool) :
    Booked (l.dispatch callback pushed) k := by
  unfold SlotLoop.dispatch
  split
  · exact ⟨h.count, h.noUnderflow⟩
  · exact h

theorem Booked.dispatchGuaranteed (h : Booked l (k + 1)) (callback : Ready) (pushed : Bool) :
    Booked (l.dispatchGuaranteed callback pushed) k := h.unreserve.dispatch callback pushed

/-- Overwriting an object changes the number of pending futures by what happens to that object. -/
theorem pendingFutures_setObject (ho : l.objects[f]? = some o) (o' : FutureObject) :
    (l.setObject f o').pendingFutures + (if HoldsSlot o then 1 else 0) =
      l.pendingFutures + if HoldsSlot o' then 1 else 0 := by
  obtain ⟨hlt, hget⟩ := List.getElem?_eq_some_iff.1 ho
  unfold pendingFutures setObject
  rw [List.countP_set hlt, hget]
  have hle : (if HoldsSlot o then 1 else 0) ≤ l.objects.countP fun o => decide (HoldsSlot o) := by
    split
    · rename_i hholds
      refine List.countP_pos_iff.2 ⟨o, List.mem_of_getElem? ho, decide_eq_true hholds⟩
    · exact Nat.zero_le _
  simp only [decide_eq_true_eq]
  omega

theorem Booked.setObject {j : ℕ} (h : Booked l k) (ho : l.objects[f]? = some o)
    (hj : k + (if HoldsSlot o then 1 else 0) = j + if HoldsSlot o' then 1 else 0) :
    Booked (l.setObject f o') j where
  count := by
    have hcount := h.count
    have hpending := pendingFutures_setObject ho o'
    show l.reservedSlots =
      (l.setObject f o').pendingFutures + l.io.pool.activeTasks + l.callbacks.card + j
    omega
  noUnderflow := h.noUnderflow

/-- An object that has its slot afterwards when it had one before. -/
theorem Booked.setObject_same (h : Booked l k) (ho : l.objects[f]? = some o)
    (hsame : HoldsSlot o' ↔ HoldsSlot o) : Booked (l.setObject f o') k := by
  apply h.setObject ho
  simp only [hsame]

/-- An object that loses its slot. -/
theorem Booked.setObject_drops (h : Booked l k) (ho : l.objects[f]? = some o) (hold : HoldsSlot o)
    (hnew : ¬HoldsSlot o') : Booked (l.setObject f o') (k + 1) := by
  apply h.setObject ho
  rw [if_pos hold, if_neg hnew]

/-! ### Futures and tasks -/

/-- Releasing the callbacks marks them and changes nothing else. -/
theorem releaseCallbacksQueue_eq (future : Future) :
    ∃ queue, releaseCallbacksQueue future = { future with callbacksQueue := queue } := by
  unfold releaseCallbacksQueue
  generalize List.range future.callbacks.length = indices
  induction indices generalizing future with
  | nil => exact ⟨future.callbacksQueue, rfl⟩
  | cons i indices ih => exact ih _

theorem Booked.callDoneCallbacks {newStatus : FutureStatus} {pushed : Bool} (h : Booked l k)
    (ho : l.objects[f]? = some o) (hold : HoldsSlot o) (hnew : newStatus ≠ .pending) :
    Booked (l.callDoneCallbacks f o newStatus pushed) k := by
  have hgone : ¬HoldsSlot { o with future := { o.future with status := newStatus } } := fun hh => hnew hh.1
  unfold SlotLoop.callDoneCallbacks
  rw [if_neg (not_not_intro hold.1)]
  dsimp only
  split
  · exact (h.setObject_drops ho hold hgone).unreserve
  · split
    · obtain ⟨queue, hqueue⟩ :=
        releaseCallbacksQueue_eq { o.future with status := newStatus }
      rw [hqueue]
      exact (h.setObject_drops ho hold fun hh => hnew hh.1).unreserve
    · exact (h.setObject_drops ho hold hgone).dispatchGuaranteed _ _

theorem Booked.resolve {newStatus : FutureStatus} {pushed : Bool} (h : Booked l k)
    (ho : l.objects[f]? = some o) (hnew : newStatus ≠ .pending) :
    Booked (l.resolve f o newStatus pushed) k := by
  unfold SlotLoop.resolve
  split
  · exact h
  · rename_i hboth
    rw [not_or, not_not, Bool.not_eq_true] at hboth
    exact h.callDoneCallbacks ho ⟨hboth.2, hboth.1⟩ hnew

/-- A release returns the slot of a future that is still pending. -/
theorem Booked.clear (h : Booked l k) (ho : l.objects[f]? = some o) (hasCoro : Bool) :
    Booked (l.clear f o hasCoro) k := by
  unfold SlotLoop.clear
  split
  · exact h.setObject_same ho Iff.rfl
  · rename_i hrel
    dsimp only
    split
    · rename_i hpending
      rw [Bool.not_eq_true] at hrel
      refine (h.setObject_drops ho ⟨hpending, hrel⟩ ?_).unreserve
      rintro ⟨-, hreleased⟩
      exact nomatch hreleased
    · rename_i hdone
      apply h.setObject_same ho
      constructor
      · rintro ⟨-, hreleased⟩
        exact nomatch hreleased
      · rintro ⟨hpending, -⟩
        exact absurd hpending hdone

/-- An initialisation takes a slot; one that the object had is not returned. -/
theorem Booked.initConfiguration (h : Booked l k) (ho : l.objects[f]? = some o) (o' : FutureObject)
    (hasCoro : Bool) :
    Booked (l.initConfiguration f o' hasCoro) (k + if HoldsSlot o then 1 else 0) := by
  have hnew : HoldsSlot { o' with future := .init, hasLoop := true, hasCoro := hasCoro } := ⟨rfl, rfl⟩
  apply h.reserve.setObject ho
  rw [if_pos hnew]
  omega

theorem clear_released (ho : l.objects[f]? = some o) (hasCoro : Bool) :
    ∃ o', (l.clear f o hasCoro).objects[f]? = some o' ∧ ¬HoldsSlot o' := by
  obtain ⟨hlt, -⟩ := List.getElem?_eq_some_iff.1 ho
  unfold SlotLoop.clear
  split
  · rename_i hrel
    refine ⟨_, List.getElem?_set_self hlt, fun hh => ?_⟩
    exact nomatch hrel.symm.trans hh.2
  · dsimp only
    refine ⟨_, List.getElem?_set_self ?_, fun hh => nomatch hh.2⟩
    split <;> exact hlt

/-- `Future.__init__` on an object that has a slot returns it first. -/
theorem Booked.futureInit (h : Booked l k) (ho : l.objects[f]? = some o)
    (hloop : o.future.released = false → o.hasLoop = true) : Booked (l.futureInit f o) k := by
  unfold SlotLoop.futureInit
  split
  · obtain ⟨o', ho', hfree⟩ := clear_released ho o.hasCoro
    have hbooked := (h.clear ho o.hasCoro).initConfiguration ho' o o.hasCoro
    rwa [if_neg hfree] at hbooked
  · rename_i hnone
    have hbooked := h.initConfiguration ho o o.hasCoro
    rwa [if_neg fun hold : HoldsSlot o => hnone (hloop hold.2)] at hbooked

/-- `Task.__init__` does not. -/
theorem Booked.taskInit (h : Booked l k) (ho : l.objects[f]? = some o) (coroutine registered pushed : Bool) :
    Booked (l.taskInit f o coroutine registered pushed)
      (k + if o.hasCoro = false ∧ HoldsSlot o then 1 else 0) := by
  unfold SlotLoop.taskInit
  cases hcoro : o.hasCoro with
  | true => simpa using h
  | false =>
    rw [if_neg Bool.false_ne_true]
    simp only [true_and]
    split
    · exact (h.initConfiguration ho o true).dispatch _ _
    · exact h.initConfiguration ho o false

/-! ### Operations and signals -/

/-- What the pool of a loop keeps: it is in order, or it is gone with the ring. -/
def PoolInv (io : Io) : Prop :=
  (io.pool.Inv ∧ io.pool.Idle) ∨
    (io.ringOpen = false ∧ (∀ a, io.pool.sets a = none) ∧ ∀ a, io.pool.active a = ∅)

theorem queueUnlocked_closed {io : Io} (h : io.ringOpen = false) (event : Io.BlockingOperationData)
    (env : Io.Env) : (io.queueUnlocked event env).2 = io := by
  unfold Io.queueUnlocked
  rw [h]
  rfl

theorem PoolInv.queueUnlocked {io : Io} (h : PoolInv io) (event : Io.BlockingOperationData)
    (env : Io.Env) : PoolInv (io.queueUnlocked event env).2 := by
  rcases h with h | ⟨hopen, hnone⟩
  · exact .inl ((Io.pooled_queueUnlocked io event env).invariant (I := fun p => p.Inv ∧ p.Idle) h
      fun u op v hu _ hv => ⟨hu.1.step hv, hu.2.step hu.1 hv⟩)
  · rw [queueUnlocked_closed hopen]
    exact .inr ⟨hopen, hnone⟩

/-- Queueing an operation is accounted for, whatever fails in it. -/
theorem Booked.queue (h : Booked l k) (hpool : PoolInv l.io) (event : Io.BlockingOperationData)
    (env : Io.Env) : Booked (l.queue event env).2 k := by
  rcases hpool with hpool | ⟨hopen, -⟩
  · have hreserved := (Io.pooled_queueUnlocked l.io event env).invariant
      (I := fun p => (p.Inv ∧ p.Idle) ∧
        p.reservedSlots = p.activeTasks + (l.pendingFutures + l.callbacks.card + k))
      ⟨hpool, by
        have hcount : l.io.pool.reservedSlots = _ := h.count
        omega⟩
      fun u op v hu hop hv =>
        ⟨⟨hu.1.1.step hv, hu.1.2.step hu.1.1 hv⟩, hu.1.1.reserved_step hop hv hu.2⟩
    refine ⟨?_, h.noUnderflow⟩
    show (l.io.queueUnlocked event env).2.pool.reservedSlots =
      l.pendingFutures + (l.io.queueUnlocked event env).2.pool.activeTasks + l.callbacks.card + k
    omega
  · have hsame : (l.queue event env).2 = l := by
      show { l with io := (l.io.queueUnlocked event env).2 } = l
      rw [queueUnlocked_closed hopen]
    rw [hsame]
    exact h

/-- A task and its slot were returned. -/
def Returned (l : SlotLoop) (task : Io.Task) (v : SlotLoop) : Prop :=
  ∃ ready pool,
    TaskPool.pop { l.io.pool with reservedSlots := l.reservedSlots - 1 } task.1 task.2 = some pool ∧
      v = { l.setPool pool with
        ready := ready, underflowed := l.underflowed || decide (l.reservedSlots < 1) }

theorem returned_complete {task : Io.Task} {pushed : Bool} {v : SlotLoop}
    (h : l.complete task pushed = some v) : Returned l task v := by
  have hreturned : ∀ m : SlotLoop, (∃ ready, m = { l with ready := ready }) →
      ((m.unreserve 1).io.pool.deinit task.1 task.2).map (m.unreserve 1).setPool = some v →
        Returned l task v := by
    rintro m ⟨ready, rfl⟩ hm
    obtain ⟨pool, hpool, rfl⟩ := Option.map_eq_some_iff.1 hm
    exact ⟨ready, pool, hpool, rfl⟩
  unfold SlotLoop.complete at h
  refine hreturned _ ?_ h
  split
  · unfold SlotLoop.dispatch
    split
    · exact ⟨_, rfl⟩
    · exact ⟨l.ready, rfl⟩
  · exact ⟨l.ready, rfl⟩

theorem returned_discard {task : Io.Task} {v : SlotLoop} (h : l.discard task = some v) :
    Returned l task v := by
  obtain ⟨pool, hpool, rfl⟩ := Option.map_eq_some_iff.1 h
  exact ⟨l.ready, pool, hpool, rfl⟩

/-- A task that is active is in a pool that is in order. -/
theorem PoolInv.of_active {io : Io} (h : PoolInv io) {task : Io.Task}
    (hslot : task.2 ∈ io.pool.active task.1) : io.pool.Inv ∧ io.pool.Idle := by
  rcases h with h | ⟨-, -, hnone⟩
  · exact h
  · rw [hnone] at hslot
    exact absurd hslot (Finset.notMem_empty _)

/-- A task that is returned returns its slot. -/
theorem Booked.returned {task : Io.Task} {v : SlotLoop} (h : Booked l k) (hpool : PoolInv l.io)
    (hslot : task.2 ∈ l.io.pool.active task.1) (hv : Returned l task v) : Booked v k := by
  obtain ⟨ready, pool, hpop, rfl⟩ := hv
  obtain ⟨hactive, hreserved⟩ := (hpool.of_active hslot).1.activeTasks_pop hslot hpop
  have hcount := h.count
  have hge : ¬l.reservedSlots < 1 := by omega
  refine ⟨?_, ?_⟩
  · show pool.reservedSlots = l.pendingFutures + pool.activeTasks + l.callbacks.card + k
    omega
  · show (l.underflowed || decide (l.reservedSlots < 1)) = false
    rw [h.noUnderflow, decide_eq_false hge]
    rfl

theorem Booked.enqueueSignalFd (h : Booked l k) (hpool : PoolInv l.io)
    (oldRead : Option (ℕ × Io.Env)) (env : Io.Env) :
    Booked (l.enqueueSignalFd oldRead env).2 k := by
  unfold SlotLoop.enqueueSignalFd
  rcases oldRead with _ | ⟨task, cancelEnv⟩
  · exact h.queue hpool _ _
  · have hbooked := h.queue hpool (.cancelIo task) cancelEnv
    have hpool' : PoolInv (l.queue (.cancelIo task) cancelEnv).2.io := hpool.queueUnlocked _ _
    dsimp only
    split
    · rename_i heq
      rw [heq] at hbooked
      exact hbooked
    · rename_i heq
      rw [heq] at hbooked hpool'
      exact hbooked.queue hpool' _ _

/-- A signal gets a slot when it gets its first callback. -/
theorem Booked.link (h : Booked l k) (hpool : PoolInv l.io) (sig : ℕ) (oldRead : Option (ℕ × Io.Env))
    (env : Io.Env) (pushed : Bool) : Booked (l.link sig oldRead env pushed) k := by
  have hbooked := h.enqueueSignalFd hpool oldRead env
  unfold SlotLoop.link
  split
  · rename_i heq
    rw [heq] at hbooked
    exact hbooked
  · rename_i m heq
    rw [heq] at hbooked
    replace hbooked : Booked m k := hbooked
    split
    · exact hbooked.dispatch _ _
    · rename_i hsig
      refine ⟨?_, hbooked.noUnderflow⟩
      have hcount := hbooked.count
      have hcard := Finset.card_insert_of_notMem hsig
      show m.reservedSlots + 1 =
        m.pendingFutures + m.io.pool.activeTasks + (insert sig m.callbacks).card + k
      omega

/-- A signal that has a callback gives its slot back. -/
theorem Booked.unlink (h : Booked l k) (sig : ℕ) (pushed : Bool) : Booked (l.unlink sig pushed) k := by
  unfold SlotLoop.unlink
  split
  · rename_i hsig
    apply Booked.dispatchGuaranteed
    refine ⟨?_, h.noUnderflow⟩
    have hcount := h.count
    have hcard := Finset.card_erase_add_one hsig
    show l.reservedSlots =
      l.pendingFutures + l.io.pool.activeTasks + (l.callbacks.erase sig).card + (k + 1)
    omega
  · exact h

/-! ### The teardown -/

theorem Booked.signalsDeinit (h : Booked l k) (pushed : ℕ → Bool) : Booked (l.signalsDeinit pushed) k := by
  have hempty : Booked { l with callbacks := ∅ } (k + l.callbacks.card) := by
    refine ⟨?_, h.noUnderflow⟩
    have hcount := h.count
    show l.reservedSlots = l.pendingFutures + l.io.pool.activeTasks + 0 + (k + l.callbacks.card)
    omega
  exact ⟨hempty.unreserve.count, hempty.unreserve.noUnderflow⟩

/-- A queued step of a pending task loses the slot of the task. -/
theorem Booked.releaseSend (h : Booked l k) (task : ℕ) :
    ∃ j, Booked (l.releaseReady (.executeTaskSend task)) (k + j) ∧
      (j = 0 ↔ ∀ o, l.objects[task]? = some o → ¬HoldsSlot o) := by
  rcases ho : l.objects[task]? with _ | o
  · refine ⟨0, ?_, by simp⟩
    simp only [SlotLoop.releaseReady, ho]
    exact h
  · simp only [SlotLoop.releaseReady, ho]
    by_cases hpending : o.future.status = .pending
    · refine ⟨if HoldsSlot o then 1 else 0, ?_, by simp⟩
      rw [if_pos hpending]
      apply h.setObject ho
      rw [if_neg fun hh : HoldsSlot { o with future := { o.future with status := .canceled } } =>
        nomatch hh.1]
      rfl
    · refine ⟨0, ?_, ?_⟩
      · rw [if_neg hpending]
        exact h
      · simp only [Option.some.injEq, true_iff]
        rintro o' rfl hold
        exact hpending hold.1

/-- The other callbacks lose none. -/
theorem Booked.releaseOther (h : Booked l k) (callback : Ready) (hother : callback.sendsTo = none) :
    Booked (l.releaseReady callback) k := by
  cases callback with
  | executeTaskSend task => exact nomatch hother
  | executeTaskThrow task exception =>
    unfold SlotLoop.releaseReady
    dsimp only
    split
    · rename_i o ho
      cases exception with
      | true => exact h.resolve ho FutureStatus.noConfusion
      | false => exact h
    · exact h
  | runFutureCallbacks f =>
    unfold SlotLoop.releaseReady
    dsimp only
    split
    · rename_i o ho
      obtain ⟨queue, hqueue⟩ := releaseCallbacksQueue_eq o.future
      rw [hqueue]
      exact h.setObject_same ho Iff.rfl
    · exact h
  | signal sig => exact h
  | callback id => exact h

theorem unreserve_zero (l : SlotLoop) : l.unreserve 0 = l := by
  simp [unreserve, setPool, reservedSlots]

theorem unreserve_add (l : SlotLoop) (m n : ℕ) : (l.unreserve m).unreserve n = l.unreserve (m + n) := by
  have hlt : (decide (l.reservedSlots < m) || decide (l.reservedSlots - m < n)) =
      decide (l.reservedSlots < m + n) := by
    rw [Bool.or_eq_decide]
    simp only [decide_eq_true_eq, decide_eq_decide]
    omega
  calc (l.unreserve m).unreserve n
      = { l.setPool { l.io.pool with reservedSlots := l.reservedSlots - m - n } with
          underflowed := (l.underflowed || decide (l.reservedSlots < m)) ||
            decide (l.reservedSlots - m < n) } := rfl
    _ = l.unreserve (m + n) := by
        rw [Nat.sub_sub, Bool.or_assoc, hlt]
        rfl

/-- So many slots were returned, and the ready queue is another one. -/
def Drained (l : SlotLoop) (n : ℕ) (v : SlotLoop) : Prop :=
  ∃ ready, v = { l.unreserve n with ready := ready }

theorem Drained.refl (l : SlotLoop) : Drained l 0 l := ⟨l.ready, by rw [unreserve_zero]⟩

theorem Drained.trans {u v : SlotLoop} {m n : ℕ} (h : Drained l m u) (h' : Drained u n v) :
    Drained l (m + n) v := by
  obtain ⟨ready, rfl⟩ := h
  obtain ⟨ready', rfl⟩ := h'
  exact ⟨ready', by rw [← unreserve_add]; rfl⟩

theorem drained_dispatchGuaranteed (l : SlotLoop) (callback : Ready) (pushed : Bool) :
    Drained l 1 (l.dispatchGuaranteed callback pushed) := by
  unfold dispatchGuaranteed SlotLoop.dispatch
  split
  · exact ⟨_, rfl⟩
  · exact ⟨l.ready, rfl⟩

/-- The callbacks of a set that are dispatched, the one that fails among them. -/
def reached (n : ℕ) : Option ℕ → ℕ
  | some fails => min n (fails + 1)
  | none => n

theorem drained_cancelAll (l : SlotLoop) (callbacks : List ℕ) (fails : Option ℕ) :
    Drained l (reached callbacks.length fails) (l.cancelAll callbacks fails) := by
  induction callbacks generalizing l fails with
  | nil =>
    have hzero : reached ([] : List ℕ).length fails = 0 := by
      cases fails with
      | none => rfl
      | some fails => exact Nat.zero_min _
    rw [hzero]
    unfold cancelAll
    exact .refl l
  | cons callback callbacks ih =>
    have hmore : ∀ fails', reached (callback :: callbacks).length fails =
        1 + reached callbacks.length fails' →
          Drained l (reached (callback :: callbacks).length fails)
            ((l.dispatchGuaranteed (.callback callback) true).cancelAll callbacks fails') := by
      intro fails' heq
      rw [heq]
      exact (drained_dispatchGuaranteed l _ _).trans (ih _ fails')
    rcases fails with _ | _ | fails
    · apply hmore none
      exact Nat.add_comm _ _
    · rw [show reached (callback :: callbacks).length (some 0) = 1 by simp [reached]]
      exact drained_dispatchGuaranteed l _ false
    · apply hmore (some fails)
      simp only [reached, List.length_cons]
      omega

theorem drained_foldl (l : SlotLoop) (addresses : List ℕ) (callbacks : ℕ → List ℕ)
    (fails : ℕ → Option ℕ) :
    Drained l (addresses.map fun a => reached (callbacks a).length (fails a)).sum
      (addresses.foldl (fun l a => l.cancelAll (callbacks a) (fails a)) l) := by
  induction addresses generalizing l with
  | nil => exact .refl l
  | cons a addresses ih => exact (drained_cancelAll l (callbacks a) (fails a)).trans (ih _)

/-- The callbacks of a set are those of its active tasks. -/
theorem length_callbacksAt {pool : TaskPool} {a : ℕ} {s : BlockingTasksSet} (hinv : pool.Inv)
    (hidle : pool.Idle) (hs : pool.sets a = some s) :
    (callbacksAt pool a).length =
      ((pool.active a).filter fun slot => (s.taskData slot).isSome).card := by
  have hslots := hinv.slots a s hs
  unfold callbacksAt
  rw [hs]
  dsimp only
  rw [List.length_filterMap_eq_countP]
  have hcount : (List.range s.index).countP (fun slot => (s.taskData slot).isSome) =
      Nat.count (fun slot => (s.taskData slot).isSome = true) s.index := by simp [Nat.count]
  rw [hcount, Nat.count_eq_card_filter_range]
  congr 1
  ext slot
  simp only [Finset.mem_filter, Finset.mem_range]
  constructor
  · rintro ⟨hlt, hsome⟩
    refine ⟨?_, hsome⟩
    by_contra hidleSlot
    have hnone := hidle a slot hidleSlot
    rw [TaskPool.callback?_of_some hs] at hnone
    rw [hnone] at hsome
    exact nomatch hsome
  · rintro ⟨hactive, hsome⟩
    exact ⟨hslots.used_lt slot hactive, hsome⟩

/-- The sets there are: the one in use, and the detached ones. -/
theorem activeTasks_eq_sum {pool : TaskPool} (hinv : pool.Inv) :
    pool.activeTasks = ∑ a ∈ (pool.set :: pool.busySets).toFinset, pool.tasksAt a := by
  obtain ⟨s, hs, hdis⟩ := hinv.set_live
  symm
  apply Finset.sum_subset
  · intro a ha
    rw [List.mem_toFinset, List.mem_cons] at ha
    rw [Finset.mem_range]
    rcases ha with rfl | ha
    · exact hinv.lt_next hs
    · obtain ⟨s', hs', -⟩ := (hinv.busy a).1 ha
      exact hinv.lt_next hs'
  · intro a _ hnot
    rw [List.mem_toFinset, List.mem_cons, not_or] at hnot
    rcases ha : pool.sets a with _ | s'
    · exact TaskPool.tasksAt_of_none ha
    · cases hd : s'.disattached with
      | true => exact absurd ((hinv.busy a).2 ⟨s', ha, hd⟩) hnot.2
      | false => exact absurd (hinv.set_unique a s' ha hd) hnot.1

theorem nodup_sets {pool : TaskPool} (hinv : pool.Inv) : (pool.set :: pool.busySets).Nodup := by
  obtain ⟨s, hs, hdis⟩ := hinv.set_live
  refine List.nodup_cons.2 ⟨fun hmem => ?_, hinv.busy_nodup⟩
  obtain ⟨s', hs', hdis'⟩ := (hinv.busy _).1 hmem
  obtain rfl := Option.some.inj (hs.symm.trans hs')
  exact nomatch hdis.symm.trans hdis'

theorem reached_tasksAt {pool : TaskPool} {a : ℕ} {s : BlockingTasksSet} (hinv : pool.Inv)
    (hidle : pool.Idle) (hs : pool.sets a = some s) (fails : Option ℕ) :
    reached (callbacksAt pool a).length fails ≤ pool.tasksAt a ∧
      (reached (callbacksAt pool a).length fails = pool.tasksAt a ↔ Cancels pool a s fails) := by
  have hcard := (hinv.slots a s hs).card
  have hlength := length_callbacksAt hinv hidle hs
  have hle := Finset.card_filter_le (pool.active a) fun slot => (s.taskData slot).isSome
  have hall := Finset.card_filter_eq_iff (s := pool.active a) (p := fun slot => (s.taskData slot).isSome)
  rw [TaskPool.tasksAt_of_some hs]
  unfold Cancels
  rw [← hall]
  cases fails with
  | none =>
    simp only [reached]
    refine ⟨by omega, ?_⟩
    simp only [reduceCtorEq, false_imp_iff, implies_true, and_true]
    omega
  | some fails =>
    simp only [reached, Option.some.injEq, forall_eq']
    omega

/-- The teardown of the ring returns the slots of the tasks that `cancel_all` comes to. -/
theorem Booked.ioDeinit (h : Booked l k) (hinv : l.io.pool.Inv) (hidle : l.io.pool.Idle)
    (fails : ℕ → Option ℕ) :
    ∃ j, Booked (l.ioDeinit fails) (k + j) ∧
      (j = 0 ↔ ∀ a s, l.io.pool.sets a = some s → Cancels l.io.pool a s (fails a)) := by
  have hnodup := nodup_sets hinv
  obtain ⟨ready, hdrained⟩ := drained_foldl l (l.io.pool.set :: l.io.pool.busySets)
    (callbacksAt l.io.pool) fails
  have hset : ∀ a ∈ (l.io.pool.set :: l.io.pool.busySets).toFinset, ∃ s, l.io.pool.sets a = some s := by
    intro a ha
    rw [List.mem_toFinset, List.mem_cons] at ha
    rcases ha with rfl | ha
    · obtain ⟨s, hs, -⟩ := hinv.set_live
      exact ⟨s, hs⟩
    · obtain ⟨s, hs, -⟩ := (hinv.busy a).1 ha
      exact ⟨s, hs⟩
  have hle : ∀ a ∈ (l.io.pool.set :: l.io.pool.busySets).toFinset,
      reached (callbacksAt l.io.pool a).length (fails a) ≤ l.io.pool.tasksAt a := by
    intro a ha
    obtain ⟨s, hs⟩ := hset a ha
    exact (reached_tasksAt hinv hidle hs (fails a)).1
  -- the slots that are returned, set by set
  have hsum := List.sum_toFinset (fun a => reached (callbacksAt l.io.pool a).length (fails a)) hnodup
  have htotal := Finset.sum_le_sum hle
  have hexact := Finset.sum_eq_sum_iff_of_le hle
  rw [hsum, ← activeTasks_eq_sum hinv] at htotal hexact
  generalize hn : (List.map (fun a => reached (callbacksAt l.io.pool a).length (fails a))
    (l.io.pool.set :: l.io.pool.busySets)).sum = n at hdrained htotal hexact
  have hcount := h.count
  have hge : ¬l.reservedSlots < n := by omega
  refine ⟨l.io.pool.activeTasks - n, ⟨?_, ?_⟩, ?_⟩
  · have hreserved : (l.ioDeinit fails).reservedSlots = l.reservedSlots - n := by
      unfold SlotLoop.ioDeinit
      dsimp only
      rw [hdrained]
      rfl
    have hothers : (l.ioDeinit fails).pendingFutures = l.pendingFutures ∧
        (l.ioDeinit fails).callbacks = l.callbacks := by
      unfold SlotLoop.ioDeinit
      dsimp only
      rw [hdrained]
      exact ⟨rfl, rfl⟩
    have hactive : (l.ioDeinit fails).io.pool.activeTasks = 0 := by
      refine Finset.sum_eq_zero fun a _ => ?_
      apply TaskPool.tasksAt_of_none
      rfl
    rw [hreserved, hothers.1, hothers.2, hactive]
    omega
  · unfold SlotLoop.ioDeinit
    dsimp only
    rw [hdrained]
    show (l.underflowed || decide (l.reservedSlots < n)) = false
    rw [h.noUnderflow, decide_eq_false hge]
    rfl
  · have hzero : l.io.pool.activeTasks - n = 0 ↔ n = l.io.pool.activeTasks := by omega
    rw [hzero, hexact]
    constructor
    · intro hall a s hs
      have hmem : a ∈ (l.io.pool.set :: l.io.pool.busySets).toFinset := by
        rw [List.mem_toFinset, List.mem_cons]
        cases hd : s.disattached with
        | true => exact .inr ((hinv.busy a).2 ⟨s, hs, hd⟩)
        | false => exact .inl (hinv.set_unique a s hs hd)
      exact (reached_tasksAt hinv hidle hs (fails a)).2.1 (hall a hmem)
    · intro hall a ha
      obtain ⟨s, hs⟩ := hset a ha
      exact (reached_tasksAt hinv hidle hs (fails a)).2.2 (hall a s hs)

/-! ### Every run -/

/-- What every step keeps: the pool is in order, and a future that is not released has a loop. -/
structure Inv (l : SlotLoop) : Prop where
  pool : PoolInv l.io
  hasLoop : ∀ (f : ℕ) (o : FutureObject), l.objects[f]? = some o → o.future.released = false →
    o.hasLoop = true

theorem inv_init : Inv init where
  pool := .inl ⟨.init, .init⟩
  hasLoop f o h := by
    rw [show init.objects[f]? = none from rfl] at h
    exact nomatch h

/-- Overwriting an object keeps it when the object keeps it. -/
theorem Inv.setObject (h : Inv l) (ho' : o'.future.released = false → o'.hasLoop = true) :
    Inv (l.setObject f o') where
  pool := h.pool
  hasLoop g o hget hrel := by
    replace hget : (l.objects.set f o')[g]? = some o := hget
    rw [List.getElem?_set] at hget
    split at hget
    · split at hget
      · obtain rfl := Option.some.inj hget
        exact ho' hrel
      · exact nomatch hget
    · exact h.hasLoop g o hget hrel

/-- The counter is no part of it. -/
theorem PoolInv.reserved {io : Io} (h : PoolInv io) (n : ℕ) :
    PoolInv { io with pool := { io.pool with reservedSlots := n } } := by
  rcases h with ⟨hinv, hidle⟩ | hgone
  · exact .inl ⟨{ hinv with }, hidle⟩
  · exact .inr hgone

theorem Inv.reserve (h : Inv l) : Inv l.reserve := ⟨h.pool.reserved _, h.hasLoop⟩

theorem Inv.unreserve (h : Inv l) (n : ℕ) : Inv (l.unreserve n) := ⟨h.pool.reserved _, h.hasLoop⟩

theorem Inv.dispatch (h : Inv l) (callback : Ready) (pushed : Bool) : Inv (l.dispatch callback pushed) := by
  unfold SlotLoop.dispatch
  split
  · exact ⟨h.pool, h.hasLoop⟩
  · exact h

theorem Inv.callDoneCallbacks {newStatus : FutureStatus} {pushed : Bool} (h : Inv l)
    (ho : l.objects[f]? = some o) : Inv (l.callDoneCallbacks f o newStatus pushed) := by
  have hloop : ({ o with future := { o.future with status := newStatus } } : FutureObject).future.released
      = false → o.hasLoop = true := h.hasLoop f o ho
  unfold SlotLoop.callDoneCallbacks
  split
  · exact h
  · dsimp only
    split
    · exact (Inv.setObject h hloop).unreserve 1
    · split
      · obtain ⟨queue, hqueue⟩ := releaseCallbacksQueue_eq { o.future with status := newStatus }
        rw [hqueue]
        exact (h.unreserve 1).setObject hloop
      · exact ((h.setObject hloop).unreserve 1).dispatch _ _

theorem Inv.resolve {newStatus : FutureStatus} {pushed : Bool} (h : Inv l)
    (ho : l.objects[f]? = some o) : Inv (l.resolve f o newStatus pushed) := by
  unfold SlotLoop.resolve
  split
  · exact h
  · exact h.callDoneCallbacks ho

theorem Inv.clear (h : Inv l) (hasCoro : Bool) : Inv (l.clear f o hasCoro) := by
  unfold SlotLoop.clear
  split
  · rename_i hrel
    exact h.setObject fun hnot => nomatch hnot.symm.trans hrel
  · dsimp only
    split
    · exact (h.unreserve 1).setObject nofun
    · exact h.setObject nofun

theorem Inv.initConfiguration (h : Inv l) (hasCoro : Bool) : Inv (l.initConfiguration f o hasCoro) :=
  h.reserve.setObject fun _ => rfl

theorem Inv.queue (h : Inv l) (event : Io.BlockingOperationData) (env : Io.Env) :
    Inv (l.queue event env).2 := ⟨h.pool.queueUnlocked event env, h.hasLoop⟩

theorem Inv.returned {task : Io.Task} {v : SlotLoop} (h : Inv l)
    (hslot : task.2 ∈ l.io.pool.active task.1) (hv : Returned l task v) : Inv v := by
  obtain ⟨ready, pool, hpop, rfl⟩ := hv
  obtain ⟨hinv, hidle⟩ := h.pool.of_active hslot
  exact ⟨.inl ⟨hinv.pop hslot hpop, hidle.pop hpop⟩, h.hasLoop⟩

theorem Inv.enqueueSignalFd (h : Inv l) (oldRead : Option (ℕ × Io.Env)) (env : Io.Env) :
    Inv (l.enqueueSignalFd oldRead env).2 := by
  unfold SlotLoop.enqueueSignalFd
  rcases oldRead with _ | ⟨task, cancelEnv⟩
  · exact h.queue _ _
  · have hqueued := h.queue (.cancelIo task) cancelEnv
    dsimp only
    split <;> rename_i heq <;> rw [heq] at hqueued
    · exact hqueued
    · exact hqueued.queue _ _

theorem Inv.link (h : Inv l) (sig : ℕ) (oldRead : Option (ℕ × Io.Env)) (env : Io.Env) (pushed : Bool) :
    Inv (l.link sig oldRead env pushed) := by
  have hqueued := h.enqueueSignalFd oldRead env
  unfold SlotLoop.link
  split <;> rename_i heq <;> rw [heq] at hqueued
  · exact hqueued
  · split
    · exact hqueued.dispatch _ _
    · exact ⟨hqueued.reserve.pool, hqueued.hasLoop⟩

theorem Inv.releaseReady (h : Inv l) (callback : Ready) : Inv (l.releaseReady callback) := by
  unfold SlotLoop.releaseReady
  cases callback with
  | executeTaskSend task =>
    dsimp only
    split
    · rename_i o ho
      split
      · exact h.setObject (h.hasLoop task o ho)
      · exact h
    · exact h
  | executeTaskThrow task exception =>
    dsimp only
    split
    · rename_i o ho
      split
      · exact h.resolve ho
      · exact h
    · exact h
  | runFutureCallbacks f =>
    dsimp only
    split
    · rename_i o ho
      obtain ⟨queue, hqueue⟩ := releaseCallbacksQueue_eq o.future
      rw [hqueue]
      exact h.setObject (h.hasLoop f o ho)
    · exact h
  | signal sig => exact h
  | callback id => exact h

theorem Inv.ioDeinit (h : Inv l) (fails : ℕ → Option ℕ) : Inv (l.ioDeinit fails) := by
  obtain ⟨ready, hdrained⟩ := drained_foldl l (l.io.pool.set :: l.io.pool.busySets)
    (callbacksAt l.io.pool) fails
  refine ⟨.inr ⟨rfl, fun _ => rfl, fun _ => rfl⟩, ?_⟩
  unfold SlotLoop.ioDeinit
  dsimp only
  rw [hdrained]
  exact h.hasLoop

theorem Inv.futureInit (h : Inv l) : Inv (l.futureInit f o) := by
  unfold SlotLoop.futureInit
  split
  · exact (h.clear o.hasCoro).initConfiguration _
  · exact h.initConfiguration _

theorem Inv.taskInit (h : Inv l) (coroutine registered pushed : Bool) :
    Inv (l.taskInit f o coroutine registered pushed) := by
  unfold SlotLoop.taskInit
  split
  · exact h
  · split
    · exact (h.initConfiguration true).dispatch _ _
    · exact h.initConfiguration false

theorem addDoneCallback_eq {future future' : Future} {data : Future.Data} {id : ℕ} {allocated : Bool}
    (h : future.addDoneCallback data id allocated = some future') :
    ∃ queue, future' = { future with callbacksQueue := queue } := by
  unfold Future.addDoneCallback at h
  split at h
  · obtain rfl := Option.some.inj h
    exact ⟨future.callbacksQueue, rfl⟩
  · obtain ⟨queue, -, rfl⟩ := Option.map_eq_some_iff.1 h
    exact ⟨queue, rfl⟩

/-- What one step can do. -/
inductive Step (l : SlotLoop) : Event → SlotLoop → Prop
  | newObject (isTask : Bool) :
      Step l (.newObject isTask) { l with objects := l.objects ++ [⟨isTask, .new, false, false⟩] }
  | futureInit (f : ℕ) (o : FutureObject) (ho : l.objects[f]? = some o) :
      Step l (.futureInit f) (l.futureInit f o)
  | taskInit (f : ℕ) (o : FutureObject) (coroutine registered pushed : Bool) (ho : l.objects[f]? = some o) :
      Step l (.taskInit f coroutine registered pushed) (l.taskInit f o coroutine registered pushed)
  | added (f : ℕ) (o : FutureObject) (data : Future.Data) (id : ℕ) (allocated : Bool) (future : Future)
      (ho : l.objects[f]? = some o) (hadd : o.future.addDoneCallback data id allocated = some future) :
      Step l (.addDoneCallback f data id allocated) (l.setObject f { o with future := future })
  | notAdded (f : ℕ) (data : Future.Data) (id : ℕ) (allocated : Bool) :
      Step l (.addDoneCallback f data id allocated) l
  | setResult (f : ℕ) (o : FutureObject) (pushed : Bool) (ho : l.objects[f]? = some o) :
      Step l (.setResult f pushed) (l.resolve f o .finished pushed)
  | setException (f : ℕ) (o : FutureObject) (pushed : Bool) (ho : l.objects[f]? = some o) :
      Step l (.setException f pushed) (l.resolve f o .finished pushed)
  | cancel (f : ℕ) (o : FutureObject) (pushed : Bool) (ho : l.objects[f]? = some o) :
      Step l (.cancel f pushed) (l.resolve f o .canceled pushed)
  | clear (f : ℕ) (o : FutureObject) (ho : l.objects[f]? = some o) : Step l (.clear f) (l.clear f o false)
  | queue (event : Io.BlockingOperationData) (env : Io.Env) : Step l (.queue event env) (l.queue event env).2
  | complete (task : Io.Task) (pushed : Bool) (v : SlotLoop) (hslot : task.2 ∈ l.io.pool.active task.1)
      (hv : Returned l task v) : Step l (.complete task pushed) v
  | discard (task : Io.Task) (v : SlotLoop) (hslot : task.2 ∈ l.io.pool.active task.1)
      (hv : Returned l task v) : Step l (.discard task) v
  | newRing : Step l .newRing { l with io := { l.io with sq := [], published := 0 } }
  | link (sig : ℕ) (oldRead : Option (ℕ × Io.Env)) (env : Io.Env) (pushed : Bool) :
      Step l (.link sig oldRead env pushed) (l.link sig oldRead env pushed)
  | unlink (sig : ℕ) (pushed : Bool) : Step l (.unlink sig pushed) (l.unlink sig pushed)
  | dispatch (callback : Ready) (pushed : Bool) :
      Step l (.dispatch callback pushed) (l.dispatch callback pushed)
  | tick : Step l .tick { l with ready := l.ready.tail }
  | close : Step l .close { l with initialized := false }
  | signalsDeinit (pushed : ℕ → Bool) : Step l (.signalsDeinit pushed) (l.signalsDeinit pushed)
  | releaseReady (callback : Ready) (ready : List Ready) (hready : l.ready = callback :: ready) :
      Step l .releaseReady ({ l with ready := ready }.releaseReady callback)
  | ioDeinit (fails : ℕ → Option ℕ) (hopen : l.io.ringOpen) : Step l (.ioDeinit fails) (l.ioDeinit fails)
  | loopInit : Step l .loopInit l.loopInit

/-- **Inversion of `step`.** -/
theorem step_cases {e : Event} {v : SlotLoop} (hs : l.step e = some v) : Step l e v := by
  cases e with
  | newObject isTask =>
    obtain rfl := Option.some.inj hs
    exact .newObject isTask
  | futureInit f =>
    obtain ⟨o, ho, rfl⟩ := Option.map_eq_some_iff.1 hs
    exact .futureInit f o ho
  | taskInit f coroutine registered pushed =>
    obtain ⟨o, ho, rfl⟩ := Option.map_eq_some_iff.1 hs
    exact .taskInit f o coroutine registered pushed (Option.eq_some_of_filter_eq_some ho)
  | addDoneCallback f data id allocated =>
    obtain ⟨o, ho, rfl⟩ := Option.map_eq_some_iff.1 hs
    split
    · rename_i future hadd
      exact .added f o data id allocated future ho hadd
    · exact .notAdded f data id allocated
  | setResult f pushed =>
    obtain ⟨o, ho, rfl⟩ := Option.map_eq_some_iff.1 hs
    exact .setResult f o pushed ho
  | setException f pushed =>
    obtain ⟨o, ho, rfl⟩ := Option.map_eq_some_iff.1 hs
    exact .setException f o pushed ho
  | cancel f pushed =>
    obtain ⟨o, ho, rfl⟩ := Option.map_eq_some_iff.1 hs
    exact .cancel f o pushed ho
  | clear f =>
    obtain ⟨o, ho, rfl⟩ := Option.map_eq_some_iff.1 hs
    exact .clear f o ho
  | queue event env =>
    obtain rfl := Option.some.inj hs
    exact .queue event env
  | complete task pushed =>
    obtain ⟨hslot, hs⟩ := Option.ite_none_right_eq_some.1 hs
    exact .complete task pushed v hslot (returned_complete hs)
  | discard task =>
    obtain ⟨hslot, hs⟩ := Option.ite_none_right_eq_some.1 hs
    exact .discard task v hslot (returned_discard hs)
  | newRing =>
    obtain rfl := Option.some.inj hs
    exact .newRing
  | link sig oldRead env pushed =>
    obtain ⟨-, hs⟩ := Option.ite_none_right_eq_some.1 hs
    obtain rfl := Option.some.inj hs
    exact .link sig oldRead env pushed
  | unlink sig pushed =>
    obtain rfl := Option.some.inj hs
    exact .unlink sig pushed
  | dispatch callback pushed =>
    obtain rfl := Option.some.inj hs
    exact .dispatch callback pushed
  | tick =>
    obtain ⟨-, hs⟩ := Option.ite_none_right_eq_some.1 hs
    obtain rfl := Option.some.inj hs
    exact .tick
  | close =>
    obtain rfl := Option.some.inj hs
    exact .close
  | signalsDeinit pushed =>
    obtain ⟨-, hs⟩ := Option.ite_none_left_eq_some.1 hs
    obtain rfl := Option.some.inj hs
    exact .signalsDeinit pushed
  | releaseReady =>
    simp only [SlotLoop.step] at hs
    split at hs
    · rename_i callback ready hready
      obtain ⟨-, hs⟩ := Option.ite_none_left_eq_some.1 hs
      obtain rfl := Option.some.inj hs
      exact .releaseReady callback ready hready
    · exact nomatch hs
  | ioDeinit fails =>
    obtain ⟨hguard, hs⟩ := Option.ite_none_right_eq_some.1 hs
    obtain rfl := Option.some.inj hs
    exact .ioDeinit fails hguard.2.1
  | loopInit =>
    obtain ⟨-, hs⟩ := Option.ite_none_right_eq_some.1 hs
    obtain rfl := Option.some.inj hs
    exact .loopInit

theorem Inv.step {e : Event} {v : SlotLoop} (h : Inv l) (hs : l.step e = some v) : Inv v := by
  cases step_cases hs with
  | newObject isTask =>
    refine ⟨h.pool, fun f o hget hrel => ?_⟩
    rcases List.mem_append.1 (List.mem_of_getElem? hget) with hmem | hmem
    · obtain ⟨g, hg⟩ := List.mem_iff_getElem?.1 hmem
      exact h.hasLoop g o hg hrel
    · rw [List.mem_singleton.1 hmem] at hrel
      exact nomatch hrel
  | futureInit f o ho => exact h.futureInit
  | taskInit f o coroutine registered pushed ho => exact h.taskInit coroutine registered pushed
  | added f o data id allocated future ho hadd =>
    obtain ⟨queue, rfl⟩ := addDoneCallback_eq hadd
    exact h.setObject (h.hasLoop f o ho)
  | notAdded f data id allocated => exact h
  | setResult f o pushed ho | setException f o pushed ho | cancel f o pushed ho => exact h.resolve ho
  | clear f o ho => exact h.clear false
  | queue event env => exact h.queue event env
  | complete task pushed v hslot hv | discard task v hslot hv => exact h.returned hslot hv
  | newRing | tick | close => exact ⟨h.pool, h.hasLoop⟩
  | link sig oldRead env pushed => exact h.link sig oldRead env pushed
  | unlink sig pushed =>
    unfold SlotLoop.unlink
    split
    · have hcallbacks : Inv { l with callbacks := l.callbacks.erase sig } := ⟨h.pool, h.hasLoop⟩
      exact (hcallbacks.unreserve 1).dispatch _ _
    · exact h
  | dispatch callback pushed => exact h.dispatch callback pushed
  | signalsDeinit pushed => exact ⟨(h.unreserve _).pool, h.hasLoop⟩
  | releaseReady callback ready hready =>
    have hpopped : Inv { l with ready := ready } := ⟨h.pool, h.hasLoop⟩
    exact hpopped.releaseReady callback
  | ioDeinit fails hopen => exact h.ioDeinit fails
  | loopInit => exact ⟨inv_init.pool, h.hasLoop⟩

/-- Releasing a ready callback keeps the books unless it steps a task that is pending. -/
theorem Sound.releaseReady_iff (hsound : Sound l) {callback : Ready} {ready : List Ready}
    (hready : l.ready = callback :: ready) :
    Sound ({ l with ready := ready }.releaseReady callback) ↔ l.Returns .releaseReady := by
  have hpopped : Booked { l with ready := ready } 0 := ⟨hsound.count, hsound.noUnderflow⟩
  unfold Returns
  rw [hready]
  rcases hsend : callback.sendsTo with _ | task
  · refine iff_of_true (hpopped.releaseOther callback hsend) ?_
    simp [hsend]
  · obtain rfl : callback = .executeTaskSend task := by
      cases callback with
      | executeTaskSend task' => exact congrArg Ready.executeTaskSend (Option.some.inj hsend)
      | executeTaskThrow _ _ | runFutureCallbacks _ | signal _ | callback _ => exact nomatch hsend
    obtain ⟨j, hbooked, hj⟩ := hpopped.releaseSend task
    rw [hbooked.sound_iff, Nat.zero_add, hj]
    simp [Ready.sendsTo]

/-- The counter starts again at zero, but the futures of the closed loop are still there. -/
theorem Sound.loopInit_iff (hsound : Sound l) : Sound l.loopInit ↔ ∀ o ∈ l.objects, ¬HoldsSlot o := by
  have hpending : l.loopInit.pendingFutures = 0 ↔ ∀ o ∈ l.objects, ¬HoldsSlot o := by
    show l.objects.countP _ = 0 ↔ _
    rw [List.countP_eq_zero]
    simp only [decide_eq_true_eq]
  have hactive : l.loopInit.io.pool.activeTasks = 0 :=
    show Io.init.pool.activeTasks = 0 by decide
  rw [← hpending]
  constructor
  · intro hbooked
    have hcount := hbooked.count
    have hzero : l.loopInit.reservedSlots = 0 := rfl
    omega
  · intro hnone
    refine ⟨?_, hsound.noUnderflow⟩
    rw [hnone, hactive]
    rfl

/-- One step from a sound state is sound exactly when it meets its condition. -/
theorem sound_iff_returns {e : Event} {v : SlotLoop} (h : Inv l) (hsound : Sound l)
    (hs : l.step e = some v) : Sound v ↔ l.Returns e := by
  cases step_cases hs with
  | newObject isTask =>
    refine iff_of_true ⟨?_, hsound.noUnderflow⟩ trivial
    refine hsound.count.trans ?_
    have hnew : ¬HoldsSlot ⟨isTask, .new, false, false⟩ := fun hh => nomatch hh.2
    unfold pendingFutures
    rw [List.countP_append, List.countP_singleton, decide_eq_false hnew]
    rfl
  | futureInit f o ho => exact iff_of_true (hsound.futureInit ho (h.hasLoop f o ho)) trivial
  | taskInit f o coroutine registered pushed ho =>
    rw [(hsound.taskInit ho coroutine registered pushed).sound_iff]
    show _ ↔ ∀ o', l.objects[f]? = some o' → o'.hasCoro = false → ¬HoldsSlot o'
    rw [ho]
    simp
  | added f o data id allocated future ho hadd =>
    obtain ⟨queue, rfl⟩ := addDoneCallback_eq hadd
    exact iff_of_true (hsound.setObject_same ho Iff.rfl) trivial
  | notAdded f data id allocated => exact iff_of_true hsound trivial
  | setResult f o pushed ho | setException f o pushed ho =>
    exact iff_of_true (hsound.resolve ho FutureStatus.noConfusion) trivial
  | cancel f o pushed ho => exact iff_of_true (hsound.resolve ho FutureStatus.noConfusion) trivial
  | clear f o ho => exact iff_of_true (hsound.clear ho false) trivial
  | queue event env => exact iff_of_true (hsound.queue h.pool event env) trivial
  | complete task pushed v hslot hv => exact iff_of_true (hsound.returned h.pool hslot hv) trivial
  | discard task v hslot hv => exact iff_of_true (hsound.returned h.pool hslot hv) trivial
  | newRing | tick | close => exact iff_of_true ⟨hsound.count, hsound.noUnderflow⟩ trivial
  | link sig oldRead env pushed => exact iff_of_true (hsound.link h.pool sig oldRead env pushed) trivial
  | unlink sig pushed => exact iff_of_true (hsound.unlink sig pushed) trivial
  | dispatch callback pushed => exact iff_of_true (Booked.dispatch hsound callback pushed) trivial
  | signalsDeinit pushed => exact iff_of_true (hsound.signalsDeinit pushed) trivial
  | releaseReady callback ready hready => exact hsound.releaseReady_iff hready
  | ioDeinit fails hopen =>
    rcases h.pool with ⟨hinv, hidle⟩ | ⟨hclosed, -⟩
    · obtain ⟨j, hbooked, hj⟩ := hsound.ioDeinit hinv hidle fails
      rw [hbooked.sound_iff, Nat.zero_add, hj]
      rfl
    · exact nomatch hclosed.symm.trans hopen
  | loopInit => exact hsound.loopInit_iff

/-- **Reserved slots.** In every run `reserved_slots` is the number of pending unreleased futures, active
blocking tasks and linked signals, and never goes below zero, exactly when each step of the run meets its
condition. -/
theorem reserved_slots_accounted (es : List Event) :
    Runs.Always step Sound init es ↔ Runs.Along step Meets init es := by
  refine Runs.always_iff_along inv_init ?_ (fun u e v hu hs => hu.step hs) ?_ ?_
  · exact ⟨by decide, rfl⟩
  · intro u e v hinv hsound hs
    rw [sound_iff_returns hinv hsound hs]
    have henabled : (u.step e).isSome = true := by rw [hs]; rfl
    exact ⟨fun hret _ => hret, fun hmeets => hmeets henabled⟩
  · intro u e hnone henabled
    rw [hnone] at henabled
    exact nomatch henabled

/-- A task whose `__init__` fails on an argument that is no coroutine has taken a slot; `__init__` with a
coroutine takes another one for the same future. -/
theorem reserved_slots_drift : ¬∀ es, Runs.Always step Sound init es := by
  intro h
  have hsound := (h [.newObject true, .taskInit 0 false true true, .taskInit 0 true true true]).last rfl
  have hcount := hsound.count
  exact absurd hcount (by decide)

end SlotLoop

end Talyn
