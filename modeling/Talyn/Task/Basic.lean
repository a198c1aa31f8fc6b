import Talyn.Future.Basic
import Talyn.Lib.Runs

/-!
# Tasks

The tasks of `src/task/` and the futures they await, of one open loop. A task is a future too: the two
share their numbers, and `isTask` tells which of the futures are tasks.

A step of a task begins with one of its wake-ups: the queued `execute_task_send` or `execute_task_throw`,
the `wakeup_task` that an awaited future calls, or the `py_wake_up` that a legacy future was given. It
ends when the coroutine returned, raised or yielded. In between, and between the steps, anything can
happen to the futures and tasks.

Left out are the results, the cancel messages and the texts of exceptions. Dispatching a callback,
allocating, and entering and leaving the registries of current tasks do not fail. A legacy future calls
each callback that it was given at most once, and not from within `add_done_callback` or `cancel`.
-/

namespace Talyn

namespace Tasks

/-- An exception, as far as the code looks at it; `fatal` is `KeyboardInterrupt` or `SystemExit`. -/
inductive Exc
  | ordinary
  | cancelledError
  | fatal
  deriving DecidableEq, Repr

inductive CoroState
  | suspended
  | running
  | finished
  deriving DecidableEq, Repr

/-- What a task awaits, its `fut_waiter`. -/
inductive Waiter
  | future (f : ℕ)
  | legacy (l : ℕ)
  deriving DecidableEq, Repr

/-- What became of an accepted `cancel()`: the awaited object accepted it, a `CancelledError` was thrown
into the coroutine, the task finished, or `uncancel()` took it back. -/
inductive Fate
  | forwarded
  | thrown
  | finished
  | withdrawn
  deriving DecidableEq, Repr

/-- How `cancel()` of an awaited object ends: it raises, or returns a true or a false value. -/
inductive Answer
  | raised (e : Exc)
  | accepted
  | refused
  deriving DecidableEq, Repr

/-- The part of a future that its tasks see. -/
structure FutureObject where
  status : FutureStatus
  /-- the future belongs to the loop of the tasks -/
  ours : Bool
  blocking : Bool
  /-- `exception` is set -/
  exception : Bool
  deriving DecidableEq, Repr

/-- A new future. -/
def FutureObject.new (ours : Bool) : FutureObject := ⟨.pending, ours, false, false⟩

/-- What a task has besides its future. The last five fields are not in the source: the references that
its wake-ups own, the number of `cancel()` calls it accepted, those of them that `must_cancel` stands
for, what became of the others, and whether it was cancelled as if it were a plain future. -/
structure TaskObject where
  coro : CoroState
  futWaiter : Option Waiter
  mustCancel : Bool
  cancelRequests : ℕ
  refs : ℤ
  accepted : ℕ
  held : List ℕ
  log : List (ℕ × Fate)
  bypassed : Bool
  deriving DecidableEq, Repr

/-- A new task; its first `execute_task_send` owns a reference. -/
def TaskObject.new : TaskObject where
  coro := .suspended
  futWaiter := none
  mustCancel := false
  cancelRequests := 0
  refs := 1
  accepted := 0
  held := []
  log := []
  bypassed := false

/-- An entry of the ready queue: `execute_task_send`, `execute_task_throw`, or
`run_python_future_set_callbacks`. -/
inductive Ready
  | send (t : ℕ)
  | throw (t : ℕ)
  | runCallbacks (f : ℕ)
  deriving DecidableEq, Repr

/-- What began a step. -/
inductive Carrier
  | send
  | throw
  | future (f : ℕ)
  | legacy (l : ℕ)
  deriving DecidableEq, Repr

/-- The step that is being executed; `thrown` tells how the coroutine was resumed. -/
structure Step where
  task : ℕ
  carrier : Carrier
  thrown : Bool
  deriving DecidableEq, Repr

/-- What a legacy object does when it is yielded: it has no `_asyncio_future_blocking`, or not a bool
there, or `False`; `add_done_callback` raises; the flag cannot be cleared; or it is awaited, and its
`cancel()`, if it is called, ends with `answer`. `repr` is what goes wrong when a message about it is
made. -/
inductive LegacyObject
  | noFlag (e : Exc)
  | badFlag (repr : Option Exc)
  | notBlocking (repr : Option Exc)
  | addRaises (e : Exc)
  | setFlagRaises (e : Exc)
  | waits (answer : Answer)
  deriving DecidableEq, Repr

/-- What a coroutine yields. -/
inductive Yield
  | none
  | talyn (f : ℕ) (repr : Option Exc)
  | legacy (l : ℕ) (object : LegacyObject)
  deriving DecidableEq, Repr

end Tasks

/-- The tasks of a loop and the futures they await. -/
structure Tasks where
  /-- the number of the next object -/
  next : ℕ
  isTask : ℕ → Bool
  futures : ℕ → Tasks.FutureObject
  tasks : ℕ → Tasks.TaskObject
  /-- the tasks whose `wakeup_task` is in the `callbacks_queue` of a future -/
  callbacks : List (ℕ × ℕ)
  /-- the tasks whose `wake_up_task_callback` a legacy future has -/
  legacy : List (ℕ × ℕ)
  ready : List Tasks.Ready
  /-- what `run_python_future_set_callbacks` has still to call -/
  calling : List (ℕ × ℕ)
  running : Option Tasks.Step
  /-- the native stack is exhausted, and the process gone -/
  overflowed : Bool

namespace Tasks

/-- The loop before its first task. -/
def init : Tasks where
  next := 0
  isTask := fun _ => false
  futures := fun _ => .new true
  tasks := fun _ => .new
  callbacks := []
  legacy := []
  ready := []
  calling := []
  running := none
  overflowed := false

/-- The status of a future or a task. -/
def status (w : Tasks) (f : ℕ) : FutureStatus := (w.futures f).status

/-- A future changes. -/
def setFuture (w : Tasks) (f : ℕ) (change : FutureObject → FutureObject) : Tasks :=
  { w with futures := Function.update w.futures f (change (w.futures f)) }

/-- A task changes. -/
def setTask (w : Tasks) (t : ℕ) (change : TaskObject → TaskObject) : Tasks :=
  { w with tasks := Function.update w.tasks t (change (w.tasks t)) }

/-- `py_incref` of a task. -/
def incref (w : Tasks) (t : ℕ) : Tasks := w.setTask t fun task => { task with refs := task.refs + 1 }

/-- `py_decref` of a task. -/
def decref (w : Tasks) (t : ℕ) : Tasks := w.setTask t fun task => { task with refs := task.refs - 1 }

/-- `dispatch`, for one of the callbacks of a task. -/
def dispatch (w : Tasks) (r : Ready) : Tasks := { w with ready := w.ready ++ [r] }

/-! ### Futures -/

/-- `call_done_callbacks`. Only callbacks of tasks are followed. -/
def callDoneCallbacks (w : Tasks) (f : ℕ) (newStatus : FutureStatus) : Tasks :=
  if w.status f ≠ .pending then w
  else
    let w := w.setFuture f fun future => { future with status := newStatus }
    if w.callbacks.any fun c => c.1 = f then w.dispatch (.runCallbacks f) else w

/-- `future_fast_cancel`, with whether it accepted. -/
def futureFastCancel (w : Tasks) (f : ℕ) : Bool × Tasks :=
  if w.status f ≠ .pending then (false, w) else (true, w.callDoneCallbacks f .canceled)

/-- `future_fast_set_result`. -/
def futureFastSetResult (w : Tasks) (f : ℕ) : Tasks := w.callDoneCallbacks f .finished

/-- `future_fast_set_exception`; it raises when the future is not pending. -/
def futureFastSetException (w : Tasks) (f : ℕ) : Tasks :=
  if w.status f ≠ .pending then w
  else (w.setFuture f fun future => { future with exception := true }).callDoneCallbacks f .finished

/-- `add_done_callback` with the `wakeup_task` of a task. -/
def addDoneCallback (w : Tasks) (f t : ℕ) : Tasks :=
  if w.status f ≠ .pending then w else { w with callbacks := w.callbacks ++ [(f, t)] }

/-! ### What becomes of a `cancel()` -/

/-- The largest `usize`; `cancel_requests` saturates there. -/
def usizeMax : ℕ := 2 ^ 64 - 1

/-- `cancel_requests +|= 1`. -/
def TaskObject.request (task : TaskObject) : TaskObject :=
  { task with cancelRequests := min (task.cancelRequests + 1) usizeMax }

/-- A request is kept in `must_cancel`. -/
def TaskObject.hold (task : TaskObject) : TaskObject :=
  { task with
    mustCancel := true, accepted := task.accepted + 1, held := task.held ++ [task.accepted] }

/-- The awaited object accepted a request. -/
def TaskObject.forward (task : TaskObject) : TaskObject :=
  { task with accepted := task.accepted + 1, log := task.log ++ [(task.accepted, .forwarded)] }

/-- The requests that `must_cancel` stands for come to their end. -/
def TaskObject.consume (fate : Fate) (task : TaskObject) : TaskObject :=
  { task with held := [], log := task.log ++ task.held.map fun id => (id, fate) }

/-- The requests that `must_cancel` stands for are forwarded, and the flag stays. -/
def TaskObject.forwardHeld (task : TaskObject) : TaskObject :=
  { task with log := task.log ++ task.held.map fun id => (id, .forwarded) }

/-! ### `cancel.zig` -/

/-- `cancel_future_waiter`, given `fast_task_cancel`. -/
def cancelFutureWaiter (fastTaskCancel : Tasks → ℕ → Option (Answer × Tasks)) (answer : Answer)
    (w : Tasks) : Waiter → Option (Answer × Tasks)
  | .future f =>
    if w.isTask f then fastTaskCancel w f
    else
      let r := w.futureFastCancel f
      some (if r.1 then .accepted else .refused, r.2)
  | .legacy _ => some (answer, w)

/-- `fast_task_cancel`. The argument `answer` is that of a legacy future at the end of the chain. With
more fuel than there are tasks it is exhausted only when tasks await each other in a circle; the native
stack is then exhausted too. -/
def fastTaskCancel (answer : Answer) : ℕ → Tasks → ℕ → Option (Answer × Tasks)
  | 0, _, _ => none
  | fuel + 1, w, t =>
    if w.status t ≠ .pending then some (.refused, w)
    else
      let w := w.setTask t .request
      match (w.tasks t).futWaiter with
      | none => some (.accepted, w.setTask t .hold)
      | some waiter =>
        match cancelFutureWaiter (fastTaskCancel answer fuel) answer w waiter with
        | none => none
        | some (.raised e, w) => some (.raised e, w)
        | some (.accepted, w) => some (.accepted, w.setTask t .forward)
        | some (.refused, w) => some (.accepted, w.setTask t .hold)

/-- `task_cancel`. -/
def taskCancel (w : Tasks) (t : ℕ) (answer : Answer) : Tasks :=
  match fastTaskCancel answer (w.next + 1) w t with
  | none => { w with overflowed := true }
  | some (_, w) => w

/-- `task_uncancel`. -/
def taskUncancel (w : Tasks) (t : ℕ) : Tasks :=
  w.setTask t fun task =>
    let task := { task with cancelRequests := task.cancelRequests - 1 }
    if task.cancelRequests = 0 then { task.consume .withdrawn with mustCancel := false } else task

/-! ### `callbacks.zig`: the end of a step -/

/-- `set_fut_waiter`; it raises when there is one already. -/
def setFutWaiter (w : Tasks) (t : ℕ) (waiter : Waiter) : Tasks × Option Exc :=
  if (w.tasks t).futWaiter.isSome then (w, some .ordinary)
  else (w.setTask t fun task => { task with futWaiter := some waiter }, none)

/-- `create_new_py_exception_and_add_event`. -/
def createNewPyExceptionAndAddEvent (w : Tasks) (t : ℕ) : Option Exc → Tasks × Option Exc
  | some e => (w, some e)
  | none => ((w.dispatch (.throw t)).incref t, none)

/-- `cancel_future_object` with a `FutureObject`, which can be that of a task. -/
def cancelFutureObject (w : Tasks) (t f : ℕ) : Tasks :=
  let r := w.futureFastCancel f
  if r.1 then
    let w := r.2.setTask t .forwardHeld
    if w.isTask f then w.setTask f fun task => { task with bypassed := true } else w
  else r.2

/-- `handle_talyn_future_object`. -/
def handleTalynFutureObject (w : Tasks) (t f : ℕ) (repr : Option Exc) : Tasks × Option Exc :=
  if !(w.futures f).ours then w.createNewPyExceptionAndAddEvent t repr
  else if (w.futures f).blocking then
    if f = t then w.createNewPyExceptionAndAddEvent t repr
    else
      match ((w.addDoneCallback f t).incref t).setFutWaiter t (.future f) with
      | (w, some e) => (w, some e)
      | (w, none) =>
        let w := w.setFuture f fun future => { future with blocking := false }
        (if (w.tasks t).mustCancel then w.cancelFutureObject t f else w, none)
  else w.createNewPyExceptionAndAddEvent t repr

/-- `handle_legacy_future_object`. -/
def handleLegacyFutureObject (w : Tasks) (t l : ℕ) : LegacyObject → Tasks × Option Exc
  | .noFlag e => (w, some e)
  | .badFlag repr => w.createNewPyExceptionAndAddEvent t repr
  | .notBlocking repr => w.createNewPyExceptionAndAddEvent t repr
  | .addRaises e => (w, some e)
  | .setFlagRaises e => ({ w with legacy := w.legacy ++ [(l, t)] }.incref t, some e)
  | .waits answer =>
    match ({ w with legacy := w.legacy ++ [(l, t)] }.incref t).setFutWaiter t (.legacy l) with
    | (w, some e) => (w, some e)
    | (w, none) =>
      if (w.tasks t).mustCancel then
        match answer with
        | .raised e => (w, some e)
        | .accepted => (w.setTask t .forwardHeld, none)
        | .refused => (w, none)
      else (w, none)

/-- `successfully_execution`. -/
def successfullyExecution (w : Tasks) (t : ℕ) : Yield → Tasks × Option Exc
  | .none => ((w.dispatch (.send t)).incref t, none)
  | .talyn f repr => w.handleTalynFutureObject t f repr
  | .legacy l object => w.handleLegacyFutureObject t l object

/-- The task is done; the source drops its waiter then. -/
def finish (w : Tasks) (t : ℕ) : Tasks :=
  w.setTask t fun task => { task.consume .finished with futWaiter := none }

/-- `set_result`. -/
def setResult (w : Tasks) (t : ℕ) : Tasks :=
  (if (w.tasks t).mustCancel then (w.futureFastCancel t).2 else w.futureFastSetResult t).finish t

/-- `failed_execution`, with what the coroutine raised; a `StopIteration` is a return. -/
def failedExecution (w : Tasks) (t : ℕ) (e : Exc) : Tasks :=
  (match e with
    | .cancelledError => (w.futureFastCancel t).2
    | _ => w.futureFastSetException t).finish t

/-- The step is over, and the reference of its wake-up is released. -/
def stepEnds (w : Tasks) (t : ℕ) : Tasks := { w.decref t with running := none }

/-- The coroutine is at its end. -/
def coroEnds (w : Tasks) (t : ℕ) : Tasks := w.setTask t fun task => { task with coro := .finished }

/-- A wake-up ends with an exception of the step itself: `py_wake_up` returns it, the others make it the
exception of the task unless it is fatal. -/
def stepFails (w : Tasks) (s : Step) (e : Exc) : Tasks :=
  match s.carrier, e with
  | .legacy _, _ => w
  | _, .fatal => w
  | _, _ =>
    if w.status s.task = .pending then
      (w.futureFastSetException s.task).setTask s.task (.consume .finished)
    else w

/-- The coroutine yielded. -/
def coroYields (w : Tasks) (s : Step) (y : Yield) : Tasks :=
  let w := w.setTask s.task fun task => { task with coro := .suspended }
  match w.successfullyExecution s.task y with
  | (w, none) => w.stepEnds s.task
  | (w, some e) => (w.stepFails s e).stepEnds s.task

/-! ### `callbacks.zig`: the beginning of a step -/

/-- `_execute_task_send` and `_execute_task_throw` up to the resumption of the coroutine; `enters` tells
that the context of the task can be entered. -/
def execute (w : Tasks) (s : Step) (enters : Bool) : Tasks :=
  let task := w.tasks s.task
  let w := w.setTask s.task fun task => { task with mustCancel := false }
  if w.status s.task ≠ .pending then w.decref s.task
  else if enters then
    { w.setTask s.task fun task => { task.consume .thrown with coro := .running } with
      running := some { s with thrown := s.thrown || task.mustCancel } }
  else (w.failedExecution s.task .ordinary).decref s.task

/-- `wakeup_task`. -/
def wakeupTask (w : Tasks) (f t : ℕ) (enters : Bool) : Tasks :=
  (w.setTask t fun task => { task with futWaiter := none }).execute
    ⟨t, .future f, (w.futures f).exception⟩ enters

/-- `py_wake_up`; `result` tells whether the object has a `result` method, and whether that raised. -/
def pyWakeUp (w : Tasks) (l t : ℕ) (result : Option Bool) (enters : Bool) : Tasks :=
  let w := w.setTask t fun task => { task with futWaiter := none }
  match result with
  | none => w.decref t
  | some raised => w.execute ⟨t, .legacy l, raised⟩ enters

/-! ### Runs -/

inductive Event
  | newFuture (ours : Bool)
  | newTask
  /-- `_asyncio_future_blocking` is set, by `__await__` or as an attribute -/
  | setBlocking (f : ℕ) (blocking : Bool)
  | setResult (f : ℕ)
  | setException (f : ℕ)
  | cancelFuture (f : ℕ)
  | cancel (t : ℕ) (answer : Answer)
  | uncancel (t : ℕ)
  /-- the loop takes the next entry of the ready queue -/
  | tick (enters : Bool)
  /-- the callbacks of a future are called -/
  | wake (enters : Bool)
  | legacyWake (l t : ℕ) (result : Option Bool) (enters : Bool)
  /-- the coroutine returned, raised or yielded -/
  | returned
  | raised (e : Exc)
  | yielded (y : Yield)
  deriving DecidableEq, Repr

/-- The next entry of the ready queue is executed. -/
def tick (w : Tasks) (enters : Bool) : Option Tasks :=
  match w.ready with
  | [] => none
  | .send t :: ready => some ({ w with ready := ready }.execute ⟨t, .send, false⟩ enters)
  | .throw t :: ready => some ({ w with ready := ready }.execute ⟨t, .throw, true⟩ enters)
  | .runCallbacks f :: ready =>
    some
      { w with
        ready := ready
        calling := w.callbacks.filter fun c => c.1 = f
        callbacks := w.callbacks.filter fun c => c.1 ≠ f }

/-- One event; `none` when it cannot happen. The methods of a future that complete it do so for plain
futures: a task refuses them. -/
def act (w : Tasks) (e : Event) : Option Tasks :=
  match e with
  | .newFuture ours =>
    some
      { w with
        next := w.next + 1, futures := Function.update w.futures w.next (.new ours) }
  | .newTask =>
    some
      { w with
        next := w.next + 1
        isTask := Function.update w.isTask w.next true
        futures := Function.update w.futures w.next (.new true)
        tasks := Function.update w.tasks w.next .new
        ready := w.ready ++ [.send w.next] }
  | .setBlocking f blocking =>
    if f < w.next then some (w.setFuture f fun future => { future with blocking := blocking }) else none
  | .setResult f => if f < w.next ∧ !w.isTask f then some (w.futureFastSetResult f) else none
  | .setException f => if f < w.next ∧ !w.isTask f then some (w.futureFastSetException f) else none
  | .cancelFuture f => if f < w.next ∧ !w.isTask f then some (w.futureFastCancel f).2 else none
  | .cancel t answer => if w.isTask t then some (w.taskCancel t answer) else none
  | .uncancel t => if w.isTask t then some (w.taskUncancel t) else none
  | .tick enters => if w.running = none ∧ w.calling = [] then w.tick enters else none
  | .wake enters =>
    match w.running, w.calling with
    | none, (f, t) :: calling => some ({ w with calling := calling }.wakeupTask f t enters)
    | _, _ => none
  | .legacyWake l t result enters =>
    if w.running = none ∧ (l, t) ∈ w.legacy then
      some ({ w with legacy := w.legacy.erase (l, t) }.pyWakeUp l t result enters)
    else none
  | .returned => w.running.map fun s => ((w.coroEnds s.task).setResult s.task).stepEnds s.task
  | .raised e => w.running.map fun s => ((w.coroEnds s.task).failedExecution s.task e).stepEnds s.task
  | .yielded y =>
    match w.running with
    | none => none
    | some s =>
      match y with
      | .talyn f _ => if f < w.next then some (w.coroYields s y) else none
      | _ => some (w.coroYields s y)

/-- One event of a process that is alive. -/
def step (w : Tasks) (e : Event) : Option Tasks := if w.overflowed then none else w.act e

/-- The task of which an event begins a step, and whether its context can be entered. -/
def beginning (w : Tasks) : Event → Option (ℕ × Bool)
  | .tick enters =>
    match w.ready with
    | .send t :: _ => some (t, enters)
    | .throw t :: _ => some (t, enters)
    | _ => none
  | .wake enters => w.calling.head?.map fun c => (c.2, enters)
  | .legacyWake _ t (some _) enters => some (t, enters)
  | _ => none

theorem act_of_step {w v : Tasks} {e : Event} (h : w.step e = some v) :
    w.overflowed = false ∧ w.act e = some v := by
  rw [step] at h
  split at h
  · exact nomatch h
  · rename_i halive
    exact ⟨Bool.eq_false_iff.2 halive, h⟩

end Tasks

end Talyn
