import Talyn.Future.Basic
import Talyn.Lib.Runs

/-!
# The done callbacks of a future

Everything that walks over the queue of one future: completion and cancellation (`call_done_callbacks`),
the ready callback of the loop (`run_python_future_set_callbacks`), `remove_done_callback` with its
comparisons in Python, and the release by the garbage collector (`Future.release`). Python code can run
between any two steps of these walks, and call into the future again; the walks that wait for it are
kept on a stack of frames.

The ready callback that was dispatched owns a reference to the future, and so does whoever called a
method that has not returned: `release` only starts when there is neither. An error while the context of
a callback is entered counts as an exception of that callback.
-/

namespace Talyn

namespace FutureMachine

open Future (Ref Data Callback)

/-- What a Python call raises. -/
inductive Error
  | valueError (message : String)
  | typeError (message : String)
  | runtimeError (message : String)
  | invalidStateError (message : String)
  | memoryError
  /-- what `__eq__` raised -/
  | comparison
  deriving DecidableEq, Repr

/-- How a Python call ends. -/
inductive Outcome
  | none
  | bool (value : Bool)
  | count (removed : ℕ)
  | raised (error : Error)
  deriving DecidableEq, Repr

/-- What happens to a future and its callbacks. -/
inductive Effect
  | reserveSlot
  | returnSlot
  | setStatus (status : FutureStatus)
  | incref (ref : Ref)
  | decref (ref : Ref)
  /-- the callback of the call `id` is put into the queue -/
  | added (id : ℕ)
  | executed (id : ℕ)
  | removed (id : ℕ)
  /-- the references of the call `id` go to a handle, which the loop runs -/
  | handed (id : ℕ)
  /-- the ready callback has run -/
  | ran
  | returned (outcome : Outcome)
  deriving DecidableEq, Repr

/-- Why the callbacks are released without being called: `call_done_callbacks` on a closed loop, the
ready callback of a loop that is closed, or `Future.release`. -/
inductive Cause
  | closed
  | cancelled
  | teardown
  deriving DecidableEq, Repr

/-- A call that Python code interrupts; `drops` are the references it drops next. -/
inductive Frame
  /-- a setter after it dropped the old payload -/
  | callDoneCallbacks (status : FutureStatus) (outcome : Outcome)
  | remove (index : ℕ) (drops : List Ref) (count : ℕ)
  /-- `remove_done_callback` in a comparison -/
  | comparing (index : ℕ) (count : ℕ)
  | run (index : ℕ) (drops : List Ref)
  /-- `run_python_future_set_callbacks` in a callback -/
  | calling (index : ℕ) (refs : List Ref)
  | release (index : ℕ) (drops : List Ref) (cause : Cause)
  deriving DecidableEq, Repr

/-- The argument `context` of `add_done_callback`. -/
inductive ContextArg
  | absent
  | none
  | context
  | invalid
  deriving DecidableEq, Repr

/-- The arguments of `add_done_callback`, and what the system answers: whether the queue can grow,
whether the handle can be made, and whether it can be dispatched. -/
structure AddArgs where
  nargs : ℕ
  context : ContextArg
  callable : Bool
  allocated : Bool
  handleMade : Bool
  dispatched : Bool
  deriving DecidableEq, Repr

/-- What `PyObject_RichCompareBool` answers. -/
inductive Comparison
  | raises
  | different
  | equal
  deriving DecidableEq, Repr

end FutureMachine

open FutureMachine in
/-- A future and the loop around it. -/
structure FutureMachine where
  future : Future
  /-- `py_loop` is not null -/
  armed : Bool
  /-- the loop is open -/
  initialized : Bool
  /-- `run_python_future_set_callbacks` is in the ready queue -/
  dispatched : Bool
  /-- the number of calls of `add_done_callback` -/
  next : ℕ
  frames : List Frame
  trace : List Effect

namespace FutureMachine

open Future (Ref Data Callback)

/-- A future that was made by `tp_new`. -/
def new : FutureMachine where
  future := .new
  armed := false
  initialized := true
  dispatched := false
  next := 0
  frames := []
  trace := []

/-- Record effects. -/
def emit (w : FutureMachine) (es : List Effect) : FutureMachine := { w with trace := w.trace ++ es }

/-- The end of `z_future_add_done_callback`, once both references are taken. -/
def register (w : FutureMachine) (id : ℕ) (args : AddArgs) : FutureMachine :=
  if w.future.status = .pending then
    match w.future.addDoneCallback (.pythonGeneric ⟨some (.callback id), some (.context id)⟩) id
        args.allocated with
    | none => w.emit [.returned (.raised .memoryError)]
    | some future =>
      -- the call is silently ignored when the future is released
      let es : List Effect := if w.future.released then [] else [.added id]
      { w with future := future }.emit (es ++ [Effect.returned .none])
  else if !w.initialized then
    w.emit [.decref (.context id), .decref (.callback id),
      .returned (.raised (.runtimeError "Event loop is closed"))]
  else if !args.handleMade then
    w.emit [.decref (.context id), .decref (.callback id), .returned (.raised .memoryError)]
  else if !args.dispatched then
    -- the handle is dropped, and drops its references
    w.emit [.decref (.context id), .decref (.callback id), .returned (.raised .memoryError)]
  else w.emit [.handed id, .returned .none]

/-- `z_future_add_done_callback`. -/
def addDoneCallback (w : FutureMachine) (args : AddArgs) : FutureMachine :=
  if args.nargs ≠ 1 then
    w.emit [.returned (.raised (.valueError "Invalid number of arguments"))]
  else
    let id := w.next
    let w := { w with next := id + 1 }
    if args.context = .invalid then
      w.emit [.incref (.context id), .decref (.context id),
        .returned (.raised (.typeError "Invalid context"))]
    else
      let w := w.emit [.incref (.context id), .incref (.callback id)]
      if !args.callable then
        w.emit [.decref (.callback id), .decref (.context id),
          .returned (.raised (.typeError "Invalid callback"))]
      else w.register id args

/-- `wakeup_task` registered by a task that awaits the future. -/
def addWakeup (w : FutureMachine) (ptr : ℕ) (allocated : Bool) : FutureMachine :=
  let id := w.next
  let w := { w with next := id + 1 }
  match w.future.addDoneCallback (.zigGeneric ptr) id allocated with
  | none => w.emit [.returned (.raised .memoryError)]
  | some future =>
    let es : List Effect := if w.future.status ≠ .pending ∨ w.future.released then [] else [.added id]
    { w with future := future }.emit (es ++ [Effect.returned .none])

/-- `z_future_set_result`, up to `call_done_callbacks`. -/
def setResult (w : FutureMachine) : FutureMachine :=
  if w.future.released ∨ w.future.status ≠ .pending then
    w.emit [.returned (.raised (.invalidStateError "Result already setted"))]
  else { w with frames := .callDoneCallbacks .finished .none :: w.frames }

/-- `z_future_set_exception`, up to `call_done_callbacks`. -/
def setException (w : FutureMachine) (isException : Bool) : FutureMachine :=
  if !isException then w.emit [.returned (.raised (.typeError "Invalid exception instance"))]
  else if w.future.released ∨ w.future.status ≠ .pending then
    w.emit [.returned (.raised (.invalidStateError "Exception already setted"))]
  else { w with frames := .callDoneCallbacks .finished .none :: w.frames }

/-- `future_fast_cancel`, up to `call_done_callbacks`. -/
def cancel (w : FutureMachine) : FutureMachine :=
  if w.future.released then w.emit [.returned (.bool false)]
  else if w.future.status ≠ .pending then w.emit [.returned (.bool false)]
  else { w with frames := .callDoneCallbacks .canceled (.bool true) :: w.frames }

/-- `call_done_callbacks`; `grows` tells whether the ready queue has room or can grow. -/
def callDoneCallbacks (w : FutureMachine) (newStatus : FutureStatus) (outcome : Outcome)
    (grows : Bool) : FutureMachine :=
  if w.future.status ≠ .pending then w.emit [.returned outcome]
  else
    let w := { w with future := { w.future with status := newStatus } }.emit
      [.setStatus newStatus, .returnSlot]
    if w.future.callbacks = [] then w.emit [.returned outcome]
    else if !w.initialized then { w with frames := .release 0 [] .closed :: w.frames }
    else if grows then { w with dispatched := true }.emit [.returned outcome]
    else w.emit [.returned (.raised .memoryError)]

/-- `remove_done_callback` at the entry `i`, with the other frames `fs`. -/
def removeNext (w : FutureMachine) (i count : ℕ) (fs : List Frame) : FutureMachine :=
  match w.future.callbacks[i]? with
  | none => { w with frames := fs }.emit [.returned (.count count)]
  | some entry =>
    if w.future.status ≠ .pending ∨ w.future.released then
      { w with frames := fs }.emit [.returned (.count count)]
    else if entry.cancelled || entry.executed then
      { w with frames := .remove (i + 1) [] count :: fs }
    else
      match entry.data with
      | .zigGeneric _ => { w with frames := .remove (i + 1) [] count :: fs }
      | .pythonGeneric data =>
        if data.callback.isNone then { w with frames := .remove (i + 1) [] count :: fs }
        else { w with frames := .comparing i count :: fs }

/-- What `remove_done_callback` leaves of an entry. -/
def detach (callback : Callback) : Callback :=
  { callback with data := .pythonGeneric ⟨none, none⟩, cancelled := true }

/-- `remove_done_callback` after a comparison. -/
def compared (w : FutureMachine) (comparison : Comparison) (i count : ℕ) (fs : List Frame) :
    FutureMachine :=
  match comparison with
  | .raises => { w with frames := fs }.emit [.returned (.raised .comparison)]
  | .different => { w with frames := .remove (i + 1) [] count :: fs }
  | .equal =>
    match w.future.callbacks[i]? with
    | none => { w with frames := fs }.emit [.returned (.count count)]
    | some slot =>
      if w.future.released then { w with frames := fs }.emit [.returned (.count count)]
      else if slot.cancelled || slot.executed then
        { w with frames := .remove (i + 1) [] count :: fs }
      else
        match slot.data with
        | .zigGeneric _ => { w with frames := .remove (i + 1) [] count :: fs }
        | .pythonGeneric data =>
          { w with
            future := w.future.modify i detach
            frames := .remove (i + 1) (Data.pythonGeneric data).refs.reverse (count + 1) :: fs }.emit
            [.removed slot.id]

/-- The flag that keeps an entry from being executed or released twice. -/
def markExecuted (callback : Callback) : Callback := { callback with executed := true }

/-- `run_python_future_set_callbacks` at the entry `i`. With exceptions in the queue it ends with a
group of them as its error, which drains the queue. -/
def runNext (w : FutureMachine) (i : ℕ) (fs : List Frame) : FutureMachine :=
  match w.future.callbacks[i]? with
  | none =>
    { w with
      future := { w.future with exceptionsQueue := w.future.exceptionsQueue.popAll }
      frames := fs }.emit [.ran]
  | some callback =>
    if callback.cancelled || callback.executed then { w with frames := .run (i + 1) [] :: fs }
    else
      let w := { w with future := w.future.modify i markExecuted }
      match callback.data with
      | .pythonGeneric data =>
        if data.callback.isNone ∨ data.context.isNone then
          { w with frames := .run (i + 1) [] :: fs }
        else { w with frames := .calling i callback.data.refs :: fs }.emit [.executed callback.id]
      | .zigGeneric _ => { w with frames := .calling i [] :: fs }.emit [.executed callback.id]

/-- A callback returned or raised. -/
def returned (w : FutureMachine) (raised allocated : Bool) (i : ℕ) (refs : List Ref)
    (fs : List Frame) : FutureMachine :=
  let queue := w.future.exceptionsQueue
  let queue := if raised then (queue.append (some i) allocated).getD queue else queue
  { w with future := { w.future with exceptionsQueue := queue }, frames := .run (i + 1) refs :: fs }

/-- `release_callbacks_queue` at the entry `i`, and what follows it. -/
def releaseNext (w : FutureMachine) (i : ℕ) (cause : Cause) (fs : List Frame) : FutureMachine :=
  match w.future.callbacks[i]? with
  | none =>
    match cause with
    | .closed =>
      { w with frames := fs }.emit [.returned (.raised (.runtimeError "Event loop is closed"))]
    | .cancelled => { w with frames := fs }
    | .teardown =>
      { w with
        future := { w.future with callbacksQueue := .empty, exceptionsQueue := .empty }
        frames := fs }
  | some callback =>
    if callback.executed then { w with frames := .release (i + 1) [] cause :: fs }
    else
      { w with
        future := w.future.modify i markExecuted
        frames := .release (i + 1) callback.data.refs.reverse cause :: fs }

/-- `Future.release`, up to `release_callbacks_queue`. -/
def release (w : FutureMachine) : FutureMachine :=
  let es : List Effect := if w.future.status = .pending then [.returnSlot] else []
  { w with
    future := { w.future with released := true }
    frames := .release 0 [] .teardown :: w.frames }.emit es

/-- What can happen to a future. -/
inductive Event
  /-- `Future.__init__` -/
  | init
  | addDoneCallback (args : AddArgs)
  | addWakeup (ptr : ℕ) (allocated : Bool)
  | removeDoneCallback
  | setResult
  | setException (isException : Bool)
  | cancel
  | release
  /-- the call on top of the stack goes on -/
  | proceed (grows : Bool)
  | compared (comparison : Comparison)
  | returned (raised allocated : Bool)
  /-- the loop takes the ready callback -/
  | tick
  | close
  deriving DecidableEq, Repr

/-- The call on top of the stack goes on, unless it waits for Python code. -/
def proceed (w : FutureMachine) (grows : Bool) : Option FutureMachine :=
  match w.frames with
  | .callDoneCallbacks status outcome :: fs =>
    some ({ w with frames := fs }.callDoneCallbacks status outcome grows)
  | .remove i (r :: drops) count :: fs =>
    some ({ w with frames := .remove i drops count :: fs }.emit [.decref r])
  | .remove i [] count :: fs => some (w.removeNext i count fs)
  | .run i (r :: drops) :: fs => some ({ w with frames := .run i drops :: fs }.emit [.decref r])
  | .run i [] :: fs => some (w.runNext i fs)
  | .release i (r :: drops) cause :: fs =>
    some ({ w with frames := .release i drops cause :: fs }.emit [.decref r])
  | .release i [] cause :: fs => some (w.releaseNext i cause fs)
  | _ => none

/-- One event; `none` when it cannot happen. -/
def step (w : FutureMachine) (e : Event) : Option FutureMachine :=
  match e with
  | .init =>
    if w.armed then none
    else some ({ w with future := .init, armed := true }.emit [.reserveSlot])
  | .addDoneCallback args => some (w.addDoneCallback args)
  | .addWakeup ptr allocated => some (w.addWakeup ptr allocated)
  | .removeDoneCallback =>
    if w.future.status ≠ .pending ∨ w.future.released then
      some (w.emit [.returned (.count 0)])
    else some { w with frames := .remove 0 [] 0 :: w.frames }
  | .setResult => some w.setResult
  | .setException isException => some (w.setException isException)
  | .cancel => some w.cancel
  | .release =>
    if w.future.released then some w
    else if w.dispatched ∨ w.frames ≠ [] then none
    else some w.release
  | .proceed grows => w.proceed grows
  | .compared comparison =>
    match w.frames with
    | .comparing i count :: fs => some (w.compared comparison i count fs)
    | _ => none
  | .returned raised allocated =>
    match w.frames with
    | .calling i refs :: fs => some (w.returned raised allocated i refs fs)
    | _ => none
  | .tick =>
    if w.dispatched then
      let frame := if w.initialized then .run 0 [] else .release 0 [] .cancelled
      some { w with dispatched := false, frames := frame :: w.frames }
    else none
  | .close => some { w with initialized := false }

/-! ### What the trace tells -/

/-- The callback an effect puts into the queue. -/
def Effect.added? : Effect → Option ℕ
  | .added id => some id
  | _ => none

/-- The callback an effect executes. -/
def Effect.executed? : Effect → Option ℕ
  | .executed id => some id
  | _ => none

/-- The callback an effect removes. -/
def Effect.removed? : Effect → Option ℕ
  | .removed id => some id
  | _ => none

/-- The status leaves pending. -/
def Effect.isSetStatus : Effect → Bool
  | .setStatus _ => true
  | _ => false

/-- The callbacks that were added while the future was pending, in the order of addition. -/
def addedIds (trace : List Effect) : List ℕ := trace.filterMap Effect.added?

/-- The callbacks that were executed, in the order of execution. -/
def executedIds (trace : List Effect) : List ℕ := trace.filterMap Effect.executed?

/-- The callbacks that were removed. -/
def removedIds (trace : List Effect) : List ℕ := trace.filterMap Effect.removed?

@[simp] theorem addedIds_append (t es : List Effect) : addedIds (t ++ es) = addedIds t ++ addedIds es :=
  List.filterMap_append

@[simp] theorem executedIds_append (t es : List Effect) :
    executedIds (t ++ es) = executedIds t ++ executedIds es :=
  List.filterMap_append

@[simp] theorem removedIds_append (t es : List Effect) :
    removedIds (t ++ es) = removedIds t ++ removedIds es :=
  List.filterMap_append

/-- What a trace says about the execution of callbacks. -/
structure Facts (status : FutureStatus) (trace : List Effect) : Prop where
  pending : status = .pending → executedIds trace = []
  order : (executedIds trace).Sublist (addedIds trace)
  removed : ∀ id ∈ removedIds trace, id ∉ executedIds trace
  ran : .ran ∈ trace → executedIds trace = (addedIds trace).filter (· ∉ removedIds trace)

/-- References come and go, and calls return: nothing that concerns the execution of callbacks. -/
def Effect.isQuiet : Effect → Bool
  | .incref _ | .decref _ | .handed _ | .returned _ => true
  | _ => false

/-- Only quiet effects. -/
def Quiet (es : List Effect) : Prop := ∀ e ∈ es, e.isQuiet = true

variable {w w' : FutureMachine} {es : List Effect}

theorem quiet_nil : Quiet [] := nofun

theorem Quiet.filterMap (hq : Quiet es) {f : Effect → Option ℕ}
    (hf : ∀ e : Effect, e.isQuiet = true → f e = none) : es.filterMap f = [] :=
  List.filterMap_eq_nil_iff.2 fun e he => hf e (hq e he)

theorem Quiet.added (hq : Quiet es) : addedIds es = [] :=
  hq.filterMap fun e he => by cases e <;> first | rfl | exact nomatch he

theorem Quiet.executed (hq : Quiet es) : executedIds es = [] :=
  hq.filterMap fun e he => by cases e <;> first | rfl | exact nomatch he

theorem Quiet.removed (hq : Quiet es) : removedIds es = [] :=
  hq.filterMap fun e he => by cases e <;> first | rfl | exact nomatch he

theorem Quiet.notMem (hq : Quiet es) {e : Effect} (he : e.isQuiet = false) : e ∉ es :=
  fun hin => Bool.false_ne_true (he.symm.trans (hq e hin))

theorem Quiet.filter (hq : Quiet es) : es.filter Effect.isSetStatus = [] := by
  refine List.filter_eq_nil_iff.2 fun e he => ?_
  have := hq e he
  cases e <;> first | exact Bool.false_ne_true | exact nomatch this

/-! ### The walks over the queue -/

/-- A call that is not a walk that executes or releases callbacks. -/
def Frame.isCall : Frame → Bool
  | .callDoneCallbacks _ _ | .remove _ _ _ | .comparing _ _ => true
  | _ => false

/-- `run_python_future_set_callbacks`. -/
def Frame.isRun : Frame → Bool
  | .run _ _ | .calling _ _ => true
  | _ => false

theorem Frame.not_isRun {f : Frame} (h : f.isCall = true) : f.isRun = false := by
  cases f <;> first | rfl | exact nomatch h

/-- How many entries the ready callback has dealt with. -/
def progress (w : FutureMachine) : ℕ :=
  match w.frames with
  | .run i _ :: _ => i
  | .calling i _ :: _ => i + 1
  | _ => if .ran ∈ w.trace then w.future.callbacks.length else 0

/-- An entry with both references. -/
def Attached (callback : Callback) : Prop :=
  ∀ data, callback.data = .pythonGeneric data →
    data.callback.isSome = true ∧ data.context.isSome = true

/-- Such an entry has a callback and a context to call it in. -/
theorem Attached.not_none {callback : Callback} (h : Attached callback) {data : Future.PythonGenericData}
    (hdata : callback.data = .pythonGeneric data) :
    ¬(data.callback.isNone = true ∨ data.context.isNone = true) := by
  obtain ⟨hcallback, hcontext⟩ := h data hdata
  rw [Option.isNone_eq_false_iff.2 hcallback, Option.isNone_eq_false_iff.2 hcontext]
  simp

/-- The rest of the queue is still to be executed. -/
def Waits (w : FutureMachine) : Prop :=
  (w.future.status = .pending ∧ w.future.released = false) ∨ w.dispatched = true ∨
    ∃ f ∈ w.frames, f.isRun = true

/-- The queue and the trace agree. -/
structure Walk (w : FutureMachine) : Prop where
  ids : w.future.callbacks.map Callback.id = addedIds w.trace
  cancelled : ∀ cb ∈ w.future.callbacks, cb.cancelled = true ↔ cb.id ∈ removedIds w.trace
  subset : ∀ id ∈ removedIds w.trace, id ∈ addedIds w.trace
  attached : ∀ cb ∈ w.future.callbacks, cb.cancelled = false → Attached cb
  executed : executedIds w.trace =
    ((w.future.callbacks.take w.progress).filter fun cb => !cb.cancelled).map Callback.id
  before : ∀ cb ∈ w.future.callbacks.take w.progress, cb.executed = true ∨ cb.cancelled = true
  after : w.Waits → ∀ cb ∈ w.future.callbacks.drop w.progress, cb.executed = false

/-- Once the future is released and its queue freed nothing happens to it any more. -/
def Torn (w : FutureMachine) : Prop := w.future.released = true ∧ w.frames = []

/-- What holds between two steps. -/
structure Inv (w : FutureMachine) : Prop where
  tail : ∀ f ∈ w.frames.tail, f.isCall = true
  setters : ∀ status outcome, .callDoneCallbacks status outcome ∈ w.frames → status ≠ .pending
  pending : w.future.status = .pending → .ran ∉ w.trace ∧ w.dispatched = false ∧
    (w.future.released = false → ∀ f ∈ w.frames, f.isCall = true)
  ready : w.dispatched = true →
    w.future.released = false ∧ .ran ∉ w.trace ∧ ∀ f ∈ w.frames, f.isCall = true
  running : ∀ f ∈ w.frames, f.isRun = true →
    w.future.released = false ∧ .ran ∉ w.trace ∧ w.dispatched = false
  releasing : ∀ i drops cause, .release i drops cause ∈ w.frames → w.dispatched = false ∧
    (cause ≠ .teardown → w.future.released = false ∧ .ran ∉ w.trace) ∧
    (cause = .teardown → w.future.released = true) ∧
    ∀ cb ∈ w.future.callbacks.take i, cb.executed = true
  released : w.future.released = true → ∀ f ∈ w.frames, ∃ i drops, f = .release i drops .teardown
  torn : w.Torn → w.future.callbacks = []
  unarmed : w.armed = false → w.future.callbacks = [] ∧ w.future.status = .pending ∧
    w.future.released = true ∧ w.frames = [] ∧ w.dispatched = false ∧
    addedIds w.trace = [] ∧ executedIds w.trace = [] ∧ removedIds w.trace = [] ∧ .ran ∉ w.trace
  increasing : (addedIds w.trace).Pairwise (· < ·) ∧ ∀ id ∈ addedIds w.trace, id < w.next
  facts : Facts w.future.status w.trace
  walk : ¬w.Torn → w.Walk
  once : (w.trace.filter Effect.isSetStatus).length = if w.future.status = .pending then 0 else 1
  reserved : w.trace.count .reserveSlot = if w.armed then 1 else 0
  slots : w.trace.count .returnSlot +
    (if w.future.status = .pending ∧ w.future.released = false then 1 else 0) =
      w.trace.count .reserveSlot

theorem Inv.new : Inv .new := by
  refine ⟨nofun, nofun, fun _ => ⟨nofun, rfl, nofun⟩, nofun, nofun, nofun, fun _ => nofun,
    fun _ => rfl, fun _ => ⟨rfl, rfl, rfl, rfl, rfl, rfl, rfl, rfl, nofun⟩, ⟨.nil, nofun⟩, ⟨fun _ => rfl, .slnil, nofun, nofun⟩, ?_,
    rfl, rfl,
    rfl⟩
  exact fun hnot => absurd ⟨rfl, rfl⟩ hnot

/-- Outside of the ready callback `progress` only depends on whether it has run. -/
theorem progress_of_not_run (hrun : ∀ f ∈ w.frames, f.isRun = false) :
    w.progress = if .ran ∈ w.trace then w.future.callbacks.length else 0 := by
  unfold progress
  split
  · rename_i i drops fs heq
    have hnot := hrun (.run i drops) (by rw [heq]; exact List.mem_cons_self)
    exact nomatch hnot
  · rename_i i refs fs heq
    have hnot := hrun (.calling i refs) (by rw [heq]; exact List.mem_cons_self)
    exact nomatch hnot
  · rfl

/-- Without a walk the ready callback has dealt with the whole queue or with nothing. -/
theorem progress_of_calls (hcalls : ∀ f ∈ w.frames, f.isCall = true) :
    w.progress = if .ran ∈ w.trace then w.future.callbacks.length else 0 :=
  progress_of_not_run fun f hf => Frame.not_isRun (hcalls f hf)

/-- The ready callback does not run while the future is pending. -/
theorem Inv.not_run_of_pending (h : Inv w) (hp : w.future.status = .pending) :
    ∀ f ∈ w.frames, f.isRun = false := by
  intro f hf
  cases hreleased : w.future.released with
  | false => exact Frame.not_isRun ((h.pending hp).2.2 hreleased f hf)
  | true =>
    obtain ⟨i, drops, rfl⟩ := h.released hreleased f hf
    rfl

/-- The queue accounts for what was executed. -/
theorem Walk.facts (h : Walk w) (hpending : w.future.status = .pending → w.progress = 0)
    (hran : .ran ∈ w.trace → w.progress = w.future.callbacks.length) :
    Facts w.future.status w.trace := by
  refine ⟨?_, ?_, ?_, ?_⟩
  · intro hp
    rw [h.executed, hpending hp]
    rfl
  · rw [h.executed, ← h.ids]
    exact (List.filter_sublist.trans (List.take_sublist _ _)).map _
  · intro id hid hexecuted
    rw [h.executed] at hexecuted
    obtain ⟨cb, hcb, rfl⟩ := List.mem_map.1 hexecuted
    obtain ⟨hin, hnot⟩ := List.mem_filter.1 hcb
    have hcancelled := (h.cancelled cb (List.mem_of_mem_take hin)).2 hid
    rw [hcancelled] at hnot
    exact nomatch hnot
  · intro hin
    rw [h.executed, hran hin, List.take_length, ← h.ids, List.filter_map]
    refine congrArg _ (List.filter_congr fun cb hcb => ?_)
    have hiff := h.cancelled cb hcb
    by_cases hc : cb.cancelled = true
    · simp [hc, hiff.1 hc]
    · have hnot : cb.id ∉ removedIds w.trace := fun hid => hc (hiff.2 hid)
      simp [hc, hnot]

/-- Quiet effects, more calls of `add_done_callback` and the state of the loop do not matter. -/
theorem Inv.quiet (h : Inv w) (hfuture : w'.future = w.future) (harmed : w'.armed = w.armed)
    (hdispatched : w'.dispatched = w.dispatched) (hframes : w'.frames = w.frames)
    (hnext : w.next ≤ w'.next) (htrace : w'.trace = w.trace ++ es) (hq : Quiet es) : Inv w' := by
  have hadded : addedIds w'.trace = addedIds w.trace := by
    rw [htrace, addedIds_append, hq.added, List.append_nil]
  have hexecuted : executedIds w'.trace = executedIds w.trace := by
    rw [htrace, executedIds_append, hq.executed, List.append_nil]
  have hremoved : removedIds w'.trace = removedIds w.trace := by
    rw [htrace, removedIds_append, hq.removed, List.append_nil]
  have hran : .ran ∈ w'.trace ↔ .ran ∈ w.trace := by
    simp [htrace, hq.notMem (e := .ran) rfl]
  have hset : w'.trace.filter Effect.isSetStatus = w.trace.filter Effect.isSetStatus := by
    rw [htrace, List.filter_append, hq.filter, List.append_nil]
  have hcount : ∀ e : Effect, e.isQuiet = false → w'.trace.count e = w.trace.count e := by
    intro e he
    rw [htrace, List.count_append, List.count_eq_zero_of_not_mem (hq.notMem he), Nat.add_zero]
  have hprogress : w'.progress = w.progress := by
    unfold progress
    simp only [hframes, hfuture, hran]
  have htorn : w'.Torn ↔ w.Torn := by
    unfold Torn
    rw [hfuture, hframes]
  refine ⟨?_, ?_, ?_, ?_, ?_, ?_, ?_, ?_, ?_, ?_, ?_, ?_, ?_, ?_, ?_⟩
  · rw [hframes]
    exact h.tail
  · rw [hframes]
    exact h.setters
  · rw [hfuture, hran, hdispatched, hframes]
    exact h.pending
  · rw [hfuture, hran, hdispatched, hframes]
    exact h.ready
  · rw [hfuture, hran, hdispatched, hframes]
    exact h.running
  · rw [hfuture, hran, hdispatched, hframes]
    exact h.releasing
  · rw [hfuture, hframes]
    exact h.released
  · rw [htorn, hfuture]
    exact h.torn
  · rw [hfuture, hran, hdispatched, hframes, hadded, hexecuted, hremoved, harmed]
    exact h.unarmed
  · rw [hadded]
    exact ⟨h.increasing.1, fun id hid => (h.increasing.2 id hid).trans_le hnext⟩
  · refine ⟨?_, ?_, ?_, ?_⟩
    · rw [hexecuted, hfuture]
      exact h.facts.pending
    · rw [hexecuted, hadded]
      exact h.facts.order
    · rw [hexecuted, hremoved]
      exact h.facts.removed
    · rw [hexecuted, hremoved, hadded, hran]
      exact h.facts.ran
  · rw [htorn]
    intro hnot
    have hw := h.walk hnot
    refine ⟨?_, ?_, ?_, ?_, ?_, ?_, ?_⟩
    · rw [hfuture, hadded]
      exact hw.ids
    · rw [hfuture, hremoved]
      exact hw.cancelled
    · rw [hadded, hremoved]
      exact hw.subset
    · rw [hfuture]
      exact hw.attached
    · rw [hfuture, hprogress, hexecuted]
      exact hw.executed
    · rw [hfuture, hprogress]
      exact hw.before
    · unfold Waits
      rw [hfuture, hprogress, hdispatched, hframes]
      exact hw.after
  · rw [hset, hfuture]
    exact h.once
  · rw [hcount _ rfl, harmed]
    exact h.reserved
  · rw [hcount _ rfl, hcount _ rfl, hfuture]
    exact h.slots

theorem Inv.emit (h : Inv w) (hq : Quiet es) : Inv (w.emit es) :=
  h.quiet rfl rfl rfl rfl le_rfl rfl hq

/-- With a call on top of the stack the future is not released, and all frames are calls. -/
theorem Inv.top (h : Inv w) {f : Frame} {fs : List Frame} (hframes : w.frames = f :: fs)
    (hf : f.isCall = true) :
    w.future.released = false ∧ (∀ g ∈ w.frames, g.isCall = true) ∧ ∀ g ∈ fs, g.isCall = true := by
  have htail : ∀ g ∈ fs, g.isCall = true := by
    have := h.tail
    rwa [hframes] at this
  refine ⟨?_, ?_, htail⟩
  · cases hreleased : w.future.released with
    | false => rfl
    | true =>
      obtain ⟨i, drops, rfl⟩ := h.released hreleased f (hframes ▸ List.mem_cons_self)
      exact nomatch hf
  · rw [hframes]
    intro g hg
    obtain rfl | hg := List.mem_cons.1 hg
    · exact hf
    · exact htail g hg

/-- A future that is not released was armed. -/
theorem Inv.armed (h : Inv w) (hreleased : w.future.released = false) : w.armed = true := by
  cases harmed : w.armed with
  | true => rfl
  | false => exact nomatch hreleased.symm.trans (h.unarmed harmed).2.2.1

/-- As long as all frames are calls they can be exchanged for other calls. -/
theorem Inv.calls (h : Inv w) (hreleased : w.future.released = false)
    (hcalls : ∀ f ∈ w.frames, f.isCall = true) {fs : List Frame}
    (hfs : ∀ f ∈ fs, f.isCall = true)
    (hset : ∀ status outcome, .callDoneCallbacks status outcome ∈ fs → status ≠ .pending) :
    Inv { w with frames := fs } := by
  have hnotRelease : ∀ i drops cause, .release i drops cause ∉ fs :=
    fun i drops cause hin => nomatch hfs _ hin
  have hprogress : progress { w with frames := fs } = w.progress := by
    rw [progress_of_calls hcalls]
    exact progress_of_calls hfs
  have hnotTorn : ∀ fs, ¬Torn { w with frames := fs } :=
    fun fs ht => nomatch hreleased.symm.trans ht.1
  refine ⟨fun f hf => hfs f (List.mem_of_mem_tail hf), hset, fun hp => ?_, fun hd => ?_, ?_, ?_, ?_,
    ?_, ?_, h.increasing, h.facts, fun _ => ?_, h.once, h.reserved, h.slots⟩
  · obtain ⟨hran, hdispatched, -⟩ := h.pending hp
    exact ⟨hran, hdispatched, fun _ => hfs⟩
  · obtain ⟨-, hran, -⟩ := h.ready hd
    exact ⟨hreleased, hran, hfs⟩
  · intro f hf hrun
    exact nomatch (Frame.not_isRun (hfs f hf)).symm.trans hrun
  · intro i drops cause hin
    exact absurd hin (hnotRelease i drops cause)
  · intro hr
    exact nomatch hreleased.symm.trans hr
  · exact fun ht => absurd ht (hnotTorn fs)
  · intro hnot
    exact nomatch (h.armed hreleased).symm.trans hnot
  · have hw := h.walk (hnotTorn w.frames)
    refine ⟨hw.ids, hw.cancelled, hw.subset, hw.attached, ?_, ?_, ?_⟩
    · rw [hprogress]
      exact hw.executed
    · rw [hprogress]
      exact hw.before
    · rw [hprogress]
      rintro (hp | hd | ⟨f, hf, hrun⟩)
      · exact hw.after (.inl hp)
      · exact hw.after (.inr (.inl hd))
      · exact nomatch (Frame.not_isRun (hfs f hf)).symm.trans hrun

/-- The call on top of the stack is exchanged for calls. -/
theorem Inv.replace (h : Inv w) {f : Frame} {fs n : List Frame} (hframes : w.frames = f :: fs)
    (hf : f.isCall = true) (hn : ∀ g ∈ n, g.isCall = true)
    (hset : ∀ status outcome, .callDoneCallbacks status outcome ∈ n → status ≠ .pending) :
    Inv { w with frames := n ++ fs } := by
  obtain ⟨hreleased, hcalls, htail⟩ := h.top hframes hf
  refine h.calls hreleased hcalls (fun g hg => ?_) (fun status outcome hin => ?_)
  · obtain hg | hg := List.mem_append.1 hg
    · exact hn g hg
    · exact htail g hg
  · obtain hin | hin := List.mem_append.1 hin
    · exact hset status outcome hin
    · exact h.setters status outcome (hframes ▸ List.mem_cons_of_mem f hin)

/-- A call is put on top of the stack. -/
theorem Inv.push (h : Inv w) (hp : w.future.status = .pending) (hreleased : w.future.released = false)
    {f : Frame} (hf : f.isCall = true)
    (hset : ∀ status outcome, f = .callDoneCallbacks status outcome → status ≠ .pending) :
    Inv { w with frames := f :: w.frames } := by
  have hcalls := (h.pending hp).2.2 hreleased
  refine h.calls hreleased hcalls (fun g hg => ?_) (fun status outcome hin => ?_)
  · obtain rfl | hg := List.mem_cons.1 hg
    · exact hf
    · exact hcalls g hg
  · obtain heq | hin := List.mem_cons.1 hin
    · exact hset status outcome heq.symm
    · exact h.setters status outcome hin

/-- The status leaves pending: the slot is returned, and the ready callback is dispatched or not. -/
theorem Inv.setStatus (h : Inv w) (hp : w.future.status = .pending)
    (hreleased : w.future.released = false) {status : FutureStatus} (hstatus : status ≠ .pending)
    (dispatched : Bool) :
    Inv ({ w with
      future := { w.future with status := status }
      dispatched := dispatched }.emit [.setStatus status, .returnSlot]) := by
  obtain ⟨hran, hdispatched, hcalls⟩ := h.pending hp
  have hcalls := hcalls hreleased
  have hnotTorn : ¬w.Torn := fun ht => nomatch hreleased.symm.trans ht.1
  have hw := h.walk hnotTorn
  have hran' : .ran ∉ w.trace ++ [Effect.setStatus status, .returnSlot] := by
    simp [hran]
  have hprogress : w.progress = 0 := by rw [progress_of_calls hcalls, if_neg hran]
  have hprogress' : progress ({ w with
      future := { w.future with status := status }
      dispatched := dispatched }.emit [.setStatus status, .returnSlot]) = 0 :=
    (progress_of_calls (w := { w with
      future := { w.future with status := status }
      dispatched := dispatched }.emit [.setStatus status, .returnSlot]) hcalls).trans (if_neg hran')
  have hrelease : ∀ i drops cause, .release i drops cause ∉ w.frames :=
    fun i drops cause hin => nomatch hcalls _ hin
  have hrun : ∀ f ∈ w.frames, f.isRun = false :=
    fun f hf => Frame.not_isRun (hcalls f hf)
  have hadded : addedIds (w.trace ++ [Effect.setStatus status, .returnSlot]) = addedIds w.trace := by
    simp [addedIds, Effect.added?]
  have hexecuted : executedIds (w.trace ++ [Effect.setStatus status, .returnSlot]) = executedIds w.trace := by
    simp [executedIds, Effect.executed?]
  have hremoved : removedIds (w.trace ++ [Effect.setStatus status, .returnSlot]) = removedIds w.trace := by
    simp [removedIds, Effect.removed?]
  have hwalk : Walk ({ w with
      future := { w.future with status := status }
      dispatched := dispatched }.emit [.setStatus status, .returnSlot]) := by
    refine ⟨hw.ids.trans hadded.symm, ?_, ?_, hw.attached, ?_, ?_, fun _ => ?_⟩
    · intro cb hcb
      exact (hw.cancelled cb hcb).trans (by rw [← hremoved]; rfl)
    · intro id hid
      exact hadded.symm ▸ hw.subset id (hremoved ▸ hid)
    · rw [hprogress']
      exact hexecuted.trans (by rw [hw.executed, hprogress]; rfl)
    · rw [hprogress']
      exact nofun
    · rw [hprogress']
      have hafter := hw.after (.inl ⟨hp, hreleased⟩)
      rwa [hprogress] at hafter
  refine ⟨h.tail, h.setters, fun hp' => absurd hp' hstatus, fun _ => ⟨hreleased, hran', hcalls⟩, ?_, ?_,
    ?_, ?_, ?_, ?_, ?_, fun _ => hwalk, ?_, ?_, ?_⟩
  · intro f hf hfrun
    exact nomatch (hrun f hf).symm.trans hfrun
  · intro i drops cause hin
    exact absurd hin (hrelease i drops cause)
  · intro hr
    exact nomatch hreleased.symm.trans hr
  · intro ht
    exact nomatch hreleased.symm.trans ht.1
  · intro hnot
    exact nomatch (h.armed hreleased).symm.trans hnot
  · have := h.increasing
    rw [← hadded] at this
    exact this
  · exact hwalk.facts (fun hp' => absurd hp' hstatus) fun hin => absurd hin hran'
  · have hlength := h.once
    rw [if_pos hp] at hlength
    show ((w.trace ++ [Effect.setStatus status, .returnSlot]).filter Effect.isSetStatus).length =
      if status = .pending then 0 else 1
    rw [if_neg hstatus, List.filter_append, List.length_append, hlength]
    rfl
  · have hcount := h.reserved
    show (w.trace ++ [Effect.setStatus status, .returnSlot]).count Effect.reserveSlot = if w.armed then 1 else 0
    rw [List.count_append, hcount]
    rfl
  · have hslots := h.slots
    rw [if_pos ⟨hp, hreleased⟩] at hslots
    show (w.trace ++ [Effect.setStatus status, .returnSlot]).count Effect.returnSlot +
        (if status = .pending ∧ w.future.released = false then 1 else 0) =
      (w.trace ++ [Effect.setStatus status, .returnSlot]).count Effect.reserveSlot
    rw [if_neg fun hboth => hstatus hboth.1, List.count_append, List.count_append]
    exact hslots

/-- A walk starts: the ready callback runs, or the callbacks are released because the loop is closed. -/
theorem Inv.start (h : Inv w) (hcalls : ∀ f ∈ w.frames, f.isCall = true)
    (hreleased : w.future.released = false) (hstatus : w.future.status ≠ .pending)
    (hran : .ran ∉ w.trace) {frame : Frame}
    (hframe : frame = .run 0 [] ∧ w.dispatched = true ∨
      ∃ cause, frame = .release 0 [] cause ∧ cause ≠ .teardown) :
    Inv { w with dispatched := false, frames := frame :: w.frames } := by
  have hw := h.walk fun ht => nomatch hreleased.symm.trans ht.1
  have hprogress : w.progress = 0 := by rw [progress_of_calls hcalls, if_neg hran]
  have hzero : progress { w with dispatched := false, frames := frame :: w.frames } = 0 := by
    obtain ⟨rfl, -⟩ | ⟨cause, rfl, -⟩ := hframe
    · rfl
    · exact if_neg hran
  have hrun : ∀ f ∈ w.frames, f.isRun = false :=
    fun f hf => Frame.not_isRun (hcalls f hf)
  refine ⟨hcalls, ?_, fun hp => absurd hp hstatus, nofun, fun _ _ _ => ⟨hreleased, hran, rfl⟩, ?_, ?_, ?_,
    ?_, h.increasing, h.facts, fun _ => ?_, h.once, h.reserved, h.slots⟩
  · intro status outcome hin
    obtain heq | hin := List.mem_cons.1 hin
    · obtain ⟨rfl, -⟩ | ⟨cause, rfl, -⟩ := hframe <;> exact nomatch heq
    · exact h.setters status outcome hin
  · intro i drops cause hin
    obtain heq | hin := List.mem_cons.1 hin
    · obtain ⟨rfl, -⟩ | ⟨cause', rfl, hcause⟩ := hframe
      · exact nomatch heq
      · obtain ⟨rfl, -, rfl⟩ := Frame.release.inj heq
        exact ⟨rfl, fun _ => ⟨hreleased, hran⟩, fun heq => absurd heq hcause, nofun⟩
    · exact nomatch hcalls _ hin
  · intro hr
    exact nomatch hreleased.symm.trans hr
  · intro ht
    exact nomatch hreleased.symm.trans ht.1
  · intro hnot
    exact nomatch (h.armed hreleased).symm.trans hnot
  · refine ⟨hw.ids, hw.cancelled, hw.subset, hw.attached, ?_, ?_, ?_⟩
    · rw [hzero, ← hprogress]
      exact hw.executed
    · rw [hzero]
      exact nofun
    · rw [hzero, ← hprogress]
      rintro (hp | hd | ⟨f, hf, hfrun⟩)
      · exact absurd hp.1 hstatus
      · exact nomatch hd
      · obtain rfl | hf := List.mem_cons.1 hf
        · obtain ⟨-, hd⟩ | ⟨cause, rfl, -⟩ := hframe
          · exact hw.after (.inr (.inl hd))
          · exact nomatch hfrun
        · exact nomatch (hrun f hf).symm.trans hfrun

/-- Effects that set no status and touch no slot leave the counts as they are. -/
theorem Inv.counts (h : Inv w) (hstatus : w'.future.status = w.future.status)
    (hreleased : w'.future.released = w.future.released) (harmed : w'.armed = w.armed)
    (htrace : w'.trace = w.trace ++ es)
    (hcount : ∀ e ∈ es, e.isSetStatus = false ∧ e ≠ .reserveSlot ∧ e ≠ .returnSlot) :
    (w'.trace.filter Effect.isSetStatus).length = (if w'.future.status = .pending then 0 else 1) ∧
      w'.trace.count .reserveSlot = (if w'.armed then 1 else 0) ∧
      w'.trace.count .returnSlot + (if w'.future.status = .pending ∧ w'.future.released = false then 1 else 0) =
        w'.trace.count .reserveSlot := by
  have hnone : es.filter Effect.isSetStatus = [] :=
    List.filter_eq_nil_iff.2 fun e he hset => nomatch (hcount e he).1.symm.trans hset
  have hreserve : es.count .reserveSlot = 0 := List.count_eq_zero_of_not_mem fun hin => (hcount _ hin).2.1 rfl
  have hreturn : es.count .returnSlot = 0 := List.count_eq_zero_of_not_mem fun hin => (hcount _ hin).2.2 rfl
  rw [hstatus, hreleased, harmed, htrace, List.filter_append, hnone, List.append_nil, List.count_append, hreserve,
    List.count_append, hreturn]
  exact ⟨h.once, h.reserved, h.slots⟩

/-- The frame on top of the stack goes on to another of its kind, and what it writes to the queue and
the trace agrees. -/
theorem Inv.exchange (h : Inv w) {f f' : Frame} {fs : List Frame} (hframes : w.frames = f :: fs)
    (hframes' : w'.frames = f' :: fs) (hcall : f'.isCall = f.isCall) (hrun : f'.isRun = f.isRun)
    (hset : ∀ status outcome, f' ≠ .callDoneCallbacks status outcome)
    (hrelease : ∀ i drops cause, f = .release i drops cause → ∃ i' drops',
      f' = .release i' drops' cause ∧ ∀ cb ∈ w'.future.callbacks.take i', cb.executed = true)
    (hstatus : w'.future.status = w.future.status) (hreleased : w'.future.released = w.future.released)
    (hdispatched : w'.dispatched = w.dispatched) (harmed : w'.armed = w.armed)
    (hnext : w'.next = w.next) (htrace : w'.trace = w.trace ++ es) (hadded : addedIds es = [])
    (hran : .ran ∉ es) (hcount : ∀ e ∈ es, e.isSetStatus = false ∧ e ≠ .reserveSlot ∧ e ≠ .returnSlot)
    (hwalk : Walk w') : Inv w' := by
  have hcounts := h.counts hstatus hreleased harmed htrace hcount
  have hmem : ∀ g ∈ fs, g ∈ w.frames := fun g hg => hframes ▸ List.mem_cons_of_mem f hg
  have hhead : f ∈ w.frames := hframes ▸ List.mem_cons_self
  have htail : ∀ g ∈ fs, g.isCall = true := by
    have := h.tail
    rwa [hframes] at this
  have hcalls : (∀ g ∈ w.frames, g.isCall = true) → ∀ g ∈ w'.frames, g.isCall = true := by
    rw [hframes']
    intro hall g hg
    obtain rfl | hg := List.mem_cons.1 hg
    · rw [hcall]
      exact hall f hhead
    · exact hall g (hmem g hg)
  have hran' : .ran ∈ w'.trace ↔ .ran ∈ w.trace := by simp [htrace, hran]
  have hadded' : addedIds w'.trace = addedIds w.trace := by
    rw [htrace, addedIds_append, hadded, List.append_nil]
  have hrunning : ∀ g ∈ w'.frames, g.isRun = true →
      w'.future.released = false ∧ .ran ∉ w'.trace ∧ w'.dispatched = false := by
    rw [hframes', hreleased, hran', hdispatched]
    intro g hg hgrun
    obtain rfl | hg := List.mem_cons.1 hg
    · exact h.running f hhead (hrun ▸ hgrun)
    · exact h.running g (hmem g hg) hgrun
  have hprogress : .ran ∈ w'.trace → w'.progress = w'.future.callbacks.length := by
    intro hin
    unfold progress
    split
    · rename_i heq
      exact absurd hin (hrunning _ (heq ▸ List.mem_cons_self) rfl).2.1
    · rename_i heq
      exact absurd hin (hrunning _ (heq ▸ List.mem_cons_self) rfl).2.1
    · rw [if_pos hin]
  have hpending : w'.future.status = .pending → w'.progress = 0 := by
    intro hp
    rw [hstatus] at hp
    have hnotRun := h.not_run_of_pending hp
    rw [progress_of_not_run, if_neg fun hin => (h.pending hp).1 (hran'.1 hin)]
    rw [hframes']
    intro g hg
    obtain rfl | hg := List.mem_cons.1 hg
    · exact hrun.trans (hnotRun f hhead)
    · exact hnotRun g (hmem g hg)
  refine ⟨?_, ?_, ?_, ?_, hrunning, ?_, ?_, ?_, ?_, ?_, hwalk.facts hpending hprogress, fun _ => hwalk,
    ?_, ?_, ?_⟩
  · rw [hframes']
    exact htail
  · rw [hframes']
    intro status outcome hin
    obtain heq | hin := List.mem_cons.1 hin
    · exact absurd heq.symm (hset status outcome)
    · exact h.setters status outcome (hmem _ hin)
  · rw [hstatus, hran', hdispatched, hreleased]
    intro hp
    obtain ⟨hnotRan, hnotDispatched, hall⟩ := h.pending hp
    exact ⟨hnotRan, hnotDispatched, fun hnot => hcalls (hall hnot)⟩
  · rw [hran', hdispatched, hreleased]
    intro hd
    obtain ⟨hnot, hnotRan, hall⟩ := h.ready hd
    exact ⟨hnot, hnotRan, hcalls hall⟩
  · rw [hframes', hran', hdispatched, hreleased]
    intro i drops cause hin
    obtain heq | hin := List.mem_cons.1 hin
    · cases f with
      | release j drops' cause' =>
        obtain ⟨i', drops'', hf', hexecuted⟩ := hrelease j drops' cause' rfl
        obtain ⟨rfl, -, rfl⟩ := Frame.release.inj (heq.trans hf')
        obtain ⟨hnotDispatched, hopen, hteardown, -⟩ := h.releasing j drops' cause hhead
        exact ⟨hnotDispatched, hopen, hteardown, hexecuted⟩
      | _ =>
        subst heq
        simp [Frame.isCall, Frame.isRun] at hcall hrun
    · exact nomatch htail _ hin
  · rw [hframes', hreleased]
    intro hr g hg
    obtain rfl | hg := List.mem_cons.1 hg
    · obtain ⟨i, drops, rfl⟩ := h.released hr f hhead
      obtain ⟨i', drops', rfl, -⟩ := hrelease i drops .teardown rfl
      exact ⟨_, _, rfl⟩
    · exact h.released hr g (hmem g hg)
  · intro ht
    exact nomatch hframes'.symm.trans ht.2
  · rw [harmed]
    intro hnot
    obtain ⟨-, -, -, hnil, -⟩ := h.unarmed hnot
    exact nomatch hframes.symm.trans hnil
  · rw [hadded', hnext]
    exact h.increasing
  · exact hcounts.1
  · exact hcounts.2.1
  · exact hcounts.2.2

/-- The walk on top of the stack stays at its place in the queue. -/
theorem Inv.stay (h : Inv w) {f t : Frame} {fs : List Frame} (hframes : w.frames = f :: fs)
    (hcall : t.isCall = f.isCall) (hrun : t.isRun = f.isRun)
    (hset : ∀ status outcome, t ≠ .callDoneCallbacks status outcome)
    (hrelease : ∀ i drops cause, f = .release i drops cause → ∃ drops', t = .release i drops' cause)
    (hprogress : progress { w with frames := t :: fs } = w.progress) :
    Inv { w with frames := t :: fs } := by
  have hw := h.walk fun ht => nomatch hframes.symm.trans ht.2
  have hhead : f ∈ w.frames := hframes ▸ List.mem_cons_self
  refine h.exchange hframes rfl hcall hrun hset ?_ rfl rfl rfl rfl rfl
    (List.append_nil _).symm rfl nofun nofun ?_
  · rintro i drops cause rfl
    obtain ⟨drops', rfl⟩ := hrelease i drops cause rfl
    exact ⟨i, drops', rfl, (h.releasing i drops cause hhead).2.2.2⟩
  · refine ⟨hw.ids, hw.cancelled, hw.subset, hw.attached, ?_, ?_, ?_⟩
    · rw [hprogress]
      exact hw.executed
    · rw [hprogress]
      exact hw.before
    · rw [hprogress]
      rintro (hp | hd | ⟨g, hg, hgrun⟩)
      · exact hw.after (.inl hp)
      · exact hw.after (.inr (.inl hd))
      · obtain rfl | hg := List.mem_cons.1 hg
        · exact hw.after (.inr (.inr ⟨f, hhead, hrun ▸ hgrun⟩))
        · exact hw.after (.inr (.inr ⟨g, hframes ▸ List.mem_cons_of_mem f hg, hgrun⟩))

/-! ### One entry -/

variable {i : ℕ} {callback : Callback} {fs : List Frame}

/-- The queue around the entry `i`, and after a write to it. -/
theorem split_modify {l : List Callback} (hl : l[i]? = some callback) (f : Callback → Callback) :
    ∃ pre post, l = pre ++ callback :: post ∧ l.modify i f = pre ++ f callback :: post ∧
      pre.length = i := by
  obtain ⟨hi, rfl⟩ := List.getElem?_eq_some_iff.1 hl
  refine ⟨l.take i, l.drop (i + 1), ?_, List.modify_eq_take_cons_drop hi, ?_⟩
  · rw [List.getElem_cons_drop, List.take_append_drop]
  · rw [List.length_take, Nat.min_eq_left hi.le]

/-- What every entry has, and a write keeps, every entry has after the write. -/
theorem forall_mem_modify {l : List Callback} {f : Callback → Callback} {P : Callback → Prop}
    (hP : ∀ cb, l[i]? = some cb → P cb → P (f cb)) (hl : ∀ cb ∈ l, P cb) : ∀ cb ∈ l.modify i f, P cb := by
  cases hi : l[i]? with
  | none => rwa [List.modify_eq_self (List.getElem?_eq_none_iff.1 hi)]
  | some callback =>
    obtain ⟨pre, post, hsplit, hmodify, -⟩ := split_modify hi f
    rw [hmodify]
    rw [hsplit] at hl
    intro cb hcb
    obtain hcb | hcb := List.mem_append.1 hcb
    · exact hl cb (List.mem_append_left _ hcb)
    · obtain rfl | hcb := List.mem_cons.1 hcb
      · exact hP callback hi (hl callback (List.mem_append_right _ List.mem_cons_self))
      · exact hl cb (List.mem_append_right _ (List.mem_cons_of_mem _ hcb))

/-- A write that keeps what is collected does not show in it. -/
theorem flatMap_modify {β : Type} (l : List Callback) (f : Callback → Callback) {g : Callback → List β}
    (hg : ∀ cb, l[i]? = some cb → g (f cb) = g cb) : (l.modify i f).flatMap g = l.flatMap g := by
  cases hi : l[i]? with
  | none => rw [List.modify_eq_self (List.getElem?_eq_none_iff.1 hi)]
  | some callback =>
    obtain ⟨pre, post, hsplit, hmodify, -⟩ := split_modify hi f
    rw [hmodify, hsplit, List.flatMap_append, List.flatMap_append, List.flatMap_cons, List.flatMap_cons,
      hg callback hi]

theorem map_id_eq_flatMap (l : List Callback) : l.map Callback.id = l.flatMap fun cb => [cb.id] := by
  induction l with
  | nil => rfl
  | cons cb l ih => rw [List.map_cons, List.flatMap_cons, ih, List.singleton_append]

theorem filter_map_id_eq_flatMap (l : List Callback) :
    (l.filter fun cb => !cb.cancelled).map Callback.id =
      l.flatMap fun cb => if cb.cancelled then [] else [cb.id] := by
  induction l with
  | nil => rfl
  | cons cb l ih =>
    rw [List.flatMap_cons, ← ih, List.filter_cons]
    cases cb.cancelled <;> simp

theorem take_succ_split (pre post : List Callback) (callback : Callback) :
    (pre ++ callback :: post).take (pre.length + 1) = pre ++ [callback] := by
  rw [List.append_cons, List.take_left' (by simp)]

theorem drop_succ_split (pre post : List Callback) (callback : Callback) :
    (pre ++ callback :: post).drop (pre.length + 1) = post := by
  rw [List.append_cons, List.drop_left' (by simp)]

/-- The ready callback passes an entry that was removed. -/
theorem Inv.runSkip (h : Inv w) (hframes : w.frames = .run i [] :: fs)
    (hentry : w.future.callbacks[i]? = some callback)
    (hskip : (callback.cancelled || callback.executed) = true) :
    Inv { w with frames := .run (i + 1) [] :: fs } := by
  have hw := h.walk fun ht => nomatch hframes.symm.trans ht.2
  have hprogress : w.progress = i := by
    unfold progress
    rw [hframes]
  have hexecuted := hw.executed
  have hbefore := hw.before
  have hafter := hw.after (.inr (.inr ⟨_, hframes ▸ List.mem_cons_self, rfl⟩))
  obtain ⟨pre, post, hsplit, -, rfl⟩ := split_modify hentry id
  rw [hprogress, hsplit, List.take_left' rfl] at hexecuted hbefore
  rw [hprogress, hsplit, List.drop_left' rfl] at hafter
  have hcancelled : callback.cancelled = true := by
    have hnot := hafter callback List.mem_cons_self
    rwa [hnot, Bool.or_false] at hskip
  refine h.exchange hframes rfl rfl rfl nofun nofun rfl rfl rfl rfl rfl
    (List.append_nil _).symm rfl nofun nofun ?_
  refine ⟨hw.ids, hw.cancelled, hw.subset, hw.attached, ?_, ?_, fun _ => ?_⟩
  · show executedIds w.trace = ((w.future.callbacks.take (pre.length + 1)).filter _).map _
    rw [hexecuted, hsplit, take_succ_split, List.filter_append, List.filter_singleton, hcancelled]
    simp
  · show ∀ cb ∈ w.future.callbacks.take (pre.length + 1), _
    rw [hsplit, take_succ_split]
    intro cb hcb
    obtain hcb | hcb := List.mem_append.1 hcb
    · exact hbefore cb hcb
    · rw [List.mem_singleton.1 hcb]
      exact .inr hcancelled
  · show ∀ cb ∈ w.future.callbacks.drop (pre.length + 1), _
    rw [hsplit, drop_succ_split]
    exact fun cb hcb => hafter cb (List.mem_cons_of_mem _ hcb)

/-- The ready callback calls an entry. -/
theorem Inv.runCall (h : Inv w) (hframes : w.frames = .run i [] :: fs)
    (hentry : w.future.callbacks[i]? = some callback)
    (hgo : (callback.cancelled || callback.executed) = false) (refs : List Ref) :
    Inv ({ w with
      future := w.future.modify i markExecuted
      frames := .calling i refs :: fs }.emit [.executed callback.id]) := by
  have hw := h.walk fun ht => nomatch hframes.symm.trans ht.2
  obtain ⟨hcancelled, -⟩ := Bool.or_eq_false_iff.1 hgo
  have hprogress : w.progress = i := by
    unfold progress
    rw [hframes]
  have hids := hw.ids
  have hcancel := hw.cancelled
  have hattached := hw.attached
  have hexecuted := hw.executed
  have hbefore := hw.before
  have hafter := hw.after (.inr (.inr ⟨_, hframes ▸ List.mem_cons_self, rfl⟩))
  obtain ⟨pre, post, hsplit, hmodify, rfl⟩ := split_modify hentry markExecuted
  rw [hprogress, hsplit, List.take_left' rfl] at hexecuted hbefore
  rw [hprogress, hsplit, List.drop_left' rfl] at hafter
  have hcallbacks : (w.future.modify pre.length markExecuted).callbacks =
      pre ++ markExecuted callback :: post := by
    rw [Future.callbacks_modify, hmodify]
  refine h.exchange hframes rfl rfl rfl nofun nofun rfl rfl rfl rfl rfl
    rfl rfl (by simp) (by simp [Effect.isSetStatus]) ?_
  refine ⟨?_, ?_, ?_, ?_, ?_, ?_, fun _ => ?_⟩
  · show (w.future.modify pre.length markExecuted).callbacks.map _ =
      addedIds (w.trace ++ [Effect.executed callback.id])
    rw [hcallbacks, addedIds_append, ← hids, hsplit]
    simp [addedIds, Effect.added?, markExecuted]
  · show ∀ cb ∈ (w.future.modify pre.length markExecuted).callbacks,
      cb.cancelled = true ↔ cb.id ∈ removedIds (w.trace ++ [Effect.executed callback.id])
    rw [Future.callbacks_modify, removedIds_append,
      show removedIds [.executed callback.id] = [] from rfl, List.append_nil]
    exact forall_mem_modify (fun _ _ => id) hcancel
  · show ∀ id ∈ removedIds (w.trace ++ [Effect.executed callback.id]),
      id ∈ addedIds (w.trace ++ [Effect.executed callback.id])
    rw [removedIds_append, addedIds_append, show removedIds [.executed callback.id] = [] from rfl,
      show addedIds [.executed callback.id] = [] from rfl, List.append_nil, List.append_nil]
    exact hw.subset
  · show ∀ cb ∈ (w.future.modify pre.length markExecuted).callbacks, _
    rw [Future.callbacks_modify]
    exact forall_mem_modify (fun _ _ => id) hattached
  · show executedIds (w.trace ++ [Effect.executed callback.id]) =
      (((w.future.modify pre.length markExecuted).callbacks.take (pre.length + 1)).filter _).map _
    rw [hcallbacks, take_succ_split, executedIds_append, hexecuted, List.filter_append, List.map_append,
      List.filter_singleton]
    simp [markExecuted, hcancelled, executedIds, Effect.executed?]
  · show ∀ cb ∈ (w.future.modify pre.length markExecuted).callbacks.take (pre.length + 1), _
    rw [hcallbacks, take_succ_split]
    intro cb hcb
    obtain hcb | hcb := List.mem_append.1 hcb
    · exact hbefore cb hcb
    · rw [List.mem_singleton.1 hcb]
      exact .inl rfl
  · show ∀ cb ∈ (w.future.modify pre.length markExecuted).callbacks.drop (pre.length + 1), _
    rw [hcallbacks, drop_succ_split]
    exact fun cb hcb => hafter cb (List.mem_cons_of_mem _ hcb)

/-- A walk of the open future ends. -/
theorem Inv.finish (h : Inv w) {f : Frame} (hframes : w.frames = f :: fs) (hframes' : w'.frames = fs)
    (hreleased : w.future.released = false) (hstatus : w.future.status ≠ .pending)
    (hdispatched : w.dispatched = false) (hstatus' : w'.future.status = w.future.status)
    (hreleased' : w'.future.released = w.future.released) (hdispatched' : w'.dispatched = w.dispatched)
    (harmed : w'.armed = w.armed) (hnext : w'.next = w.next) (htrace : w'.trace = w.trace ++ es)
    (hadded : addedIds es = [])
    (hcount : ∀ e ∈ es, e.isSetStatus = false ∧ e ≠ .reserveSlot ∧ e ≠ .returnSlot)
    (hwalk : Walk w') : Inv w' := by
  have hcounts := h.counts hstatus' hreleased' harmed htrace hcount
  have htail : ∀ g ∈ fs, g.isCall = true := by
    have := h.tail
    rwa [hframes] at this
  have hadded' : addedIds w'.trace = addedIds w.trace := by
    rw [htrace, addedIds_append, hadded, List.append_nil]
  have hfacts : Facts w'.future.status w'.trace := by
    refine hwalk.facts (fun hp => absurd (hstatus' ▸ hp) hstatus) fun hin => ?_
    rw [progress_of_calls (hframes' ▸ htail), if_pos hin]
  refine ⟨?_, ?_, ?_, ?_, ?_, ?_, ?_, ?_, ?_, ?_, hfacts, fun _ => hwalk, ?_, ?_, ?_⟩
  · rw [hframes']
    exact fun g hg => htail g (List.mem_of_mem_tail hg)
  · rw [hframes']
    exact fun status outcome hin => h.setters status outcome (hframes ▸ List.mem_cons_of_mem _ hin)
  · intro hp
    exact absurd (hstatus' ▸ hp) hstatus
  · intro hd
    exact nomatch (hdispatched'.trans hdispatched).symm.trans hd
  · rw [hframes']
    intro g hg hgrun
    exact nomatch (Frame.not_isRun (htail g hg)).symm.trans hgrun
  · rw [hframes']
    intro j drops cause hin
    exact nomatch htail _ hin
  · intro hr
    exact nomatch (hreleased'.trans hreleased).symm.trans hr
  · intro ht
    exact nomatch (hreleased'.trans hreleased).symm.trans ht.1
  · rw [harmed]
    intro hnot
    exact nomatch (h.armed hreleased).symm.trans hnot
  · rw [hadded', hnext]
    exact h.increasing
  · exact hcounts.1
  · exact hcounts.2.1
  · exact hcounts.2.2

/-- The ready callback is through with the queue. -/
theorem Inv.ran (h : Inv w) (hframes : w.frames = .run i [] :: fs)
    (hentry : w.future.callbacks[i]? = none) :
    Inv ({ w with
      future := { w.future with exceptionsQueue := w.future.exceptionsQueue.popAll }
      frames := fs }.emit [.ran]) := by
  have hhead : .run i [] ∈ w.frames := hframes ▸ List.mem_cons_self
  have hw := h.walk fun ht => nomatch hframes.symm.trans ht.2
  obtain ⟨hreleased, hnotRan, hdispatched⟩ := h.running _ hhead rfl
  have hstatus : w.future.status ≠ .pending := by
    intro hp
    exact nomatch (h.pending hp).2.2 hreleased _ hhead
  have htail : ∀ f ∈ fs, f.isCall = true := by
    have := h.tail
    rwa [hframes] at this
  have hran : Effect.ran ∈ w.trace ++ [Effect.ran] := List.mem_append_right _ List.mem_cons_self
  have hprogress : progress ({ w with
      future := { w.future with exceptionsQueue := w.future.exceptionsQueue.popAll }
      frames := fs }.emit [.ran]) = w.future.callbacks.length :=
    (progress_of_calls (w := { w with
      future := { w.future with exceptionsQueue := w.future.exceptionsQueue.popAll }
      frames := fs }.emit [.ran]) htail).trans (if_pos hran)
  have hlength : w.future.callbacks.length ≤ i := List.getElem?_eq_none_iff.1 hentry
  have hold : w.progress = i := by
    unfold progress
    rw [hframes]
  have hexecuted := hw.executed
  have hbefore := hw.before
  rw [hold, List.take_of_length_le hlength] at hexecuted hbefore
  have hadded : addedIds (w.trace ++ [Effect.ran]) = addedIds w.trace := by
    rw [addedIds_append]
    exact List.append_nil _
  have hremoved : removedIds (w.trace ++ [Effect.ran]) = removedIds w.trace := by
    rw [removedIds_append]
    exact List.append_nil _
  have hexecutedIds : executedIds (w.trace ++ [Effect.ran]) = executedIds w.trace := by
    rw [executedIds_append]
    exact List.append_nil _
  refine h.finish hframes rfl hreleased hstatus hdispatched rfl rfl rfl rfl rfl rfl rfl
    (by simp [Effect.isSetStatus]) ?_
  refine ⟨hw.ids.trans hadded.symm, ?_, ?_, hw.attached, ?_, ?_, fun _ => ?_⟩
  · show ∀ cb ∈ w.future.callbacks, cb.cancelled = true ↔ cb.id ∈ removedIds (w.trace ++ [Effect.ran])
    rw [hremoved]
    exact hw.cancelled
  · show ∀ id ∈ removedIds (w.trace ++ [Effect.ran]), id ∈ addedIds (w.trace ++ [Effect.ran])
    rw [hremoved, hadded]
    exact hw.subset
  · rw [hprogress]
    show executedIds (w.trace ++ [Effect.ran]) =
      ((w.future.callbacks.take w.future.callbacks.length).filter _).map _
    rw [hexecutedIds, List.take_length]
    exact hexecuted
  · rw [hprogress]
    show ∀ cb ∈ w.future.callbacks.take w.future.callbacks.length, _
    rw [List.take_length]
    exact hbefore
  · rw [hprogress]
    show ∀ cb ∈ w.future.callbacks.drop w.future.callbacks.length, _
    rw [List.drop_length]
    exact nofun

/-- The queue still agrees with the trace when callbacks are released without being called. -/
theorem Walk.marked (hw : Walk w) (hrun : ∀ f ∈ w.frames, f.isRun = false)
    (hrun' : ∀ f ∈ w'.frames, f.isRun = false)
    (hcallbacks : w'.future.callbacks = w.future.callbacks ∨
      w'.future.callbacks = w.future.callbacks.modify i markExecuted)
    (hadded : addedIds w'.trace = addedIds w.trace)
    (hexecuted : executedIds w'.trace = executedIds w.trace)
    (hremoved : removedIds w'.trace = removedIds w.trace)
    (hran : .ran ∈ w'.trace ↔ .ran ∈ w.trace) (hwaits : ¬w'.Waits) : Walk w' := by
  have hmem : ∀ k, ∀ P : Callback → Prop, (∀ cb, P cb → P (markExecuted cb)) →
      (∀ cb ∈ w.future.callbacks.take k, P cb) → ∀ cb ∈ w'.future.callbacks.take k, P cb := by
    intro k P hP hall
    obtain heq | heq := hcallbacks <;> rw [heq]
    · exact hall
    · rw [List.take_modify]
      exact forall_mem_modify (fun cb _ => hP cb) hall
  have hwhole : ∀ P : Callback → Prop, (∀ cb, P cb → P (markExecuted cb)) →
      (∀ cb ∈ w.future.callbacks, P cb) → ∀ cb ∈ w'.future.callbacks, P cb := by
    intro P hP hall
    obtain heq | heq := hcallbacks <;> rw [heq]
    · exact hall
    · exact forall_mem_modify (fun cb _ => hP cb) hall
  have hflat : ∀ k, ∀ g : Callback → List ℕ, (∀ cb, g (markExecuted cb) = g cb) →
      (w'.future.callbacks.take k).flatMap g = (w.future.callbacks.take k).flatMap g := by
    intro k g hg
    obtain heq | heq := hcallbacks <;> rw [heq]
    rw [List.take_modify]
    exact flatMap_modify _ _ fun cb _ => hg cb
  have hlength : w'.future.callbacks.length = w.future.callbacks.length := by
    obtain heq | heq := hcallbacks <;> rw [heq]
    exact List.length_modify _ _ _
  have hprogress : w'.progress = w.progress := by
    rw [progress_of_not_run hrun, progress_of_not_run hrun', hlength]
    simp only [hran]
  refine ⟨?_, ?_, ?_, ?_, ?_, ?_, fun hw' => absurd hw' hwaits⟩
  · have := hflat w'.future.callbacks.length (fun cb => [cb.id]) fun _ => rfl
    rw [List.take_length, hlength, List.take_length, ← map_id_eq_flatMap, ← map_id_eq_flatMap] at this
    rw [this, hadded]
    exact hw.ids
  · rw [hremoved]
    exact hwhole _ (fun _ => id) hw.cancelled
  · rw [hremoved, hadded]
    exact hw.subset
  · exact hwhole _ (fun _ => id) hw.attached
  · rw [hexecuted, hw.executed, filter_map_id_eq_flatMap, filter_map_id_eq_flatMap, hprogress]
    exact (hflat _ _ fun _ => rfl).symm
  · rw [hprogress]
    exact hmem _ _ (fun _ => Or.imp_left fun _ => rfl) hw.before

/-- While the callbacks are released none of them waits to be called. -/
theorem Inv.not_waits (h : Inv w) {drops : List Ref} {cause : Cause}
    (hframes : w.frames = .release i drops cause :: fs) {frames : List Frame}
    (hframes' : ∀ f ∈ frames, f.isRun = false) (future : Future)
    (hstatus : future.status = w.future.status) (hreleased : future.released = w.future.released) :
    ¬Waits { w with frames := frames, future := future } := by
  have hhead : .release i drops cause ∈ w.frames := hframes ▸ List.mem_cons_self
  rintro (⟨hp, hr⟩ | hd | ⟨f, hf, hfrun⟩)
  · rw [hstatus] at hp
    rw [hreleased] at hr
    exact nomatch (h.pending hp).2.2 hr _ hhead
  · exact nomatch (h.releasing i drops cause hhead).1.symm.trans hd
  · exact nomatch (hframes' f hf).symm.trans hfrun

/-- With a release on top of the stack the ready callback is not there. -/
theorem Inv.release_frames (h : Inv w) {drops : List Ref} {cause : Cause}
    (hframes : w.frames = .release i drops cause :: fs) :
    (∀ f ∈ fs, f.isRun = false) ∧ ∀ f ∈ w.frames, f.isRun = false := by
  have htail : ∀ f ∈ fs, f.isRun = false := by
    have := h.tail
    rw [hframes] at this
    exact fun f hf => Frame.not_isRun (this f hf)
  refine ⟨htail, ?_⟩
  rw [hframes]
  intro f hf
  obtain rfl | hf := List.mem_cons.1 hf
  · rfl
  · exact htail f hf

/-- `release_callbacks_queue` passes one entry. -/
theorem Inv.releaseEntry (h : Inv w) {cause : Cause} (hframes : w.frames = .release i [] cause :: fs)
    (hentry : w.future.callbacks[i]? = some callback) (drops : List Ref) (future : Future)
    (hfuture : future = w.future ∧ callback.executed = true ∨ future = w.future.modify i markExecuted) :
    Inv { w with future := future, frames := .release (i + 1) drops cause :: fs } := by
  obtain ⟨htail, hold⟩ := h.release_frames hframes
  have hnew : ∀ f ∈ Frame.release (i + 1) drops cause :: fs, f.isRun = false := by
    intro f hf
    obtain rfl | hf := List.mem_cons.1 hf
    · rfl
    · exact htail f hf
  have hstatus : future.status = w.future.status ∧ future.released = w.future.released := by
    obtain ⟨rfl, -⟩ | rfl := hfuture <;> exact ⟨rfl, rfl⟩
  have hcallbacks : future.callbacks = w.future.callbacks ∨
      future.callbacks = w.future.callbacks.modify i markExecuted := by
    obtain ⟨rfl, -⟩ | rfl := hfuture
    · exact .inl rfl
    · exact .inr (Future.callbacks_modify _ _ _)
  have hexecuted := (h.releasing i [] cause (hframes ▸ List.mem_cons_self)).2.2.2
  have hw := h.walk fun ht => nomatch hframes.symm.trans ht.2
  refine h.exchange hframes rfl rfl rfl nofun ?_ hstatus.1 hstatus.2 rfl rfl rfl
    (List.append_nil _).symm rfl nofun nofun ?_
  · intro j drops' cause' heq
    obtain ⟨-, -, rfl⟩ := Frame.release.inj heq
    refine ⟨i + 1, drops, rfl, ?_⟩
    show ∀ cb ∈ future.callbacks.take (i + 1), cb.executed = true
    obtain ⟨pre, post, hsplit, hmodify, rfl⟩ := split_modify hentry markExecuted
    rw [hsplit, List.take_left' rfl] at hexecuted
    have hlast : ∃ last, future.callbacks = pre ++ last :: post ∧ last.executed = true := by
      obtain ⟨rfl, hflag⟩ | rfl := hfuture
      · exact ⟨callback, hsplit, hflag⟩
      · exact ⟨markExecuted callback, (Future.callbacks_modify _ _ _).trans hmodify, rfl⟩
    obtain ⟨last, heq', hflag⟩ := hlast
    rw [heq', take_succ_split]
    intro cb hcb
    obtain hcb | hcb := List.mem_append.1 hcb
    · exact hexecuted cb hcb
    · rw [List.mem_singleton.1 hcb]
      exact hflag
  · exact hw.marked hold hnew hcallbacks rfl rfl rfl .rfl
      (h.not_waits hframes hnew future hstatus.1 hstatus.2)

/-- The callbacks of an open future are all released. -/
theorem Inv.releaseEnd (h : Inv w) {cause : Cause} (hframes : w.frames = .release i [] cause :: fs)
    (hcause : cause ≠ .teardown) (hq : Quiet es) : Inv ({ w with frames := fs }.emit es) := by
  have hhead : .release i [] cause ∈ w.frames := hframes ▸ List.mem_cons_self
  obtain ⟨htail, hold⟩ := h.release_frames hframes
  obtain ⟨hdispatched, hopen, -⟩ := h.releasing i [] cause hhead
  obtain ⟨hreleased, -⟩ := hopen hcause
  have hstatus : w.future.status ≠ .pending :=
    fun hp => nomatch (h.pending hp).2.2 hreleased _ hhead
  have hw := h.walk fun ht => nomatch hframes.symm.trans ht.2
  have hinv : Inv { w with frames := fs } := by
    refine h.finish hframes rfl hreleased hstatus hdispatched rfl rfl rfl rfl rfl
      (List.append_nil _).symm rfl nofun ?_
    exact hw.marked (i := i) hold htail (.inl rfl) rfl rfl rfl .rfl
      (h.not_waits hframes htail w.future rfl rfl)
  exact hinv.emit hq

/-- `Future.release` frees the queue once all callbacks are released. -/
theorem Inv.teardownEnd (h : Inv w) (hframes : w.frames = .release i [] .teardown :: fs) :
    Inv { w with
      future := { w.future with callbacksQueue := .empty, exceptionsQueue := .empty }
      frames := fs } := by
  have hhead : .release i [] .teardown ∈ w.frames := hframes ▸ List.mem_cons_self
  have harmed : w.armed = true := by
    cases harmed : w.armed with
    | true => rfl
    | false => exact nomatch hframes.symm.trans (h.unarmed harmed).2.2.2.1
  have hreleased := (h.releasing i [] .teardown hhead).2.2.1 rfl
  have hnil : fs = [] := by
    cases fs with
    | nil => rfl
    | cons g fs =>
      have hg : g ∈ w.frames := by simp [hframes]
      obtain ⟨j, drops, rfl⟩ := h.released hreleased g hg
      exact nomatch h.tail (.release j drops .teardown) (by simp [hframes])
  subst hnil
  refine ⟨nofun, nofun, fun hp => ?_, fun hd => ?_, nofun, nofun, fun _ => nofun, fun _ => rfl,
    fun hnot => ?_, h.increasing, h.facts, fun hnot => absurd ⟨hreleased, rfl⟩ hnot, h.once, h.reserved,
    h.slots⟩
  · obtain ⟨hran, hdispatched, -⟩ := h.pending hp
    exact ⟨hran, hdispatched, fun _ => nofun⟩
  · exact nomatch (h.releasing i [] .teardown hhead).1.symm.trans hd
  · exact nomatch harmed.symm.trans hnot

/-- `Future.release` starts: the slot of a future that is still pending is returned. -/
theorem Inv.release (h : Inv w) (hreleased : w.future.released = false) (hdispatched : w.dispatched = false)
    (hframes : w.frames = []) : Inv w.release := by
  have hw := h.walk fun ht => nomatch hreleased.symm.trans ht.1
  have harmed := h.armed hreleased
  have hes : ∀ es : List Effect, es = (if w.future.status = .pending then [.returnSlot] else []) →
      addedIds es = [] ∧ executedIds es = [] ∧ removedIds es = [] ∧ .ran ∉ es ∧
        es.filter Effect.isSetStatus = [] := by
    rintro es rfl
    split <;> exact ⟨rfl, rfl, rfl, by simp, rfl⟩
  unfold FutureMachine.release
  rw [hframes]
  dsimp only [emit]
  generalize hgen : (if w.future.status = .pending then [Effect.returnSlot] else []) = es
  obtain ⟨hadded, hexecuted, hremoved, hran, hset⟩ := hes es hgen.symm
  have hran' : .ran ∈ w.trace ++ es ↔ .ran ∈ w.trace := by simp [hran]
  have hnew : ∀ f ∈ [Frame.release 0 [] .teardown], f.isRun = false := by
    intro f hf
    rw [List.mem_singleton.1 hf]
    rfl
  have hwalk : Walk { w with
      future := { w.future with released := true }
      frames := [.release 0 [] .teardown]
      trace := w.trace ++ es } := by
    refine hw.marked (i := 0) (by rw [hframes]; exact nofun) hnew (.inl rfl) ?_ ?_ ?_ hran' ?_
    · rw [addedIds_append, hadded, List.append_nil]
    · rw [executedIds_append, hexecuted, List.append_nil]
    · rw [removedIds_append, hremoved, List.append_nil]
    · rintro (⟨-, hr⟩ | hd | ⟨f, hf, hfrun⟩)
      · exact nomatch hr
      · exact nomatch hdispatched.symm.trans hd
      · exact nomatch (hnew f hf).symm.trans hfrun
  refine ⟨nofun, ?_, fun hp => ?_, fun hd => ?_, ?_, ?_, ?_, ?_, fun hnot => ?_, ?_, ?_, fun _ => hwalk, ?_,
    ?_, ?_⟩
  · intro status outcome hin
    exact nomatch List.mem_singleton.1 hin
  · obtain ⟨hnotRan, -, -⟩ := h.pending hp
    exact ⟨fun hin => hnotRan (hran'.1 hin), hdispatched, nofun⟩
  · exact nomatch hdispatched.symm.trans hd
  · intro f hf hfrun
    exact nomatch (hnew f hf).symm.trans hfrun
  · intro i drops cause hin
    obtain ⟨rfl, -, rfl⟩ := Frame.release.inj (List.mem_singleton.1 hin)
    exact ⟨hdispatched, fun hne => absurd rfl hne, fun _ => rfl, nofun⟩
  · intro _ f hf
    exact ⟨0, [], List.mem_singleton.1 hf⟩
  · intro ht
    exact nomatch ht.2
  · exact nomatch harmed.symm.trans hnot
  · show (addedIds (w.trace ++ es)).Pairwise _ ∧ ∀ id ∈ addedIds (w.trace ++ es), id < w.next
    rw [addedIds_append, hadded, List.append_nil]
    exact h.increasing
  · refine hwalk.facts (fun hp => ?_) fun hin => ?_
    · rw [progress_of_not_run hnew, if_neg fun hin => (h.pending hp).1 (hran'.1 hin)]
    · rw [progress_of_not_run hnew, if_pos hin]
  · have honce := h.once
    show ((w.trace ++ es).filter Effect.isSetStatus).length = _
    rw [List.filter_append, hset, List.append_nil]
    exact honce
  · have hreserved := h.reserved
    show (w.trace ++ es).count Effect.reserveSlot = if w.armed then 1 else 0
    have hnone : es.count Effect.reserveSlot = 0 := by
      rw [← hgen]
      split <;> rfl
    rw [List.count_append, hreserved, hnone, Nat.add_zero]
  · have hslots := h.slots
    show (w.trace ++ es).count Effect.returnSlot + (if w.future.status = .pending ∧ true = false then 1
      else 0) = (w.trace ++ es).count Effect.reserveSlot
    rw [if_neg (by simp), List.count_append, List.count_append, ← hslots, ← hgen, hreleased]
    split
    · rename_i hp
      simp [hp]
    · rename_i hp
      simp [hp]

/-- Two entries of the queue are different calls. -/
theorem Inv.nodup (h : Inv w) (hw : Walk w) : (w.future.callbacks.map Callback.id).Nodup := by
  rw [hw.ids]
  exact h.increasing.1.imp Nat.ne_of_lt

/-- `remove_done_callback` takes an entry out that was neither removed nor executed. -/
theorem Inv.detach (h : Inv w) {count count' : ℕ} (hframes : w.frames = .comparing i count :: fs)
    (hentry : w.future.callbacks[i]? = some callback)
    (hgo : (callback.cancelled || callback.executed) = false) (drops : List Ref) :
    Inv ({ w with
      future := w.future.modify i FutureMachine.detach
      frames := .remove (i + 1) drops count' :: fs }.emit [.removed callback.id]) := by
  obtain ⟨hcancelled, hexecuted⟩ := Bool.or_eq_false_iff.1 hgo
  obtain ⟨hreleased, hcalls, htail⟩ := h.top hframes rfl
  have hw := h.walk fun ht => nomatch hreleased.symm.trans ht.1
  have hids := hw.ids
  have hnodup := h.nodup hw
  have hcallexec := hw.executed
  have hbefore := hw.before
  have hcancel := hw.cancelled
  have hcalls' : ∀ f ∈ Frame.remove (i + 1) drops count' :: fs, f.isCall = true := by
    intro f hf
    obtain rfl | hf := List.mem_cons.1 hf
    · rfl
    · exact htail f hf
  have hran' : Effect.ran ∈ w.trace ++ [Effect.removed callback.id] ↔ .ran ∈ w.trace := by simp
  obtain ⟨pre, post, hsplit, hmodify, rfl⟩ := split_modify hentry FutureMachine.detach
  have hcallbacks : (w.future.modify pre.length FutureMachine.detach).callbacks =
      pre ++ FutureMachine.detach callback :: post := by
    rw [Future.callbacks_modify, hmodify]
  -- the ready callback has not come to the entry
  have hle : w.progress ≤ pre.length := by
    by_contra hlt
    rw [not_le] at hlt
    have hin : callback ∈ w.future.callbacks.take w.progress := by
      rw [hsplit, show w.progress = pre.length + 1 + (w.progress - (pre.length + 1)) by omega,
        List.take_add, take_succ_split]
      simp
    obtain hflag | hflag := hbefore callback hin
    · exact nomatch hexecuted.symm.trans hflag
    · exact nomatch hcancelled.symm.trans hflag
  have hprogress : progress ({ w with
      future := w.future.modify pre.length FutureMachine.detach
      frames := .remove (pre.length + 1) drops count' :: fs }.emit [.removed callback.id]) =
        w.progress := by
    rw [progress_of_calls hcalls]
    refine (progress_of_calls (w := { w with
      future := w.future.modify pre.length FutureMachine.detach
      frames := .remove (pre.length + 1) drops count' :: fs }.emit [.removed callback.id])
      hcalls').trans ?_
    show (if Effect.ran ∈ w.trace ++ [Effect.removed callback.id] then
      (w.future.modify pre.length FutureMachine.detach).callbacks.length else 0) = _
    rw [hcallbacks, hsplit]
    simp only [hran', List.length_append, List.length_cons]
  have hother : ∀ cb, cb ∈ pre ∨ cb ∈ post → cb.id ≠ callback.id := by
    rw [hsplit, List.map_append, List.map_cons, List.nodup_append] at hnodup
    obtain ⟨-, hpost, hdisjoint⟩ := hnodup
    rintro cb (hcb | hcb)
    · exact hdisjoint _ (List.mem_map_of_mem hcb) _ List.mem_cons_self
    · intro heq
      exact (List.nodup_cons.1 hpost).1 (heq ▸ List.mem_map_of_mem hcb)
  have hadded : addedIds (w.trace ++ [Effect.removed callback.id]) = addedIds w.trace := by
    rw [addedIds_append]
    exact List.append_nil _
  have hexecutedIds : executedIds (w.trace ++ [Effect.removed callback.id]) = executedIds w.trace := by
    rw [executedIds_append]
    exact List.append_nil _
  have hremoved : removedIds (w.trace ++ [Effect.removed callback.id]) = removedIds w.trace ++ [callback.id] := by
    rw [removedIds_append]
    rfl
  refine h.exchange hframes rfl rfl rfl nofun nofun rfl rfl rfl rfl rfl
    rfl rfl (by simp) (by simp [Effect.isSetStatus]) ?_
  refine ⟨?_, ?_, ?_, ?_, ?_, ?_, fun hwaits => ?_⟩
  · show (w.future.modify pre.length FutureMachine.detach).callbacks.map _ =
      addedIds (w.trace ++ [Effect.removed callback.id])
    rw [hcallbacks, hadded, ← hids, hsplit]
    simp [FutureMachine.detach]
  · show ∀ cb ∈ (w.future.modify pre.length FutureMachine.detach).callbacks,
      cb.cancelled = true ↔ cb.id ∈ removedIds (w.trace ++ [Effect.removed callback.id])
    rw [hcallbacks, hremoved]
    rw [hsplit] at hcancel
    intro cb hcb
    obtain rfl | hcb : cb = FutureMachine.detach callback ∨ cb ∈ pre ∨ cb ∈ post := by
      obtain hcb | hcb := List.mem_append.1 hcb
      · exact .inr (.inl hcb)
      · exact (List.mem_cons.1 hcb).imp id .inr
    · exact ⟨fun _ => List.mem_append_right _ List.mem_cons_self, fun _ => rfl⟩
    · have hin : cb ∈ pre ++ callback :: post := by
        obtain hcb | hcb := hcb
        · exact List.mem_append_left _ hcb
        · exact List.mem_append_right _ (List.mem_cons_of_mem _ hcb)
      rw [hcancel cb hin, List.mem_append, List.mem_singleton]
      exact ⟨.inl, fun h => h.resolve_right (hother cb hcb)⟩
  · show ∀ id ∈ removedIds (w.trace ++ [Effect.removed callback.id]),
      id ∈ addedIds (w.trace ++ [Effect.removed callback.id])
    rw [hremoved, hadded]
    intro id hid
    obtain hid | hid := List.mem_append.1 hid
    · exact hw.subset id hid
    · rw [List.mem_singleton.1 hid, ← hids, hsplit]
      simp
  · show ∀ cb ∈ (w.future.modify pre.length FutureMachine.detach).callbacks, _
    rw [Future.callbacks_modify]
    exact forall_mem_modify (fun _ _ _ hnot => nomatch hnot) hw.attached
  · show executedIds (w.trace ++ [Effect.removed callback.id]) = _
    rw [hprogress, hexecutedIds, hcallexec]
    show _ = (((w.future.modify pre.length FutureMachine.detach).callbacks.take w.progress).filter _).map _
    rw [hcallbacks, hsplit, List.take_append_of_le_length hle, List.take_append_of_le_length hle]
  · rw [hprogress]
    show ∀ cb ∈ (w.future.modify pre.length FutureMachine.detach).callbacks.take w.progress, _
    rw [hsplit, List.take_append_of_le_length hle] at hbefore
    rw [hcallbacks, List.take_append_of_le_length hle]
    exact hbefore
  · have hwaits' : w.Waits := by
      obtain hp | hd | ⟨f, hf, hfrun⟩ := hwaits
      · exact .inl hp
      · exact .inr (.inl hd)
      · exact nomatch (Frame.not_isRun (hcalls' f hf)).symm.trans hfrun
    have hafter := hw.after hwaits'
    rw [hprogress]
    show ∀ cb ∈ (w.future.modify pre.length FutureMachine.detach).callbacks.drop w.progress, _
    rw [hsplit, List.drop_append_of_le_length hle] at hafter
    rw [hcallbacks, List.drop_append_of_le_length hle]
    intro cb hcb
    obtain hcb | hcb := List.mem_append.1 hcb
    · exact hafter cb (List.mem_append_left _ hcb)
    · obtain rfl | hcb := List.mem_cons.1 hcb
      · exact hexecuted
      · exact hafter cb (List.mem_append_right _ (List.mem_cons_of_mem _ hcb))

/-- A callback is put into the queue of a pending future. -/
theorem Inv.add (h : Inv w) (hp : w.future.status = .pending) (hreleased : w.future.released = false)
    {data : Data} {queue : InlineQueue Callback 2} {allocated : Bool}
    (hqueue : w.future.callbacksQueue.append ⟨data, false, false, w.next⟩ allocated = some queue)
    (hdata : Attached ⟨data, false, false, w.next⟩) (hq : Quiet es) :
    Inv { w with
      future := { w.future with callbacksQueue := queue }
      next := w.next + 1
      trace := w.trace ++ (es ++ [Effect.added w.next, .returned .none]) } := by
  obtain ⟨hnotRan, hdispatched, hcalls⟩ := h.pending hp
  have hcalls := hcalls hreleased
  have hw := h.walk fun ht => nomatch hreleased.symm.trans ht.1
  have hcallbacks : queue.items = w.future.callbacks ++ [⟨data, false, false, w.next⟩] :=
    InlineQueue.items_append hqueue
  have hran : Effect.ran ∉ w.trace ++ (es ++ [Effect.added w.next, .returned .none]) := by
    simp [hnotRan, hq.notMem (e := .ran) rfl]
  have hadded : addedIds (w.trace ++ (es ++ [Effect.added w.next, .returned .none])) =
      addedIds w.trace ++ [w.next] := by
    rw [addedIds_append, addedIds_append, hq.added]
    rfl
  have hexecuted : executedIds (w.trace ++ (es ++ [Effect.added w.next, .returned .none])) =
      executedIds w.trace := by
    rw [executedIds_append, executedIds_append, hq.executed]
    exact List.append_nil _
  have hremoved : removedIds (w.trace ++ (es ++ [Effect.added w.next, .returned .none])) =
      removedIds w.trace := by
    rw [removedIds_append, removedIds_append, hq.removed]
    exact List.append_nil _
  have hold : w.progress = 0 := by rw [progress_of_calls hcalls, if_neg hnotRan]
  have hprogress : progress { w with
      future := { w.future with callbacksQueue := queue }
      next := w.next + 1
      trace := w.trace ++ (es ++ [Effect.added w.next, .returned .none]) } = 0 :=
    (progress_of_calls (w := { w with
      future := { w.future with callbacksQueue := queue }
      next := w.next + 1
      trace := w.trace ++ (es ++ [Effect.added w.next, .returned .none]) }) hcalls).trans (if_neg hran)
  have hfresh : w.next ∉ removedIds w.trace :=
    fun hin => Nat.lt_irrefl _ (h.increasing.2 _ (hw.subset _ hin))
  have hnone : (w.trace ++ (es ++ [Effect.added w.next, .returned .none])).filter Effect.isSetStatus =
      w.trace.filter Effect.isSetStatus := by
    rw [List.filter_append, List.filter_append, hq.filter]
    exact List.append_nil _
  have hcount : ∀ e : Effect, e = .reserveSlot ∨ e = .returnSlot →
      (w.trace ++ (es ++ [Effect.added w.next, .returned .none])).count e = w.trace.count e := by
    intro e he
    have hzero : es.count e = 0 :=
      List.count_eq_zero_of_not_mem (hq.notMem (by obtain rfl | rfl := he <;> rfl))
    rw [List.count_append, List.count_append, hzero]
    obtain rfl | rfl := he <;> rfl
  have hwalk : Walk { w with
      future := { w.future with callbacksQueue := queue }
      next := w.next + 1
      trace := w.trace ++ (es ++ [Effect.added w.next, .returned .none]) } := by
    refine ⟨?_, ?_, ?_, ?_, ?_, ?_, fun _ => ?_⟩
    · show queue.items.map _ = _
      rw [hcallbacks, List.map_append, hw.ids, hadded]
      rfl
    · show ∀ cb ∈ queue.items, cb.cancelled = true ↔
        cb.id ∈ removedIds (w.trace ++ (es ++ [Effect.added w.next, .returned .none]))
      rw [hcallbacks, hremoved]
      intro cb hcb
      obtain hcb | hcb := List.mem_append.1 hcb
      · exact hw.cancelled cb hcb
      · rw [List.mem_singleton.1 hcb]
        exact ⟨nofun, fun hin => absurd hin hfresh⟩
    · show ∀ id ∈ removedIds (w.trace ++ (es ++ [Effect.added w.next, .returned .none])),
        id ∈ addedIds (w.trace ++ (es ++ [Effect.added w.next, .returned .none]))
      rw [hremoved, hadded]
      exact fun id hid => List.mem_append_left _ (hw.subset id hid)
    · show ∀ cb ∈ queue.items, _
      rw [hcallbacks]
      intro cb hcb
      obtain hcb | hcb := List.mem_append.1 hcb
      · exact hw.attached cb hcb
      · rw [List.mem_singleton.1 hcb]
        exact fun _ => hdata
    · rw [hprogress]
      show executedIds (w.trace ++ (es ++ [Effect.added w.next, .returned .none])) = []
      rw [hexecuted, hw.executed, hold]
      rfl
    · rw [hprogress]
      exact nofun
    · have hafter := hw.after (.inl ⟨hp, hreleased⟩)
      rw [hold, List.drop_zero] at hafter
      rw [hprogress]
      show ∀ cb ∈ queue.items, cb.executed = false
      rw [hcallbacks]
      intro cb hcb
      obtain hcb | hcb := List.mem_append.1 hcb
      · exact hafter cb hcb
      · rw [List.mem_singleton.1 hcb]
  have hrun : ∀ f ∈ w.frames, f.isRun = false := fun f hf => Frame.not_isRun (hcalls f hf)
  refine ⟨h.tail, h.setters, fun _ => ⟨hran, hdispatched, fun _ => hcalls⟩, fun hd => ?_, ?_, ?_, ?_, ?_,
    fun hnot => ?_, ?_, ?_, fun _ => hwalk, ?_, ?_, ?_⟩
  · exact nomatch hdispatched.symm.trans hd
  · intro f hf hfrun
    exact nomatch (hrun f hf).symm.trans hfrun
  · intro i drops cause hin
    exact nomatch hcalls _ hin
  · intro hr
    exact nomatch hreleased.symm.trans hr
  · intro ht
    exact nomatch hreleased.symm.trans ht.1
  · exact nomatch (h.armed hreleased).symm.trans hnot
  · show (addedIds (w.trace ++ (es ++ [Effect.added w.next, .returned .none]))).Pairwise _ ∧
      ∀ id ∈ addedIds (w.trace ++ (es ++ [Effect.added w.next, .returned .none])), id < w.next + 1
    rw [hadded, List.pairwise_append]
    refine ⟨⟨h.increasing.1, List.pairwise_singleton _ _, ?_⟩, ?_⟩
    · intro a ha b hb
      rw [List.mem_singleton.1 hb]
      exact h.increasing.2 a ha
    · intro id hid
      obtain hid | hid := List.mem_append.1 hid
      · exact (h.increasing.2 id hid).trans (Nat.lt_succ_self _)
      · rw [List.mem_singleton.1 hid]
        exact Nat.lt_succ_self _
  · exact hwalk.facts (fun _ => hprogress) fun hin => absurd hin hran
  · rw [hnone]
    exact h.once
  · rw [hcount _ (.inl rfl)]
    exact h.reserved
  · rw [hcount _ (.inl rfl), hcount _ (.inr rfl)]
    exact h.slots

/-- The future is armed. -/
theorem Inv.init (h : Inv w) (harmed : w.armed = false) :
    Inv ({ w with future := .init, armed := true }.emit [.reserveSlot]) := by
  obtain ⟨-, hp, hreleased, hframes, hdispatched, hadded, hexecuted, hremoved, hran⟩ :=
    h.unarmed harmed
  have hran' : Effect.ran ∉ w.trace ++ [Effect.reserveSlot] := by simp [hran]
  have hadded' : addedIds (w.trace ++ [Effect.reserveSlot]) = [] := by
    rw [addedIds_append, hadded]
    rfl
  have hexecuted' : executedIds (w.trace ++ [Effect.reserveSlot]) = [] := by
    rw [executedIds_append, hexecuted]
    rfl
  have hremoved' : removedIds (w.trace ++ [Effect.reserveSlot]) = [] := by
    rw [removedIds_append, hremoved]
    rfl
  have hprogress : progress ({ w with future := .init, armed := true }.emit [.reserveSlot]) = 0 := by
    refine (progress_of_calls (w := { w with future := .init, armed := true }.emit [.reserveSlot])
      ?_).trans (if_neg hran')
    show ∀ f ∈ w.frames, _
    rw [hframes]
    exact nofun
  have hwalk : Walk ({ w with future := .init, armed := true }.emit [.reserveSlot]) := by
    have hnil : ∀ cb : Callback, cb ∉ ([] : List Callback) := fun _ => nofun
    refine ⟨hadded'.symm, fun cb hcb => absurd hcb (hnil cb), ?_, fun cb hcb => absurd hcb (hnil cb), ?_,
      ?_, fun _ cb hcb => absurd (List.mem_of_mem_drop hcb) (hnil cb)⟩
    · show ∀ id ∈ removedIds (w.trace ++ [Effect.reserveSlot]), _
      rw [hremoved']
      exact nofun
    · rw [hprogress]
      exact hexecuted'
    · exact fun cb hcb => absurd (List.mem_of_mem_take hcb) (hnil cb)
  refine ⟨h.tail, h.setters, fun _ => ⟨hran', hdispatched, fun _ => ?_⟩, fun hd => ?_, ?_, ?_, nofun, nofun,
    nofun, ?_, hwalk.facts (fun _ => hprogress) fun hin => absurd hin hran', fun _ => hwalk, ?_, ?_, ?_⟩
  · show ∀ f ∈ w.frames, _
    rw [hframes]
    exact nofun
  · exact nomatch hdispatched.symm.trans hd
  · show ∀ f ∈ w.frames, _
    rw [hframes]
    exact nofun
  · show ∀ i drops cause, Frame.release i drops cause ∈ w.frames → _
    rw [hframes]
    exact nofun
  · show (addedIds (w.trace ++ [Effect.reserveSlot])).Pairwise _ ∧ ∀ id ∈ addedIds (w.trace ++ [Effect.reserveSlot]), _
    rw [hadded']
    exact ⟨.nil, nofun⟩
  · have honce := h.once
    rw [if_pos hp] at honce
    show ((w.trace ++ [Effect.reserveSlot]).filter Effect.isSetStatus).length = 0
    rw [List.filter_append, List.length_append, honce]
    rfl
  · have hreserved := h.reserved
    rw [harmed] at hreserved
    show (w.trace ++ [Effect.reserveSlot]).count Effect.reserveSlot = 1
    rw [List.count_append, hreserved]
    rfl
  · have hslots := h.slots
    rw [h.reserved, harmed] at hslots
    have hzero : w.trace.count Effect.returnSlot = 0 := by
      have := Nat.le_of_add_right_le hslots.le
      exact Nat.le_zero.1 this
    have hreserved := h.reserved
    rw [harmed] at hreserved
    show (w.trace ++ [Effect.reserveSlot]).count Effect.returnSlot + 1 =
      (w.trace ++ [Effect.reserveSlot]).count Effect.reserveSlot
    rw [List.count_append, List.count_append, hzero, hreserved]
    rfl

/-! ### The steps -/

theorem quiet_returned (outcome : Outcome) : Quiet [.returned outcome] := by
  intro e he
  rw [List.mem_singleton.1 he]
  rfl

theorem Inv.callDoneCallbacks (h : Inv w) {status : FutureStatus} {outcome : Outcome}
    (hframes : w.frames = .callDoneCallbacks status outcome :: fs) (grows : Bool) :
    Inv ({ w with frames := fs }.callDoneCallbacks status outcome grows) := by
  obtain ⟨hreleased, hcalls, htail⟩ := h.top hframes rfl
  have hstatus := h.setters status outcome (hframes ▸ List.mem_cons_self)
  have hpopped : Inv { w with frames := fs } := h.replace (n := []) hframes rfl nofun nofun
  unfold FutureMachine.callDoneCallbacks
  split
  · exact hpopped.emit (quiet_returned outcome)
  · rename_i hp
    rw [not_not] at hp
    obtain ⟨hnotRan, hdispatched, -⟩ := h.pending hp
    have hset := hpopped.setStatus hp hreleased hstatus
    have hnotRan' : Effect.ran ∉ w.trace ++ [Effect.setStatus status, .returnSlot] := by simp [hnotRan]
    dsimp only
    split
    · exact (hset w.dispatched).emit (quiet_returned outcome)
    split
    · refine ((hset w.dispatched).start htail hreleased hstatus hnotRan'
        (.inr ⟨.closed, rfl, nofun⟩)).quiet rfl rfl hdispatched rfl le_rfl
        (List.append_nil _).symm nofun
    split
    · exact (hset true).emit (quiet_returned outcome)
    · exact (hset w.dispatched).emit (quiet_returned _)

theorem Inv.removeNext (h : Inv w) {count : ℕ} (hframes : w.frames = .remove i [] count :: fs) :
    Inv (w.removeNext i count fs) := by
  have hpopped : Inv { w with frames := fs } := h.replace (n := []) hframes rfl nofun nofun
  have hpassed : Inv { w with frames := .remove (i + 1) [] count :: fs } :=
    h.replace (n := [.remove (i + 1) [] count]) hframes rfl (by simp [Frame.isCall]) (by simp)
  unfold FutureMachine.removeNext
  split
  · exact hpopped.emit (quiet_returned _)
  split
  · exact hpopped.emit (quiet_returned _)
  split
  · exact hpassed
  split
  · exact hpassed
  split
  · exact hpassed
  · exact h.replace (n := [.comparing i count]) hframes rfl (by simp [Frame.isCall]) (by simp)

theorem Inv.compared (h : Inv w) {count : ℕ} (hframes : w.frames = .comparing i count :: fs)
    (comparison : Comparison) : Inv (w.compared comparison i count fs) := by
  have hpopped : Inv { w with frames := fs } := h.replace (n := []) hframes rfl nofun nofun
  have hpassed : Inv { w with frames := .remove (i + 1) [] count :: fs } :=
    h.replace (n := [.remove (i + 1) [] count]) hframes rfl (by simp [Frame.isCall]) (by simp)
  unfold FutureMachine.compared
  split
  · exact hpopped.emit (quiet_returned _)
  · exact hpassed
  · split
    · exact hpopped.emit (quiet_returned _)
    rename_i slot hslot
    split
    · exact hpopped.emit (quiet_returned _)
    split
    · exact hpassed
    rename_i hgo
    split
    · exact hpassed
    · exact h.detach hframes hslot (Bool.eq_false_of_not_eq_true hgo) _

theorem Inv.runNext (h : Inv w) (hframes : w.frames = .run i [] :: fs) : Inv (w.runNext i fs) := by
  have hw := h.walk fun ht => nomatch hframes.symm.trans ht.2
  unfold FutureMachine.runNext
  split
  · rename_i hnone
    exact h.ran hframes hnone
  · rename_i callback hsome
    split
    · rename_i hskip
      exact h.runSkip hframes hsome hskip
    · rename_i hgo
      have hgo := Bool.eq_false_of_not_eq_true hgo
      have hattached := hw.attached callback (List.mem_of_getElem? hsome) (Bool.or_eq_false_iff.1 hgo).1
      dsimp only
      split
      · rename_i data hdata
        rw [if_neg (hattached.not_none hdata)]
        exact h.runCall hframes hsome hgo _
      · exact h.runCall hframes hsome hgo _

theorem Inv.returned (h : Inv w) {refs : List Ref} (hframes : w.frames = .calling i refs :: fs)
    (raised allocated : Bool) : Inv (w.returned raised allocated i refs fs) := by
  have hstay : Inv { w with frames := .run (i + 1) refs :: fs } := by
    refine h.stay hframes rfl rfl nofun nofun ?_
    rw [show w.progress = i + 1 by unfold progress; rw [hframes]]
    rfl
  exact ⟨hstay.tail, hstay.setters, hstay.pending, hstay.ready, hstay.running, hstay.releasing,
    hstay.released, hstay.torn, hstay.unarmed, hstay.increasing, hstay.facts,
    fun hnot => ⟨(hstay.walk hnot).ids, (hstay.walk hnot).cancelled, (hstay.walk hnot).subset,
      (hstay.walk hnot).attached, (hstay.walk hnot).executed, (hstay.walk hnot).before,
      (hstay.walk hnot).after⟩, hstay.once, hstay.reserved, hstay.slots⟩

theorem Inv.releaseNext (h : Inv w) {cause : Cause} (hframes : w.frames = .release i [] cause :: fs) :
    Inv (w.releaseNext i cause fs) := by
  unfold FutureMachine.releaseNext
  split
  · cases cause with
    | closed => exact h.releaseEnd hframes nofun (quiet_returned _)
    | cancelled =>
      have hend := h.releaseEnd hframes nofun quiet_nil
      rwa [FutureMachine.emit, List.append_nil] at hend
    | teardown => exact h.teardownEnd hframes
  · rename_i callback hsome
    split
    · rename_i hexecuted
      exact h.releaseEntry hframes hsome [] w.future (.inl ⟨rfl, hexecuted⟩)
    · exact h.releaseEntry hframes hsome _ _ (.inr rfl)

theorem Inv.proceed (h : Inv w) {grows : Bool} (hstep : w.proceed grows = some w') : Inv w' := by
  unfold FutureMachine.proceed at hstep
  have hquiet : ∀ r, Quiet [.decref r] := by
    intro r e he
    rw [List.mem_singleton.1 he]
    rfl
  split at hstep
  · rename_i status outcome fs hframes
    obtain rfl := Option.some.inj hstep
    exact h.callDoneCallbacks hframes grows
  · rename_i i r drops count fs hframes
    obtain rfl := Option.some.inj hstep
    have hinv := h.replace (n := [.remove i drops count]) hframes rfl (by simp [Frame.isCall]) (by simp)
    exact hinv.emit (hquiet r)
  · rename_i i count fs hframes
    obtain rfl := Option.some.inj hstep
    exact h.removeNext hframes
  · rename_i i r drops fs hframes
    obtain rfl := Option.some.inj hstep
    refine (h.stay (t := .run i drops) hframes rfl rfl nofun nofun ?_).emit (hquiet r)
    rw [show w.progress = i by unfold progress; rw [hframes]]
    rfl
  · rename_i i fs hframes
    obtain rfl := Option.some.inj hstep
    exact h.runNext hframes
  · rename_i i r drops cause fs hframes
    obtain rfl := Option.some.inj hstep
    refine (h.stay (t := .release i drops cause) hframes rfl rfl nofun ?_ ?_).emit (hquiet r)
    · intro j drops' cause' heq
      obtain ⟨rfl, -, rfl⟩ := Frame.release.inj heq
      exact ⟨drops, rfl⟩
    · unfold progress
      rw [hframes]
  · rename_i i cause fs hframes
    obtain rfl := Option.some.inj hstep
    exact h.releaseNext hframes
  · exact nomatch hstep

/-- What is in the queue of a future is not touched by a call on a released future. -/
theorem addDoneCallback_released {self : Future} {data : Data} {id : ℕ} {allocated : Bool}
    (h : self.status ≠ .pending ∨ self.released = true) :
    self.addDoneCallback data id allocated = some self :=
  if_pos h

theorem Inv.register (h : Inv w) (args : AddArgs) (hq : Quiet es) :
    Inv (register { w with next := w.next + 1, trace := w.trace ++ es } w.next args) := by
  have hnext : Inv { w with next := w.next + 1, trace := w.trace ++ es } :=
    h.quiet rfl rfl rfl rfl (Nat.le_succ _) rfl hq
  have hraised : ∀ error, Quiet [.decref (.context w.next), .decref (.callback w.next),
      .returned (.raised error)] := by
    intro error e he
    simp only [List.mem_cons, List.not_mem_nil, or_false] at he
    obtain rfl | rfl | rfl := he <;> rfl
  unfold FutureMachine.register
  split
  · rename_i hp
    by_cases hreleased : w.future.released = true
    · rw [addDoneCallback_released (.inr hreleased)]
      dsimp only
      rw [if_pos hreleased]
      exact hnext.emit (quiet_returned _)
    · have hopen : ¬(w.future.status ≠ .pending ∨ w.future.released = true) := by
        rintro (hne | hr)
        · exact hne hp
        · exact hreleased hr
      rw [Future.addDoneCallback, if_neg hopen]
      cases hqueue : w.future.callbacksQueue.append
          ⟨.pythonGeneric ⟨some (.callback w.next), some (.context w.next)⟩, false, false, w.next⟩
          args.allocated with
      | none => exact hnext.emit (quiet_returned _)
      | some queue =>
        have hadd := h.add hp (Bool.eq_false_of_not_eq_true hreleased) hqueue ?_ hq
        · dsimp only [Option.map_some]
          rw [if_neg hreleased]
          rwa [← List.append_assoc] at hadd
        · rintro data hdata
          obtain rfl := Data.pythonGeneric.inj hdata
          exact ⟨rfl, rfl⟩
  split
  · exact hnext.emit (hraised _)
  split
  · exact hnext.emit (hraised _)
  split
  · exact hnext.emit (hraised _)
  · refine hnext.emit ?_
    intro e he
    simp only [List.mem_cons, List.not_mem_nil, or_false] at he
    obtain rfl | rfl := he <;> rfl

theorem Inv.addDoneCallback (h : Inv w) (args : AddArgs) : Inv (w.addDoneCallback args) := by
  unfold FutureMachine.addDoneCallback
  split
  · exact h.emit (quiet_returned _)
  dsimp only
  have htaken : Quiet [.incref (.context w.next), .incref (.callback w.next)] := by
    intro e he
    simp only [List.mem_cons, List.not_mem_nil, or_false] at he
    obtain rfl | rfl := he <;> rfl
  have hnext : Inv { w with next := w.next + 1 } :=
    h.quiet rfl rfl rfl rfl (Nat.le_succ _) (List.append_nil _).symm nofun
  split
  · refine hnext.emit ?_
    intro e he
    simp only [List.mem_cons, List.not_mem_nil, or_false] at he
    obtain rfl | rfl | rfl := he <;> rfl
  split
  · refine (hnext.emit htaken).emit ?_
    intro e he
    simp only [List.mem_cons, List.not_mem_nil, or_false] at he
    obtain rfl | rfl | rfl := he <;> rfl
  · exact h.register args htaken

theorem Inv.addWakeup (h : Inv w) (ptr : ℕ) (allocated : Bool) : Inv (w.addWakeup ptr allocated) := by
  have hnext : Inv { w with next := w.next + 1 } :=
    h.quiet rfl rfl rfl rfl (Nat.le_succ _) (List.append_nil _).symm nofun
  unfold FutureMachine.addWakeup
  dsimp only
  by_cases hclosed : w.future.status ≠ .pending ∨ w.future.released = true
  · rw [addDoneCallback_released hclosed]
    dsimp only
    rw [if_pos hclosed]
    exact hnext.emit (quiet_returned _)
  · rw [Future.addDoneCallback, if_neg hclosed]
    rw [not_or, not_not] at hclosed
    cases hqueue : w.future.callbacksQueue.append ⟨.zigGeneric ptr, false, false, w.next⟩ allocated with
    | none => exact hnext.emit (quiet_returned _)
    | some queue =>
      have hadd := h.add hclosed.1 (Bool.eq_false_of_not_eq_true hclosed.2) hqueue
        (fun _ hdata => nomatch hdata) quiet_nil
      dsimp only [Option.map_some]
      rw [if_neg (by simp [hclosed])]
      exact hadd

/-- A result, an exception or a cancellation for an open future that is pending. -/
theorem Inv.resolve (h : Inv w) (hopen : ¬(w.future.released = true ∨ w.future.status ≠ .pending))
    {status : FutureStatus} (hstatus : status ≠ .pending) (outcome : Outcome) :
    Inv { w with frames := .callDoneCallbacks status outcome :: w.frames } := by
  rw [not_or, not_not] at hopen
  refine h.push hopen.2 (Bool.eq_false_of_not_eq_true hopen.1) rfl ?_
  rintro status' outcome' heq rfl
  exact hstatus (Frame.callDoneCallbacks.inj heq).1

theorem Inv.step (h : Inv w) {e : Event} (hstep : step w e = some w') : Inv w' := by
  unfold FutureMachine.step at hstep
  split at hstep
  · split at hstep
    · exact nomatch hstep
    · rename_i harmed
      obtain rfl := Option.some.inj hstep
      exact h.init (Bool.eq_false_of_not_eq_true harmed)
  · obtain rfl := Option.some.inj hstep
    exact h.addDoneCallback _
  · obtain rfl := Option.some.inj hstep
    exact h.addWakeup _ _
  · split at hstep
    · obtain rfl := Option.some.inj hstep
      exact h.emit (quiet_returned _)
    · rename_i hopen
      obtain rfl := Option.some.inj hstep
      rw [not_or, not_not] at hopen
      exact h.push hopen.1 (Bool.eq_false_of_not_eq_true hopen.2) rfl nofun
  · obtain rfl := Option.some.inj hstep
    unfold FutureMachine.setResult
    split
    · exact h.emit (quiet_returned _)
    · rename_i hopen
      exact h.resolve hopen (by decide) _
  · obtain rfl := Option.some.inj hstep
    unfold FutureMachine.setException
    split
    · exact h.emit (quiet_returned _)
    split
    · exact h.emit (quiet_returned _)
    · rename_i hopen
      exact h.resolve hopen (by decide) _
  · obtain rfl := Option.some.inj hstep
    unfold FutureMachine.cancel
    split
    · exact h.emit (quiet_returned _)
    split
    · exact h.emit (quiet_returned _)
    · rename_i hreleased hp
      exact h.resolve (not_or.2 ⟨hreleased, hp⟩) (by decide) _
  · split at hstep
    · obtain rfl := Option.some.inj hstep
      exact h
    split at hstep
    · exact nomatch hstep
    · rename_i hreleased hidle
      obtain rfl := Option.some.inj hstep
      rw [not_or, not_not] at hidle
      exact h.release (Bool.eq_false_of_not_eq_true hreleased) (Bool.eq_false_of_not_eq_true hidle.1)
        hidle.2
  · exact h.proceed hstep
  · split at hstep
    · rename_i comparison i count fs hframes
      obtain rfl := Option.some.inj hstep
      exact h.compared hframes _
    · exact nomatch hstep
  · split at hstep
    · rename_i i refs fs hframes
      obtain rfl := Option.some.inj hstep
      exact h.returned hframes _ _
    · exact nomatch hstep
  · split at hstep
    · rename_i hdispatched
      obtain rfl := Option.some.inj hstep
      obtain ⟨hreleased, hran, hcalls⟩ := h.ready hdispatched
      have hstatus : w.future.status ≠ .pending :=
        fun hp => nomatch hdispatched.symm.trans (h.pending hp).2.1
      split
      · exact h.start hcalls hreleased hstatus hran (.inl ⟨rfl, hdispatched⟩)
      · exact h.start hcalls hreleased hstatus hran (.inr ⟨.cancelled, rfl, nofun⟩)
    · exact nomatch hstep
  · obtain rfl := Option.some.inj hstep
    exact h.quiet rfl rfl rfl rfl le_rfl (List.append_nil _).symm nofun

/-! ### The references -/

/-- The references a frame drops later. -/
def Frame.refs : Frame → List Ref
  | .remove _ drops _ | .run _ drops | .calling _ drops | .release _ drops _ => drops
  | _ => []

/-- The references that go to a handle. -/
def Effect.handedRefs : Effect → List Ref
  | .handed id => [.context id, .callback id]
  | _ => []

/-- The references that are neither dropped nor lost: those of the queue, of the frames and of the
handles. -/
def held (w : FutureMachine) : List Ref :=
  w.future.callbacks.flatMap Callback.refs ++ w.frames.flatMap Frame.refs ++
    w.trace.flatMap Effect.handedRefs

/-- No reference is taken, and what is dropped was held before. -/
structure Conserves (w w' : FutureMachine) : Prop where
  next : w.next ≤ w'.next
  taken : ∀ r, w'.trace.count (.incref r) = w.trace.count (.incref r)
  balance : ∀ r, w'.trace.count (.decref r) + w'.held.count r =
    w.trace.count (.decref r) + w.held.count r

theorem held_count (w : FutureMachine) (r : Ref) : w.held.count r =
    (w.future.callbacks.flatMap Callback.refs).count r + (w.frames.flatMap Frame.refs).count r +
      (w.trace.flatMap Effect.handedRefs).count r := by
  rw [held, List.count_append, List.count_append]

theorem Conserves.trans {w'' : FutureMachine} (h : Conserves w w') (h' : Conserves w' w'') :
    Conserves w w'' :=
  ⟨h.next.trans h'.next, fun r => (h'.taken r).trans (h.taken r),
    fun r => (h'.balance r).trans (h.balance r)⟩

/-- Nothing but the frames changes, and they keep their references. -/
theorem Conserves.frames {frames : List Frame} {future : Future}
    (hframes : frames.flatMap Frame.refs = w.frames.flatMap Frame.refs)
    (hfuture : future.callbacks = w.future.callbacks)
    (armed initialized dispatched : Bool) {next : ℕ} (hnext : w.next ≤ next) :
    Conserves w ⟨future, armed, initialized, dispatched, next, frames, w.trace⟩ := by
  refine ⟨hnext, fun _ => rfl, fun r => ?_⟩
  rw [held_count, held_count]
  dsimp only
  rw [hframes, hfuture]

/-- A frame that holds no references is taken off the stack, and others with those of the frames below put in its
place. -/
theorem Conserves.pass {f : Frame} (hframes : w.frames = f :: fs) (hf : f.refs = []) {frames : List Frame}
    {future : Future} (hrefs : frames.flatMap Frame.refs = fs.flatMap Frame.refs)
    (hfuture : future.callbacks = w.future.callbacks) :
    Conserves w { w with frames := frames, future := future } := by
  refine .frames ?_ hfuture _ _ _ le_rfl
  rw [hframes, List.flatMap_cons, hf, hrefs]
  rfl

/-- Effects that have nothing to do with references. -/
theorem Conserves.emit (w : FutureMachine) (hes : ∀ e ∈ es,
    (∀ r, e ≠ .incref r) ∧ (∀ r, e ≠ .decref r) ∧ ∀ id, e ≠ .handed id) : Conserves w (w.emit es) := by
  have hincref : ∀ r, es.count (.incref r) = 0 :=
    fun r => List.count_eq_zero_of_not_mem fun hin => (hes _ hin).1 r rfl
  have hdecref : ∀ r, es.count (.decref r) = 0 :=
    fun r => List.count_eq_zero_of_not_mem fun hin => (hes _ hin).2.1 r rfl
  have hhanded : es.flatMap Effect.handedRefs = [] := by
    refine List.flatMap_eq_nil_iff.2 fun e he => ?_
    cases e with
    | handed id => exact absurd rfl ((hes _ he).2.2 id)
    | _ => rfl
  refine ⟨le_rfl, fun r => ?_, fun r => ?_⟩
  · simp only [FutureMachine.emit, List.count_append, hincref, Nat.add_zero]
  · rw [held_count, held_count]
    simp only [FutureMachine.emit, List.count_append, List.flatMap_append, hdecref, hhanded,
      List.append_nil, Nat.add_zero]

/-- A reference of the frame on top is dropped. -/
theorem Conserves.drop {f f' : Frame} {r : Ref} (hframes : w.frames = f :: fs)
    (hrefs : f.refs = r :: f'.refs) : Conserves w ({ w with frames := f' :: fs }.emit [.decref r]) := by
  refine ⟨le_rfl, fun s => ?_, fun s => ?_⟩
  · simp [FutureMachine.emit]
  rw [held_count, held_count, hframes]
  simp only [FutureMachine.emit, List.count_append, List.flatMap_append, List.flatMap_cons, hrefs,
    List.count_cons, List.count_nil, List.flatMap_nil, Effect.handedRefs, Nat.add_zero, Nat.zero_add]
  by_cases heq : r = s
  · simp [heq]
    omega
  · simp [heq]

/-- A write to one entry moves its references. -/
theorem count_modify_refs {l : List Callback} (hl : l[i]? = some callback)
    (f : Callback → Callback) (r : Ref) :
    ((l.modify i f).flatMap Callback.refs).count r + callback.refs.count r =
      (l.flatMap Callback.refs).count r + (f callback).refs.count r := by
  obtain ⟨pre, post, hsplit, hmodify, -⟩ := split_modify hl f
  rw [hmodify, hsplit]
  simp only [List.flatMap_append, List.flatMap_cons, List.count_append]
  omega

/-- The references of an entry go to the frame on top. -/
theorem Conserves.modify (hentry : w.future.callbacks[i]? = some callback) {f : Callback → Callback}
    {old n : Frame} (hframes : w.frames = old :: fs) (hold : old.refs = [])
    (hmove : ∀ r, (f callback).refs.count r + n.refs.count r = callback.refs.count r) :
    Conserves w { w with future := w.future.modify i f, frames := n :: fs } := by
  refine ⟨le_rfl, fun _ => rfl, fun r => ?_⟩
  rw [held_count, held_count, hframes]
  simp only [Future.callbacks_modify, List.flatMap_cons, hold, List.nil_append, List.count_append]
  have := count_modify_refs hentry f r
  have := hmove r
  omega

/-- Whether a call of `add_done_callback` gets as far as the status of the future. -/
def AddArgs.valid (args : AddArgs) : Prop :=
  args.nargs = 1 ∧ args.context ≠ .invalid ∧ args.callable = true

instance (args : AddArgs) : Decidable args.valid :=
  inferInstanceAs (Decidable (args.nargs = 1 ∧ args.context ≠ .invalid ∧ args.callable = true))

/-- A callback that is added while the future is pending finds the future armed and not released, and
the queue has room for it. -/
def Clean (w : FutureMachine) : Event → Prop
  | .addDoneCallback args => args.valid → w.future.status = .pending →
      w.future.released = false ∧ (args.allocated = true ∨ w.future.callbacksQueue.HasInline)
  | _ => True

theorem emit_returned (w : FutureMachine) (outcome : Outcome) :
    Conserves w (w.emit [.returned outcome]) :=
  .emit w (by simp)

theorem conserves_callDoneCallbacks {status : FutureStatus} {outcome : Outcome}
    (hframes : w.frames = .callDoneCallbacks status outcome :: fs) (grows : Bool) :
    Conserves w ({ w with frames := fs }.callDoneCallbacks status outcome grows) := by
  have hpopped : ∀ (frames : List Frame) (future : Future) (dispatched : Bool),
      frames.flatMap Frame.refs = fs.flatMap Frame.refs → future.callbacks = w.future.callbacks →
      Conserves w ⟨future, w.armed, w.initialized, dispatched, w.next, frames, w.trace⟩ := by
    intro frames future dispatched hrefs hfuture
    refine .frames ?_ hfuture _ _ _ le_rfl
    rw [hframes]
    exact hrefs
  have hset : ∀ (frames : List Frame) (dispatched : Bool),
      frames.flatMap Frame.refs = fs.flatMap Frame.refs →
      Conserves w (FutureMachine.emit ⟨{ w.future with status := status }, w.armed, w.initialized,
        dispatched, w.next, frames, w.trace⟩ [.setStatus status, .returnSlot]) := by
    intro frames dispatched hrefs
    refine (hpopped frames { w.future with status := status } dispatched hrefs rfl).trans (.emit _ ?_)
    simp
  unfold callDoneCallbacks
  split
  · exact (hpopped _ w.future w.dispatched rfl rfl).trans (emit_returned _ _)
  dsimp only
  split
  · exact (hset _ w.dispatched rfl).trans (emit_returned _ _)
  split
  · exact hset _ w.dispatched rfl
  split
  · exact (hset _ true rfl).trans (emit_returned _ _)
  · exact (hset _ w.dispatched rfl).trans (emit_returned _ _)

theorem conserves_removeNext {count : ℕ} (hframes : w.frames = .remove i [] count :: fs) :
    Conserves w (w.removeNext i count fs) := by
  have hgo : ∀ {frames}, frames.flatMap Frame.refs = fs.flatMap Frame.refs →
      Conserves w { w with frames := frames } := fun hrefs => .pass hframes rfl hrefs rfl
  unfold removeNext
  split
  · exact (hgo rfl).trans (emit_returned _ _)
  split
  · exact (hgo rfl).trans (emit_returned _ _)
  split
  · exact hgo rfl
  split
  · exact hgo rfl
  split
  · exact hgo rfl
  · exact hgo rfl

theorem conserves_compared {count : ℕ} (hframes : w.frames = .comparing i count :: fs)
    (comparison : Comparison) : Conserves w (w.compared comparison i count fs) := by
  have hgo : ∀ {frames}, frames.flatMap Frame.refs = fs.flatMap Frame.refs →
      Conserves w { w with frames := frames } := fun hrefs => .pass hframes rfl hrefs rfl
  unfold compared
  split
  · exact (hgo rfl).trans (emit_returned _ _)
  · exact hgo rfl
  · split
    · exact (hgo rfl).trans (emit_returned _ _)
    rename_i slot hslot
    split
    · exact (hgo rfl).trans (emit_returned _ _)
    split
    · exact hgo rfl
    rename_i hlive
    split
    · exact hgo rfl
    · rename_i data hdata
      rw [Bool.not_eq_true, Bool.or_eq_false_iff] at hlive
      refine .trans (.modify hslot (n := .remove (i + 1) _ _) hframes rfl fun r => ?_)
        (.emit _ (by simp))
      rw [Callback.refs, Callback.refs, hlive.2, hdata]
      simp [detach, hlive.2, Data.refs, Frame.refs, List.count_append, Nat.add_comm]

theorem conserves_runNext (h : Inv w) (hframes : w.frames = .run i [] :: fs) :
    Conserves w (w.runNext i fs) := by
  have hw := h.walk fun ht => nomatch hframes.symm.trans ht.2
  have hgo : ∀ {frames future}, frames.flatMap Frame.refs = fs.flatMap Frame.refs →
      future.callbacks = w.future.callbacks →
      Conserves w { w with frames := frames, future := future } := fun hrefs => .pass hframes rfl hrefs
  unfold runNext
  split
  · refine .trans (@Conserves.frames w fs { w.future with exceptionsQueue := w.future.exceptionsQueue.popAll } ?_ rfl
      _ _ _ _ le_rfl) (.emit _ ?_)
    · rw [hframes]
      rfl
    · simp
  rename_i callback hsome
  split
  · exact hgo rfl rfl
  · rename_i hlive
    rw [Bool.not_eq_true, Bool.or_eq_false_iff] at hlive
    have hattached := hw.attached callback (List.mem_of_getElem? hsome) hlive.1
    have hmove : ∀ {refs : List Ref}, refs = callback.data.refs → ∀ r,
        (markExecuted callback).refs.count r + (Frame.calling i refs).refs.count r =
          callback.refs.count r := by
      rintro refs rfl r
      simp [Callback.refs, markExecuted, hlive.2, Frame.refs]
    dsimp only
    split
    · rename_i data hdata
      rw [if_neg (hattached.not_none hdata)]
      exact .trans (.modify hsome (n := .calling i _) hframes rfl (hmove rfl)) (.emit _ (by simp))
    · rename_i ptr hdata
      refine .trans (.modify hsome (n := .calling i _) hframes rfl (hmove ?_)) (.emit _ (by simp))
      rw [hdata]
      rfl

theorem conserves_releaseNext (h : Inv w) {cause : Cause}
    (hframes : w.frames = .release i [] cause :: fs) : Conserves w (w.releaseNext i cause fs) := by
  have hgo : ∀ {frames future}, frames.flatMap Frame.refs = fs.flatMap Frame.refs →
      future.callbacks = w.future.callbacks →
      Conserves w { w with frames := frames, future := future } := fun hrefs => .pass hframes rfl hrefs
  unfold releaseNext
  split
  · rename_i hnone
    cases cause with
    | closed => exact (hgo rfl rfl).trans (emit_returned _ _)
    | cancelled => exact hgo rfl rfl
    | teardown =>
      have hexecuted := (h.releasing i [] .teardown (hframes ▸ List.mem_cons_self)).2.2.2
      rw [List.take_of_length_le (List.getElem?_eq_none_iff.1 hnone)] at hexecuted
      have hnil : w.future.callbacks.flatMap Callback.refs = [] :=
        List.flatMap_eq_nil_iff.2 fun cb hcb => if_pos (hexecuted cb hcb)
      refine ⟨le_rfl, fun _ => rfl, fun r => ?_⟩
      rw [held_count, held_count, hframes, hnil]
      rfl
  · rename_i callback hsome
    split
    · exact hgo rfl rfl
    · rename_i hlive
      refine .modify hsome (n := .release (i + 1) _ _) hframes rfl fun r => ?_
      simp [Callback.refs, markExecuted, hlive, Frame.refs]

theorem conserves_proceed (h : Inv w) {grows : Bool} (hstep : w.proceed grows = some w') :
    Conserves w w' := by
  unfold proceed at hstep
  split at hstep
  · rename_i status outcome fs hframes
    obtain rfl := Option.some.inj hstep
    exact conserves_callDoneCallbacks hframes grows
  · rename_i i r drops count fs hframes
    obtain rfl := Option.some.inj hstep
    exact .drop hframes rfl
  · rename_i i count fs hframes
    obtain rfl := Option.some.inj hstep
    exact conserves_removeNext hframes
  · rename_i i r drops fs hframes
    obtain rfl := Option.some.inj hstep
    exact .drop hframes rfl
  · rename_i i fs hframes
    obtain rfl := Option.some.inj hstep
    exact conserves_runNext h hframes
  · rename_i i r drops cause fs hframes
    obtain rfl := Option.some.inj hstep
    exact .drop hframes rfl
  · rename_i i cause fs hframes
    obtain rfl := Option.some.inj hstep
    exact conserves_releaseNext h hframes
  · exact nomatch hstep

/-- The references are all accounted for, and no call takes the references of another. -/
structure Kept (w : FutureMachine) : Prop where
  balance : ∀ r, w.trace.count (.decref r) + w.held.count r = w.trace.count (.incref r)
  once : ∀ r, w.trace.count (.incref r) ≤ 1
  fresh : ∀ r, w.next ≤ r.id → w.trace.count (.incref r) = 0

theorem Kept.new : Kept .new := ⟨fun _ => rfl, fun _ => Nat.zero_le _, fun _ _ => rfl⟩

theorem Kept.conserves (h : Kept w) (hc : Conserves w w') : Kept w' := by
  refine ⟨fun r => ?_, fun r => ?_, fun r hr => ?_⟩
  · rw [hc.balance, hc.taken]
    exact h.balance r
  · rw [hc.taken]
    exact h.once r
  · rw [hc.taken]
    exact h.fresh r (hc.next.trans hr)

/-- A call takes its own references. -/
theorem Kept.take (h : Kept w) (hnext : w'.next = w.next + 1) (htrace : w'.trace = w.trace ++ es)
    (hbalance : ∀ r, es.count (.decref r) + w'.held.count r = w.held.count r + es.count (.incref r))
    (htaken : ∀ r, es.count (.incref r) ≤ 1 ∧ (r.id ≠ w.next → es.count (.incref r) = 0)) : Kept w' := by
  refine ⟨fun r => ?_, fun r => ?_, fun r hr => ?_⟩
  · rw [htrace, List.count_append, List.count_append]
    have := h.balance r
    have := hbalance r
    omega
  · rw [htrace, List.count_append]
    obtain ⟨hle, hzero⟩ := htaken r
    by_cases heq : r.id = w.next
    · rw [h.fresh r heq.ge]
      omega
    · rw [hzero heq]
      exact h.once r
  · rw [hnext] at hr
    rw [htrace, List.count_append, h.fresh r (Nat.le_of_succ_le hr), (htaken r).2 (by omega)]

theorem held_emit (w : FutureMachine) (es : List Effect) (r : Ref) :
    (w.emit es).held.count r = w.held.count r + (es.flatMap Effect.handedRefs).count r := by
  rw [held_count, held_count]
  simp only [emit, List.flatMap_append, List.count_append, Nat.add_assoc]

/-- A call that drops what it took, or hands it on, keeps the accounts. -/
theorem Kept.emit (h : Kept w) {e : List Effect} (hbalance : ∀ r, e.count (.decref r) +
      (e.flatMap Effect.handedRefs).count r = e.count (.incref r))
    (htaken : ∀ r, e.count (.incref r) ≤ 1 ∧ (r.id ≠ w.next → e.count (.incref r) = 0)) :
    Kept (FutureMachine.emit { w with next := w.next + 1 } e) := by
  refine h.take rfl rfl (fun r => ?_) htaken
  have hheld := held_emit { w with next := w.next + 1 } e r
  have hsame : held { w with next := w.next + 1 } = w.held := rfl
  have := hbalance r
  rw [hsame] at hheld
  omega

/-- The count of an effect about a reference in a list of effects. -/
theorem count_ref_cons (f : Ref → Effect) (hf : Function.Injective f) (r s : Ref) (es : List Effect) :
    (f s :: es).count (f r) = es.count (f r) + if s = r then 1 else 0 := by
  by_cases heq : s = r
  · simp [heq]
  · have hne : f s ≠ f r := fun h => heq (hf h)
    rw [List.count_cons_of_ne hne, if_neg heq, Nat.add_zero]

theorem incref_injective : Function.Injective Effect.incref := fun _ _ h => Effect.incref.inj h

theorem decref_injective : Function.Injective Effect.decref := fun _ _ h => Effect.decref.inj h

/-- A call takes the two references of its own id. -/
theorem count_taken (next : ℕ) (r : Ref) :
    [Effect.incref (.context next), .incref (.callback next)].count (.incref r) + 0 ≤ 1 ∧
      (r.id ≠ next → [Effect.incref (.context next), .incref (.callback next)].count (.incref r) + 0 = 0) := by
  rw [count_ref_cons _ incref_injective, count_ref_cons _ incref_injective]
  cases r with
  | callback id =>
    by_cases heq : next = id
    · simp [heq, Ref.id]
    · simp [heq]
  | context id =>
    by_cases heq : next = id
    · simp [heq, Ref.id]
    · simp [heq]

theorem Kept.register (h : Kept w) (args : AddArgs)
    (hclean : w.future.status = .pending →
      w.future.released = false ∧ (args.allocated = true ∨ w.future.callbacksQueue.HasInline)) :
    Kept (register (FutureMachine.emit { w with next := w.next + 1 }
      [.incref (.context w.next), .incref (.callback w.next)]) w.next args) := by
  have htaken : ∀ es, (∀ r, es.count (Effect.incref r) = 0) → ∀ r : Ref,
      ([Effect.incref (.context w.next), .incref (.callback w.next)] ++ es).count (.incref r) ≤ 1 ∧
        (r.id ≠ w.next →
          ([Effect.incref (.context w.next), .incref (.callback w.next)] ++ es).count (.incref r) = 0) := by
    intro es hes r
    rw [List.count_append, hes]
    exact count_taken w.next r
  have hdropped : ∀ error, Kept (FutureMachine.emit (FutureMachine.emit { w with next := w.next + 1 }
      [.incref (.context w.next), .incref (.callback w.next)])
      [.decref (.context w.next), .decref (.callback w.next), .returned (.raised error)]) := by
    intro error
    have hall := h.emit (e := [.incref (.context w.next), .incref (.callback w.next)] ++
      [.decref (.context w.next), .decref (.callback w.next), .returned (.raised error)])
      (fun r => ?_) (htaken _ (by simp))
    · unfold FutureMachine.emit at hall ⊢
      rwa [← List.append_assoc] at hall
    · simp [count_ref_cons _ decref_injective, count_ref_cons _ incref_injective, Effect.handedRefs]
  unfold FutureMachine.register
  split
  · rename_i hp
    obtain ⟨hreleased, hroom⟩ := hclean hp
    have hopen : ¬(w.future.status ≠ .pending ∨ w.future.released = true) := by
      rintro (hne | hr)
      · exact hne hp
      · exact nomatch hreleased.symm.trans hr
    have hentry : ∀ r : Ref, (Callback.refs ⟨.pythonGeneric ⟨some (.callback w.next),
        some (.context w.next)⟩, false, false, w.next⟩).count r =
          (if Ref.context w.next = r then 1 else 0) + if Ref.callback w.next = r then 1 else 0 := by
      intro r
      show [Ref.context w.next, .callback w.next].count r = _
      rw [List.count_cons, List.count_cons, List.count_nil, Nat.zero_add, Nat.add_comm]
      simp only [beq_iff_eq]
    dsimp only [FutureMachine.emit]
    rw [Future.addDoneCallback, if_neg hopen]
    cases hqueue : w.future.callbacksQueue.append
        ⟨.pythonGeneric ⟨some (.callback w.next), some (.context w.next)⟩, false, false, w.next⟩
        args.allocated with
    | none =>
      obtain ⟨halloc, hnot⟩ := (InlineQueue.append_eq_none_iff _ _ _).1 hqueue
      obtain hroom | hroom := hroom
      · exact nomatch halloc.symm.trans hroom
      · exact absurd hroom hnot
    | some queue =>
      have hitems := InlineQueue.items_append hqueue
      dsimp only [Option.map_some]
      simp only [hreleased, Bool.false_eq_true, ↓reduceIte]
      rw [List.append_assoc]
      refine h.take rfl rfl (fun r => ?_) (htaken _ (by simp))
      rw [held_count, held_count]
      simp only [Future.callbacks, hitems, List.flatMap_append, List.count_append, List.flatMap_cons,
        List.flatMap_nil, List.append_nil, hentry, count_ref_cons _ incref_injective, Effect.handedRefs,
        List.count_nil]
      simp
      omega
  split
  · exact hdropped _
  split
  · exact hdropped _
  split
  · exact hdropped _
  · have hall := h.emit (e := [.incref (.context w.next), .incref (.callback w.next)] ++
      [.handed w.next, .returned .none]) (fun r => ?_) (htaken _ (by simp))
    · unfold FutureMachine.emit at hall ⊢
      rwa [← List.append_assoc] at hall
    · simp [count_ref_cons _ incref_injective, Effect.handedRefs, List.count_cons]

theorem Kept.addDoneCallback (h : Kept w) {args : AddArgs} (hclean : Clean w (.addDoneCallback args)) :
    Kept (w.addDoneCallback args) := by
  unfold FutureMachine.addDoneCallback
  split
  · exact h.conserves (emit_returned _ _)
  rename_i hnargs
  dsimp only
  split
  · refine h.emit (fun r => ?_) fun r => ?_
    · simp [count_ref_cons _ decref_injective, count_ref_cons _ incref_injective, Effect.handedRefs]
    · rw [count_ref_cons _ incref_injective]
      by_cases heq : Ref.context w.next = r
      · simp [← heq, Ref.id]
      · simp [heq]
  rename_i hcontext
  split
  · rw [FutureMachine.emit, FutureMachine.emit]
    dsimp only
    rw [List.append_assoc]
    refine h.emit (fun r => ?_) fun r => ?_
    · simp [count_ref_cons _ decref_injective, count_ref_cons _ incref_injective, Effect.handedRefs]
      omega
    · have htaken := count_taken w.next r
      simp only [count_ref_cons _ incref_injective] at htaken
      simpa [count_ref_cons _ incref_injective] using htaken
  · rename_i hcallable
    have hvalid : args.valid := ⟨not_not.1 hnargs, hcontext, by simpa using hcallable⟩
    exact h.register args (hclean hvalid)

theorem conserves_addWakeup (w : FutureMachine) (ptr : ℕ) (allocated : Bool) :
    Conserves w (w.addWakeup ptr allocated) := by
  unfold addWakeup
  dsimp only
  have hnext : ∀ future : Future, future.callbacks.flatMap Callback.refs =
      w.future.callbacks.flatMap Callback.refs →
      Conserves w { w with future := future, next := w.next + 1 } := by
    intro future hrefs
    refine ⟨Nat.le_succ _, fun _ => rfl, fun r => ?_⟩
    rw [held_count, held_count, hrefs]
  have hend : ∀ v : FutureMachine, Conserves v
      (v.emit ((if w.future.status ≠ .pending ∨ w.future.released = true then []
        else [Effect.added w.next]) ++ [Effect.returned .none])) := by
    intro v
    refine .emit v ?_
    split <;> simp
  split
  · exact (hnext w.future rfl).trans (emit_returned _ _)
  · rename_i future hfuture
    refine (hnext future ?_).trans (hend _)
    rw [Future.addDoneCallback] at hfuture
    split at hfuture
    · obtain rfl := Option.some.inj hfuture
      rfl
    · obtain ⟨queue, hqueue, rfl⟩ := Option.map_eq_some_iff.1 hfuture
      simp only [Future.callbacks, InlineQueue.items_append hqueue, List.flatMap_append,
        List.flatMap_cons, List.flatMap_nil, List.append_nil]
      exact List.append_nil _

theorem Kept.step (h : Kept w) (hinv : Inv w) {e : Event} (hclean : Clean w e)
    (hstep : step w e = some w') : Kept w' := by
  have hpush : ∀ {frames : List Frame} {dispatched : Bool},
      frames.flatMap Frame.refs = w.frames.flatMap Frame.refs →
      Conserves w { w with frames := frames, dispatched := dispatched } :=
    fun hrefs => .frames hrefs rfl _ _ _ le_rfl
  unfold FutureMachine.step at hstep
  split at hstep
  · split at hstep
    · exact nomatch hstep
    · rename_i harmed
      obtain rfl := Option.some.inj hstep
      have hnil := (hinv.unarmed (Bool.eq_false_of_not_eq_true harmed)).1
      have hinit : Conserves w { w with future := .init, armed := true } := by
        refine .frames rfl ?_ _ _ _ le_rfl
        exact hnil.symm
      refine h.conserves (hinit.trans (.emit _ ?_))
      simp
  · obtain rfl := Option.some.inj hstep
    exact h.addDoneCallback hclean
  · obtain rfl := Option.some.inj hstep
    exact h.conserves (conserves_addWakeup _ _ _)
  · split at hstep
    · obtain rfl := Option.some.inj hstep
      exact h.conserves (emit_returned _ _)
    · obtain rfl := Option.some.inj hstep
      exact h.conserves (hpush rfl)
  · obtain rfl := Option.some.inj hstep
    unfold FutureMachine.setResult
    split
    · exact h.conserves (emit_returned _ _)
    · exact h.conserves (hpush rfl)
  · obtain rfl := Option.some.inj hstep
    unfold FutureMachine.setException
    split
    · exact h.conserves (emit_returned _ _)
    split
    · exact h.conserves (emit_returned _ _)
    · exact h.conserves (hpush rfl)
  · obtain rfl := Option.some.inj hstep
    unfold FutureMachine.cancel
    split
    · exact h.conserves (emit_returned _ _)
    split
    · exact h.conserves (emit_returned _ _)
    · exact h.conserves (hpush rfl)
  · split at hstep
    · obtain rfl := Option.some.inj hstep
      exact h
    split at hstep
    · exact nomatch hstep
    · obtain rfl := Option.some.inj hstep
      have hstart : Conserves w { w with
          future := { w.future with released := true }
          frames := .release 0 [] .teardown :: w.frames } := by
        refine .frames ?_ ?_ _ _ _ le_rfl <;> rfl
      refine h.conserves (hstart.trans (.emit _ ?_))
      split <;> simp
  · exact h.conserves (conserves_proceed hinv hstep)
  · split at hstep
    · rename_i comparison i count fs hframes
      obtain rfl := Option.some.inj hstep
      exact h.conserves (conserves_compared hframes _)
    · exact nomatch hstep
  · split at hstep
    · rename_i i refs fs hframes
      obtain rfl := Option.some.inj hstep
      refine h.conserves ?_
      unfold FutureMachine.returned
      refine .frames ?_ ?_ _ _ _ le_rfl
      · rw [hframes]
        rfl
      · rfl
    · exact nomatch hstep
  · split at hstep
    · obtain rfl := Option.some.inj hstep
      refine h.conserves (hpush ?_)
      split <;> rfl
    · exact nomatch hstep
  · obtain rfl := Option.some.inj hstep
    exact h.conserves (.frames rfl rfl _ _ _ le_rfl)

/-! ### Every run -/

/-- What every state of a run must satisfy. -/
structure Sound (w : FutureMachine) : Prop where
  /-- the status leaves pending at most once -/
  once : (w.trace.filter Effect.isSetStatus).length = if w.future.status = .pending then 0 else 1
  /-- no two callbacks that were added are the same -/
  distinct : (addedIds w.trace).Nodup
  /-- they are executed in the order of addition, after the transition, not once they are removed, and
  all the others have been executed once the ready callback has run -/
  facts : Facts w.future.status w.trace
  /-- a reference that was taken is dropped once, or still held -/
  references : ∀ r, w.trace.count (.decref r) + w.held.count r = w.trace.count (.incref r) ∧
    w.trace.count (.incref r) ≤ 1
  /-- a future that is released holds no reference -/
  freed : w.future.released = true → w.frames = [] → w.future.callbacks = []
  reserved : w.trace.count .reserveSlot = if w.armed then 1 else 0
  /-- the slot is returned when the future is done or released -/
  slots : w.trace.count .returnSlot +
    (if w.future.status = .pending ∧ w.future.released = false then 1 else 0) =
      w.trace.count .reserveSlot

theorem Inv.sound (h : Inv w) (hk : Kept w) : Sound w where
  once := h.once
  distinct := h.increasing.1.imp Nat.ne_of_lt
  facts := h.facts
  references r := ⟨hk.balance r, hk.once r⟩
  freed hreleased hframes := h.torn ⟨hreleased, hframes⟩
  reserved := h.reserved
  slots := h.slots

/-- A future that is pending and released, or whose queue cannot grow, does not keep the callback. -/
theorem register_lost (id : ℕ) {args : AddArgs} (hp : w.future.status = .pending)
    (hnot : ¬(w.future.released = false ∧
      (args.allocated = true ∨ w.future.callbacksQueue.HasInline))) :
    ∃ outcome, w.register id args = w.emit [.returned outcome] := by
  unfold FutureMachine.register
  rw [if_pos hp]
  by_cases hreleased : w.future.released = true
  · refine ⟨.none, ?_⟩
    rw [addDoneCallback_released (.inr hreleased)]
    dsimp only
    rw [if_pos hreleased]
    rfl
  · have hopen : ¬(w.future.status ≠ .pending ∨ w.future.released = true) := by
      rintro (hne | hr)
      · exact hne hp
      · exact hreleased hr
    rw [not_and, not_or] at hnot
    obtain ⟨halloc, hinline⟩ := hnot (Bool.eq_false_of_not_eq_true hreleased)
    have hnone := (InlineQueue.append_eq_none_iff w.future.callbacksQueue
      ⟨.pythonGeneric ⟨some (.callback id), some (.context id)⟩, false, false, id⟩
      args.allocated).2 ⟨Bool.eq_false_of_not_eq_true halloc, hinline⟩
    refine ⟨.raised .memoryError, ?_⟩
    rw [Future.addDoneCallback, if_neg hopen, hnone]
    rfl

/-- And then the references that were taken for it are lost. -/
theorem clean_of_sound (hk : Kept w) {args : AddArgs} (hsound : Sound (w.addDoneCallback args)) :
    Clean w (.addDoneCallback args) := by
  rintro ⟨hnargs, hcontext, hcallable⟩ hp
  by_contra hnot
  have hlost : ∃ outcome, w.addDoneCallback args =
      (FutureMachine.emit { w with next := w.next + 1 }
        [.incref (.context w.next), .incref (.callback w.next)]).emit [.returned outcome] := by
    unfold FutureMachine.addDoneCallback
    rw [if_neg (not_not.2 hnargs)]
    dsimp only
    rw [if_neg hcontext, hcallable, Bool.not_true, if_neg Bool.false_ne_true]
    exact register_lost w.next hp hnot
  obtain ⟨outcome, heq⟩ := hlost
  obtain ⟨hbalance, -⟩ := hsound.references (.context w.next)
  have hfresh := hk.fresh (.context w.next) le_rfl
  have hzero := hk.balance (.context w.next)
  rw [hfresh] at hzero
  rw [heq, held_emit, held_emit] at hbalance
  have hsame : held { w with next := w.next + 1 } = w.held := rfl
  rw [hsame] at hbalance
  simp [FutureMachine.emit, Effect.handedRefs, List.count_append, hfresh] at hbalance
  omega

/-- **Done callbacks.** In a run of a future its callbacks, its references and its slot are dealt with as
they should be exactly when every callback that is added while the future is pending finds it armed and
not released, with room in its queue. -/
theorem done_callbacks_sound (es : List Event) :
    Runs.Always step Sound .new es ↔ Runs.Along step Clean .new es := by
  refine Runs.always_iff_along_of_break (I := fun w => Inv w ∧ Kept w) ⟨.new, .new⟩
    (fun w h => h.1.sound h.2) (fun u e v h hclean hv => ⟨h.1.step hv, h.2.step h.1 hclean hv⟩)
    (fun u e v h hv hsound => ?_) (fun u e hnone => ?_)
  · cases e with
    | addDoneCallback args =>
      obtain rfl := Option.some.inj hv
      exact clean_of_sound h.2 hsound
    | _ => trivial
  · cases e with
    | addDoneCallback args => exact nomatch hnone
    | _ => trivial

/-- A callback is added to a future that was made without `__init__`: nothing ever drops it. -/
theorem done_callbacks_sound_fails : ¬∀ es, Runs.Always step Sound .new es := by
  intro hall
  have hrun := hall [.addDoneCallback ⟨1, .absent, true, true, true, true⟩]
  have hlost := (hrun.2 _ rfl).references (.context 0)
  exact absurd hlost.1 (by decide)

end FutureMachine

end Talyn
