import Mathlib.Tactic

/-!
# Exceptions in a tick

How `Runner.start` of `loop/runner.zig` routes the exceptions of user code. A tick calls user code in
five phases: the protocol callbacks of the completion batch, the check hooks, the ready callbacks, the
idle hooks and the prepare hooks. Each phase has its own way of dealing with a call that raises, and all
of them report through `call_exception_handler` of `talyn/loop.py`, which is user code as well. A ready
callback of the loop's own can call user code in turn, and deal with what that raises before the phase
does: the callbacks of a future, which include the steps of the tasks that wait for it, a child handler,
the callbacks of a file system watcher, the protocol of a subprocess.

A phase is given by what its calls do. The thread state has the exception that is pending on it and a
record of what was reported; the last three fields of `Thread` are not in the source, they record what
user code raised and what was pending when a phase ended.
-/

namespace Talyn

/-- A Python exception that user code raises. -/
inductive PyException where
  | keyboardInterrupt
  | systemExit
  /-- another instance of `Exception` -/
  | exception (n : ℕ)
  /-- another instance of `BaseException`, such as `CancelledError` -/
  | baseException (n : ℕ)
  /-- what CPython raises when a call returns a result while an exception is set -/
  | systemError
  deriving DecidableEq

/-- `KeyboardInterrupt` and `SystemExit`. -/
def PyException.exits : PyException → Bool
  | .keyboardInterrupt | .systemExit => true
  | _ => false

/-- The exceptions an `except Exception` catches. -/
def PyException.isException : PyException → Bool
  | .exception _ | .systemError => true
  | _ => false

/-- What a thread state has pending. -/
inductive Pending where
  | exception (e : PyException)
  /-- the `BaseExceptionGroup` in which `run_python_future_set_callbacks` puts what the callbacks of a
  future raise -/
  | group (members : List PyException)
  deriving DecidableEq

/-- It matches `KeyboardInterrupt` or `SystemExit`; a group does not. -/
def Pending.exits : Pending → Bool
  | .exception e => e.exits
  | .group _ => false

/-- One run of `call_exception_handler`: what the handlers it calls raise. -/
structure HandlerRun where
  /-- a handler was set with `set_exception_handler` -/
  custom : Bool
  /-- what `handler(loop, context)` raises -/
  first : Option PyException
  /-- it is a `TypeError` about the number of arguments -/
  badSignature : Bool
  /-- what `handler(context)` raises -/
  second : Option PyException
  /-- what `default_exception_handler` raises -/
  fallback : Option PyException

/-- `call_exception_handler`: what it raises. -/
def callExceptionHandler (h : HandlerRun) : Option PyException :=
  if h.custom then
    match h.first with
    | none => none
    | some e =>
      if e.isException then
        if h.badSignature then
          match h.second with
          | none => none
          | some e' => if e'.isException then h.fallback else some e'
        else h.fallback
      else some e
  else h.fallback

/-- The handler raises `KeyboardInterrupt` or `SystemExit`. -/
def HandlerRun.exits (h : HandlerRun) : Bool := (callExceptionHandler h).any PyException.exits

/-- The `exception` entry of the context passed to `call_exception_handler`. -/
inductive Report where
  | exception (e : PyException)
  /-- the name of a Zig error -/
  | errorName (n : ℕ)
  | missing
  deriving DecidableEq

/-- The exceptions in it. -/
def Pending.members : Pending → List PyException
  | .exception e => [e]
  | .group members => members

/-- What its report tells. -/
def Pending.reports (p : Pending) : List Report := p.members.map .exception

/-- The thread state, with the reports made. -/
structure Thread where
  pending : Option Pending
  reported : List Report
  /-- what user code raised, other than exits -/
  raised : List Report
  /-- the exits user code raised -/
  exits : List PyException
  /-- what was pending when a phase ended normally -/
  ends : List (Option Pending)
  deriving DecidableEq

/-- What a ready callback does. -/
inductive CallOutcome where
  | returns
  | raises (e : PyException)
  /-- it returns a Zig error other than `error.PythonError` -/
  | fails (name : ℕ)
  /-- it runs the callbacks of a future, and raises what they raise in one group -/
  | collects (calls : List (Option PyException))
  /-- it calls user code, passes each exception to `call_exception_handler` itself and clears what that raises:
  child handlers, file system watchers, the last calls of a protocol, and the exceptions of a watcher of a
  descriptor that are not exits -/
  | reports (calls : List (Option PyException × HandlerRun))
  /-- it calls user code, and each exception becomes that of a future: `set_future_exception` -/
  | stores (calls : List (Option PyException))

/-- A ready callback, with what the handler does when it is called for it. -/
structure ReadyCall where
  outcome : CallOutcome
  /-- it took `slow_callback_duration` or longer -/
  slow : Bool
  handler : HandlerRun

/-- What user code does in one tick. -/
structure Tick where
  /-- the poll before it was a parked one -/
  parked : Bool
  debug : Bool
  /-- what the protocol callback of a record raises, and the handler run for it -/
  batch : List (Option PyException × HandlerRun)
  checkHooks : List (Option PyException)
  ready : List ReadyCall
  idleHooks : List (Option PyException)
  prepareHooks : List (Option PyException)

namespace Thread

/-- The thread state when `run_forever` starts. -/
def init : Thread := ⟨none, [], [], [], []⟩

/-- Record what user code raised. -/
def note (t : Thread) (e : PyException) : Thread :=
  if e.exits then { t with exits := t.exits ++ [e] }
  else { t with raised := t.raised ++ [.exception e] }

/-- Call user code, which raises an exception or returns: whether the call gave a result. A result
that is returned while an exception is set is turned into `SystemError`. -/
def call (t : Thread) : Option PyException → Bool × Thread
  | some e => (false, { t.note e with pending := some (.exception e) })
  | none =>
    match t.pending with
    | none => (true, t)
    | some _ => (false, { t with pending := some (.exception .systemError) })

/-- The end of all three handlers: call `call_exception_handler`; an exit it raises is an error, other
exceptions are cleared. -/
def callHandler (t : Thread) (h : HandlerRun) : Bool × Thread :=
  match callExceptionHandler h with
  | none => (true, t)
  | some e =>
    if e.exits then (false, { t with pending := some (.exception e), exits := t.exits ++ [e] })
    else (true, { t with pending := none })

/-- `dispatch_protocol_callback_exception`. -/
def dispatchProtocolCallbackException (t : Thread) (h : HandlerRun) : Bool × Thread :=
  match t.pending with
  | some p =>
    if p.exits then (false, t)
    else callHandler { t with pending := none, reported := t.reported ++ p.reports } h
  | none => callHandler { t with reported := t.reported ++ [.missing] } h

/-- `exception_handler`; `name` is that of the Zig error. -/
def exceptionHandler (t : Thread) (name : ℕ) (h : HandlerRun) : Bool × Thread :=
  match t.pending with
  | some p => callHandler { t with pending := none, reported := t.reported ++ p.reports } h
  | none => callHandler { t with reported := t.reported ++ [.errorName name] } h

/-- `slow_callback_warning_handler`: it has no way to return an error, and an exit stays pending. -/
def slowCallbackWarningHandler (t : Thread) (h : HandlerRun) : Thread := (t.callHandler h).2

/-- One turn of the loop of `dispatch_completion_batch`. -/
def dispatchRecord (t : Thread) (record : Option PyException × HandlerRun) : Bool × Thread :=
  match t.call record.1 with
  | (true, t) => (true, t)
  | (false, t) => t.dispatchProtocolCallbackException record.2

/-- `error.PythonError`, as a name of an error. -/
def pythonError : ℕ := 0

/-- One callback of a future: its exception is taken off the thread state and put behind the others. -/
def collect (r : Thread × List PyException) (raises : Option PyException) : Thread × List PyException :=
  match r.1.call raises with
  | (true, t) => (t, r.2)
  | (false, t) => ({ t with pending := none }, r.2 ++ t.pending.elim [] Pending.members)

/-- User code is called by a ready callback that reports what it raises. -/
def reportCall (t : Thread) (c : Option PyException × HandlerRun) : Thread :=
  match t.call c.1 with
  | (true, t) => t
  | (false, t) => { (t.exceptionHandler pythonError c.2).2 with pending := none }

/-- User code is called by a ready callback that stores what it raises: that is none of the tick's, unless it is
an exit. -/
def store (t : Thread) (raises : Option PyException) : Thread :=
  match raises with
  | some e => { (if e.exits then t.note e else t) with pending := none }
  | none => { t with pending := none }

/-- A ready callback returns. -/
def callbackReturns (debug : Bool) (c : ReadyCall) (t : Thread) : Bool × Thread :=
  if debug && c.slow then (true, t.slowCallbackWarningHandler c.handler) else (true, t)

/-- A ready callback returns `error.PythonError`. -/
def callbackRaises (c : ReadyCall) (t : Thread) : Bool × Thread :=
  if t.pending.any Pending.exits then (false, t) else t.exceptionHandler pythonError c.handler

/-- One turn of the loop of `execute_dynamic_ring_buffer`. -/
def executeCallback (debug : Bool) (t : Thread) (c : ReadyCall) : Bool × Thread :=
  match c.outcome with
  | .returns =>
    match t.call none with
    | (true, t) => callbackReturns debug c t
    | (false, t) => callbackRaises c t
  | .raises e => callbackRaises c (t.call (some e)).2
  | .fails name =>
    Thread.exceptionHandler { t with raised := t.raised ++ [.errorName name] } name c.handler
  | .collects calls =>
    match calls.foldl collect (t, []) with
    | (t, []) => callbackReturns debug c t
    | (t, members) => callbackRaises c { t with pending := some (.group members) }
  | .reports calls => callbackReturns debug c (calls.foldl reportCall t)
  | .stores calls => callbackReturns debug c (calls.foldl store t)

/-- A loop that ends with the first error. -/
def forEach {α : Type*} (f : Thread → α → Bool × Thread) : Thread → List α → Bool × Thread
  | t, [] => (true, t)
  | t, a :: as =>
    match f t a with
    | (true, t) => forEach f t as
    | (false, t) => (false, t)

/-- `execute_hooks`: `catch continue`. -/
def executeHooks (t : Thread) (hooks : List (Option PyException)) : Thread :=
  hooks.foldl (fun t raises => (t.call raises).2) t

/-- A phase ends normally. -/
def endPhase (t : Thread) : Thread := { t with ends := t.ends ++ [t.pending] }

/-- The phases after the check hooks. -/
def readyPhase (t : Thread) (k : Tick) : Bool × Thread :=
  match t.forEach (executeCallback k.debug) k.ready with
  | (false, t) => (false, t)
  | (true, t) =>
    (true, ((t.endPhase.executeHooks k.idleHooks).endPhase.executeHooks k.prepareHooks).endPhase)

/-- One turn of the `while` of `start`. -/
def tick (t : Thread) (k : Tick) : Bool × Thread :=
  -- a parked poll ends with an error when an exception is pending
  if k.parked && t.pending.isSome then (false, t)
  else
    match t.forEach dispatchRecord k.batch with
    | (false, t) => (false, t)
    | (true, t) => (t.endPhase.executeHooks k.checkHooks).endPhase.readyPhase k

/-- The ticks of `start`; an error ends `run_forever` with the exception that is pending. -/
def start (t : Thread) (ks : List Tick) : Bool × Thread := t.forEach tick ks

end Thread

end Talyn
