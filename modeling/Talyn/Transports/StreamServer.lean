import Talyn.Lib.Runs

/-!
# Listening sockets

`transports/streamserver/main.zig`. A server waits until its descriptor is readable;
`accept_callback` accepts one connection, makes its transport and arms the next wait in a deferred block.
When the process is out of descriptors, or the wait cannot be armed, `schedule_accept_retry` starts a
timer instead, and `accept_retry_callback` arms the wait.

A wait and a timer are known by their task, a number that is not used again, and so is an accepted
connection. The callbacks of both own a reference to the server. User code runs inside `accept_callback`
only: the loop does not run callbacks or look for completions meanwhile, but the server can be closed.
-/

namespace Talyn

namespace StreamServer

/-- What `io.queue` does with an operation: when it fails, the operation can still be in the ring
(`left`). -/
inductive Queue
  | queued
  | failed (left : Bool)
  deriving DecidableEq, Repr

/-- A wait in flight. -/
structure Wait where
  task : ℕ
  /-- a `CancelIO` was submitted for it -/
  cancelRequested : Bool
  deriving DecidableEq, Repr

/-- How a wait ends. -/
inductive Completion
  | success
  | canceled
  | error
  deriving DecidableEq, Repr

/-- A callback in the ready queue. -/
inductive Ready
  | accept (task : ℕ) (result : Completion)
  | retry (task : ℕ)
  deriving DecidableEq, Repr

/-- The task of a ready callback. -/
def Ready.task : Ready → ℕ
  | .accept task _ | .retry task => task

/-- What `accept4` returns. -/
inductive Accept4
  | connection
  | errno (e : ℕ)
  deriving DecidableEq, Repr

/-- Where `accept_callback` is: in `protocol_factory`, in the weak reference and `_attach`, in
`connection_made`, or on its way out, before the deferred block. There the descriptor is closed first when
it has no transport (`ownsFd`), and the references that are dropped can run user code (`python`). -/
inductive Stage
  | protocolFactory
  | attach
  | connectionMade
  | leaving (ownsFd python : Bool)
  deriving DecidableEq, Repr

/-- User code can run. -/
def Stage.python : Stage → Bool
  | .leaving _ python => python
  | _ => true

/-- No transport owns the descriptor yet. -/
def Stage.ownsFd : Stage → Bool
  | .protocolFactory => true
  | .leaving ownsFd _ => ownsFd
  | _ => false

/-- A call of `accept_callback`. -/
structure Frame where
  task : ℕ
  shouldReenqueue : Bool
  connection : ℕ
  stage : Stage
  deriving DecidableEq, Repr

/-- What happens to a server. -/
inductive Effect
  /-- a wait is queued -/
  | wait (task : ℕ)
  /-- `closed` is set -/
  | close
  /-- the reference that the callback of a task owns -/
  | incref (task : ℕ)
  | decref (task : ℕ)
  | accepted (connection : ℕ)
  | closeFd (connection : ℕ)
  /-- a transport owns the descriptor -/
  | transport (connection : ℕ)
  | forceClose (connection : ℕ)
  deriving DecidableEq, Repr

end StreamServer

/-- `StreamServerObject`, with the operations that were queued for it. -/
structure StreamServer where
  /-- `loop` is not null -/
  loop : Bool
  /-- `protocol_factory` is not null -/
  protocolFactory : Bool
  serverFd : ℤ
  blockingTaskId : ℕ
  closed : Bool
  acceptPaused : Bool
  waits : List StreamServer.Wait
  timers : List ℕ
  ready : List StreamServer.Ready
  frame : Option StreamServer.Frame
  /-- the next task -/
  next : ℕ
  /-- the number of accepted connections -/
  connections : ℕ
  trace : List StreamServer.Effect
  deriving DecidableEq, Repr

namespace StreamServer

/-- `z_streamserver_init`. -/
def init (fd : ℕ) : StreamServer where
  loop := true
  protocolFactory := true
  serverFd := fd
  blockingTaskId := 0
  closed := false
  acceptPaused := false
  waits := []
  timers := []
  ready := []
  frame := none
  next := 1
  connections := 0
  trace := []

/-- Record effects. -/
def emit (s : StreamServer) (es : List Effect) : StreamServer := { s with trace := s.trace ++ es }

/-- A wait is put in the ring. -/
def wait (s : StreamServer) : StreamServer :=
  { s with
    waits := s.waits ++ [⟨s.next, false⟩]
    next := s.next + 1
    trace := s.trace ++ [.wait s.next] }

/-- `enqueue_accept`, and whether it succeeds. -/
def enqueueAccept (s : StreamServer) : Queue → Bool × StreamServer
  | .queued => (true, { s.wait with blockingTaskId := s.next }.emit [.incref s.next])
  | .failed left => (false, if left then s.wait else s)

/-- `schedule_accept_retry`. -/
def scheduleAcceptRetry (s : StreamServer) : Queue → StreamServer
  | .queued => { s with timers := s.timers ++ [s.next], next := s.next + 1 }.emit [.incref s.next]
  | .failed left => { s with
      timers := if left then s.timers ++ [s.next] else s.timers
      next := s.next + 1 }.emit [.incref s.next, .decref s.next]

/-- `enqueue_accept(server) catch schedule_accept_retry(server)`. -/
def rearm (s : StreamServer) (enqueue timer : Queue) : StreamServer :=
  match s.enqueueAccept enqueue with
  | (true, s) => s
  | (false, s) => s.scheduleAcceptRetry timer

/-- `start_serving`, and whether it succeeds. -/
def startServing (s : StreamServer) (enqueue : Queue) : Bool × StreamServer :=
  let s := { s with acceptPaused := false }
  if s.loop ∧ !s.closed ∧ 0 ≤ s.serverFd then s.enqueueAccept enqueue else (true, s)

/-- `EINTR`, `EAGAIN`, `ENFILE` and `EMFILE`. -/
def eintr : ℕ := 4
def eagain : ℕ := 11
def enfile : ℕ := 23
def emfile : ℕ := 24

/-- `accept_callback`, up to the call of `protocol_factory` or up to the deferred block. -/
def acceptCallback (s : StreamServer) (task : ℕ) (result : Completion) (accept4 : Accept4)
    (timer : Queue) : StreamServer :=
  let s := { s with blockingTaskId := 0 }
  if result = .canceled ∨ s.closed then s.emit [.decref task]
  else
    let frame : Frame := ⟨task, !s.closed && s.loop, s.connections, .leaving false false⟩
    if result ≠ .success then { s with frame := some frame }
    else
      match accept4 with
      | .errno e =>
        if e = eagain ∨ e = eintr then { s with frame := some frame }
        else if e = emfile ∨ e = enfile then
          { s with
            acceptPaused := true
            frame := some { frame with shouldReenqueue := false } }.scheduleAcceptRetry timer
        else { s with frame := some frame }
      | .connection =>
        let stage := if s.protocolFactory then .protocolFactory else .leaving true false
        { s with
          connections := s.connections + 1
          frame := some { frame with stage := stage } }.emit [.accepted s.connections]

/-- `accept_callback` goes on after the user code of a stage returned; `made` is false when
`new_stream_transport` fails. -/
def returned (s : StreamServer) (frame : Frame) (made : Bool) : Option StreamServer :=
  match frame.stage with
  | .protocolFactory =>
    if made then
      some ({ s with frame := some { frame with stage := .attach } }.emit
        [.transport frame.connection])
    else some { s with frame := some { frame with stage := .leaving true true } }
  | .attach => some { s with frame := some { frame with stage := .connectionMade } }
  | .connectionMade => some { s with frame := some { frame with stage := .leaving false true } }
  | .leaving _ _ => none

/-- The user code of a stage raises. -/
def raised (s : StreamServer) (frame : Frame) : Option StreamServer :=
  match frame.stage with
  | .protocolFactory => some { s with frame := some { frame with stage := .leaving true false } }
  | .attach | .connectionMade =>
    some ({ s with frame := some { frame with stage := .leaving false true } }.emit
      [.forceClose frame.connection])
  | .leaving _ _ => none

/-- The frame is gone, and the descriptor is closed if it has no transport. -/
def dropFrame (s : StreamServer) (frame : Frame) : StreamServer :=
  let s := { s with frame := none }
  if frame.stage.ownsFd then s.emit [.closeFd frame.connection] else s

/-- The rest of `accept_callback`: the deferred block, and the reference is dropped. -/
def leave (s : StreamServer) (frame : Frame) (enqueue timer : Queue) : StreamServer :=
  let s := s.dropFrame frame
  let s := if frame.shouldReenqueue && !s.acceptPaused then s.rearm enqueue timer else s
  s.emit [.decref frame.task]

/-- `accept_retry_callback`. Nobody cancels the timer. -/
def acceptRetryCallback (s : StreamServer) (task : ℕ) (enqueue timer : Queue) : StreamServer :=
  if s.closed ∨ !s.loop then s.emit [.decref task]
  else ({ s with acceptPaused := false }.rearm enqueue timer).emit [.decref task]

/-- A `CancelIO` is submitted for a wait. -/
def cancelIo (s : StreamServer) (task : ℕ) : StreamServer :=
  { s with waits :=
      s.waits.map fun w => if w.task = task then { w with cancelRequested := true } else w }

/-- The descriptor is closed. -/
def closeFd (s : StreamServer) : StreamServer :=
  if 0 ≤ s.serverFd then { s with serverFd := -1 } else s

/-- `z_close_server`. -/
def closeServer (s : StreamServer) (cancel : Queue) : StreamServer :=
  if s.closed then s
  else
    let s := { s with closed := true }.emit [.close]
    if s.blockingTaskId > 0 then
      match cancel with
      | .queued => { s.cancelIo s.blockingTaskId with blockingTaskId := 0 }.closeFd
      | .failed left => if left then s.cancelIo s.blockingTaskId else s
    else s.closeFd

/-- `StreamServerObject.deinit`. -/
def deinit (s : StreamServer) : StreamServer :=
  let s := if s.closed then s else { s with closed := true }.emit [.close]
  { s with loop := false, protocolFactory := false }.closeFd

/-- What can happen. -/
inductive Event
  /-- a wait completes -/
  | complete (w : Wait) (result : Completion)
  /-- a timer expires -/
  | expire (task : ℕ)
  /-- the next ready callback is `accept_callback` -/
  | accept (accept4 : Accept4) (timer : Queue)
  /-- the next ready callback is `accept_retry_callback` -/
  | retry (enqueue timer : Queue)
  | returned (made : Bool)
  | raised
  | leave (enqueue timer : Queue)
  | close (cancel : Queue)
  /-- the garbage collector clears or frees the server -/
  | deinit
  deriving DecidableEq, Repr

/-- One event; `none` when it cannot happen. A wait ends with `ECANCELED` only when that was asked for, and
a server to which a callback still refers is not garbage. -/
def step (s : StreamServer) : Event → Option StreamServer
  | .complete w result =>
    if s.frame = none ∧ w ∈ s.waits ∧ (result = .canceled → w.cancelRequested = true) then
      some { s with waits := s.waits.erase w, ready := s.ready ++ [.accept w.task result] }
    else none
  | .expire task =>
    if s.frame = none ∧ task ∈ s.timers then
      some { s with timers := s.timers.erase task, ready := s.ready ++ [.retry task] }
    else none
  | .accept accept4 timer =>
    match s.frame, s.ready with
    | none, .accept task result :: ready =>
      some ({ s with ready := ready }.acceptCallback task result accept4 timer)
    | _, _ => none
  | .retry enqueue timer =>
    match s.frame, s.ready with
    | none, .retry task :: ready =>
      some ({ s with ready := ready }.acceptRetryCallback task enqueue timer)
    | _, _ => none
  | .returned made =>
    match s.frame with
    | some frame => s.returned frame made
    | none => none
  | .raised =>
    match s.frame with
    | some frame => s.raised frame
    | none => none
  | .leave enqueue timer =>
    match s.frame with
    | some ⟨task, shouldReenqueue, connection, .leaving ownsFd python⟩ =>
      some (s.leave ⟨task, shouldReenqueue, connection, .leaving ownsFd python⟩ enqueue timer)
    | _ => none
  | .close cancel =>
    if ∀ frame ∈ s.frame, frame.stage.python = true then some (s.closeServer cancel) else none
  | .deinit =>
    if s.waits = [] ∧ s.timers = [] ∧ s.ready = [] ∧ s.frame = none then some s.deinit else none

/-- The server after `start_serving` succeeded. -/
def serving (fd : ℕ) : StreamServer := ((init fd).startServing .queued).2

/-! ### What holds of a server -/

/-- The callbacks that are to run or are running, by their task. -/
def carriers (s : StreamServer) : List ℕ :=
  s.waits.map Wait.task ++ s.timers ++ s.ready.map Ready.task ++ s.frame.toList.map Frame.task

/-- The number of ways in which the server comes to accept again: a wait, a timer, a callback of one of them
in the ready queue, or an `accept_callback` that is going to arm a wait. -/
def arms (s : StreamServer) : ℕ :=
  s.waits.length + s.timers.length + s.ready.length +
    (s.frame.toList.filter (·.shouldReenqueue)).length

/-- An open server is armed once. -/
def ArmedOnce (s : StreamServer) : Prop := s.closed = false → s.arms = 1

/-- No wait is queued after `close`. -/
def NoneAfterClose (s : StreamServer) : Prop :=
  s.trace.Pairwise fun e f => e = .close → ∀ task, f ≠ .wait task

/-- Every reference that was taken was dropped once, unless its callback is still to run. -/
def Balanced (s : StreamServer) : Prop :=
  ∀ task, s.trace.count (.decref task) + s.carriers.count task = s.trace.count (.incref task) ∧
    s.trace.count (.incref task) ≤ 1

/-- `accept_callback` has to close the descriptor of a connection. -/
def pendingFd (s : StreamServer) (connection : ℕ) : ℕ :=
  (s.frame.toList.filter fun f => f.stage.ownsFd && f.connection == connection).length

/-- Every descriptor that was accepted was either closed once or is owned by one transport, unless
`accept_callback` still has it. -/
def Disposed (s : StreamServer) : Prop :=
  ∀ c, s.trace.count (.closeFd c) + s.trace.count (.transport c) + s.pendingFd c =
      s.trace.count (.accepted c) ∧
    s.trace.count (.accepted c) ≤ 1

/-- The event calls `enqueue_accept`. -/
def rearms (s : StreamServer) : Event → Bool
  | .retry _ _ =>
    match s.frame, s.ready with
    | none, .retry _ :: _ => !s.closed && s.loop
    | _, _ => false
  | .leave _ _ =>
    match s.frame with
    | some ⟨_, shouldReenqueue, _, .leaving _ _⟩ => shouldReenqueue && !s.acceptPaused
    | _ => false
  | _ => false

/-- The event pauses the server. -/
def pauses (s : StreamServer) : Event → Bool
  | .accept (.errno e) _ =>
    match s.frame, s.ready with
    | none, .accept _ .success :: _ => !s.closed && (e == emfile || e == enfile)
    | _, _ => false
  | _ => false

/-- What `io.queue` does with the wait of an event, and with its timer. -/
def Event.enqueue : Event → Queue
  | .retry enqueue _ | .leave enqueue _ => enqueue
  | _ => .queued
def Event.timer : Event → Queue
  | .accept _ timer | .retry _ timer | .leave _ timer => timer
  | _ => .queued

/-- The timers are queued. -/
def QueuesTimer (_ : StreamServer) (e : Event) : Prop := e.timer = .queued

/-- No wait of an open server fails to be queued and is left in the ring. -/
def LeavesNoWait (s : StreamServer) (e : Event) : Prop :=
  s.rearms e = true → s.closed = false → e.enqueue ≠ .failed true

/-- A server that was closed is armed only if that fails. -/
def StaysClosed (s : StreamServer) (e : Event) : Prop :=
  s.rearms e = true → s.closed = true → e.enqueue = .failed false

/-- Nothing that fails to be queued is left in the ring. -/
def LeavesNothing (s : StreamServer) (e : Event) : Prop :=
  (s.rearms e = true → e.enqueue ≠ .failed true ∧
      (e.enqueue = .failed false → e.timer ≠ .failed true)) ∧
    (s.pauses e = true → e.timer ≠ .failed true)

end StreamServer

end Talyn
