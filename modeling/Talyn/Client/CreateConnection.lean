import Talyn.Lib.Runs

/-!
# A connection attempt

`create_connection` resolves a host, opens one socket for each address and races the connects. An
`Attempt` is the memory of one such call: the future of the caller, the `MultiConnectState` shared
by the callbacks (`none` before it is created and after it was destroyed), the connects in flight,
and whether the happy-eyeballs timer is queued. What was done so far is kept as well: the sockets
closed and handed to a transport, the cells freed, the cancels submitted, and how often this code
resolved the future.

Sockets are numbered in the order they are opened. Of the addresses only the number matters here:
they are used in order, one connect each. `io.queue` may fail in its flush and leave the connect or the
timer in the ring; the attempt takes it for one that was not queued. The done callbacks of a future are scheduled, so no callback
of the user runs inside a function of the attempt but the protocol factory and `connection_made`.
-/

namespace Talyn.Connect

/-- `FutureStatus`. -/
inductive FutureStatus
  | pending
  | finished
  | canceled
  deriving DecidableEq, Repr

/-- What an attempt allocates. -/
inductive Cell
  | socketCreationData
  | socketConnectionData
  | multiConnectState
  deriving DecidableEq, Repr

/-- The callback of the attempt in the ready queue (or with the resolver) before the connects. -/
inductive Stage
  | tryResolvHost
  | hostResolved
  | createSocketConnection
  /-- all of these ran -/
  | connecting
  deriving DecidableEq, Repr

/-- `MultiConnectState`. -/
structure MultiConnectState where
  pending : ℕ
  succeeded : Bool
  timerScheduled : Bool
  timerFired : Bool
  happyTimerId : Option ℕ
  aborted : Bool
  taskIds : List ℕ
  allErrors : Bool
  deriving DecidableEq, Repr

/-- `MultiConnectState.init`, when its allocations succeed. -/
def MultiConnectState.init (allErrors : Bool) : MultiConnectState where
  pending := 0
  succeeded := false
  timerScheduled := false
  timerFired := false
  happyTimerId := none
  aborted := false
  taskIds := []
  allErrors := allErrors

/-- The connect callbacks leave the teardown to the timer callback while this holds. -/
def MultiConnectState.timerLive (m : MultiConnectState) : Bool := m.timerScheduled && !m.timerFired

/-- `SocketData`. -/
structure SocketData where
  socketFd : ℕ
  taskId : ℕ
  deriving DecidableEq, Repr

/-- The memory of a call of `create_connection`. -/
structure Attempt where
  stage : Stage
  /-- the length of `address_list` -/
  addresses : ℕ
  future : FutureStatus
  socketCreationData : Bool
  socketConnectionData : Bool
  mcs : Option MultiConnectState
  /-- the connects whose callback has not run -/
  connects : List SocketData
  /-- the connects that a failing flush left in the ring; their `SocketData` were destroyed -/
  left : ℕ
  /-- the timer callback has not run -/
  timer : Bool
  /-- the number of sockets opened -/
  opened : ℕ
  closed : List ℕ
  /-- the sockets of the transports created -/
  handed : List ℕ
  cancels : List ℕ
  allocated : List Cell
  freed : List Cell
  /-- how often this code resolved the future -/
  resolved : ℕ
  useAfterFree : Bool
  deriving DecidableEq, Repr

namespace Attempt

/-- `z_loop_create_connection` dispatched `try_resolv_host`. -/
def init : Attempt where
  stage := .tryResolvHost
  addresses := 0
  future := .pending
  socketCreationData := true
  socketConnectionData := false
  mcs := none
  connects := []
  left := 0
  timer := false
  opened := 0
  closed := []
  handed := []
  cancels := []
  allocated := [.socketCreationData]
  freed := []
  resolved := 0
  useAfterFree := false

/-- A destroyed cell is used. -/
def fault (a : Attempt) : Attempt := { a with useAfterFree := true }

/-- `future_fast_set_result` and `set_future_exception`: only a pending future is resolved. -/
def resolve (a : Attempt) : Attempt :=
  if a.future = .pending then { a with future := .finished, resolved := a.resolved + 1 } else a

/-- The user cancels the future. -/
def cancelFuture (a : Attempt) : Attempt :=
  if a.future = .pending then { a with future := .canceled } else a

/-- Close a socket. -/
def close (a : Attempt) (fd : ℕ) : Attempt := { a with closed := a.closed ++ [fd] }

/-! ### Memory -/

/-- `SocketCreationData.deinit`. -/
def creationDeinit (a : Attempt) : Attempt :=
  if a.socketCreationData then
    { a with socketCreationData := false, freed := a.freed ++ [.socketCreationData] }
  else a.fault

/-- `SocketConnectionData.deinit`. -/
def connectionDeinit (a : Attempt) : Attempt :=
  let a := a.creationDeinit
  if a.socketConnectionData then
    { a with socketConnectionData := false, freed := a.freed ++ [.socketConnectionData] }
  else a.fault

/-- `MultiConnectState.deinit`. -/
def deinit (a : Attempt) : Attempt :=
  match a.mcs with
  | none => a.fault
  | some m =>
    let a := { a with cancels := a.cancels ++ m.taskIds ++ m.happyTimerId.toList }.connectionDeinit
    { a with mcs := none, freed := a.freed ++ [.multiConnectState] }

/-- The connects in flight are cancelled; their callbacks only close their sockets. -/
def abort (a : Attempt) (m : MultiConnectState) : Attempt :=
  { a with mcs := some { m with aborted := true }, cancels := a.cancels ++ m.taskIds }

/-! ### Submitting connects -/

/-- What `submit_connect_for_address` meets. -/
inductive Submit
  /-- `socket_data`, the slot in `task_ids` or the socket could not be had -/
  | noSocket
  /-- the socket is open, and the connect could not be queued -/
  | notQueued
  /-- the flush after the connect was queued failed -/
  | left
  | queued (taskId : ℕ)
  deriving DecidableEq, Repr

/-- `submit_connect_for_address`; `none` when it returns an error. -/
def submitConnectForAddress (a : Attempt) (m : MultiConnectState) :
    Submit → Attempt × Option MultiConnectState
  | .noSocket => (a, none)
  | .notQueued => ({ a with opened := a.opened + 1, closed := a.closed ++ [a.opened] }, none)
  | .left =>
    ({ a with opened := a.opened + 1, closed := a.closed ++ [a.opened], left := a.left + 1 }, none)
  | .queued taskId =>
    let m := { m with taskIds := m.taskIds ++ [taskId], pending := m.pending + 1 }
    ({ a with
        opened := a.opened + 1
        connects := a.connects ++ [⟨a.opened, taskId⟩]
        mcs := some m }, some m)

/-- The loops over the remaining addresses. The flag is `false` when a submit failed; the loop then
stops, and the state is the one before that submit. -/
def submitAll (a : Attempt) (m : MultiConnectState) : List Submit → Attempt × MultiConnectState × Bool
  | [] => (a, m, true)
  | submit :: submits =>
    match a.submitConnectForAddress m submit with
    | (a, none) => (a, m, false)
    | (a, some m) => a.submitAll m submits

/-! ### The callbacks -/

/-- What `try_resolv_host` meets. -/
inductive Lookup
  /-- the host is not a string, or the connection data could not be allocated -/
  | refused
  /-- the lookup, the copy of the addresses or the dispatch failed -/
  | failed
  /-- the resolver kept the callback -/
  | queued
  | resolved (addresses : ℕ)
  deriving DecidableEq, Repr

/-- `try_resolv_host`. -/
def tryResolvHost (a : Attempt) (cancelled : Bool) (lookup : Lookup) : Attempt :=
  let a := { a with stage := .connecting }
  if cancelled then a.creationDeinit.resolve
  else
    let allocated := { a with
      socketConnectionData := true, allocated := a.allocated ++ [Cell.socketConnectionData] }
    match lookup with
    | .refused => a.creationDeinit.resolve
    | .failed =>
      { allocated with
        socketConnectionData := false
        freed := allocated.freed ++ [Cell.socketConnectionData] }.creationDeinit.resolve
    | .queued => { allocated with stage := .hostResolved }
    | .resolved addresses =>
      { allocated with addresses := addresses, stage := .createSocketConnection }

/-- `host_resolved_callback`; `none` when the addresses could not be read, copied or dispatched. -/
def hostResolvedCallback (a : Attempt) (cancelled : Bool) (addresses : Option ℕ) : Attempt :=
  let a := { a with stage := .connecting }
  if cancelled then a.connectionDeinit.resolve
  else
    match addresses with
    | none => a.connectionDeinit.resolve
    | some addresses => { a with addresses := addresses, stage := .createSocketConnection }

/-- `happy_eyeballs_delay`: not given, not a number, or a number, which is positive or not. -/
inductive Delay
  | absent
  | invalid
  | value (positive : Bool)
  deriving DecidableEq, Repr

/-- The options `z_create_socket_connection` converts; `none` when the conversion raises. -/
structure Options where
  interleave : Option ℕ
  allErrors : Option Bool
  happyEyeballsDelay : Delay
  port : Option ℤ

/-- What queuing the happy-eyeballs timer meets. -/
inductive Timer
  | notQueued
  /-- the flush after the timer was queued failed -/
  | left
  | queued (timerId : ℕ)
  deriving DecidableEq, Repr

/-- What `z_create_socket_connection` meets: the allocations of the two calls of
`interleave_address_list`, of the `MultiConnectState` and of its list of exceptions, the submits,
and the timer. -/
structure CreateEnv where
  interleave : Bool
  interleaveDelayed : Bool
  state : Bool
  exceptions : Bool
  submits : ℕ → Submit
  timer : Timer

/-- The `errdefer` of `z_create_socket_connection` once the `MultiConnectState` exists. -/
def failCreate (a : Attempt) (m : MultiConnectState) : Attempt :=
  if m.pending = 0 then a.deinit else a.abort m

/-- The submits for all addresses but the first. -/
def remaining (a : Attempt) (submits : ℕ → Submit) : List Submit :=
  (List.range (a.addresses - 1)).map fun i => submits (i + 1)

/-- `z_create_socket_connection` after the options that come before the `MultiConnectState`. The
flag is `false` when an error is returned. -/
def startConnects (a : Attempt) (interleave : ℕ) (allErrors : Bool) (options : Options)
    (env : CreateEnv) : Attempt × Bool :=
  let m := MultiConnectState.init allErrors
  let a := { a with mcs := some m }
  if options.happyEyeballsDelay ≠ .absent ∧ interleave = 0 ∧ env.interleaveDelayed = false then
    (a.failCreate m, false)
  else if options.happyEyeballsDelay = .invalid then (a.failCreate m, false)
  else if a.addresses = 0 then (a.resolve.deinit, true)
  else
    match options.port with
    | none => (a.failCreate m, false)
    | some port =>
      if port < 0 ∨ port > 65535 then (a.failCreate m, false)
      else
        match a.submitConnectForAddress m (env.submits 0) with
        | (a, none) => (a.failCreate m, false)
        | (a, some m) =>
          if 1 < a.addresses ∧ options.happyEyeballsDelay ≠ .value false then
            match env.timer with
            | .notQueued => (a.failCreate m, false)
            | .left => ({ a with timer := true }.failCreate m, false)
            | .queued timerId =>
              ({ a with
                  mcs := some { m with happyTimerId := some timerId, timerScheduled := true }
                  timer := true }, true)
          else
            match a.submitAll m (a.remaining env.submits) with
            | (a, m, false) => (a.failCreate m, false)
            | (a, _, true) => (a, true)

/-- `z_create_socket_connection`. -/
def zCreateSocketConnection (a : Attempt) (options : Options) (env : CreateEnv) : Attempt × Bool :=
  match options.interleave with
  | none => (a, false)
  | some interleave =>
    if interleave > 0 ∧ env.interleave = false then (a, false)
    else
      match options.allErrors with
      | none => (a, false)
      | some allErrors =>
        if env.state = false then (a.connectionDeinit, false)
        else
          let a := { a with allocated := a.allocated ++ [Cell.multiConnectState] }
          if allErrors ∧ env.exceptions = false then (a.connectionDeinit, false)
          else a.startConnects interleave allErrors options env

/-- `create_socket_connection`. -/
def createSocketConnection (a : Attempt) (cancelled : Bool) (options : Options) (env : CreateEnv) :
    Attempt :=
  let a := { a with stage := .connecting }
  if cancelled then a.connectionDeinit.resolve
  else
    match a.zCreateSocketConnection options env with
    | (a, true) => a
    | (a, false) => a.resolve

/-- `schedule_remaining_connects_callback`. -/
def scheduleRemainingConnects (a : Attempt) (cancelled : Bool) (submits : ℕ → Submit) : Attempt :=
  let a := { a with timer := false }
  match a.mcs with
  | none => a.fault
  | some m =>
    let m := { m with happyTimerId := none }
    let a := { a with mcs := some m }
    if cancelled || m.succeeded then
      if m.pending = 0 then a.deinit else a
    else
      let m := { m with timerFired := true, timerScheduled := false }
      match { a with mcs := some m }.submitAll m (a.remaining submits) with
      | (a, _, true) => a
      | (a, m, false) =>
        let a := a.resolve.abort m
        if m.pending = 0 then a.deinit else a

/-- `removeTaskId`: the last id takes the place of the one removed. -/
def removeTaskId (taskIds : List ℕ) (taskId : ℕ) : List ℕ :=
  match taskIds.idxOf? taskId with
  | none => taskIds
  | some index =>
    match taskIds.getLast? with
    | none => taskIds
    | some last => (taskIds.set index last).dropLast

/-- How far `z_create_transport_and_set_future_result` gets. -/
inductive Creation
  /-- the factory raised, or the transport could not be constructed -/
  | failed
  /-- the transport owns the socket, and `connection_made` raised -/
  | refused
  | made
  deriving DecidableEq, Repr

/-- What `socket_connected_callback` meets: the `OSError` kept with `all_errors`, the
`ExceptionGroup`, the creation of the transport, and whether the protocol cancels the future. -/
structure ConnectedEnv where
  bookkeeping : Bool
  exceptionGroup : Bool
  creation : Creation
  cancels : Bool
  deriving DecidableEq, Repr

/-- The teardown by a connect callback. -/
def deinitIfLast (a : Attempt) (m : MultiConnectState) : Attempt :=
  if m.timerLive = false ∧ m.pending = 0 then a.deinit else a

/-- The failure branch of `socket_connected_callback`, before its deferred teardown. -/
def connectFailed (a : Attempt) (m : MultiConnectState) (env : ConnectedEnv) : Attempt :=
  if m.allErrors ∧ env.bookkeeping = false then a
  else if m.pending = 0 then
    if m.timerLive then a
    else if m.allErrors ∧ env.exceptionGroup = false then a
    else a.resolve
  else a

/-- `z_create_transport_and_set_future_result` and the end of the success branch, for a socket. -/
def createTransport (a : Attempt) (m : MultiConnectState) (fd : ℕ) (env : ConnectedEnv) : Attempt :=
  let a := if env.cancels then a.cancelFuture else a
  match env.creation with
  | .failed => ((a.deinitIfLast m).resolve).close fd
  | .refused => ({ a with handed := a.handed ++ [fd] }.deinitIfLast m).resolve
  | .made => { a with handed := a.handed ++ [fd] }.resolve.deinitIfLast m

/-- `socket_connected_callback` once the connect was taken out of the state. -/
def connectCompleted (a : Attempt) (m : MultiConnectState) (fd : ℕ) (cancelled success : Bool)
    (env : ConnectedEnv) : Attempt :=
  if m.aborted then (a.close fd).deinitIfLast m
  else if m.succeeded || cancelled then (a.close fd).deinitIfLast m
  else if success = false then ((a.close fd).connectFailed m env).deinitIfLast m
  else
    let m := { m with succeeded := true }
    { a with
      mcs := some m
      cancels := a.cancels ++ m.taskIds ++ if m.timerLive then m.happyTimerId.toList else []
    }.createTransport m fd env

/-- `socket_connected_callback`. -/
def socketConnectedCallback (a : Attempt) (socketData : SocketData) (cancelled success : Bool)
    (env : ConnectedEnv) : Attempt :=
  match a.mcs with
  | none => a.fault
  | some m =>
    let m := { m with
      taskIds := removeTaskId m.taskIds socketData.taskId, pending := m.pending - 1 }
    { a with mcs := some m }.connectCompleted m socketData.socketFd cancelled success env

/-! ### Runs -/

/-- What can happen to an attempt: a callback of it runs, or the user cancels the future. -/
inductive Event
  | tryResolvHost (cancelled : Bool) (lookup : Lookup)
  | hostResolved (cancelled : Bool) (addresses : Option ℕ)
  | createSocketConnection (cancelled : Bool) (options : Options) (env : CreateEnv)
  | connected (index : ℕ) (cancelled success : Bool) (env : ConnectedEnv)
  /-- a connect that was left in the ring completes -/
  | leftConnected
  | timer (cancelled : Bool) (submits : ℕ → Submit)
  | cancelFuture

/-- What an event does; `none` when its callback is not queued. -/
def step (a : Attempt) : Event → Option Attempt
  | .tryResolvHost cancelled lookup =>
    if a.stage = .tryResolvHost then some (a.tryResolvHost cancelled lookup) else none
  | .hostResolved cancelled addresses =>
    if a.stage = .hostResolved then some (a.hostResolvedCallback cancelled addresses) else none
  | .createSocketConnection cancelled options env =>
    if a.stage = .createSocketConnection then some (a.createSocketConnection cancelled options env)
    else none
  | .connected index cancelled success env =>
    match a.connects[index]? with
    | none => none
    | some socketData =>
      some ({ a with connects := a.connects.eraseIdx index }.socketConnectedCallback socketData
        cancelled success env)
  -- its callback reads the destroyed `SocketData`
  | .leftConnected => if a.left = 0 then none else some { a with left := a.left - 1 }.fault
  | .timer cancelled submits =>
    if a.timer then some (a.scheduleRemainingConnects cancelled submits) else none
  | .cancelFuture => some a.cancelFuture

end Attempt

end Talyn.Connect
