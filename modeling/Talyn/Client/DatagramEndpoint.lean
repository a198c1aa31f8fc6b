import Talyn.Client.CreateConnection
import Talyn.Client.DatagramSocket

/-!
# A datagram endpoint attempt

`create_datagram_endpoint` goes through a chain of callbacks: the local address is resolved, then the
remote one, each at once or by way of the resolver, and then the socket and the transport are created.
An `EndpointAttempt` is the memory of one call: the future of the caller, the `DatagramCreationData`
with its two address lists, the sockets in the order they were opened, and the transport.

Every step that can fail takes its outcome from the event. A resolver that answers has an address. User
code runs inside of `z_create_endpoint` only: before the transport exists in `fileno`, the truth values
and the protocol factory, and after that in `connection_made`.
-/

namespace Talyn.Datagram

variable {α : Type*}

/-- What an attempt allocates. -/
inductive EndpointCell
  | creationData
  | localAddresses
  | remoteAddresses
  deriving DecidableEq, Repr

/-- The callback of the attempt that is queued, or with the resolver. -/
inductive EndpointStage
  /-- the call has not been made -/
  | uncalled
  | resolveLocalAddr
  | localAddrResolved
  | resolveRemoteAddr
  | remoteAddrResolved
  | createEndpoint
  /-- the call has raised -/
  | raised
  /-- the attempt has ended, or nobody has its callback -/
  | over
  deriving DecidableEq, Repr

/-- A transport that was created, and who refers to it when the last callback has returned. -/
structure EndpointTransport where
  fd : ℕ
  closed : Bool
  /-- the protocol, or the traceback of what `connection_made` raised -/
  kept : Bool
  /-- the read in flight -/
  reading : Bool
  /-- the result of the future -/
  inResult : Bool
  deriving DecidableEq, Repr

/-- A transport that nobody refers to is deallocated, which closes its socket. -/
def EndpointTransport.open (t : EndpointTransport) : Bool :=
  !t.closed && (t.kept || t.reading || t.inResult)

theorem EndpointTransport.open_eq_false_iff {t : EndpointTransport} :
    t.open = false ↔ t.closed = true ∨ t.kept = false ∧ t.reading = false ∧ t.inResult = false := by
  simp [EndpointTransport.open, or_iff_not_imp_left, and_assoc]

/-- The memory of a call of `create_datagram_endpoint`. -/
structure EndpointAttempt (α : Type*) where
  stage : EndpointStage
  future : Connect.FutureStatus
  /-- `local_addr`, `remote_addr` and `sock` were given -/
  pyLocalAddr : Bool
  pyRemoteAddr : Bool
  pySock : Bool
  creationData : Bool
  localAddresses : Option (List α)
  remoteAddresses : Option (List α)
  /-- the number of sockets opened -/
  opened : ℕ
  closed : List ℕ
  transport : Option EndpointTransport
  allocated : List EndpointCell
  freed : List EndpointCell
  /-- how often this code resolved the future -/
  resolved : ℕ
  failed : Bool
  /-- the future was cancelled when the transport was created, or when the attempt ended without one -/
  cancelledBefore : Bool
  useAfterFree : Bool
  deriving DecidableEq, Repr

namespace EndpointAttempt

/-- Before the call. -/
def init (pyLocalAddr pyRemoteAddr pySock : Bool) : EndpointAttempt α where
  stage := .uncalled
  future := .pending
  pyLocalAddr := pyLocalAddr
  pyRemoteAddr := pyRemoteAddr
  pySock := pySock
  creationData := false
  localAddresses := none
  remoteAddresses := none
  opened := 0
  closed := []
  transport := none
  allocated := []
  freed := []
  resolved := 0
  failed := false
  cancelledBefore := false
  useAfterFree := false

/-- `future_fast_set_result` and `set_future_exception`: only a pending future is resolved. -/
def resolve (a : EndpointAttempt α) : EndpointAttempt α :=
  if a.future = .pending then { a with future := .finished, resolved := a.resolved + 1 } else a

/-- User code cancels the future. -/
def cancelFuture (a : EndpointAttempt α) : EndpointAttempt α :=
  if a.future = .pending then { a with future := .canceled } else a

/-- The cell of a list, if there is one. -/
def listCell (cell : EndpointCell) : Option (List α) → List EndpointCell
  | none => []
  | some _ => [cell]

/-- `DatagramCreationData.deinit`. -/
def deinit (a : EndpointAttempt α) : EndpointAttempt α :=
  if a.creationData then
    { a with
      freed := a.freed ++ listCell .localAddresses a.localAddresses ++
        listCell .remoteAddresses a.remoteAddresses ++ [.creationData]
      creationData := false
      localAddresses := none
      remoteAddresses := none }
  else { a with useAfterFree := true }

/-- The attempt has ended without an endpoint. -/
def fail (a : EndpointAttempt α) : EndpointAttempt α := { a with stage := .over, failed := true }

/-- `fail_endpoint`: the future is resolved, and then the deferred `deinit` runs. -/
def failEndpoint (a : EndpointAttempt α) : EndpointAttempt α := a.resolve.deinit.fail

/-- How far the call itself gets. -/
inductive Create
  /-- an argument is refused, or the future or the record cannot be had -/
  | refused
  | notDispatched
  | dispatched
  deriving DecidableEq, Repr

/-- `z_loop_create_datagram_endpoint`. -/
def create (a : EndpointAttempt α) : Create → EndpointAttempt α
  | .refused => { a with stage := .raised }
  | .notDispatched =>
    { { a with creationData := true, allocated := [.creationData] }.deinit with stage := .raised }
  | .dispatched =>
    { a with stage := .resolveLocalAddr, creationData := true, allocated := [.creationData] }

/-- The copy of the local addresses. -/
def setLocal (a : EndpointAttempt α) (addrs : List α) : EndpointAttempt α :=
  { a with localAddresses := some addrs, allocated := a.allocated ++ [EndpointCell.localAddresses] }

/-- The copy of the remote addresses. -/
def setRemote (a : EndpointAttempt α) (addrs : List α) : EndpointAttempt α :=
  { a with remoteAddresses := some addrs, allocated := a.allocated ++ [EndpointCell.remoteAddresses] }

/-- `Soon.dispatch` of the next callback, or `fail_endpoint`. -/
def next (a : EndpointAttempt α) (stage : EndpointStage) (dispatched : Bool) : EndpointAttempt α :=
  if dispatched then { a with stage := stage } else a.failEndpoint

/-- What a lookup with a callback comes to. -/
inductive EndpointLookup (α : Type*)
  /-- the argument is no pair of a host and a port, or the lookup returned an error -/
  | failed
  /-- the resolver keeps the callback -/
  | queued
  /-- null was returned, and nobody keeps the callback -/
  | lost
  /-- the answer, and whether it could be copied -/
  | answered (addr : α) (addrs : List α) (copied : Bool)
  deriving DecidableEq, Repr

/-- `resolve_local_addr`. -/
def resolveLocalAddr (a : EndpointAttempt α) (cancelled : Bool) (lookup : EndpointLookup α)
    (dispatched : Bool) : EndpointAttempt α :=
  if cancelled then a.failEndpoint
  else if a.pySock then a.next .resolveRemoteAddr dispatched
  else if a.pyLocalAddr then
    match lookup with
    | .failed | .answered _ _ false => a.failEndpoint
    | .queued => { a with stage := .localAddrResolved }
    | .lost => { a with stage := .over }
    | .answered addr addrs true => (a.setLocal (addr :: addrs)).next .resolveRemoteAddr dispatched
  else a.next .resolveRemoteAddr dispatched

/-- `local_addr_resolved_callback`; the lookup has no callback, so only an answer is of use. -/
def localAddrResolvedCallback (a : EndpointAttempt α) (cancelled : Bool) (lookup : EndpointLookup α)
    (dispatched : Bool) : EndpointAttempt α :=
  if cancelled then a.failEndpoint
  else
    match lookup with
    | .answered addr addrs true => (a.setLocal (addr :: addrs)).next .resolveRemoteAddr dispatched
    | _ => a.failEndpoint

/-- `resolve_remote_addr`. -/
def resolveRemoteAddr (a : EndpointAttempt α) (cancelled : Bool) (lookup : EndpointLookup α)
    (dispatched : Bool) : EndpointAttempt α :=
  if cancelled then a.failEndpoint
  else if a.pyRemoteAddr then
    match lookup with
    | .failed | .answered _ _ false => a.failEndpoint
    | .queued => { a with stage := .remoteAddrResolved }
    | .lost => { a with stage := .over }
    | .answered addr addrs true => (a.setRemote (addr :: addrs)).next .createEndpoint dispatched
  else a.next .createEndpoint dispatched

/-- `remote_addr_resolved_callback`. -/
def remoteAddrResolvedCallback (a : EndpointAttempt α) (cancelled : Bool) (lookup : EndpointLookup α)
    (dispatched : Bool) : EndpointAttempt α :=
  if cancelled then a.failEndpoint
  else
    match lookup with
    | .answered addr addrs true => (a.setRemote (addr :: addrs)).next .createEndpoint dispatched
    | _ => a.failEndpoint

/-- What `z_create_endpoint` meets. -/
structure EndpointEnv (α : Type*) where
  kernel : SocketKernel α
  /-- `family` is given; `none` when it does not convert -/
  family : Option (Option ℕ)
  /-- the family of the duplicate of `sock`; `none` when it cannot be had -/
  dup : Option ℕ
  /-- `reuse_port` and `allow_broadcast` have a truth value and can be set -/
  options : Bool
  /-- user code that runs before the transport is created cancels the future -/
  cancels : Bool
  factory : Bool
  transport : Bool
  /-- `connection_made` exists and returns -/
  connectionMade : Bool
  /-- `connection_made` closes the transport, cancels the future, or something refers to the transport
  afterwards -/
  closes : Bool
  cancelsLater : Bool
  keeps : Bool
  read : Bool
  tuple : Bool

/-- The socket of `z_create_endpoint`: whether one was opened, and whether it is connected. -/
def endpointSocket (a : EndpointAttempt α) (env : EndpointEnv α) : Bool × Bool :=
  if a.pySock then
    match env.dup with
    | none => (false, false)
    | some family =>
      (true, (tryAddresses (connectFirst env.kernel family) a.remoteAddresses).isSome)
  else
    match env.family with
    | some none => (false, false)
    | family =>
      match openSocket env.kernel (family.join) a.localAddresses a.remoteAddresses with
      | .ok _ => (true, true)
      | .error .systemResources => (true, false)
      | .error _ => (false, false)

/-- `z_create_endpoint` once the transport has the socket. -/
def finishEndpoint (a : EndpointAttempt α) (env : EndpointEnv α) : EndpointAttempt α × Bool :=
  let transport : EndpointTransport := ⟨a.opened - 1, env.closes, env.keeps, false, false⟩
  let a := if env.cancelsLater then a.cancelFuture else a
  if env.connectionMade = false then ({ a with transport := some transport }, false)
  else if env.closes = false ∧ env.read = false then ({ a with transport := some transport }, false)
  else
    let transport := { transport with reading := !env.closes }
    if env.tuple = false then ({ a with transport := some transport }, false)
    else
      let transport := { transport with inResult := decide (a.future = Connect.FutureStatus.pending) }
      ({ a with transport := some transport }.resolve, true)

/-- `z_create_endpoint`; the flag is `false` when an error is returned. -/
def zCreateEndpoint (a : EndpointAttempt α) (env : EndpointEnv α) : EndpointAttempt α × Bool :=
  let a := if env.cancels then a.cancelFuture else a
  let a := { a with cancelledBefore := decide (a.future = .canceled) }
  match a.endpointSocket env with
  | (false, _) => (a, false)
  | (true, connected) =>
    let a := { a with opened := a.opened + 1 }
    if (env.options && connected && env.factory && env.transport) = false then
      -- the deferred statement closes the socket
      ({ a with closed := a.closed ++ [a.opened - 1] }, false)
    else a.finishEndpoint env

/-- `create_endpoint`. -/
def createEndpoint (a : EndpointAttempt α) (cancelled : Bool) (env : EndpointEnv α) :
    EndpointAttempt α :=
  if cancelled then a.resolve.deinit.fail
  else
    match a.zCreateEndpoint env with
    | (a, true) => { a.deinit with stage := .over }
    | (a, false) => a.resolve.deinit.fail

/-! ### Runs -/

/-- What can happen to an attempt: a callback of it runs, or the user cancels the future. -/
inductive Event (α : Type*)
  | create (outcome : Create)
  | resolveLocalAddr (cancelled : Bool) (lookup : EndpointLookup α) (dispatched : Bool)
  | localAddrResolved (cancelled : Bool) (lookup : EndpointLookup α) (dispatched : Bool)
  | resolveRemoteAddr (cancelled : Bool) (lookup : EndpointLookup α) (dispatched : Bool)
  | remoteAddrResolved (cancelled : Bool) (lookup : EndpointLookup α) (dispatched : Bool)
  | createEndpoint (cancelled : Bool) (env : EndpointEnv α)
  | cancelFuture

/-- One step; a callback runs only where it is queued. -/
def step (a : EndpointAttempt α) : Event α → Option (EndpointAttempt α)
  | .create outcome => if a.stage = .uncalled then some (a.create outcome) else none
  | .resolveLocalAddr cancelled lookup dispatched =>
    if a.stage = .resolveLocalAddr then some (a.resolveLocalAddr cancelled lookup dispatched) else none
  | .localAddrResolved cancelled lookup dispatched =>
    if a.stage = .localAddrResolved then
      some (a.localAddrResolvedCallback cancelled lookup dispatched)
    else none
  | .resolveRemoteAddr cancelled lookup dispatched =>
    if a.stage = .resolveRemoteAddr then some (a.resolveRemoteAddr cancelled lookup dispatched)
    else none
  | .remoteAddrResolved cancelled lookup dispatched =>
    if a.stage = .remoteAddrResolved then
      some (a.remoteAddrResolvedCallback cancelled lookup dispatched)
    else none
  | .createEndpoint cancelled env =>
    if a.stage = .createEndpoint then some (a.createEndpoint cancelled env) else none
  | .cancelFuture =>
    if a.stage = .uncalled ∨ a.stage = .raised then none else some a.cancelFuture

/-- The sockets that were handed to a transport. -/
def handed (a : EndpointAttempt α) : List ℕ := (a.transport.map (·.fd)).toList

/-- What has to hold of an attempt. -/
structure AttemptOk (a : EndpointAttempt α) : Prop where
  /-- the future is resolved at most once, and when nothing is queued any more it is not pending -/
  resolved : a.resolved ≤ 1
  done : a.stage = .over → a.future ≠ .pending
  /-- what was allocated is freed once, when the attempt ends -/
  memory : a.useAfterFree = false ∧ if a.stage = .over ∨ a.stage = .raised then
    a.freed.Perm a.allocated else a.freed = []
  /-- every socket was closed once or has one transport -/
  sockets : (a.closed ++ a.handed).Perm (List.range a.opened)
  /-- an attempt that failed or was cancelled before its transport existed leaves nothing open -/
  nothingOpen : a.stage = .over → a.failed = true ∨ a.cancelledBefore = true →
    ∀ t, a.transport = some t → t.open = false

/-! ## What is kept -/

/-- The record is there, with the lists it has, and nothing was freed. -/
structure Holding (a : EndpointAttempt α) : Prop where
  creationData : a.creationData = true
  allocated : a.allocated = .creationData ::
    (listCell .localAddresses a.localAddresses ++ listCell .remoteAddresses a.remoteAddresses)
  freed : a.freed = []
  fine : a.useAfterFree = false

/-- The future was not resolved by this code. -/
structure Unresolved (a : EndpointAttempt α) : Prop where
  resolved : a.resolved = 0
  future : a.future ≠ .finished

/-- No socket was opened. -/
structure Idle (a : EndpointAttempt α) : Prop extends Holding a, Unresolved a where
  opened : a.opened = 0
  closed : a.closed = []
  transport : a.transport = none
  succeeding : a.failed = false

/-- A callback of the attempt is queued, and the lists that are to come are not there. -/
structure Live (a : EndpointAttempt α) : Prop extends Idle a where
  noLocal : a.stage = .resolveLocalAddr ∨ a.stage = .localAddrResolved → a.localAddresses = none
  noRemote : a.stage ≠ .createEndpoint → a.remoteAddresses = none

/-- A callback of the attempt is queued or with the resolver. -/
def Queued (a : EndpointAttempt α) : Prop :=
  a.stage ≠ .uncalled ∧ a.stage ≠ .raised ∧ a.stage ≠ .over

/-- The invariant of an attempt; of one that has ended it says nothing. -/
structure Inv (a : EndpointAttempt α) : Prop where
  live : a.Queued → a.Live
  uncalled : a.stage = .uncalled → ∃ pyLocalAddr pyRemoteAddr pySock,
    a = init pyLocalAddr pyRemoteAddr pySock

variable {a a' : EndpointAttempt α} {stage : EndpointStage} {addrs : List α}

theorem inv_of_over (h : a.stage = .over ∨ a.stage = .raised) : a.Inv where
  live := fun hqueued => by
    obtain hover | hraised := h
    · exact absurd hover hqueued.2.2
    · exact absurd hraised hqueued.2.1
  uncalled := fun hun => by
    obtain hover | hraised := h
    · exact nomatch hun.symm.trans hover
    · exact nomatch hun.symm.trans hraised

theorem inv_of_live (h : a.Live) (hqueued : a.Queued) : a.Inv :=
  ⟨fun _ => h, fun hun => absurd hun hqueued.1⟩

/-- An attempt whose callback is queued is all right. -/
theorem Live.ok (h : a.Live) (hqueued : a.Queued) : a.AttemptOk where
  resolved := by
    have hresolved := h.resolved
    omega
  done := fun hover => absurd hover hqueued.2.2
  memory := by
    refine ⟨h.fine, ?_⟩
    rw [if_neg (not_or.2 ⟨hqueued.2.2, hqueued.2.1⟩)]
    exact h.freed
  sockets := by simp [handed, h.closed, h.transport, h.opened]
  nothingOpen := fun hover => absurd hover hqueued.2.2

/-- `deinit` frees what was allocated. -/
theorem Holding.deinit (h : a.Holding) :
    a.deinit.freed.Perm a.allocated ∧ a.deinit.useAfterFree = false := by
  unfold EndpointAttempt.deinit
  rw [if_pos h.creationData]
  refine ⟨?_, h.fine⟩
  rw [h.allocated, h.freed]
  exact List.perm_append_singleton _ _

@[simp] theorem deinit_future (a : EndpointAttempt α) : a.deinit.future = a.future := by
  unfold deinit; split <;> rfl

@[simp] theorem deinit_resolved (a : EndpointAttempt α) : a.deinit.resolved = a.resolved := by
  unfold deinit; split <;> rfl

@[simp] theorem deinit_allocated (a : EndpointAttempt α) : a.deinit.allocated = a.allocated := by
  unfold deinit; split <;> rfl

@[simp] theorem deinit_opened (a : EndpointAttempt α) : a.deinit.opened = a.opened := by
  unfold deinit; split <;> rfl

@[simp] theorem deinit_closed (a : EndpointAttempt α) : a.deinit.closed = a.closed := by
  unfold deinit; split <;> rfl

@[simp] theorem deinit_transport (a : EndpointAttempt α) : a.deinit.transport = a.transport := by
  unfold deinit; split <;> rfl

@[simp] theorem deinit_failed (a : EndpointAttempt α) : a.deinit.failed = a.failed := by
  unfold deinit; split <;> rfl

@[simp] theorem deinit_cancelledBefore (a : EndpointAttempt α) :
    a.deinit.cancelledBefore = a.cancelledBefore := by
  unfold deinit; split <;> rfl

/-- What `resolve` leaves alone: everything but the future. -/
theorem resolve_eq (a : EndpointAttempt α) :
    ∃ future resolved, a.resolve = { a with future := future, resolved := resolved } := by
  unfold resolve
  split
  · exact ⟨_, _, rfl⟩
  · exact ⟨a.future, a.resolved, rfl⟩

/-- After `resolve` the future is done. -/
theorem Unresolved.resolve (h : a.Unresolved) : a.resolve.resolved ≤ 1 ∧ a.resolve.future ≠ .pending := by
  unfold EndpointAttempt.resolve
  split
  · exact ⟨by simp [h.resolved], nofun⟩
  · rename_i hdone
    exact ⟨by simp [h.resolved], hdone⟩

theorem Unresolved.cancelFuture_if (h : a.Unresolved) (cancels : Bool) :
    ∃ future : Connect.FutureStatus, future ≠ .finished ∧
      (future = .pending ↔ a.future = .pending ∧ cancels = false) ∧
      (if cancels then a.cancelFuture else a) = { a with future := future } := by
  cases cancels with
  | false => exact ⟨a.future, h.future, by simp, rfl⟩
  | true =>
    rw [if_pos rfl]
    by_cases hpending : a.future = .pending
    · exact ⟨.canceled, nofun, by simp, if_pos hpending⟩
    · exact ⟨a.future, h.future, by simp [hpending], if_neg hpending⟩

/-- The end of an attempt: the future is resolved, and then `deinit` runs. What is left to show is that
nothing stays open that must not. -/
theorem end_ok_iff (hholding : a.Holding) (hunresolved : a.Unresolved)
    (hsockets : (a.closed ++ a.handed).Perm (List.range a.opened)) (failed : Bool) :
    AttemptOk { a.resolve.deinit with stage := .over, failed := failed } ↔
      (failed = true ∨ a.cancelledBefore = true → ∀ t, a.transport = some t → t.open = false) := by
  obtain ⟨hresolved, hdone⟩ := hunresolved.resolve
  obtain ⟨future, resolved, heq⟩ := a.resolve_eq
  have hresolve : a.resolve.Holding := by
    rw [heq]
    exact ⟨hholding.creationData, hholding.allocated, hholding.freed, hholding.fine⟩
  obtain ⟨hfreed, hfine⟩ := hresolve.deinit
  constructor
  · intro hok
    have hnothing := hok.nothingOpen rfl
    simpa [heq] using hnothing
  · intro hopen
    refine ⟨by simpa using hresolved, fun _ => by simpa using hdone, ⟨hfine, ?_⟩, ?_, fun _ => ?_⟩
    · rw [if_pos (.inl rfl)]
      simpa using hfreed
    · simpa [handed, heq] using hsockets
    · simpa [heq] using hopen

/-! ## The chain of lookups -/

theorem Idle.failEndpoint (h : a.Idle) : a.failEndpoint.AttemptOk := by
  refine (end_ok_iff h.toHolding h.toUnresolved ?_ true).2 fun _ t ht => ?_
  · simp [handed, h.closed, h.transport, h.opened]
  · exact nomatch h.transport.symm.trans ht

/-- The next callback is queued, or the attempt fails. -/
theorem Idle.next (h : a.Idle) (dispatched : Bool)
    (hstage : stage = .resolveRemoteAddr ∧ a.remoteAddresses = none ∨ stage = .createEndpoint) :
    (a.next stage dispatched).Inv ∧ (a.next stage dispatched).AttemptOk := by
  unfold EndpointAttempt.next
  split
  · have hidle : Idle { a with stage := stage } :=
      ⟨⟨h.creationData, h.allocated, h.freed, h.fine⟩, ⟨h.resolved, h.future⟩, h.opened, h.closed,
        h.transport, h.succeeding⟩
    obtain ⟨rfl, hremote⟩ | rfl := hstage
    · have hlive : Live { a with stage := .resolveRemoteAddr } := ⟨hidle, nofun, fun _ => hremote⟩
      have hqueued : Queued { a with stage := .resolveRemoteAddr } := ⟨nofun, nofun, nofun⟩
      exact ⟨inv_of_live hlive hqueued, hlive.ok hqueued⟩
    · have hlive : Live { a with stage := .createEndpoint } := ⟨hidle, nofun, fun hne => absurd rfl hne⟩
      have hqueued : Queued { a with stage := .createEndpoint } := ⟨nofun, nofun, nofun⟩
      exact ⟨inv_of_live hlive hqueued, hlive.ok hqueued⟩
  · exact ⟨inv_of_over (.inl rfl), h.failEndpoint⟩

/-- The copy of the local addresses belongs to the record. -/
theorem Idle.setLocal (h : a.Idle) (hnone : a.localAddresses = none)
    (hremote : a.remoteAddresses = none) : (a.setLocal addrs).Idle := by
  refine ⟨⟨h.creationData, ?_, h.freed, h.fine⟩, ⟨h.resolved, h.future⟩, h.opened, h.closed,
    h.transport, h.succeeding⟩
  show a.allocated ++ [_] = _
  rw [h.allocated, hnone]
  simp [EndpointAttempt.setLocal, listCell, hremote]

/-- The copy of the remote addresses belongs to the record. -/
theorem Idle.setRemote (h : a.Idle) (hnone : a.remoteAddresses = none) :
    (a.setRemote addrs).Idle := by
  refine ⟨⟨h.creationData, ?_, h.freed, h.fine⟩, ⟨h.resolved, h.future⟩, h.opened, h.closed,
    h.transport, h.succeeding⟩
  show a.allocated ++ [_] = _
  rw [h.allocated, hnone]
  simp [EndpointAttempt.setRemote, listCell]

/-- Of an attempt whose callback nobody keeps nothing is freed. -/
theorem Idle.not_ok_of_lost (h : a.Idle) : ¬AttemptOk { a with stage := .over } := by
  intro hok
  have hmemory := hok.memory.2
  rw [if_pos (.inl rfl)] at hmemory
  have hfreed : a.freed.Perm a.allocated := hmemory
  rw [h.freed, h.allocated] at hfreed
  exact nomatch hfreed.length_eq

/-! ## The endpoint -/

/-- The transport is created. -/
def Reaches (a : EndpointAttempt α) (env : EndpointEnv α) : Prop :=
  a.endpointSocket env = (true, true) ∧ env.options = true ∧ env.factory = true ∧ env.transport = true

/-- Something fails after the transport was created. -/
def EndpointEnv.failsLate (env : EndpointEnv α) : Bool :=
  !env.connectionMade || (!env.closes && !env.read) || !env.tuple

/-- The read of the transport is queued. -/
def EndpointEnv.reads (env : EndpointEnv α) : Bool :=
  env.connectionMade && !env.closes && env.read

variable {env : EndpointEnv α}

/-- `z_create_endpoint` once the transport exists. -/
theorem finishEndpoint_spec (h : a.Unresolved) (env : EndpointEnv α) :
    ∃ t future, future ≠ .finished ∧ t.fd = a.opened - 1 ∧ t.closed = env.closes ∧
      t.kept = env.keeps ∧ t.reading = env.reads ∧ (env.failsLate = true → t.inResult = false) ∧
      a.finishEndpoint env =
        (if env.failsLate then ({ a with future := future, transport := some t }, false)
        else ({ a with future := future, transport := some t }.resolve, true)) := by
  obtain ⟨future, hfuture, -, heq⟩ := h.cancelFuture_if env.cancelsLater
  unfold finishEndpoint
  rw [heq]
  obtain ⟨-, -, -, -, -, -, -, made, closes, -, keeps, read, tuple⟩ := env
  dsimp only
  refine ⟨⟨a.opened - 1, closes, keeps, made && !closes && read,
    made && (closes || read) && tuple && decide (future = .pending)⟩, future, hfuture, rfl, rfl, rfl,
    rfl, ?_, ?_⟩
  · cases made <;> cases closes <;> cases read <;> cases tuple <;> simp [EndpointEnv.failsLate]
  · cases made <;> cases closes <;> cases read <;> cases tuple <;> simp [EndpointEnv.failsLate]

/-- A transport that exists does not stay open where it must not: `connection_made` closes it, or all
goes well for a future that waits, or nobody refers to it after the failure. -/
def LeavesNothing (a : EndpointAttempt α) (env : EndpointEnv α) : Prop :=
  env.closes = true ∨ env.failsLate = false ∧ a.future = .pending ∧ env.cancels = false ∨
    env.failsLate = true ∧ env.keeps = false ∧ env.reads = false

/-- Without a transport the socket, if there was one, is closed again. -/
theorem zCreateEndpoint_of_not_reaches (h : a.Idle) (hreaches : ¬a.Reaches env) :
    ∃ b, a.zCreateEndpoint env = (b, false) ∧ b.Holding ∧ b.Unresolved ∧ b.transport = none ∧
      b.closed = List.range b.opened := by
  obtain ⟨future, hfuture, -, heq⟩ := h.toUnresolved.cancelFuture_if env.cancels
  have hholding : ∀ (opened : ℕ) (closed : List ℕ) (cancelledBefore : Bool),
      Holding { a with
        future := future, opened := opened, closed := closed, cancelledBefore := cancelledBefore } :=
    fun _ _ _ => ⟨h.creationData, h.allocated, h.freed, h.fine⟩
  unfold zCreateEndpoint
  rw [heq]
  dsimp only
  split
  · exact ⟨_, rfl, hholding a.opened a.closed _, ⟨h.resolved, hfuture⟩, h.transport,
      by simp [h.closed, h.opened]⟩
  · rename_i connected hsocket
    rw [if_pos]
    · refine ⟨_, rfl, hholding _ _ _, ⟨h.resolved, hfuture⟩, h.transport, ?_⟩
      simp [h.closed, h.opened]
    · by_contra hall
      refine hreaches ⟨?_, ?_⟩
      · have hconnected : connected = true := by
          simp only [Bool.not_eq_false, Bool.and_eq_true] at hall
          exact hall.1.1.2
        exact hconnected ▸ hsocket
      · simp only [Bool.not_eq_false, Bool.and_eq_true] at hall
        exact ⟨hall.1.1.1, hall.1.2, hall.2⟩

/-- With a transport the rest of `z_create_endpoint` runs. -/
theorem zCreateEndpoint_of_reaches (h : a.Idle) (hreaches : a.Reaches env) :
    ∃ future : Connect.FutureStatus, future ≠ .finished ∧
      (future = .pending ↔ a.future = .pending ∧ env.cancels = false) ∧
      a.zCreateEndpoint env =
        { a with
          future := future
          cancelledBefore := decide (future = Connect.FutureStatus.canceled)
          opened := a.opened + 1 }.finishEndpoint env := by
  obtain ⟨future, hfuture, hpending, heq⟩ := h.toUnresolved.cancelFuture_if env.cancels
  refine ⟨future, hfuture, hpending, ?_⟩
  obtain ⟨hsocket, hoptions, hfactory, htransport⟩ := hreaches
  have hsame : endpointSocket { a with
      future := future, cancelledBefore := decide (future = .canceled) } env = (true, true) := hsocket
  unfold zCreateEndpoint
  rw [heq]
  dsimp only
  rw [hsame]
  simp [hoptions, hfactory, htransport]

/-- **When the last callback leaves everything in order.** -/
theorem Live.createEndpoint_ok_iff (h : a.Live) (cancelled : Bool) :
    (a.createEndpoint cancelled env).AttemptOk ↔
      (cancelled = false → a.Reaches env → a.LeavesNothing env) := by
  cases cancelled with
  | true => exact iff_of_true h.toIdle.failEndpoint nofun
  | false =>
    unfold createEndpoint
    rw [if_neg Bool.false_ne_true]
    by_cases hreaches : a.Reaches env
    · obtain ⟨before, hbefore, hpending, heq⟩ := zCreateEndpoint_of_reaches h.toIdle hreaches
      obtain ⟨t, future, hfuture, hfd, hclosed, hkept, hreading, hresult, heq'⟩ :=
        finishEndpoint_spec (a := { a with
          future := before
          cancelledBefore := decide (before = .canceled)
          opened := a.opened + 1 }) ⟨h.resolved, hbefore⟩ env
      rw [heq, heq']
      have hend := fun failed : Bool => end_ok_iff (a := { a with
          future := future
          cancelledBefore := decide (before = .canceled)
          opened := a.opened + 1
          transport := some t }) ⟨h.creationData, h.allocated, h.freed, h.fine⟩ ⟨h.resolved, hfuture⟩
          (by simp [handed, h.closed, h.opened, hfd]) failed
      have hsome : (∀ u, some t = some u → u.open = false) ↔
          env.closes = true ∨ env.keeps = false ∧ env.reads = false ∧ t.inResult = false := by
        rw [← hclosed, ← hkept, ← hreading, ← EndpointTransport.open_eq_false_iff]
        exact ⟨fun hall => hall t rfl, fun ht u hu => Option.some.inj hu ▸ ht⟩
      cases hlate : env.failsLate with
      | true =>
        refine (hend true).trans ?_
        simp only [true_or, true_imp_iff, hreaches, LeavesNothing, hlate, hsome, hresult hlate]
        simp
      | false =>
        have hreads : env.closes = true ∨ env.reads = true := by
          simp only [EndpointEnv.failsLate, EndpointEnv.reads] at hlate ⊢
          grind
        have hcanceled : before = .canceled ↔ ¬(a.future = .pending ∧ env.cancels = false) := by
          rw [← hpending]
          cases before with
          | pending => simp
          | finished => exact absurd rfl hbefore
          | canceled => simp
        -- an attempt that succeeds ends without `fail`
        have hsucceeding : ∀ {b : EndpointAttempt α}, b.failed = false →
            ({ b.resolve.deinit with stage := .over } : EndpointAttempt α) =
              { b.resolve.deinit with stage := .over, failed := false } := by
          intro b hb
          obtain ⟨_, _, hresolve⟩ := b.resolve_eq
          rw [← hb, show b.failed = b.resolve.deinit.failed by rw [deinit_failed, hresolve]]
        refine Iff.trans (iff_of_eq (congrArg AttemptOk (hsucceeding h.succeeding)))
          ((hend false).trans ?_)
        · simp only [Bool.false_eq_true, false_or, decide_eq_true_eq, true_imp_iff, hreaches,
            LeavesNothing, hlate, hsome, hcanceled]
          grind
    · obtain ⟨b, heq, hholding, hunresolved, htransport, hclosed⟩ :=
        zCreateEndpoint_of_not_reaches h.toIdle hreaches
      rw [heq]
      refine iff_of_true ?_ fun _ hr => absurd hr hreaches
      refine (end_ok_iff hholding hunresolved ?_ true).2 fun _ t ht => ?_
      · simp [handed, htransport, hclosed]
      · exact nomatch htransport.symm.trans ht

/-! ## One step -/

/-- An attempt that is all right and keeps its invariant. -/
def Good (a : EndpointAttempt α) : Prop := a.Inv ∧ a.AttemptOk

/-- A step that meets its condition. -/
theorem Good.iff_of {P : Prop} (h : a.Good) (hP : P) : a.Inv ∧ (a.AttemptOk ↔ P) :=
  ⟨h.1, iff_of_true h.2 hP⟩

theorem Idle.failEndpoint_good (h : a.Idle) : a.failEndpoint.Good :=
  ⟨inv_of_over (.inl rfl), h.failEndpoint⟩

theorem create_good (pyLocalAddr pyRemoteAddr pySock : Bool) (outcome : Create) :
    ((init pyLocalAddr pyRemoteAddr pySock : EndpointAttempt α).create outcome).Good := by
  cases outcome with
  | refused =>
    refine ⟨inv_of_over (.inr rfl), by simp [create, init], nofun, ⟨rfl, ?_⟩, ?_, nofun⟩
    · simp [create, init]
    · simp [create, init, handed]
  | notDispatched =>
    refine ⟨inv_of_over (.inr rfl), by simp [create, init], nofun, ⟨rfl, ?_⟩, ?_, nofun⟩
    · simp [create, init, deinit, listCell]
    · simp [create, init, deinit, handed]
  | dispatched =>
    have hlive : ((init pyLocalAddr pyRemoteAddr pySock : EndpointAttempt α).create .dispatched).Live :=
      ⟨⟨⟨rfl, rfl, rfl, rfl⟩, ⟨rfl, nofun⟩, rfl, rfl, rfl, rfl⟩, fun _ => rfl, fun _ => rfl⟩
    exact ⟨inv_of_live hlive ⟨nofun, nofun, nofun⟩, hlive.ok ⟨nofun, nofun, nofun⟩⟩

/-- The resolver keeps the callback. -/
theorem Live.queued (h : a.Live) (hremote : a.remoteAddresses = none)
    (hstage : stage = .localAddrResolved ∧ a.localAddresses = none ∨ stage = .remoteAddrResolved) :
    Good { a with stage := stage } := by
  have hidle : Idle { a with stage := stage } :=
    ⟨⟨h.creationData, h.allocated, h.freed, h.fine⟩, ⟨h.resolved, h.future⟩, h.opened, h.closed,
      h.transport, h.succeeding⟩
  obtain ⟨rfl, hlocal⟩ | rfl := hstage
  · have hlive : Live { a with stage := .localAddrResolved } :=
      ⟨hidle, fun _ => hlocal, fun _ => hremote⟩
    exact ⟨inv_of_live hlive ⟨nofun, nofun, nofun⟩, hlive.ok ⟨nofun, nofun, nofun⟩⟩
  · have hlive : Live { a with stage := .remoteAddrResolved } := ⟨hidle, nofun, fun _ => hremote⟩
    exact ⟨inv_of_live hlive ⟨nofun, nofun, nofun⟩, hlive.ok ⟨nofun, nofun, nofun⟩⟩

/-- The local addresses are copied and the next callback is queued. -/
theorem Live.nextLocal (h : a.Live) (hremote : a.remoteAddresses = none)
    (hlocal : a.localAddresses = none) (dispatched : Bool) :
    ((a.setLocal addrs).next .resolveRemoteAddr dispatched).Good :=
  (h.setLocal hlocal hremote).next dispatched (.inl ⟨rfl, hremote⟩)

/-- The remote addresses are copied and the next callback is queued. -/
theorem Live.nextRemote (h : a.Live) (hremote : a.remoteAddresses = none) (dispatched : Bool) :
    ((a.setRemote addrs).next .createEndpoint dispatched).Good :=
  (h.setRemote hremote).next dispatched (.inr rfl)

theorem Live.resolveLocalAddr (h : a.Live) (hstage : a.stage = .resolveLocalAddr) (cancelled : Bool)
    (lookup : EndpointLookup α) (dispatched : Bool) :
    (a.resolveLocalAddr cancelled lookup dispatched).Inv ∧
      ((a.resolveLocalAddr cancelled lookup dispatched).AttemptOk ↔
        (cancelled = false → a.pySock = false → a.pyLocalAddr = true → lookup ≠ .lost)) := by
  have hremote : a.remoteAddresses = none := h.noRemote (by rw [hstage]; nofun)
  have hlocal : a.localAddresses = none := h.noLocal (.inl hstage)
  -- nobody is lost unless all the tests lead to the lookup
  unfold EndpointAttempt.resolveLocalAddr
  split
  · rename_i hcancelled
    exact Good.iff_of h.toIdle.failEndpoint_good fun hnot => absurd (hcancelled.symm.trans hnot) nofun
  · split
    · rename_i hsock
      exact Good.iff_of (h.toIdle.next dispatched (.inl ⟨rfl, hremote⟩))
        fun _ hnot => absurd (hsock.symm.trans hnot) nofun
    · split
      · cases lookup with
        | failed => exact Good.iff_of h.toIdle.failEndpoint_good fun _ _ _ => nofun
        | queued => exact Good.iff_of (h.queued hremote (.inl ⟨rfl, hlocal⟩)) fun _ _ _ => nofun
        | lost =>
          refine ⟨inv_of_over (.inl rfl), iff_of_false h.toIdle.not_ok_of_lost fun hnot => ?_⟩
          simp_all
        | answered addr addrs copied =>
          cases copied with
          | true => exact Good.iff_of (h.nextLocal hremote hlocal dispatched) fun _ _ _ => nofun
          | false => exact Good.iff_of h.toIdle.failEndpoint_good fun _ _ _ => nofun
      · rename_i hnone
        exact Good.iff_of (h.toIdle.next dispatched (.inl ⟨rfl, hremote⟩))
          fun _ _ hgiven => absurd hgiven hnone

theorem Live.localAddrResolvedCallback (h : a.Live) (hstage : a.stage = .localAddrResolved)
    (cancelled : Bool) (lookup : EndpointLookup α) (dispatched : Bool) :
    (a.localAddrResolvedCallback cancelled lookup dispatched).Good := by
  have hremote : a.remoteAddresses = none := h.noRemote (by rw [hstage]; nofun)
  unfold EndpointAttempt.localAddrResolvedCallback
  split
  · exact h.toIdle.failEndpoint_good
  · split
    · exact h.nextLocal hremote (h.noLocal (.inr hstage)) dispatched
    · exact h.toIdle.failEndpoint_good

theorem Live.resolveRemoteAddr (h : a.Live) (hstage : a.stage = .resolveRemoteAddr) (cancelled : Bool)
    (lookup : EndpointLookup α) (dispatched : Bool) :
    (a.resolveRemoteAddr cancelled lookup dispatched).Inv ∧
      ((a.resolveRemoteAddr cancelled lookup dispatched).AttemptOk ↔
        (cancelled = false → a.pyRemoteAddr = true → lookup ≠ .lost)) := by
  have hremote : a.remoteAddresses = none := h.noRemote (by rw [hstage]; nofun)
  unfold EndpointAttempt.resolveRemoteAddr
  split
  · rename_i hcancelled
    exact Good.iff_of h.toIdle.failEndpoint_good fun hnot => absurd (hcancelled.symm.trans hnot) nofun
  · split
    · cases lookup with
      | failed => exact Good.iff_of h.toIdle.failEndpoint_good fun _ _ => nofun
      | queued => exact Good.iff_of (h.queued hremote (.inr rfl)) fun _ _ => nofun
      | lost =>
        refine ⟨inv_of_over (.inl rfl), iff_of_false h.toIdle.not_ok_of_lost fun hnot => ?_⟩
        simp_all
      | answered addr addrs copied =>
        cases copied with
        | true => exact Good.iff_of (h.nextRemote hremote dispatched) fun _ _ => nofun
        | false => exact Good.iff_of h.toIdle.failEndpoint_good fun _ _ => nofun
    · rename_i hnone
      exact Good.iff_of (h.toIdle.next dispatched (.inr rfl)) fun _ hgiven => absurd hgiven hnone

theorem Live.remoteAddrResolvedCallback (h : a.Live) (hstage : a.stage = .remoteAddrResolved)
    (cancelled : Bool) (lookup : EndpointLookup α) (dispatched : Bool) :
    (a.remoteAddrResolvedCallback cancelled lookup dispatched).Good := by
  have hremote : a.remoteAddresses = none := h.noRemote (by rw [hstage]; nofun)
  unfold EndpointAttempt.remoteAddrResolvedCallback
  split
  · exact h.toIdle.failEndpoint_good
  · split
    · exact h.nextRemote hremote dispatched
    · exact h.toIdle.failEndpoint_good

/-- Cancelling the future changes nothing else. -/
theorem Inv.cancelFuture (h : a.Inv) (hcalled : a.stage ≠ .uncalled) : a.cancelFuture.Inv := by
  unfold EndpointAttempt.cancelFuture
  split
  · refine ⟨fun hqueued => ?_, fun hun => absurd hun hcalled⟩
    have hlive := h.live hqueued
    exact ⟨⟨⟨hlive.creationData, hlive.allocated, hlive.freed, hlive.fine⟩,
      ⟨hlive.resolved, nofun⟩, hlive.opened, hlive.closed, hlive.transport, hlive.succeeding⟩,
      hlive.noLocal, hlive.noRemote⟩
  · exact h

theorem AttemptOk.cancelFuture (h : a.AttemptOk) : a.cancelFuture.AttemptOk := by
  unfold EndpointAttempt.cancelFuture
  split
  · exact ⟨h.resolved, fun _ => nofun, h.memory, h.sockets, h.nothingOpen⟩
  · exact h

/-- What a step has to meet: a lookup that returns null keeps the callback, and a transport that was
created leaves nothing open. -/
def Admissible (a : EndpointAttempt α) : Event α → Prop
  | .resolveLocalAddr cancelled lookup _ =>
    a.stage = .resolveLocalAddr →
      cancelled = false → a.pySock = false → a.pyLocalAddr = true → lookup ≠ .lost
  | .resolveRemoteAddr cancelled lookup _ =>
    a.stage = .resolveRemoteAddr → cancelled = false → a.pyRemoteAddr = true → lookup ≠ .lost
  | .createEndpoint cancelled env =>
    a.stage = .createEndpoint → cancelled = false → a.Reaches env → a.LeavesNothing env
  | _ => True

/-- **One step.** It keeps the invariant, and it leaves the attempt all right exactly if it meets the
condition. -/
theorem Inv.step (h : a.Inv) (hok : a.AttemptOk) {event : Event α} (hstep : a.step event = some a') :
    a'.Inv ∧ (a'.AttemptOk ↔ a.Admissible event) := by
  have Good.iff_of : ∀ {b : EndpointAttempt α}, b.Good → b.Inv ∧ (b.AttemptOk ↔ True) :=
    fun hb => ⟨hb.1, iff_true_intro hb.2⟩
  cases event with
  | create outcome =>
    obtain ⟨hstage, ⟨⟩⟩ := Option.ite_none_right_eq_some.1 hstep
    obtain ⟨pyLocalAddr, pyRemoteAddr, pySock, rfl⟩ := h.uncalled hstage
    exact Good.iff_of (create_good pyLocalAddr pyRemoteAddr pySock outcome)
  | resolveLocalAddr cancelled lookup dispatched =>
    obtain ⟨hstage, ⟨⟩⟩ := Option.ite_none_right_eq_some.1 hstep
    have hlive := h.live (by rw [Queued, hstage]; exact ⟨nofun, nofun, nofun⟩)
    obtain ⟨hinv, hiff⟩ := hlive.resolveLocalAddr hstage cancelled lookup dispatched
    exact ⟨hinv, hiff.trans (imp_iff_right hstage).symm⟩
  | localAddrResolved cancelled lookup dispatched =>
    obtain ⟨hstage, ⟨⟩⟩ := Option.ite_none_right_eq_some.1 hstep
    have hlive := h.live (by rw [Queued, hstage]; exact ⟨nofun, nofun, nofun⟩)
    exact Good.iff_of (hlive.localAddrResolvedCallback hstage cancelled lookup dispatched)
  | resolveRemoteAddr cancelled lookup dispatched =>
    obtain ⟨hstage, ⟨⟩⟩ := Option.ite_none_right_eq_some.1 hstep
    have hlive := h.live (by rw [Queued, hstage]; exact ⟨nofun, nofun, nofun⟩)
    obtain ⟨hinv, hiff⟩ := hlive.resolveRemoteAddr hstage cancelled lookup dispatched
    exact ⟨hinv, hiff.trans (imp_iff_right hstage).symm⟩
  | remoteAddrResolved cancelled lookup dispatched =>
    obtain ⟨hstage, ⟨⟩⟩ := Option.ite_none_right_eq_some.1 hstep
    have hlive := h.live (by rw [Queued, hstage]; exact ⟨nofun, nofun, nofun⟩)
    exact Good.iff_of (hlive.remoteAddrResolvedCallback hstage cancelled lookup dispatched)
  | createEndpoint cancelled env =>
    obtain ⟨hstage, ⟨⟩⟩ := Option.ite_none_right_eq_some.1 hstep
    have hlive := h.live (by rw [Queued, hstage]; exact ⟨nofun, nofun, nofun⟩)
    have hover : (a.createEndpoint cancelled env).stage = .over := by
      unfold EndpointAttempt.createEndpoint
      split
      · rfl
      · split <;> rfl
    exact ⟨inv_of_over (.inl hover),
      (hlive.createEndpoint_ok_iff cancelled).trans (imp_iff_right hstage).symm⟩
  | cancelFuture =>
    obtain ⟨hcalled, ⟨⟩⟩ := Option.ite_none_left_eq_some.1 hstep
    exact Good.iff_of ⟨h.cancelFuture fun hun => hcalled (.inl hun), hok.cancelFuture⟩

/-- **A datagram endpoint attempt.** Throughout a run the future is resolved once and not left pending,
every record and list is freed once, every socket is closed once or has one transport, and an attempt
that failed, or was cancelled before its transport was there, leaves nothing open, exactly if no lookup
loses the callback and no transport is created for a future that was cancelled, or kept open by somebody
when a later step fails. -/
theorem endpoint_attempt_iff (pyLocalAddr pyRemoteAddr pySock : Bool) (events : List (Event α)) :
    Runs.Always step AttemptOk (init pyLocalAddr pyRemoteAddr pySock) events ↔
      Runs.Along step Admissible (init pyLocalAddr pyRemoteAddr pySock) events := by
  have hinit : (init pyLocalAddr pyRemoteAddr pySock : EndpointAttempt α).Good := by
    refine ⟨⟨fun hqueued => absurd rfl hqueued.1, fun _ => ⟨_, _, _, rfl⟩⟩, ?_, nofun, ⟨rfl, rfl⟩, ?_,
      nofun⟩
    · simp [init]
    · simp [init, handed]
  refine Runs.always_iff_along_of_break (I := Good) hinit (fun _ h => h.2) ?_ ?_ ?_
  · intro a event a' h hadmissible hstep
    obtain ⟨hinv, hiff⟩ := h.1.step h.2 hstep
    exact ⟨hinv, hiff.2 hadmissible⟩
  · intro a event a' h hstep hok
    exact (h.1.step h.2 hstep).2.1 hok
  · intro a event hdisabled
    have hnever : ∀ {stage : EndpointStage} {b : EndpointAttempt α} {P : Prop},
        (if a.stage = stage then some b else none) = none → a.stage = stage → P := by
      intro stage b P hnone hstage
      rw [if_pos hstage] at hnone
      exact nomatch hnone
    cases event with
    | resolveLocalAddr => exact hnever hdisabled
    | resolveRemoteAddr => exact hnever hdisabled
    | createEndpoint => exact hnever hdisabled
    | create => trivial
    | localAddrResolved => trivial
    | remoteAddrResolved => trivial
    | cancelFuture => trivial

/-- A kernel that opens, binds and connects what it is asked to, and user code that does nothing. -/
def plainEnv : EndpointEnv Unit where
  kernel := ⟨fun _ => afInet, fun _ => true, fun f _ => f == afInet, fun f _ => f == afInet,
    fun _ _ h => (beq_iff_eq.1 h).symm, fun _ _ h => (beq_iff_eq.1 h).symm⟩
  family := none
  dup := none
  options := true
  cancels := false
  factory := true
  transport := true
  connectionMade := true
  closes := false
  cancelsLater := false
  keeps := false
  read := true
  tuple := true

/-- A future that is cancelled while the addresses are resolved: the transport is created all the same,
and reads. -/
theorem cancelled_endpoint_stays_open :
    ¬∀ (pyLocalAddr pyRemoteAddr pySock : Bool) (events : List (Event Unit)),
      Runs.Always step AttemptOk (init pyLocalAddr pyRemoteAddr pySock) events := by
  intro hall
  have hlast := (hall false false false [.create .dispatched, .cancelFuture,
    .resolveLocalAddr false .failed true, .resolveRemoteAddr false .failed true,
    .createEndpoint false plainEnv]).last rfl
  exact absurd (hlast.nothingOpen rfl (.inr rfl) _ rfl) (by decide)

end EndpointAttempt

end Talyn.Datagram
