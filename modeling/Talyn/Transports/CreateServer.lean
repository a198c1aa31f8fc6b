import Talyn.Client.CreateConnection
import Talyn.Transports.StreamServer

/-!
# Creating a server

`loop/python/io/server/create_server.zig`. A call of `create_server` with a host goes through
`try_resolve_server_host`, perhaps the resolver and `server_host_resolved_callback`, and then
`create_server_socket`, which opens, binds and listens on a socket for every address. A call with a
`sock` duplicates its descriptor and goes to `create_server_socket` at once.

An `Attempt` is the memory of one call: the future of the caller, the heap records, the sockets in the
order they were opened, and the servers that were constructed. Every step that can fail takes its outcome
from the event.
-/

namespace Talyn.CreateServer

/-- What an attempt allocates. -/
inductive Cell
  | creationData
  | socketData
  | addressList
  deriving DecidableEq, Repr

/-- The callback of the attempt that is queued, or with the resolver. -/
inductive Stage
  /-- the call has not been made -/
  | uncalled
  | tryResolveServerHost
  | serverHostResolved
  | createServerSocket
  /-- the call has raised -/
  | raised
  /-- the attempt has ended, or nobody has its callback -/
  | over
  deriving DecidableEq, Repr

/-- A server that was constructed for the address at a position, with a socket. -/
structure Served where
  address : ℕ
  fd : ℕ
  server : StreamServer
  /-- it is in `servers_list` -/
  listed : Bool
  deriving DecidableEq, Repr

/-- The listening socket is open. -/
def Served.open (s : Served) : Bool := decide (0 ≤ s.server.serverFd)

/-- The last reference that is not a wait's is dropped. -/
def Served.release (s : Served) : Served :=
  if s.server.waits = [] then { s with server := s.server.deinit } else s

/-- `z_close_server`. -/
def Served.close (s : Served) (cancel : StreamServer.Queue) : Served :=
  { s with server := s.server.closeServer cancel }

/-! ### What can happen -/

/-- How far the call gets with a `sock`. -/
inductive Sock (α : Type*)
  /-- the address is refused, or there is no memory for `ServerSocketData` -/
  | refused
  /-- there is no memory for the list -/
  | notCopied
  | notDuplicated
  | duplicated (addr : α) (dispatched : Bool)
  deriving DecidableEq, Repr

/-- How far the call gets. -/
inductive Create (α : Type*)
  /-- an argument is refused, or the future or the record cannot be had -/
  | refused
  | host (dispatched : Bool)
  | sock (outcome : Sock α)
  deriving DecidableEq, Repr

/-- The list for the empty host. -/
inductive AnyAddresses (α : Type*)
  /-- there is no memory for the first entry -/
  | noEntry
  /-- the list cannot grow, or cannot be turned into a slice -/
  | notOwned
  | owned (addrs : List α)
  deriving DecidableEq, Repr

/-- What a lookup with a callback comes to. -/
inductive HostLookup (α : Type*)
  /-- the timeout does not convert, or the lookup returned an error -/
  | failed
  /-- the resolver keeps the callback -/
  | queued
  /-- null was returned, and nobody keeps the callback -/
  | lost
  /-- the answer, and whether it could be copied -/
  | answered (addrs : List α) (copied : Bool)
  deriving DecidableEq, Repr

/-- What `try_resolve_server_host` meets. -/
inductive Host (α : Type*)
  /-- the host is no string, or there is no memory for `ServerSocketData` -/
  | refused
  | empty (list : AnyAddresses α)
  | named (lookup : HostLookup α)
  deriving DecidableEq, Repr

/-- What the constructor of a server does. -/
inductive Construct
  /-- there is no object -/
  | failed
  /-- the object is freed with the descriptor it has from `tp_alloc`, which is 0 -/
  | initFailed
  | made
  deriving DecidableEq, Repr

/-- What happens for one address. -/
structure AddressEnv where
  socket : Bool
  bind : Bool
  listen : Bool
  /-- the three numbers for the constructor -/
  numbers : Bool
  construct : Construct
  /-- the queueing of the accept -/
  serve : StreamServer.Queue
  append : Bool
  /-- the queueing of the `CancelIO`, should the server be closed again -/
  cancel : StreamServer.Queue
  deriving DecidableEq, Repr

/-- What `z_create_server_socket` meets. -/
structure ServerEnv (α : Type*) where
  family : α → ℤ
  /-- user code cancels the future meanwhile -/
  cancels : Bool
  /-- the options convert -/
  options : Bool
  /-- the family that is asked for -/
  requested : Option ℤ
  list : Bool
  address : ℕ → AddressEnv
  /-- the done callbacks of the future can be dispatched -/
  result : Bool

/-- What can happen to an attempt: a callback of it runs, or the user cancels the future. -/
inductive Event (α : Type*)
  | create (outcome : Create α)
  | tryResolveServerHost (cancelled : Bool) (host : Host α) (dispatched : Bool)
  | serverHostResolved (cancelled : Bool) (lookup : Option (List α × Bool)) (dispatched : Bool)
  | createServerSocket (cancelled : Bool) (env : ServerEnv α)
  | cancelFuture

/-- The memory of a call of `create_server`. -/
structure Attempt (α : Type*) where
  stage : Stage
  future : Connect.FutureStatus
  /-- the record has the port, the family, the backlog and the flags -/
  options : Bool
  addressList : Option (List α)
  /-- `socket_fd` of `ServerSocketData`, the duplicate -/
  socketFd : Option ℕ
  /-- the number of sockets opened -/
  opened : ℕ
  closed : List ℕ
  servers : List Served
  /-- descriptor 0 was closed, by a server whose `tp_init` failed -/
  zeroClosed : Bool
  allocated : List Cell
  freed : List Cell
  /-- how often this code resolved the future -/
  resolved : ℕ
  /-- the future does not get the servers -/
  failed : Bool
  deriving DecidableEq, Repr

namespace Attempt

variable {α : Type*}

/-- Before the call. -/
def init : Attempt α where
  stage := .uncalled
  future := .pending
  options := false
  addressList := none
  socketFd := none
  opened := 0
  closed := []
  servers := []
  zeroClosed := false
  allocated := []
  freed := []
  resolved := 0
  failed := false

/-- `set_future_exception` and `future_fast_set_result`: only a pending future is resolved. -/
def resolve (a : Attempt α) : Attempt α :=
  if a.future = .pending then { a with future := .finished, resolved := a.resolved + 1 } else a

/-- User code cancels the future. -/
def cancelFuture (a : Attempt α) : Attempt α :=
  if a.future = .pending then { a with future := .canceled } else a

/-- An allocation. -/
def alloc (a : Attempt α) (cell : Cell) : Attempt α := { a with allocated := a.allocated ++ [cell] }

/-- `allocator.free` and `allocator.destroy`. -/
def free (a : Attempt α) (cell : Cell) : Attempt α := { a with freed := a.freed ++ [cell] }

/-- A socket is closed. -/
def close (a : Attempt α) (fd : ℕ) : Attempt α := { a with closed := a.closed ++ [fd] }

/-- The list of addresses, which `ServerSocketData` owns. -/
def setAddresses (a : Attempt α) (addrs : List α) : Attempt α :=
  { a.alloc .addressList with addressList := some addrs }

/-- `ServerCreationData.deinit`. -/
def creationDeinit (a : Attempt α) : Attempt α := a.free .creationData

/-- `ServerSocketData.deinit`. The descriptor is forgotten. -/
def socketDeinit (a : Attempt α) : Attempt α :=
  let a := if a.addressList.isSome then a.free .addressList else a
  { a.creationDeinit.free .socketData with addressList := none, socketFd := none }

/-- The attempt has ended without servers. -/
def fail (a : Attempt α) : Attempt α := { a with stage := .over, failed := true }

/-- The end of `try_resolve_server_host` on an error. -/
def failCreation (a : Attempt α) : Attempt α := a.creationDeinit.resolve.fail

/-- The end of `server_host_resolved_callback` on an error. -/
def failSocket (a : Attempt α) : Attempt α := a.socketDeinit.resolve.fail

/-! ### The call -/

/-- The call raises. -/
def raise (a : Attempt α) : Attempt α := { a.creationDeinit with stage := .raised }

/-- The part of `z_loop_create_server` for a `sock`. -/
def createSock (a : Attempt α) : Sock α → Attempt α
  | .refused => a.raise
  | .notCopied => ((a.alloc .socketData).free .socketData).raise
  | .notDuplicated =>
    ((((a.alloc .socketData).alloc .addressList).free .addressList).free .socketData).raise
  | .duplicated addr dispatched =>
    let a := { (a.alloc .socketData).setAddresses [addr] with opened := a.opened + 1 }
    if dispatched then
      { a with stage := .createServerSocket, socketFd := some (a.opened - 1), options := false }
    else (((a.close (a.opened - 1)).free .addressList).free .socketData).raise

/-- `z_loop_create_server`. -/
def create (a : Attempt α) : Create α → Attempt α
  | .refused => { a with stage := .raised }
  | .host dispatched =>
    let a := { a.alloc .creationData with options := true }
    if dispatched then { a with stage := .tryResolveServerHost } else a.raise
  | .sock outcome => { a.alloc .creationData with options := true }.createSock outcome

/-! ### Names -/

/-- `try_resolve_server_host`. -/
def tryResolveServerHost (a : Attempt α) (cancelled : Bool) (host : Host α) (dispatched : Bool) :
    Attempt α :=
  if cancelled then a.failCreation
  else
    match host with
    | .refused => a.failCreation
    | .empty .noEntry | .named .failed | .named (.answered _ false) =>
      ((a.alloc .socketData).free .socketData).failCreation
    | .empty .notOwned =>
      (((a.alloc .socketData).alloc .addressList).free .socketData).failCreation
    | .empty (.owned addrs) =>
      let a := (a.alloc .socketData).setAddresses addrs
      if dispatched then { a with stage := .createServerSocket }
      else (a.free .socketData).failCreation
    | .named .queued => { a.alloc .socketData with stage := .serverHostResolved }
    | .named .lost => { a.alloc .socketData with stage := .over }
    | .named (.answered addrs true) =>
      let a := (a.alloc .socketData).setAddresses addrs
      if dispatched then { a with stage := .createServerSocket }
      else ((a.free .addressList).free .socketData).failCreation

/-- `server_host_resolved_callback`; the lookup has no callback, and gives the list and whether it could
be copied. -/
def serverHostResolvedCallback (a : Attempt α) (cancelled : Bool) (lookup : Option (List α × Bool))
    (dispatched : Bool) : Attempt α :=
  if cancelled then a.failSocket
  else
    match lookup with
    | none | some ([], _) | some (_ :: _, false) => a.failSocket
    | some (addr :: addrs, true) =>
      let a := a.setAddresses (addr :: addrs)
      if dispatched then { a with stage := .createServerSocket }
      else
        -- the list stays in `ServerSocketData`
        (a.free .addressList).failSocket

/-! ### Sockets -/

/-- A listening socket gets its server. The deferred statement closes a socket that has none, unless it
is the duplicate. The flag is `false` when an error is returned. -/
def startServer (a : Attempt α) (i fd : ℕ) (e : AddressEnv) : Attempt α × Bool :=
  let dropped := if a.socketFd.isSome then a else a.close fd
  if e.numbers = false then (dropped, false)
  else
    match e.construct with
    | .failed => (dropped, false)
    | .initFailed => ({ dropped with zeroClosed := true }, false)
    | .made =>
      match (StreamServer.init fd).startServing e.serve with
      | (false, server) =>
        ({ a with servers := a.servers ++ [⟨i, fd, server.deinit, false⟩] }, true)
      | (true, server) =>
        if e.append then ({ a with servers := a.servers ++ [⟨i, fd, server, true⟩] }, true)
        else ({ a with servers := a.servers ++ [Served.release ⟨i, fd, server, false⟩] }, false)

/-- The family of an address is another one than was asked for. -/
def filtered (a : Attempt α) (env : ServerEnv α) (addr : α) : Prop :=
  a.options = true ∧ ∃ family ∈ env.requested, env.family addr ≠ family

instance (a : Attempt α) (env : ServerEnv α) (addr : α) : Decidable (a.filtered env addr) :=
  inferInstanceAs (Decidable (_ ∧ _))

/-- One round of the loop over the addresses. -/
def serveAddress (a : Attempt α) (env : ServerEnv α) (addr : α × ℕ) : Attempt α × Bool :=
  let e := env.address addr.2
  if a.filtered env addr.1 then (a, true)
  else
    match a.socketFd with
    | some fd => a.startServer addr.2 fd e
    | none =>
      if e.socket = false then (a, true)
      else
        let a := { a with opened := a.opened + 1 }
        if (e.bind && e.listen) = false then (a.close (a.opened - 1), true)
        else a.startServer addr.2 (a.opened - 1) e

/-- The loop over the addresses, with their positions. -/
def serveAddresses (a : Attempt α) (env : ServerEnv α) : List (α × ℕ) → Attempt α × Bool
  | [] => (a, true)
  | addr :: addrs =>
    match a.serveAddress env addr with
    | (a, true) => a.serveAddresses env addrs
    | (a, false) => (a, false)

/-- The servers in `servers_list` are closed. -/
def closeServers (a : Attempt α) (env : ServerEnv α) : Attempt α :=
  { a with servers :=
      a.servers.map fun s => if s.listed then s.close (env.address s.address).cancel else s }

/-- `servers_list` is freed. -/
def releaseServers (a : Attempt α) : Attempt α :=
  { a with servers := a.servers.map fun s => if s.listed then s.release else s }

/-- `z_create_server_socket` after the loop; the flag is `false` when an error is returned. -/
def finishServers (a : Attempt α) (env : ServerEnv α) (ended : Bool) : Attempt α × Bool :=
  if ended = false then ((a.closeServers env).releaseServers, false)
  else if a.servers.any (·.listed) = false then (a, false)
  else if a.future = .pending then
    -- the future keeps the list
    if env.result then (a.resolve, true) else (a.resolve.closeServers env, false)
  else ({ a.releaseServers with failed := true }, true)

/-- `z_create_server_socket`. -/
def zCreateServerSocket (a : Attempt α) (env : ServerEnv α) : Attempt α × Bool :=
  let a := if env.cancels then a.cancelFuture else a
  match a.addressList with
  | none => ({ a.resolve with failed := true }, true)
  | some addrs =>
    if (a.options && !env.options) || !env.list then (a, false)
    else
      let served := a.serveAddresses env addrs.zipIdx
      served.1.finishServers env served.2

/-- The end of `create_server_socket`. -/
def endCallback : Attempt α × Bool → Attempt α
  | (a, true) => { a.socketDeinit with stage := .over }
  | (a, false) => a.resolve.socketDeinit.fail

/-- `create_server_socket`. -/
def createServerSocket (a : Attempt α) (cancelled : Bool) (env : ServerEnv α) : Attempt α :=
  if cancelled then a.resolve.socketDeinit.fail else endCallback (a.zCreateServerSocket env)

/-! ### Runs -/

/-- One step; a callback runs only where it is queued. -/
def step (a : Attempt α) : Event α → Option (Attempt α)
  | .create outcome => if a.stage = .uncalled then some (a.create outcome) else none
  | .tryResolveServerHost cancelled host dispatched =>
    if a.stage = .tryResolveServerHost then some (a.tryResolveServerHost cancelled host dispatched)
    else none
  | .serverHostResolved cancelled lookup dispatched =>
    if a.stage = .serverHostResolved then
      some (a.serverHostResolvedCallback cancelled lookup dispatched)
    else none
  | .createServerSocket cancelled env =>
    if a.stage = .createServerSocket then some (a.createServerSocket cancelled env) else none
  | .cancelFuture =>
    if a.stage = .uncalled ∨ a.stage = .raised then none else some a.cancelFuture

end Attempt

end Talyn.CreateServer
