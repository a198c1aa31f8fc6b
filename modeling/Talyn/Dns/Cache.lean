import Talyn.Lib.Lru
import Talyn.Dns.Names
import Talyn.Dns.Candidates

/-!
# The resolver and its cache

All lookups of a loop share the cache. A record and a control data point at each other while the
record is pending: `RecordCell` and `ControlCell` are these two kinds of memory cells, and `DNS` is
the memory. A `ControlCell` holds a `Lookup`, whose record is the one the cell points to
(`DNS.view`), so that the handlers of a lookup run unchanged on the shared memory.

A record leaves the cache when its key is put again, when it is the last of a full slot, when it is
read after it expired, or with the whole cache in `deinit`; `evictRecord` then destroys it.

`DNS` also has what the statements speak about: the calls made (`requests`, a callback is the number
of its call), the callbacks dispatched and not run yet (`ready`) and what those that ran have seen.
-/

namespace Talyn.Dns

/-- `Record`. `controlData` is what the pending state points to. -/
structure RecordCell where
  hostname : Datagram
  record : Record
  controlData : Option ℕ
  deriving DecidableEq, Repr

/-- `ControlData`, with its pointer to the record. The record itself is not kept in `lookup`. -/
structure ControlCell where
  lookup : Lookup
  record : ℕ
  deriving DecidableEq, Repr

/-- A call of `lookup` or `reverse_lookup`, by the name its callback reads the cache with. -/
structure Request where
  name : Datagram
  reverse : Bool
  deriving DecidableEq, Repr

/-- A callback in the ready queue. -/
structure Dispatched where
  callback : CallbackId
  cancelled : Bool
  deriving DecidableEq, Repr

/-- What a callback sees when it runs. -/
inductive Seen
  | cancelled
  | addresses (addressList : List Address)
  | name (hostname : Datagram)
  /-- the branch `Failed to resolve host` -/
  | failed
  deriving DecidableEq, Repr

/-- Before `deinit`, after it, and after `release_deferred`. -/
inductive Phase
  | running
  | deinitialized
  | over
  deriving DecidableEq, Repr

/-- What stays the same: the resolver configuration, the number of cache slots and the hash of
`get_cache_slot`. -/
structure Setup where
  configuration : Configuration
  ipv6Supported : Bool
  cacheSlots : ℕ
  hash : Datagram → ℕ
  slots_pos : 0 < cacheSlots

/-- `get_cache_slot`. -/
def Setup.getCacheSlot (s : Setup) (hostname : Datagram) : ℕ := s.hash hostname % s.cacheSlots

/-- `DNS`. Cells are never allocated at an address used before. -/
structure DNS where
  cacheEntries : ℕ → Lru Datagram ℕ 1024
  records : ℕ → Option RecordCell
  nextRecord : ℕ
  controls : List ControlCell
  requests : List Request
  ready : List Dispatched
  ran : List (CallbackId × Seen)
  phase : Phase
  /-- a function of the cache used a record or a control data that is not there -/
  useAfterFree : Bool

/-- `DNS.init`. -/
def DNS.init : DNS where
  cacheEntries := fun _ => .empty
  records := fun _ => none
  nextRecord := 0
  controls := []
  requests := []
  ready := []
  ran := []
  phase := .running
  useAfterFree := false

/-- The callbacks an extension of a trace dispatches. -/
def dispatches (trace : List Effect) : List Dispatched :=
  trace.filterMap fun
    | .dispatch callback cancelled => some ⟨callback, cancelled⟩
    | _ => none

namespace DNS

/-! ### Memory -/

/-- Overwrite a cell of the heap of records. -/
def setCell (w : DNS) (r : ℕ) (cell : Option RecordCell) : DNS :=
  { w with records := Function.update w.records r cell }

/-- Overwrite a cache slot. -/
def setCache (w : DNS) (slot : ℕ) (c : Lru Datagram ℕ 1024) : DNS :=
  { w with cacheEntries := Function.update w.cacheEntries slot c }

/-- A function of the cache used what is not there. -/
def fault (w : DNS) : DNS := { w with useAfterFree := true }

/-- The lookup of a control data, with the record it points to. No function of a lookup uses the
record once `record_evicted` is set. -/
def view (w : DNS) (cd : ControlCell) : Lookup :=
  { cd.lookup with
    record := if cd.lookup.recordEvicted then none else (w.records cd.record).map (·.record) }

/-- Write a record to its cell. -/
def writeRecord (w : DNS) (r : ℕ) : Option Record → DNS
  | none => w
  | some record =>
    match w.records r with
    | none => w.fault
    | some cell => w.setCell r (some { cell with record := record })

/-- Write a lookup back to its control data and its record, and queue what it dispatched. -/
def store (w : DNS) (c : ℕ) (cd : ControlCell) (l : Lookup) : DNS :=
  let w := w.writeRecord cd.record l.record
  { w with
    controls := w.controls.set c ⟨{ l with record := none }, cd.record⟩
    ready := w.ready ++ dispatches (l.trace.drop cd.lookup.trace.length) }

/-- A new control data for a record. -/
def addControl (w : DNS) (l : Lookup) (r : ℕ) : DNS :=
  let w := w.writeRecord r l.record
  { w with controls := w.controls ++ [⟨{ l with record := none }, r⟩] }

/-! ### The cache -/

/-- Set `record_evicted` of a control data. -/
def setRecordEvicted (w : DNS) : Option ℕ → DNS
  | none => w.fault
  | some c =>
    match w.controls[c]? with
    | none => w.fault
    | some cd =>
      { w with
        controls := w.controls.set c { cd with lookup := { cd.lookup.touch with recordEvicted := true } } }

/-- `evict_record`. -/
def evictRecord (w : DNS) (r : ℕ) : DNS :=
  match w.records r with
  | none => w.fault
  | some cell =>
    match cell.record.state with
    | .pending => (w.setRecordEvicted cell.controlData).setCell r none
    | _ => w.setCell r none

/-- The evict callbacks of a cache operation. -/
def evictAll (w : DNS) (entries : List (Datagram × ℕ)) : DNS :=
  entries.foldl (fun w p => w.evictRecord p.2) w

/-- `Cache.get`. -/
def cacheGet (w : DNS) (slot : ℕ) (hostname : Datagram) (now : ℤ) : DNS × Option ℕ :=
  match (w.cacheEntries slot).get hostname with
  | (none, _) => (w, none)
  | (some r, c) =>
    match w.records r with
    | none => (w.fault, none)
    | some cell =>
      if cell.record.expireAt < now then
        let removed := c.remove hostname
        ((w.setCache slot removed.2).evictAll removed.1, none)
      else (w.setCache slot c, some r)

/-- `create_new_record` and `create_new_record_from_resolved`, when the name and the record could be
allocated; `alloc` is the entry of the cache. -/
def createRecord (w : DNS) (slot : ℕ) (cell : RecordCell) (alloc : Bool) : DNS × Option ℕ :=
  match (w.cacheEntries slot).put cell.hostname w.nextRecord alloc with
  | (evicted, c, true) =>
    (({ w with nextRecord := w.nextRecord + 1 }.setCell w.nextRecord (some cell)).setCache
      slot c |>.evictAll evicted, some w.nextRecord)
  | (evicted, c, false) => ((w.setCache slot c).evictAll evicted, none)

/-- What `append_callback` returns. -/
inductive Appended
  | ok
  | recordNotPending
  | recordAlreadyResolved
  | outOfMemory
  deriving DecidableEq, Repr

/-- `append_callback`. -/
def appendCallback (w : DNS) (r : ℕ) (callback : CallbackId) (alloc : Bool) : DNS × Appended :=
  match w.records r with
  | none => (w.fault, .recordNotPending)
  | some cell =>
    match cell.record.state with
    | .pending =>
      match cell.controlData.bind fun c => (w.controls[c]?).map (c, ·) with
      | none => (w.fault, .recordNotPending)
      | some (c, cd) =>
        if cd.lookup.resolved then
          ({ w with controls := w.controls.set c { cd with lookup := cd.lookup.touch } },
            .recordAlreadyResolved)
        else if alloc = false then
          ({ w with controls := w.controls.set c { cd with lookup := cd.lookup.touch } },
            .outOfMemory)
        else
          ({ w with
              controls := w.controls.set c
                { cd with
                  lookup := { cd.lookup.touch with
                    userCallbacks := cd.lookup.userCallbacks ++ [callback] } } }, .ok)
    | _ => (w, .recordNotPending)

/-- The state of a record. -/
def state? (w : DNS) (r : ℕ) : Option RecordState := (w.records r).map fun cell => cell.record.state

/-! ### Starting a lookup -/

/-- A step of `prepare_data` and `queue` that can fail. -/
inductive QueueStep
  /-- the control data, the name or the record of `create_new_record` -/
  | controlData
  | hostname
  | record
  /-- the entry of the cache -/
  | put
  /-- the list of callbacks, the servers, the candidates, the node of `pending_queries` -/
  | callback
  | queries
  | hostnames
  | node
  /-- the queries or the socket of a server -/
  | build (server : ℕ)
  /-- the first send of a server -/
  | send (server : ℕ)
  deriving DecidableEq, Repr

/-- What a call of `queue` meets: the step that fails, the transaction ids and the sockets. -/
structure QueueEnv where
  failing : Option QueueStep
  ids : ℕ → ℕ → UInt16
  fds : ℕ → ℕ

/-- The `errdefer` of `prepare_data`: the callbacks are dropped and the control data is released. -/
def failPrepare (w : DNS) (r : ℕ) (record : Record) : DNS :=
  w.addControl
    (Lookup.controlRelease { servers := [], userCallbacks := [], record := some record }) r

/-- The callbacks are dropped, and the record is discarded and left alone from then on. -/
def disown (l : Lookup) : Lookup :=
  { { l with userCallbacks := [] }.discardRecord with recordEvicted := true }

/-- The `errdefer` of `queue`, after the first sends of `sent` servers. -/
def failQueue (w : DNS) (r : ℕ) (l : Lookup) (sent : ℕ) : DNS :=
  if sent = 0 then w.addControl { disown l with servers := [] }.controlRelease r
  else w.addControl { disown l with servers := l.servers.take sent }.cancelUnfinished r

/-- `prepare_data` and `queue`; the flag is `false` when an error is returned. -/
def queue (s : Setup) (w : DNS) (slot : ℕ) (hostname : Datagram) (callback : CallbackId)
    (ipv6Supported : Bool) (questionType : Option QuestionType) (env : QueueEnv) : DNS × Bool :=
  if env.failing = some .controlData ∨ env.failing = some .hostname ∨ env.failing = some .record then
    (w, false)
  else
    let pending : Record := ⟨.pending, 9223372036854775807⟩
    match w.createRecord slot ⟨hostname, pending, some w.controls.length⟩
        (env.failing ≠ some .put) with
    | (w, none) => (w, false)
    | (w, some r) =>
      match Dns.queue hostname callback s.configuration ipv6Supported questionType env.ids
          env.fds with
      | none => (w.failPrepare r pending, false)
      | some l =>
        match env.failing with
        | some (.build server) =>
          if server < l.servers.length then (w.failPrepare r pending, false)
          else (w.addControl l r, true)
        | some (.send server) =>
          if server < l.servers.length then (w.failQueue r l server, false)
          else (w.addControl l r, true)
        | some _ => (w.failPrepare r pending, false)
        | none => (w.addControl l r, true)

/-! ### The entry points -/

/-- A step of the synchronous answer of `lookup` that can fail: the copy of the addresses, and the
name, the record and the entry of `create_new_record_from_resolved`. -/
inductive SeedStep
  | dupe
  | hostname
  | record
  | put
  deriving DecidableEq, Repr

/-- What a call meets: the clock, the failing steps, and whether `append_callback` and the ready
queue get their memory. -/
structure CallEnv where
  now : ℤ
  seed : Option SeedStep
  append : Bool
  dispatch : Bool
  queue : QueueEnv

/-- What `lookup` and `reverse_lookup` return; a reverse lookup also dispatches its callback. -/
inductive Outcome
  | error
  | null
  | addresses (addressList : List Address)
  | dispatched
  deriving DecidableEq, Repr

/-- `append_callback`, and `queue` when the record is not pending. -/
def attachOrQueue (s : Setup) (w : DNS) (slot r : ℕ) (hostname : Datagram) (callback : CallbackId)
    (ipv6Supported : Bool) (questionType : Option QuestionType) (env : CallEnv) : DNS × Outcome :=
  match w.appendCallback r callback env.append with
  | (w, .ok) => (w, .null)
  | (w, .outOfMemory) => (w, .error)
  | (w, _) =>
    let (w, ok) := w.queue s slot hostname callback ipv6Supported questionType env.queue
    (w, if ok then .null else .error)

/-- The synchronous answer of `lookup`: the addresses are put in the cache and returned. -/
def seed (w : DNS) (slot : ℕ) (hostname : Datagram) (addresses : List Address) (env : CallEnv) :
    DNS × Outcome :=
  if env.seed = some .dupe ∨ env.seed = some .hostname ∨ env.seed = some .record then (w, .null)
  else
    match w.createRecord slot
        ⟨hostname, ⟨.resolved addresses, env.now + computeEffectiveTtl 60⟩, none⟩
        (env.seed ≠ some .put) with
    | (w, none) => (w, .null)
    | (w, some _) => (w, .addresses addresses)

/-- `lookup`. -/
def lookup (s : Setup) (w : DNS) (hostname : Datagram) (callback : Option CallbackId)
    (env : CallEnv) : DNS × Outcome :=
  if hostname.length > 255 then (w, .error)
  else
    let parsedHostname := lowerString hostname
    let slot := s.getCacheSlot parsedHostname
    match w.cacheGet slot parsedHostname env.now with
    | (w, none) =>
      match callback with
      | none => (w, .null)
      | some callback =>
        match resolveAddress parsedHostname s.ipv6Supported with
        | none => (w, .error)
        | some [] =>
          let (w, ok) := w.queue s slot parsedHostname callback s.ipv6Supported none env.queue
          (w, if ok then .null else .error)
        | some addresses => w.seed slot parsedHostname addresses env
    | (w, some r) =>
      match (w.records r).bind fun cell => cell.record.getAddressList with
      | some addresses => (w, .addresses addresses)
      | none =>
        match callback with
        | none => (w, .null)
        | some callback =>
          w.attachOrQueue s slot r parsedHostname callback s.ipv6Supported none env

/-- `reverse_lookup`. -/
def reverseLookup (s : Setup) (w : DNS) (address : Address) (callback : CallbackId)
    (env : CallEnv) : DNS × Outcome :=
  let name := buildReverseName address
  let slot := s.getCacheSlot name
  match w.cacheGet slot name env.now with
  | (w, none) =>
    let (w, ok) := w.queue s slot name callback false (some .ptr) env.queue
    (w, if ok then .null else .error)
  | (w, some r) =>
    match w.state? r with
    | some (.ptr _) =>
      if env.dispatch then ({ w with ready := w.ready ++ [⟨callback, false⟩] }, .dispatched)
      else (w, .error)
    | _ => w.attachOrQueue s slot r name callback false (some .ptr) env

/-- What the callback of a call reads: `getaddrinfo_callback`, `z_host_resolved_callback` and
`getnameinfo_callback`. -/
def readBack (s : Setup) (w : DNS) (request : Request) (env : CallEnv) : DNS × Seen :=
  if request.reverse then
    match w.cacheGet (s.getCacheSlot request.name) request.name env.now with
    | (w, none) => (w, .failed)
    | (w, some r) =>
      match w.state? r with
      | some (.ptr name) => (w, .name name)
      | _ => (w, .failed)
  else
    match w.lookup s request.name none env with
    | (w, .addresses addresses) => (w, .addresses addresses)
    | (w, _) => (w, .failed)

/-- `ControlData.release` while the loop is torn down: the destruction is deferred. -/
def deferRelease (l : Lookup) : Lookup :=
  if l.released then l
  else
    let l := { l with released := true }
    let l :=
      if l.resolved then l
      else (if l.recordEvicted then l else l.discardRecord).dispatchAll true
    l.emit .released

/-- Release a control data that is still in `pending_queries`. -/
def deferControl (w : DNS) (c : ℕ) : DNS :=
  match w.controls[c]? with
  | none => w
  | some cd => if cd.lookup.released then w else w.store c cd (deferRelease (w.view cd))

/-- `Cache.deinit`. -/
def deinitCache (w : DNS) (slot : ℕ) : DNS :=
  (w.setCache slot .empty).evictAll (w.cacheEntries slot).entries

/-- `DNS.deinit`. -/
def deinit (s : Setup) (w : DNS) : DNS :=
  let w := (List.range s.cacheSlots).foldl deinitCache w
  { (List.range w.controls.length).foldl deferControl w with phase := .deinitialized }

/-- `release_deferred`. -/
def releaseDeferred (w : DNS) : DNS :=
  { w with
    controls := w.controls.map fun cd => { cd with lookup := { cd.lookup with destroyed := true } }
    phase := .over }

/-! ### Runs -/

/-- What can happen to the resolver. -/
inductive Event
  /-- a caller looks a name up -/
  | lookup (hostname : Datagram) (env : CallEnv)
  /-- a caller asks for the name of an address -/
  | reverseLookup (address : Address) (env : CallEnv)
  /-- an operation of a control data completed, or its callback failed -/
  | server (control : ℕ) (event : Lookup.Event)
  /-- a callback in the ready queue runs -/
  | run (index : ℕ) (env : CallEnv)
  | deinit
  | releaseDeferred

/-- An operation of a control data, unlike `attach` and `evict`, which go through the cache. -/
def serverEvent (w : DNS) (c : ℕ) (e : Lookup.Event) : Option DNS :=
  match w.controls[c]? with
  | none => none
  | some cd => if e.completes then ((w.view cd).step e).map (w.store c cd) else none

/-- Run a callback of the ready queue. -/
def runCallback (s : Setup) (w : DNS) (index : ℕ) (env : CallEnv) : Option DNS :=
  match w.ready[index]? with
  | none => none
  | some d =>
    let w := { w with ready := w.ready.eraseIdx index }
    if d.cancelled then some { w with ran := w.ran ++ [(d.callback, .cancelled)] }
    else
      match w.requests[d.callback]? with
      | none => none
      | some request =>
        let (w, seen) := w.readBack s request env
        some { w with ran := w.ran ++ [(d.callback, seen)] }

/-- What an event does; `none` when it cannot happen. -/
def step (s : Setup) (w : DNS) (e : Event) : Option DNS :=
  match w.phase, e with
  | .running, .lookup hostname env =>
    some ({ w with requests := w.requests ++ [Request.mk hostname false] }.lookup s hostname
      (some w.requests.length) env).1
  | .running, .reverseLookup address env =>
    some ({ w with requests := w.requests ++ [Request.mk (buildReverseName address) true] }.reverseLookup s
      address w.requests.length env).1
  | .running, .server c e => w.serverEvent c e
  | .running, .run index env => w.runCallback s index env
  | .running, .deinit => some (w.deinit s)
  | .deinitialized, .server c e => w.serverEvent c e
  | .deinitialized, .releaseDeferred => some w.releaseDeferred
  | _, _ => none

end DNS

end Talyn.Dns
