import Talyn.Dns.Message

/-!
# One DNS lookup

A lookup queries every nameserver of the configuration at the same time. `ControlData` holds what
the servers share: the callbacks of the callers, the number of servers that have finished, and the
cache record the callers attach to. A `ServerQueryData` sends its queries one after the other and
then reads one datagram after the other.

`Lookup` is the control data with its record. It also has what the kernel and the executor hold for
a server (`op`) and what the statements speak about: which functions touched the control data after
it was destroyed, who resolved the lookup and what the lookup did to the outside (`trace`).
-/

namespace Talyn.Dns

/-- A caller's callback. -/
abbrev CallbackId := ℕ

/-- What is pending for a server: a send, a read, or the cleanup of a callback that failed. -/
inductive Op
  | sending
  | reading
  | cleanup
  deriving DecidableEq, Repr

/-- `ServerQueryData`. `op` is the operation outstanding for it and `history` the datagrams it
received, oldest first. -/
structure ServerQueryData where
  socketFd : Option ℕ
  hostnamesLen : ℕ
  queries : List QuerySlot
  sendIdx : ℕ := 0
  responsesReceived : ℕ := 0
  answers : Answers := {}
  finished : Bool := false
  op : Option Op
  history : List Datagram := []
  deriving DecidableEq, Repr, Inhabited

/-- `RecordState`. -/
inductive RecordState
  | pending
  | resolved (addressList : List Address)
  | ptr (hostname : Datagram)
  | none
  deriving DecidableEq, Repr

/-- `Cache.Record`. -/
structure Record where
  state : RecordState
  expireAt : ℤ
  deriving DecidableEq, Repr

/-- `compute_effective_ttl`. -/
def computeEffectiveTtl (ttl : ℕ) : ℤ :=
  if ttl = maxTtl then 60 else min (ttl : ℤ) (86400 * 7)

/-- What made a server resolve the lookup. -/
inductive Cause
  | sendFailed
  | readFailed
  | datagram
  deriving DecidableEq, Repr

/-- How a lookup was resolved: by which server, what this server had collected and received, and
which other servers had not finished. -/
structure Resolution where
  server : ℕ
  cause : Cause
  answers : Answers
  history : List Datagram
  outstanding : List ℕ
  deriving DecidableEq, Repr

/-- What a lookup does to the outside. -/
inductive Effect
  | closeSocket (server : ℕ)
  | finished (server : ℕ)
  | dispatch (callback : CallbackId) (cancelled : Bool)
  | released
  deriving DecidableEq, Repr

/-- `ControlData` with its record; the record is `none` once the cache destroyed it. -/
structure Lookup where
  servers : List ServerQueryData
  userCallbacks : List CallbackId
  tasksFinished : ℕ := 0
  resolved : Bool := false
  recordEvicted : Bool := false
  released : Bool := false
  record : Option Record
  destroyed : Bool := false
  useAfterFree : Bool := false
  resolution : Option Resolution := none
  trace : List Effect := []
  deriving DecidableEq, Repr

namespace Lookup

/-! ### The shared state -/

/-- The data of a server. -/
def server (l : Lookup) (i : ℕ) : ServerQueryData := l.servers.getD i default

/-- Overwrite the data of a server. -/
def setServer (l : Lookup) (i : ℕ) (sd : ServerQueryData) : Lookup :=
  { l with servers := l.servers.set i sd }

/-- Record an effect. -/
def emit (l : Lookup) (e : Effect) : Lookup := { l with trace := l.trace ++ [e] }

/-- Every function that reads or writes the control data begins with an access to it. -/
def touch (l : Lookup) : Lookup := if l.destroyed then { l with useAfterFree := true } else l

/-- Write to the cache record. -/
def setRecord (l : Lookup) (r : Record) : Lookup :=
  match l.record with
  | some _ => { l with record := some r }
  | none => { l with useAfterFree := true }

/-- `Record.discard`. -/
def discardRecord (l : Lookup) : Lookup := l.setRecord ⟨.none, 0⟩

/-- Pass every callback to `Soon.dispatch`. -/
def dispatchAll (l : Lookup) (cancelled : Bool) : Lookup :=
  { l with trace := l.trace ++ l.userCallbacks.map (Effect.dispatch · cancelled) }

/-- `should_fail_resolution_on_server_finish`. -/
def shouldFailResolutionOnServerFinish (l : Lookup) : Bool :=
  l.tasksFinished + 1 = l.servers.length ∧ l.resolved = false

/-! ### Release -/

/-- `ServerQueryData.cancel`: the cancel of its operations is queued and the socket is closed. -/
def cancel (l : Lookup) (i : ℕ) : Lookup :=
  match (l.server i).socketFd with
  | none => l
  | some _ => (l.setServer i { l.server i with socketFd := none }).emit (.closeSocket i)

/-- `ControlData.release`. -/
def controlRelease (l : Lookup) : Lookup :=
  if l.released then l
  else
    let l := { l with released := true }
    let l :=
      if l.resolved then l
      else (if l.recordEvicted then l else l.discardRecord).dispatchAll true
    { l with destroyed := true }.emit .released

/-- A server is finished: its socket is closed and it is counted. -/
def finishServer (l : Lookup) (i : ℕ) : Lookup :=
  let l := (l.setServer i { l.server i with finished := true }).cancel i
  { l with tasksFinished := l.tasksFinished + 1 }.emit (.finished i)

/-- `ServerQueryData.release`, also the cleanup of its callbacks. -/
def release (l : Lookup) (i : ℕ) : Lookup :=
  let l := l.touch
  if (l.server i).finished then l
  else
    let l := l.finishServer i
    if l.tasksFinished = l.servers.length then l.controlRelease else l

/-! ### Resolution -/

/-- The loop of `mark_resolved_and_execute_user_callbacks` over the servers. -/
def cancelUnfinished (l : Lookup) : Lookup :=
  (List.range l.servers.length).foldl
    (fun l i => if (l.server i).finished then l else l.cancel i) l

/-- The record setup of `mark_resolved_and_execute_user_callbacks`; `none` when the copy for the
cache cannot be allocated. -/
def setupRecord (l : Lookup) (a : Answers) (dupe : Bool) (now : ℤ) : Option Lookup :=
  if l.recordEvicted then some l
  else
    match a.ptrResults, a.results with
    | name :: _, _ =>
      if dupe then some (l.setRecord ⟨.ptr name, now + computeEffectiveTtl a.minTtl⟩) else none
    | [], _ :: _ =>
      if dupe then some (l.setRecord ⟨.resolved a.results, now + computeEffectiveTtl a.minTtl⟩)
      else none
    | [], [] => some l.discardRecord

/-- The servers other than `i` that have not finished. -/
def outstanding (l : Lookup) (i : ℕ) : List ℕ :=
  (List.range l.servers.length).filter fun j => j ≠ i && !(l.server j).finished

/-- The resolution a server brings about. -/
def resolutionBy (l : Lookup) (i : ℕ) (cause : Cause) : Resolution where
  server := i
  cause := cause
  answers := (l.server i).answers
  history := (l.server i).history
  outstanding := l.outstanding i

/-- `mark_resolved_and_execute_user_callbacks`; the flag is `false` when it returns an error. -/
def markResolved (l : Lookup) (i : ℕ) (cause : Cause) (dupe : Bool) (now : ℤ) : Lookup × Bool :=
  if l.touch.resolved then (l.touch, true)
  else
    let l' := { l.touch with resolved := true }.cancelUnfinished
    match l'.setupRecord (l.server i).answers dupe now with
    | none => ({ l' with resolved := false }, false)
    | some l'' => ({ l'' with resolution := some (l.resolutionBy i cause) }.dispatchAll false, true)

/-- A callback of the server returned an error: the executor calls the exception handler and then
the cleanup. -/
def callbackFailed (l : Lookup) (i : ℕ) : Lookup :=
  l.setServer i { l.server i with op := some .cleanup }

/-- `try mark_resolved_and_execute_user_callbacks(server_data); server_data.release();` -/
def resolveAndRelease (l : Lookup) (i : ℕ) (cause : Cause) (dupe : Bool) (now : ℤ) : Lookup :=
  match l.markResolved i cause dupe now with
  | (l, true) => l.release i
  | (l, false) => l.callbackFailed i

/-! ### Completions -/

/-- `queue_next_response_read`. -/
def queueNextResponseRead (l : Lookup) (i : ℕ) : Lookup :=
  l.setServer i { l.server i with op := some .reading }

/-- Queue the send of the query at `send_idx`. -/
def queueSend (l : Lookup) (i : ℕ) : Lookup :=
  l.setServer i { l.server i with op := some .sending }

/-- `on_query_sent`. -/
def onQuerySent (l : Lookup) (i : ℕ) (failed cancelled dupe : Bool) (now : ℤ) : Lookup :=
  if failed ∨ l.resolved ∨ cancelled then
    if l.shouldFailResolutionOnServerFinish then l.resolveAndRelease i .sendFailed dupe now
    else l.release i
  else
    let sd := { l.server i with sendIdx := (l.server i).sendIdx + 1 }
    if sd.sendIdx < sd.queries.length then (l.setServer i sd).queueSend i
    else (l.setServer i sd).queueNextResponseRead i

/-- Count a datagram. -/
def countResponse (l : Lookup) (i : ℕ) : Lookup :=
  l.setServer i { l.server i with responsesReceived := (l.server i).responsesReceived + 1 }

/-- The branches of `process_dns_response` that drop a datagram. The one for bad flags is `guarded`:
it resolves only when the server has answers or is the last one; the others always resolve. -/
def dropResponse (l : Lookup) (i : ℕ) (guarded dupe : Bool) (now : ℤ) : Lookup :=
  let l := l.countResponse i
  let sd := l.server i
  if sd.responsesReceived < sd.queries.length ∧ l.resolved = false then l.queueNextResponseRead i
  else if guarded = false ∨ sd.answers.isEmpty = false ∨ l.shouldFailResolutionOnServerFinish then
    l.resolveAndRelease i .datagram dupe now
  else l.release i

/-- `types_per_host` of `process_dns_response`. -/
def typesPerHost (sd : ServerQueryData) : ℕ :=
  if sd.hostnamesLen > 0 ∧ sd.queries.length ≥ sd.hostnamesLen * 2 then 2 else 1

/-- The end of `process_dns_response`. -/
def finishResponse (l : Lookup) (i : ℕ) (dupe : Bool) (now : ℤ) : Lookup :=
  let l := l.countResponse i
  let sd := l.server i
  let currentCandidateDone := sd.responsesReceived % typesPerHost sd = 0
  if sd.answers.isEmpty = false ∧
      (currentCandidateDone ∨ sd.responsesReceived ≥ sd.queries.length) then
    l.resolveAndRelease i .datagram dupe now
  else if sd.responsesReceived < sd.queries.length ∧ l.resolved = false then
    l.queueNextResponseRead i
  else if sd.answers.isEmpty = false ∨ l.shouldFailResolutionOnServerFinish then
    l.resolveAndRelease i .datagram dupe now
  else l.release i

/-- The answers of an accepted datagram. -/
def acceptResponse (l : Lookup) (i : ℕ) (response : Datagram) (allocs : Allocs) (now : ℤ) :
    Lookup :=
  let collected := collectAnswers response allocs (l.server i).answers
  let l := l.setServer i { l.server i with answers := collected.1 }
  if collected.2 then l.finishResponse i allocs.dupe now else l.callbackFailed i

/-- `process_dns_response` for a datagram the kernel stored. -/
def datagramReceived (l : Lookup) (i : ℕ) (response : Datagram) (allocs : Allocs) (now : ℤ) :
    Lookup :=
  match classify (l.server i).queries response with
  | .unmatched => l.finishResponse i allocs.dupe now
  | .badFlags => l.dropResponse i true allocs.dupe now
  | .truncated | .badQdcount | .shortQuestion | .questionMismatch =>
    l.dropResponse i false allocs.dupe now
  | .accepted => l.acceptResponse i response allocs now

/-- `process_dns_response`; no datagram stands for an error or a timeout of the read. -/
def processDnsResponse (l : Lookup) (i : ℕ) (response : Option Datagram) (cancelled : Bool)
    (allocs : Allocs) (now : ℤ) : Lookup :=
  if cancelled ∨ l.resolved then l.release i
  else
    match response with
    | none =>
      if (l.server i).answers.isEmpty = false ∨ l.shouldFailResolutionOnServerFinish then
        l.resolveAndRelease i .readFailed allocs.dupe now
      else l.release i
    | some response => l.datagramReceived i response allocs now

/-! ### The cache -/

/-- `append_callback`, for a caller that finds the record; `alloc` is the slot of the list. -/
def appendCallback (l : Lookup) (r : Record) (callback : CallbackId) (alloc : Bool) : Lookup :=
  match r.state with
  | .pending =>
    let l := l.touch
    if l.resolved ∨ alloc = false then l
    else { l with userCallbacks := l.userCallbacks ++ [callback] }
  | _ => l

/-- `evict_record`: the record is destroyed. -/
def evictRecord (l : Lookup) (r : Record) : Lookup :=
  match r.state with
  | .pending => { l.touch with recordEvicted := true, record := none }
  | _ => { l with record := none }

/-! ### Runs -/

/-- What can happen to a lookup once its first queries are queued. -/
inductive Event
  /-- the send of a server completed -/
  | querySent (server : ℕ) (failed cancelled dupe : Bool) (now : ℤ)
  /-- the read of a server completed; no datagram stands for an error or a timeout -/
  | response (server : ℕ) (datagram : Option Datagram) (cancelled : Bool) (allocs : Allocs) (now : ℤ)
  /-- the executor cleans up after a callback of a server that failed -/
  | cleanup (server : ℕ)
  /-- a caller looks the same name up -/
  | attach (callback : CallbackId) (alloc : Bool)
  /-- the cache destroys the record -/
  | evict

/-- The operation of a server is over. -/
def complete (l : Lookup) (i : ℕ) (received : Option Datagram) : Lookup :=
  l.setServer i
    { l.server i with op := none, history := (l.server i).history ++ received.toList }

/-- What an event does; `none` when it cannot happen. The receive buffer has 512 bytes. -/
def step (l : Lookup) : Event → Option Lookup
  | .querySent i failed cancelled dupe now =>
    if (l.server i).op = some .sending then
      some ((l.complete i none).touch.onQuerySent i failed cancelled dupe now)
    else none
  | .response i datagram cancelled allocs now =>
    if (l.server i).op = some .reading ∧ ∀ d ∈ datagram, d.length ≤ 512 then
      some ((l.complete i datagram).touch.processDnsResponse i datagram cancelled allocs now)
    else none
  | .cleanup i =>
    if (l.server i).op = some .cleanup then some ((l.complete i none).release i) else none
  | .attach callback alloc => l.record.map fun r => l.appendCallback r callback alloc
  | .evict => l.record.map l.evictRecord

end Lookup

/-- `Configuration`. `parse_resolv_configuration` adds a default server when the file names none. -/
structure Configuration where
  servers : List Address
  search : List Datagram
  servers_ne_nil : servers ≠ []

/-- `queue`, when every socket is opened and every first send is queued; `none` when no candidate
name is short enough. `ids` are the random transaction ids of a server and `fds` the sockets. -/
def queue (hostname : Datagram) (userCallback : CallbackId) (configuration : Configuration)
    (ipv6Supported : Bool) (questionType : Option QuestionType) (ids : ℕ → ℕ → UInt16)
    (fds : ℕ → ℕ) : Option Lookup :=
  let hostnames := getHostnameArray hostname configuration.search
  if hostnames.length = 0 then none
  else
    some
      { servers := configuration.servers.mapIdx fun i _ =>
          { socketFd := some (fds i)
            hostnamesLen := hostnames.length
            queries := buildQueries (questionTypes ipv6Supported questionType) hostnames (ids i)
            op := some .sending }
        userCallbacks := [userCallback]
        record := some ⟨.pending, 9223372036854775807⟩ }

end Talyn.Dns
