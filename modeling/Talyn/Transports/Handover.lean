import Talyn.Transports.ReadSide

/-!
# The protocol of a transport changes

`set_protocol` while reads are in flight or harvested. The transport is the `Machine` of the other modules;
around it stand the kernel, which stores the bytes of a read into memory, the completion batch of the loop
(`fetch_completed_tasks`, `dispatch_completion_batch`), the ready queue, and the protocols. The kind of the
protocol is looked up when a read is queued, when it is harvested, and when its bytes are passed on.

A protocol is known by its number, and so is the memory behind a buffer that `get_buffer` returned: it may
return the same memory again. Of the bytes the model keeps which read stored them, and how many. Reads
complete in any order. A stream function that queues a read leaves it in `pendingReads`, from where it is
moved to `reads`.
-/

namespace Talyn

namespace Handover

/-- The memory a read stores into: the transport's own buffer, or memory of the Python code. -/
inductive Region
  | internal
  | python (memory : ℕ)
  deriving DecidableEq, Repr

/-- The `op` of a `CompletionRecord`. -/
inductive Op
  | dataReceived
  | bufferUpdated
  deriving DecidableEq, Repr

/-- A `CompletionRecord` of the transport, with the read it stands for and the memory of that read. -/
structure Record where
  op : Op
  /-- `buffer_ptr` -/
  source : Option Region
  nbytes : ℕ
  generation : ℕ
  read : ℕ
  region : Region
  deriving DecidableEq, Repr

/-- How far a read has come whose callback has not run: the kernel stores its bytes, and then the loop may
harvest it into the completion batch. -/
inductive Phase
  | inFlight
  | stored (nbytes : ℕ)
  | batched (nbytes : ℕ)
  deriving DecidableEq, Repr

/-- A read whose callback has not run. -/
structure Read where
  id : ℕ
  region : Region
  phase : Phase
  deriving DecidableEq, Repr

/-- A call that passes bytes of a read to a protocol. -/
inductive Delivery
  /-- `data_received`; the bytes of its argument were stored by the read `bytes` -/
  | dataReceived (read nbytes : ℕ) (bytes : Option ℕ)
  /-- `buffer_updated(nbytes)` of a protocol, for bytes that lie in `region` -/
  | bufferUpdated (read nbytes : ℕ) (region : Region) (protocol : ℕ)
  deriving DecidableEq, Repr

/-- The read, and the number of its bytes. -/
def Delivery.key : Delivery → ℕ × ℕ
  | .dataReceived read nbytes _ | .bufferUpdated read nbytes _ _ => (read, nbytes)

/-- The stored bytes of a read that waits for the harvest or for its callback to pass them on. -/
def Read.undelivered (r : Read) : Option (ℕ × ℕ) :=
  match r.phase with
  | .stored nbytes => some (r.id, nbytes)
  | _ => none

/-- The stored bytes of a record. -/
def Record.key (r : Record) : ℕ × ℕ := (r.read, r.nbytes)

/-- The end of `read_operation_completed` after the protocol was called. `queue_read_operation` gets the
kind of protocol that was installed before the call; without a `get_buffer` it fails, and no exception is
set. -/
def rearmAs (s : Stream) (type : ProtocolType) (held : Option ℕ) (task : TaskId) :
    Stream × Option Frame :=
  if type = s.protocol.type then s.rearmRead held .success task
  else if !s.isReading || s.read.isClosing || decide (s.read.blockingTaskId ≠ 0) then
    (s.finishRead held .success, none)
  else
    match type with
    | .legacy => ((s.performRead task).finishRead held .success, none)
    | .buffered =>
        ((s.releaseProtocolBuffer held).maybeCloseFd.emit .callExceptionHandler, some .readCleanup)

/-- The Python code a transport function was waiting for returned. -/
def frameReturned (s : Stream) (frame : Frame) (type : ProtocolType) (keepOpen : Bool) (task : TaskId) :
    Stream × Option Frame :=
  match frame with
  | .dataReceived held => rearmAs s type held task
  | frame => Machine.frameReturned s frame keepOpen task

end Handover

/-- A transport with its protocols, its reads and their bytes. -/
structure Handover where
  machine : Machine
  /-- the installed protocol -/
  protocol : ℕ
  /-- for each waiting function of the transport: the protocol it called, and its kind -/
  callers : List (ℕ × ProtocolType)
  reads : List Handover.Read
  /-- the number of reads -/
  next : ℕ
  /-- the memory of `buffer_to_read` -/
  bufferToRead : Handover.Region
  /-- the read that stored into a memory last -/
  memory : Handover.Region → Option ℕ
  /-- the protocols, with the memory that their `get_buffer` returned -/
  returned : List (ℕ × ℕ)
  /-- the records of the transport in the completion batch -/
  records : List Handover.Record
  /-- what the kernel stored: the reads, with the number of bytes -/
  stored : List (ℕ × ℕ)
  deliveries : List Handover.Delivery

namespace Handover

/-- A read was queued. -/
def arm (w : Handover) (region : Region) : Handover :=
  { w with
    reads := w.reads ++ [⟨w.next, region, .inFlight⟩]
    next := w.next + 1
    bufferToRead := region }

/-- The transport goes on as `m`. A read that it queued goes into `memory` if it took a buffer for it. -/
def settle (w : Handover) (memory : ℕ) (m : Machine) : Handover :=
  let region :=
    if m.stream.protocolBuffersAcquired = w.machine.stream.protocolBuffersAcquired then .internal
    else .python memory
  let v : Handover :=
    { w with
      machine := { m with stream := { m.stream with pendingReads := [] } }
      callers := List.replicate (m.frames.length - w.callers.length)
        (w.protocol, w.machine.stream.protocol.type) ++ w.callers }
  if m.stream.pendingReads = [] then v else v.arm region

/-- A transport with its first read queued. -/
def init (protocol : Protocol) (fd fixedFileIndex : ℕ) (ownsFd serverRef : Bool) (task : TaskId) :
    Handover :=
  let region := match protocol.type with
    | .legacy => Region.internal
    | .buffered => .python 0
  let m := Machine.init protocol fd fixedFileIndex ownsFd serverRef task
  arm
    { machine := { m with stream := { m.stream with pendingReads := [] } }
      protocol := 0
      callers := []
      reads := []
      next := 0
      bufferToRead := .internal
      memory := fun _ => none
      returned := match protocol.type with
        | .legacy => []
        | .buffered => [(0, 0)]
      records := []
      stored := []
      deliveries := [] }
    region

/-- The bytes of a read or of a record are passed to the protocol that is installed. -/
def deliver (w : Handover) (d : Delivery) : Handover := { w with deliveries := w.deliveries ++ [d] }

/-- `fetch_completed_tasks` for a successful read that goes into the completion batch. -/
def harvest (w : Handover) (i : ℕ) (r : Read) (nbytes : ℕ) : Handover :=
  let s := w.machine.stream
  let record : Record :=
    match s.protocol.type with
    | .buffered => ⟨.bufferUpdated, none, nbytes, s.dispatchGeneration, r.id, r.region⟩
    | .legacy => ⟨.dataReceived, some w.bufferToRead, nbytes, s.dispatchGeneration, r.id, r.region⟩
  { w with
    machine.stream :=
      { s with read := { s.read with batchDispatched := true, blockingTaskId := 0, cancelling := false } }
    reads := w.reads.set i { r with phase := .batched nbytes }
    records := w.records ++ [record] }

/-- `dispatch_completion_batch` for the first record. -/
def dispatch (w : Handover) (r : Record) (rest : List Record) : Handover :=
  let v : Handover := { w with records := rest }
  if w.machine.stream.dispatchGeneration ≠ r.generation then v
  else
    match r.op, w.machine.stream.protocol.type, r.source with
    | .dataReceived, .legacy, some source => v.deliver (.dataReceived r.read r.nbytes (w.memory source))
    | .bufferUpdated, .buffered, _ => v.deliver (.bufferUpdated r.read r.nbytes r.region w.protocol)
    | _, _, _ => v

/-- The callback of the `i`-th read runs. It waits in `data_received` or `buffer_updated` if it passes the
bytes on. -/
def complete (w : Handover) (i : ℕ) (r : Read) (data : CallbackData) (task : TaskId) : Handover :=
  let v : Handover := { w with reads := w.reads.eraseIdx i }
  let out := w.machine.stream.readOperationCompleted data task
  let v := match out.2 with
    | some (.dataReceived _) =>
      v.deliver <| match w.machine.stream.protocol.type with
        | .legacy => .dataReceived r.id data.res.toNat (w.memory w.bufferToRead)
        | .buffered => .bufferUpdated r.id data.res.toNat r.region w.protocol
    | _ => v
  v.settle 0 (.push [] out)

/-- What can happen. -/
inductive Event
  /-- the transport sees an event that is not about the completion of its reads; no `get_buffer` returns -/
  | transport (e : Talyn.Event)
  /-- the Python code called last returns; a `get_buffer` returns `memory` -/
  | returned (memory : ℕ) (keepOpen : Bool) (task : TaskId)
  /-- `set_protocol` succeeds -/
  | setProtocol (protocol : ℕ) (methods : Protocol)
  /-- the kernel stores the bytes of the `i`-th read -/
  | stored (i nbytes : ℕ)
  | harvested (i : ℕ)
  | dispatched
  /-- a callback raised what stops the loop: the rest of the batch is dropped -/
  | dispatchAborted
  /-- the callback of the `i`-th read; `cancelled` is set when the loop is torn down -/
  | completed (i : ℕ) (res : ℤ) (cancelled : Bool) (task : TaskId)
  deriving DecidableEq, Repr

/-- The events of a transport that have an event of their own here. -/
def ofReads : Talyn.Event → Bool
  | .readCompleted .. | .readHarvested .. | .readDispatched .. | .batchedReadCompleted .. | .returned .. =>
      true
  | _ => false

/-- One event; `none` when it cannot happen. -/
def step (w : Handover) : Event → Option Handover
  | .transport e =>
    if ofReads e then none
    else
      let callers := match e with
        | .raised _ => w.callers.tail
        | _ => w.callers
      (w.machine.step e).map fun m => settle { w with callers := callers } 0 m
  | .returned memory keepOpen task =>
    if task = 0 then none
    else
      match w.machine.frames, w.callers with
      | frame :: frames, (protocol, type) :: callers =>
        let returned := match frame with
          | .getBuffer _ => w.returned ++ [(protocol, memory)]
          | _ => w.returned
        some <| settle { w with callers := callers, returned := returned } memory
          (.push frames (frameReturned w.machine.stream frame type keepOpen task))
      | _, _ => none
  | .setProtocol protocol methods =>
    some { w with
      protocol := protocol
      machine.stream := { w.machine.stream with protocol := methods } }
  | .stored i nbytes =>
    match w.reads[i]? with
    | some ⟨id, region, .inFlight⟩ =>
      if nbytes = 0 then none
      else some { w with
        reads := w.reads.set i ⟨id, region, .stored nbytes⟩
        memory := Function.update w.memory region (some id)
        stored := w.stored ++ [(id, nbytes)] }
    | _ => none
  | .harvested i =>
    if w.machine.frames ≠ [] then none
    else
      match w.reads[i]? with
      | some ⟨id, region, .stored nbytes⟩ => some (w.harvest i ⟨id, region, .stored nbytes⟩ nbytes)
      | _ => none
  | .dispatched =>
    if w.machine.frames ≠ [] then none
    else
      match w.records with
      | r :: rest => some (w.dispatch r rest)
      | [] => none
  | .dispatchAborted => some { w with records := [] }
  | .completed i res cancelled task =>
    if task = 0 ∨ w.machine.frames ≠ [] ∨ w.records ≠ [] then none
    else
      match w.reads[i]? with
      | some ⟨id, region, .inFlight⟩ =>
        if 0 < res then none
        else some (w.complete i ⟨id, region, .inFlight⟩ ⟨res, .ofRes res, cancelled, false⟩ task)
      | some ⟨id, region, .stored nbytes⟩ =>
        if res ≠ nbytes then none
        else some (w.complete i ⟨id, region, .stored nbytes⟩ ⟨res, .success, cancelled, false⟩ task)
      | some ⟨id, region, .batched nbytes⟩ =>
        if res ≠ nbytes then none
        else some (w.complete i ⟨id, region, .batched nbytes⟩ ⟨res, .success, cancelled, true⟩ task)
      | none => none

/-- Nothing of the transport is closed or closing. -/
def IsOpen (w : Handover) : Prop := w.machine.stream.IsOpen

instance (w : Handover) : Decidable w.IsOpen := inferInstanceAs (Decidable w.machine.stream.IsOpen)

/-- The stored bytes that were not passed on yet. -/
def awaiting (w : Handover) : List (ℕ × ℕ) :=
  w.reads.filterMap Read.undelivered ++ w.records.map Record.key

/-- The protocol gets the bytes of the read: in the argument of `data_received`, or in memory that its own
`get_buffer` returned. -/
def Proper (w : Handover) : Delivery → Prop
  | .dataReceived read _ bytes => bytes = some read
  | .bufferUpdated _ _ region protocol => ∃ memory, region = .python memory ∧ (protocol, memory) ∈ w.returned

/-- No byte is dropped or misdelivered: each read that stored bytes is passed on once, and properly, or its
bytes still lie where they will be taken from. -/
structure Sound (w : Handover) : Prop where
  passed : w.stored.Perm (w.deliveries.map Delivery.key ++ w.awaiting)
  proper : ∀ d ∈ w.deliveries, w.Proper d
  intact : ∀ r ∈ w.reads, r.undelivered ≠ none → w.memory r.region = some r.id
  batch : ∀ r ∈ w.records, w.memory r.region = some r.read ∧
    (r.op = .dataReceived → ∃ source, r.source = some source ∧ w.memory source = some r.read)

/-- The installed protocol can be given the bytes that the `i`-th read stored. -/
def FitsRead (w : Handover) (region : Region) : Prop :=
  match w.machine.stream.protocol.type with
  | .legacy => w.bufferToRead = region
  | .buffered => ∃ memory, region = .python memory ∧ (w.protocol, memory) ∈ w.returned

/-- The installed protocol can be given the bytes of a record. -/
def FitsRecord (w : Handover) (r : Record) : Prop :=
  match r.op with
  | .dataReceived => w.machine.stream.protocol.type = .legacy
  | .bufferUpdated => w.machine.stream.protocol.type = .buffered ∧
      ∃ memory, r.region = .python memory ∧ (w.protocol, memory) ∈ w.returned

/-- What an event needs on an open transport. A read stores its bytes where no others wait; it is harvested
for `data_received` as the read queued last; its bytes are passed to a protocol they fit; and no bytes are
thrown away with the batch or the loop. -/
def Fits (w : Handover) : Event → Prop
  | .stored i _ => ∀ r, w.reads[i]? = some r →
      (∀ r' ∈ w.reads, r'.undelivered ≠ none → r'.region ≠ r.region) ∧
        ∀ r' ∈ w.records, r'.region ≠ r.region
  | .harvested i => ∀ r, w.reads[i]? = some r →
      w.machine.stream.protocol.type = .legacy → w.bufferToRead = r.region
  | .dispatched => ∀ r rest, w.records = r :: rest → w.FitsRecord r
  | .dispatchAborted => w.records = []
  | .completed i _ cancelled _ => ∀ r, w.reads[i]? = some r → r.undelivered ≠ none →
      cancelled = false ∧ w.FitsRead r.region
  | _ => True

/-- `Fits`, where the transport is open and the event can happen. -/
def Meets (w : Handover) (e : Event) : Prop := w.IsOpen → (w.step e).isSome → w.Fits e

end Handover

end Talyn
