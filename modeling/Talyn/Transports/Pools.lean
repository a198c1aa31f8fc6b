import Talyn.Transports.Descriptor
import Talyn.Transports.ReadBuffers

/-!
# Fixed-file slots and registered buffers

The two pools of a loop, the fixed-file table and the registered buffers (`loop/scheduling/io/main.zig`,
`RegisteredBufferPool` in `types.zig`), and the stream and datagram transports that take from them. A
transport lives from its constructor until its last reference is dropped, which no operation in flight
and no function on the stack still holds. The events of its life are those of `Machine` and
`DatagramTransport`, and the reads that `io.queue` refuses.

A read is given its reference after `io.queue` has returned. Where the flush of `io.queue` fails, the read
is in the ring without one: nothing keeps the transport and its buffer until it completes.

`stream_clear` clears the Python fields of the transport, `loop` among them, before it asks for the loop
to unregister the slot. A transport that is dropped while it is open never gives its slot back
(`slots_released_iff`).
-/

namespace Talyn

/-! ### Reads that are refused -/

/-- `queue_read_operation` would queue a read into the buffer of the transport. -/
def Stream.armsRead (s : Stream) : Bool :=
  s.isReading && !s.read.isClosing && decide (s.read.blockingTaskId = 0) && s.protocol.type = .legacy

/-- `read_operation_completed` up to where it arms the next read. -/
def Stream.beginRead (s : Stream) (batchDispatched : Bool) : Stream :=
  { s with
    pendingReads := s.pendingReads.tail
    read :=
      if batchDispatched then { s.read with batchDispatched := true }
      else { s.read with blockingTaskId := 0, cancelling := false, batchDispatched := false } }

/-- The completion of a read that has begun arms the next read, and is refused. -/
def Stream.refuseRearm (s : Stream) (exc : Exc) : Option (Stream × Option Frame) :=
  if s.read.closed || s.isClosing || s.closed || !s.armsRead then none
  else some ({ s with protocolBuffer := none }.failRead s.protocolBuffer exc)

/-- An event that would arm a read, where `io.queue` fails and raises `exc`; `none` for the other events.
A buffered protocol has returned its buffer. -/
def Machine.refuseRead (m : Machine) (exc : Exc) (e : Event) : Option Machine :=
  match e, m.frames with
  | .resumeReading _, frames =>
    if !m.stream.closed && { m.stream with isReading := true }.armsRead then
      some ⟨{ m.stream with isReading := false }, frames⟩
    else none
  | .readCompleted res [] false _, [] =>
    if m.stream.pendingReads.head? = some .inFlight ∧ Errno.ofRes res = .canceled then
      ((m.stream.beginRead false).refuseRearm exc).map (push [])
    else none
  | .batchedReadCompleted false _, [] =>
    match m.stream.pendingReads with
    | .batched (_ + 1) :: _ => ((m.stream.beginRead true).refuseRearm exc).map (push [])
    | _ => none
  | .returned _ _, .dataReceived held :: frames =>
    if m.stream.armsRead then some (push frames (m.stream.failRead held exc)) else none
  | .returned _ _, .getBuffer site :: frames =>
    some (push frames (m.stream.readFrameRaised (.getBuffer site) exc))
  | _, _ => none

/-- The fields of `IO` for the two pools; the last element of a free list is the first here. -/
structure Pools.Io where
  fixedFilesEnabled : Bool
  fixedFileTable : ℕ → Option ℕ
  fixedFileFree : List ℕ
  buffersRegistered : Bool
  /-- `free_slots.len`: no slots where the pool was not initialized -/
  slotCount : ℕ
  freeSlots : List ℕ

/-- A stream transport; `loop` is whether the field is set. -/
structure Pools.StreamObject where
  machine : Machine
  loop : Bool
  fixedBufferIndex : Option ℕ

/-- A datagram transport with the reads that refer to it. -/
structure Pools.DatagramObject where
  transport : DatagramTransport
  fixedBufferIndex : Option ℕ
  reads : ℕ

/-- A transport; a stream transport is being built until its first read is armed. -/
inductive Pools.Object
  | building (o : Pools.StreamObject)
  | stream (o : Pools.StreamObject)
  | datagram (d : Pools.DatagramObject)

/-- The pools of an open loop, the fds of the process that are open, and the transports. -/
structure Pools where
  io : Pools.Io
  fds : List ℕ
  eventfd : ℕ
  objects : List Pools.Object
  /-- the buffers released while a read into them was in flight -/
  early : List ℕ
  /-- the reads that entered the ring without a reference to their transport -/
  unreferenced : ℕ

namespace Pools

/-- `TotalTasksItems`, the size of the fixed-file table. -/
def totalTasksItems : ℕ := 1024

/-! ### The pools -/

/-- `register_fixed_file`: the index, `0` for an error; `updated` is whether `register_files_update`
succeeds. -/
def Io.registerFixedFile (io : Io) (fd : Option ℕ) (updated : Bool) : Io × ℕ :=
  if ¬io.fixedFilesEnabled then (io, 0)
  else
    match io.fixedFileFree with
    | [] => (io, 0)
    | index :: free =>
      let table := Function.update io.fixedFileTable index fd
      -- the entry stays in the table when the index goes back to the free list
      if updated then ({ io with fixedFileTable := table, fixedFileFree := free }, index)
      else ({ io with fixedFileTable := table }, 0)

/-- `unregister_fixed_file`. -/
def Io.unregisterFixedFile (io : Io) (index : ℕ) : Io :=
  if ¬io.fixedFilesEnabled then io
  else
    { io with
      fixedFileTable := Function.update io.fixedFileTable index none
      fixedFileFree := index :: io.fixedFileFree }

/-- `lease_buffer`. -/
def Io.leaseBuffer (io : Io) : Io × Option ℕ :=
  if ¬io.buffersRegistered then (io, none)
  else
    match io.freeSlots with
    | [] => (io, none)
    | index :: free => ({ io with freeSlots := free }, some index)

/-- `RegisteredBufferPool.release`. -/
def Io.releaseBuffer (io : Io) (index : ℕ) : Io :=
  if index ≥ io.slotCount then io
  else if io.freeSlots.length ≥ io.slotCount then io
  else { io with freeSlots := index :: io.freeSlots }

/-- `IO.init`. -/
def Io.new (eventfd : ℕ) (fixedFilesEnabled buffersRegistered : Bool) : Io where
  fixedFilesEnabled := fixedFilesEnabled
  fixedFileTable i := if i = 0 ∧ fixedFilesEnabled then some eventfd else none
  fixedFileFree := (List.range' 1 (totalTasksItems - 1)).reverse
  buffersRegistered := fixedFilesEnabled && buffersRegistered
  slotCount := if fixedFilesEnabled then 16 else 0
  freeSlots := (List.range (if fixedFilesEnabled then 16 else 0)).reverse

/-! ### The transports -/

/-- The references that operations in flight and functions on the stack hold. -/
def Object.references : Object → ℕ
  | .building _ => 1
  | .stream o =>
    o.machine.stream.pendingReads.length + o.machine.stream.pendingWrites.length +
      o.machine.frames.length
  | .datagram d => d.reads + d.transport.pending.length + d.transport.frames.length

/-- A read into the buffer of the transport is in flight. -/
def Object.isReading : Object → Bool
  | .building _ => false
  | .stream o =>
    o.machine.stream.protocol.type = .legacy && decide (ReadOp.inFlight ∈ o.machine.stream.pendingReads)
  | .datagram d => decide (d.reads > 0)

def Object.fixedBufferIndex : Object → Option ℕ
  | .building o | .stream o => o.fixedBufferIndex
  | .datagram d => d.fixedBufferIndex

def Object.fd : Object → Option ℕ
  | .building o | .stream o => o.machine.stream.fd
  | .datagram d => d.transport.fd

def Object.fixedFileIndex : Object → ℕ
  | .building o | .stream o => o.machine.stream.fixedFileIndex
  | .datagram d => d.transport.fixedFileIndex

/-- An fd is closed. -/
def closeFd (w : Pools) (fd : ℕ) : Pools := { w with fds := w.fds.filter (· ≠ fd) }

def unregisterFixedFile (w : Pools) (index : ℕ) : Pools :=
  { w with io := w.io.unregisterFixedFile index }

/-- `release_buffer` for a transport, if it has leased one. -/
def releaseBuffer (w : Pools) (o : Object) : Pools :=
  match o.fixedBufferIndex with
  | none => w
  | some index =>
    { w with
      io := w.io.releaseBuffer index
      early := if o.isReading then w.early ++ [index] else w.early }

def apply (w : Pools) : FdEffect → Pools
  | .unregisterFixedFile index => w.unregisterFixedFile index
  | .closeFd fd => w.closeFd fd

/-- The unregistering of a slot, where a transport has one. -/
def unregisterSlot (w : Pools) (index : ℕ) : Pools :=
  if index ≠ 0 then w.unregisterFixedFile index else w

/-! ### Stream transports -/

/-- `stream_init_configuration` up to the first read; `failing` is whether `set_protocol` or what stands
before it fails. -/
def newStream (w : Pools) (protocol : Protocol) (fd : ℕ) (serverRef updated failing : Bool) : Pools :=
  let (io, buffer) := w.io.leaseBuffer
  if failing then
    { w with io := buffer.elim io io.releaseBuffer }
  else
    let (io, index) := io.registerFixedFile (some fd) updated
    let stream := Stream.new protocol fd index true serverRef
    { w with io := io, objects := w.objects ++ [.building ⟨⟨stream, []⟩, true, buffer⟩] }

/-- The first `queue_read_operation` succeeds. -/
def StreamObject.arm (o : StreamObject) (task : TaskId) : StreamObject :=
  let s := o.machine.stream
  let s :=
    match s.protocol.type with
    | .legacy => s.performRead task
    | .buffered => (s.emit .getBuffer).performBufferedRead task
  { o with machine := ⟨s, []⟩ }

/-- The first `queue_read_operation` fails. -/
def armFailed (w : Pools) (o : StreamObject) : Pools :=
  (w.unregisterSlot o.machine.stream.fixedFileIndex).releaseBuffer (.building o)

/-- The flush of the first `queue_read_operation` fails: the read is in the ring. -/
def armLeft (w : Pools) (o : StreamObject) : Pools :=
  let w := w.armFailed o
  { w with
    early := w.early ++ if o.machine.stream.protocol.type = .legacy then o.fixedBufferIndex.toList else []
    unreferenced := w.unreferenced + 1 }

/-- `deinitialize_object_fields` sets the Python fields to null. -/
def StreamObject.deinitializeObjectFields (o : StreamObject) : StreamObject := { o with loop := false }

/-- `stream_clear`, as far as the pools and the fd go. -/
def streamClear (w : Pools) (o : StreamObject) : Pools :=
  let w := if o.machine.stream.read.initialized then w.releaseBuffer (.stream o) else w
  let o := o.deinitializeObjectFields
  match o.machine.stream.fd with
  | none => w
  | some fd =>
    let w := if o.loop then w.unregisterSlot o.machine.stream.fixedFileIndex else w
    if o.machine.stream.ownsFd then w.closeFd fd else w

/-! ### Datagram transports -/

/-- `cleanup_resources`, with the loop open. -/
def cleanupResources (w : Pools) (d : DatagramObject) : Pools :=
  (w.unregisterSlot d.transport.fixedFileIndex).releaseBuffer (.datagram d)

/-- `init_configuration`; `failing` is whether `set_protocol` or the allocation of a buffer fails. -/
def newDatagram (w : Pools) (fd : Option ℕ) (updated failing : Bool) : Pools :=
  let (io, index) := w.io.registerFixedFile fd updated
  let (io, buffer) := io.leaseBuffer
  let d : DatagramObject := ⟨{ DatagramTransport.new 0 index 0 with fd := fd }, buffer, 0⟩
  let w := { w with io := io }
  if failing then w.cleanupResources d else { w with objects := w.objects ++ [.datagram d] }

/-- `queue_read`. -/
def DatagramObject.queueRead (d : DatagramObject) (task : TaskId) : DatagramObject :=
  if d.transport.closed || d.transport.fd.isNone then d
  else { d with transport := { d.transport with readTaskId := task }, reads := d.reads + 1 }

/-- The end of a read: `cleanup_read`, or `release_old_read` where the read was armed again. -/
def DatagramObject.endRead (d : DatagramObject) (rearmed : Bool) : DatagramObject :=
  { d with
    transport := if rearmed then d.transport else { d.transport with readTaskId := 0 }
    reads := d.reads - 1 }

/-- `datagram_clear` and `datagram_dealloc`. -/
def datagramClear (w : Pools) (d : DatagramObject) : Pools :=
  let w := w.cleanupResources d
  match d.transport.fd with
  | none => w
  | some fd => w.closeFd fd

/-! ### Events -/

/-- What can happen. -/
inductive Event
  /-- the kernel gives out an fd -/
  | openFd (fd : ℕ)
  /-- an fd that is no transport's is closed -/
  | closeFd (fd : ℕ)
  | newStream (protocol : Protocol) (fd : ℕ) (serverRef updated failing : Bool)
  | arm (i : ℕ) (task : TaskId)
  /-- the first read is refused; `left` is whether the flush failed, with the read in the ring -/
  | armFails (i : ℕ) (left : Bool)
  | stream (i : ℕ) (e : Talyn.Event)
  /-- the read that the event `e` would arm is refused -/
  | refuseRead (i : ℕ) (e : Talyn.Event) (exc : Exc) (left : Bool)
  | newDatagram (fd : Option ℕ) (updated failing : Bool)
  | datagram (i : ℕ) (e : DatagramTransport.Event)
  | queueRead (i : ℕ) (task : TaskId)
  /-- the flush of `queue_read` fails -/
  | queueReadLeft (i : ℕ)
  | endRead (i : ℕ) (rearmed : Bool)
  /-- the last reference is dropped, or the garbage collector finds the transport -/
  | drop (i : ℕ)
  deriving DecidableEq, Repr

/-- The fd is open, and no transport's. -/
def IsFree (w : Pools) (fd : ℕ) : Prop :=
  fd ∈ w.fds ∧ fd ≠ w.eventfd ∧ ∀ o ∈ w.objects, o.fd ≠ some fd

instance (w : Pools) (fd : ℕ) : Decidable (w.IsFree fd) := inferInstanceAs (Decidable (_ ∧ _ ∧ _))

/-- What a transport did to its fd and its slot, and the transport after it. -/
def settle (w : Pools) (i : ℕ) (es : List FdEffect) (o : Object) : Pools :=
  let w := es.foldl Pools.apply w
  { w with objects := w.objects.set i o }

/-- One event; `none` when it cannot happen. -/
def step (w : Pools) : Event → Option Pools
  | .openFd fd => if fd ∈ w.fds then none else some { w with fds := fd :: w.fds }
  | .closeFd fd => if w.IsFree fd then some (w.closeFd fd) else none
  | .newStream protocol fd serverRef updated failing =>
    if w.IsFree fd then some (w.newStream protocol fd serverRef updated failing) else none
  | .arm i task =>
    match w.objects[i]? with
    | some (.building o) =>
      if task = 0 then none
      else some { w with objects := w.objects.set i (.stream (o.arm task)) }
    | _ => none
  | .armFails i left =>
    match w.objects[i]? with
    | some (.building o) =>
      let w := if left then w.armLeft o else w.armFailed o
      some { w with objects := w.objects.eraseIdx i }
    | _ => none
  | .stream i e =>
    match w.objects[i]? with
    | some (.stream o) =>
      (o.machine.step e).map fun m =>
        let es := m.stream.trace.drop o.machine.stream.trace.length
        w.settle i (Stream.fdEffects es) (.stream { o with machine := m })
    | _ => none
  | .refuseRead i e exc left =>
    match w.objects[i]? with
    | some (.stream o) =>
      (o.machine.refuseRead exc e).map fun m =>
        let es := m.stream.trace.drop o.machine.stream.trace.length
        let w := w.settle i (Stream.fdEffects es) (.stream { o with machine := m })
        if left then { w with unreferenced := w.unreferenced + 1 } else w
    | _ => none
  | .newDatagram fd updated failing =>
    if ∀ n ∈ fd, w.IsFree n then some (w.newDatagram fd updated failing) else none
  | .datagram i e =>
    match w.objects[i]? with
    | some (.datagram d) =>
      (d.transport.step e).map fun t =>
        let es := t.trace.drop d.transport.trace.length
        w.settle i (DatagramTransport.fdEffects es) (.datagram { d with transport := t })
    | _ => none
  | .queueRead i task =>
    match w.objects[i]? with
    | some (.datagram d) =>
      if task = 0 then none
      else some { w with objects := w.objects.set i (.datagram (d.queueRead task)) }
    | _ => none
  | .queueReadLeft i =>
    match w.objects[i]? with
    | some (.datagram d) =>
      if d.transport.closed || d.transport.fd.isNone then none
      else some { w with unreferenced := w.unreferenced + 1 }
    | _ => none
  | .endRead i rearmed =>
    match w.objects[i]? with
    | some (.datagram d) =>
      if d.reads = 0 then none
      else some { w with objects := w.objects.set i (.datagram (d.endRead rearmed)) }
    | _ => none
  | .drop i =>
    match w.objects[i]? with
    | some o =>
      if o.references ≠ 0 then none
      else
        let w :=
          match o with
          | .building _ => w
          | .stream o => w.streamClear o
          | .datagram d => w.datagramClear d
        some { w with objects := w.objects.eraseIdx i }
    | none => none

/-- What one event does and when it can happen. -/
inductive Step (w : Pools) : Event → Pools → Prop
  | openFd (fd : ℕ) (hclosed : fd ∉ w.fds) : Step w (.openFd fd) { w with fds := fd :: w.fds }
  | closeFd (fd : ℕ) (hfree : w.IsFree fd) : Step w (.closeFd fd) (w.closeFd fd)
  | newStream (protocol : Protocol) (fd : ℕ) (serverRef updated failing : Bool) (hfree : w.IsFree fd) :
      Step w (.newStream protocol fd serverRef updated failing)
        (w.newStream protocol fd serverRef updated failing)
  | arm (i : ℕ) (task : TaskId) (o : StreamObject) (ho : w.objects[i]? = some (.building o))
      (hpos : task ≠ 0) :
      Step w (.arm i task) { w with objects := w.objects.set i (.stream (o.arm task)) }
  | armFails (i : ℕ) (o : StreamObject) (ho : w.objects[i]? = some (.building o)) :
      Step w (.armFails i false) { w.armFailed o with objects := (w.armFailed o).objects.eraseIdx i }
  | armLeft (i : ℕ) (o : StreamObject) (ho : w.objects[i]? = some (.building o)) :
      Step w (.armFails i true) { w.armLeft o with objects := (w.armLeft o).objects.eraseIdx i }
  | stream (i : ℕ) (e : Talyn.Event) (o : StreamObject) (m : Machine)
      (ho : w.objects[i]? = some (.stream o)) (hm : o.machine.step e = some m) :
      Step w (.stream i e)
        (w.settle i (Stream.fdEffects (m.stream.trace.drop o.machine.stream.trace.length))
          (.stream { o with machine := m }))
  | refuseRead (i : ℕ) (e : Talyn.Event) (exc : Exc) (o : StreamObject) (m : Machine)
      (ho : w.objects[i]? = some (.stream o)) (hm : o.machine.refuseRead exc e = some m) :
      Step w (.refuseRead i e exc false)
        (w.settle i (Stream.fdEffects (m.stream.trace.drop o.machine.stream.trace.length))
          (.stream { o with machine := m }))
  | readLeft (i : ℕ) (e : Talyn.Event) (exc : Exc) (o : StreamObject) (m : Machine) (v : Pools)
      (ho : w.objects[i]? = some (.stream o)) (hm : o.machine.refuseRead exc e = some m)
      (hv : v = w.settle i (Stream.fdEffects (m.stream.trace.drop o.machine.stream.trace.length))
          (.stream { o with machine := m })) :
      Step w (.refuseRead i e exc true) { v with unreferenced := v.unreferenced + 1 }
  | newDatagram (fd : Option ℕ) (updated failing : Bool) (hfree : ∀ n ∈ fd, w.IsFree n) :
      Step w (.newDatagram fd updated failing) (w.newDatagram fd updated failing)
  | datagram (i : ℕ) (e : DatagramTransport.Event) (d : DatagramObject) (t : DatagramTransport)
      (ho : w.objects[i]? = some (.datagram d)) (ht : d.transport.step e = some t) :
      Step w (.datagram i e)
        (w.settle i (DatagramTransport.fdEffects (t.trace.drop d.transport.trace.length))
          (.datagram { d with transport := t }))
  | queueRead (i : ℕ) (task : TaskId) (d : DatagramObject) (ho : w.objects[i]? = some (.datagram d))
      (hpos : task ≠ 0) :
      Step w (.queueRead i task) { w with objects := w.objects.set i (.datagram (d.queueRead task)) }
  | queueReadLeft (i : ℕ) (d : DatagramObject) (ho : w.objects[i]? = some (.datagram d)) :
      Step w (.queueReadLeft i) { w with unreferenced := w.unreferenced + 1 }
  | endRead (i : ℕ) (rearmed : Bool) (d : DatagramObject) (ho : w.objects[i]? = some (.datagram d))
      (hreads : d.reads ≠ 0) :
      Step w (.endRead i rearmed) { w with objects := w.objects.set i (.datagram (d.endRead rearmed)) }
  | dropStream (i : ℕ) (o : StreamObject) (ho : w.objects[i]? = some (.stream o))
      (hreferences : (Object.stream o).references = 0) :
      Step w (.drop i) { w.streamClear o with objects := (w.streamClear o).objects.eraseIdx i }
  | dropDatagram (i : ℕ) (d : DatagramObject) (ho : w.objects[i]? = some (.datagram d))
      (hreferences : (Object.datagram d).references = 0) :
      Step w (.drop i) { w.datagramClear d with objects := (w.datagramClear d).objects.eraseIdx i }

/-- **Inversion of `step`.** A transport that is being built has a reference, so it is not dropped. -/
theorem step_cases {w w' : Pools} {e : Event} (hs : w.step e = some w') : Step w e w' := by
  cases e with
  | openFd fd =>
    obtain ⟨hclosed, hs⟩ := Option.ite_none_left_eq_some.1 hs
    obtain rfl := Option.some.inj hs
    exact .openFd fd hclosed
  | closeFd fd =>
    obtain ⟨hfree, hs⟩ := Option.ite_none_right_eq_some.1 hs
    obtain rfl := Option.some.inj hs
    exact .closeFd fd hfree
  | newStream protocol fd serverRef updated failing =>
    obtain ⟨hfree, hs⟩ := Option.ite_none_right_eq_some.1 hs
    obtain rfl := Option.some.inj hs
    exact .newStream protocol fd serverRef updated failing hfree
  | arm i task =>
    simp only [step] at hs
    split at hs
    · rename_i o ho
      obtain ⟨hpos, hs⟩ := Option.ite_none_left_eq_some.1 hs
      obtain rfl := Option.some.inj hs
      exact .arm i task o ho hpos
    · exact nomatch hs
  | armFails i left =>
    simp only [step] at hs
    split at hs
    · rename_i o ho
      obtain rfl := Option.some.inj hs
      cases left with
      | false => exact .armFails i o ho
      | true => exact .armLeft i o ho
    · exact nomatch hs
  | stream i e =>
    simp only [step] at hs
    split at hs
    · rename_i o ho
      obtain ⟨m, hm, rfl⟩ := Option.map_eq_some_iff.1 hs
      exact .stream i e o m ho hm
    · exact nomatch hs
  | refuseRead i e exc left =>
    simp only [step] at hs
    split at hs
    · rename_i o ho
      obtain ⟨m, hm, rfl⟩ := Option.map_eq_some_iff.1 hs
      cases left with
      | false => exact .refuseRead i e exc o m ho hm
      | true => exact .readLeft i e exc o m _ ho hm rfl
    · exact nomatch hs
  | newDatagram fd updated failing =>
    obtain ⟨hfree, hs⟩ := Option.ite_none_right_eq_some.1 hs
    obtain rfl := Option.some.inj hs
    exact .newDatagram fd updated failing hfree
  | datagram i e =>
    simp only [step] at hs
    split at hs
    · rename_i d ho
      obtain ⟨t, ht, rfl⟩ := Option.map_eq_some_iff.1 hs
      exact .datagram i e d t ho ht
    · exact nomatch hs
  | queueRead i task =>
    simp only [step] at hs
    split at hs
    · rename_i d ho
      obtain ⟨hpos, hs⟩ := Option.ite_none_left_eq_some.1 hs
      obtain rfl := Option.some.inj hs
      exact .queueRead i task d ho hpos
    · exact nomatch hs
  | queueReadLeft i =>
    simp only [step] at hs
    split at hs
    · rename_i d ho
      obtain ⟨-, hs⟩ := Option.ite_none_left_eq_some.1 hs
      obtain rfl := Option.some.inj hs
      exact .queueReadLeft i d ho
    · exact nomatch hs
  | endRead i rearmed =>
    simp only [step] at hs
    split at hs
    · rename_i d ho
      obtain ⟨hreads, hs⟩ := Option.ite_none_left_eq_some.1 hs
      obtain rfl := Option.some.inj hs
      exact .endRead i rearmed d ho hreads
    · exact nomatch hs
  | drop i =>
    simp only [step] at hs
    split at hs
    · rename_i o ho
      obtain ⟨hreferences, hs⟩ := Option.ite_none_left_eq_some.1 hs
      obtain rfl := Option.some.inj hs
      rw [not_not] at hreferences
      cases o with
      | building o => exact absurd hreferences Nat.one_ne_zero
      | stream o => exact .dropStream i o ho hreferences
      | datagram d => exact .dropDatagram i d ho hreferences
    · exact nomatch hs

/-- A loop without transports. -/
def new (eventfd : ℕ) (fixedFilesEnabled buffersRegistered : Bool) : Pools :=
  ⟨Io.new eventfd fixedFilesEnabled buffersRegistered, [eventfd], eventfd, [], [], 0⟩

/-! ### What the transports hold -/

/-- What a transport holds: its fd, its slots in the fixed-file table, its registered buffers. -/
structure Holding where
  fd : Option ℕ
  slots : List ℕ
  buffers : List ℕ

/-- The slots of a transport with that index. -/
def slotsOf (index : ℕ) : List ℕ := if index ≠ 0 then [index] else []

def Object.holding (o : Object) : Holding where
  fd := o.fd
  slots := slotsOf o.fixedFileIndex
  buffers := o.fixedBufferIndex.toList

/-- The books of the pools, given what the transports hold: every slot and every buffer is free or held
once; the entry of a held slot is the fd of the transport, and the table has no other entries than these
and the eventfd's; the fds of the transports are open, and each is one transport's. -/
structure Balanced (io : Io) (fds : List ℕ) (eventfd : ℕ) (hs : List Holding) : Prop where
  slots : (io.fixedFileFree ++ hs.flatMap Holding.slots).Perm (List.range' 1 (totalTasksItems - 1))
  buffers : (io.freeSlots ++ hs.flatMap Holding.buffers).Perm (List.range io.slotCount)
  registered : ∀ h ∈ hs, ∀ index ∈ h.slots, io.fixedFileTable index = h.fd
  entries : ∀ index fd, io.fixedFileTable index = some fd →
    index = 0 ∧ fd = eventfd ∨ ∃ h ∈ hs, index ∈ h.slots ∧ h.fd = some fd
  fdsOpen : ∀ fd ∈ eventfd :: hs.filterMap Holding.fd, fd ∈ fds
  fdsNodup : (eventfd :: hs.filterMap Holding.fd).Nodup

/-- The pools are accounted for, no buffer was released while a read into it was in flight, and every read
in flight holds a reference to its transport. -/
structure Sound (w : Pools) : Prop where
  balanced : Balanced w.io w.fds w.eventfd (w.objects.map Object.holding)
  kept : w.early = [] ∧ w.unreferenced = 0

/-- The fixed-file table holds no closed fd. -/
theorem Sound.table_open {w : Pools} (h : w.Sound) {index fd : ℕ}
    (hentry : w.io.fixedFileTable index = some fd) : fd ∈ w.fds := by
  rcases h.balanced.entries index fd hentry with ⟨-, rfl⟩ | ⟨holding, hmem, -, hfd⟩
  · exact h.balanced.fdsOpen _ List.mem_cons_self
  · refine h.balanced.fdsOpen fd (List.mem_cons_of_mem _ ?_)
    exact List.mem_filterMap.mpr ⟨holding, hmem, hfd⟩

/-- Without transports, every slot and every buffer is free. -/
theorem Sound.all_free {w : Pools} (h : w.Sound) (hnone : w.objects = []) :
    w.io.fixedFileFree.Perm (List.range' 1 (totalTasksItems - 1)) ∧
      w.io.freeSlots.Perm (List.range w.io.slotCount) := by
  have hslots := h.balanced.slots
  have hbuffers := h.balanced.buffers
  rw [hnone] at hslots hbuffers
  constructor
  · simpa using hslots
  · simpa using hbuffers

section Books

variable {io : Io} {fds : List ℕ} {eventfd : ℕ} {h : Holding} {hs hs' : List Holding} {index : ℕ}

/-- The order of the transports does not matter. -/
theorem Balanced.perm (hb : Balanced io fds eventfd hs) (hp : hs.Perm hs') :
    Balanced io fds eventfd hs' where
  slots := ((hp.flatMap_right _).symm.append_left _).trans hb.slots
  buffers := ((hp.flatMap_right _).symm.append_left _).trans hb.buffers
  registered h hh := hb.registered h (hp.mem_iff.mpr hh)
  entries index fd hentry := by
    rcases hb.entries index fd hentry with heventfd | ⟨h, hh, hslot⟩
    · exact Or.inl heventfd
    · exact Or.inr ⟨h, hp.mem_iff.mp hh, hslot⟩
  fdsOpen fd hfd := hb.fdsOpen fd (((hp.filterMap _).cons _).mem_iff.mpr hfd)
  fdsNodup := ((hp.filterMap _).cons _).nodup_iff.mp hb.fdsNodup

theorem cons_append_perm {α : Type*} (x : α) (free rest : List α) :
    (x :: free ++ rest).Perm (free ++ ([x] ++ rest)) := by
  simpa using (@List.perm_middle _ x free rest).symm

/-- A held slot is no other transport's, and not free. -/
theorem Balanced.slot_unique {fd : Option ℕ} {buffers : List ℕ}
    (hb : Balanced io fds eventfd (⟨fd, [index], buffers⟩ :: hs)) :
    index ∉ io.fixedFileFree ∧ ∀ h ∈ hs, index ∉ h.slots := by
  have hnodup : (index :: (io.fixedFileFree ++ hs.flatMap Holding.slots)).Nodup := by
    have hperm := (cons_append_perm index io.fixedFileFree (hs.flatMap Holding.slots)).trans hb.slots
    exact hperm.nodup_iff.mpr (List.nodup_range' ..)
  have hnot := (List.nodup_cons.mp hnodup).1
  constructor
  · exact fun hfree => hnot (List.mem_append_left _ hfree)
  · exact fun h hh hslot => hnot (List.mem_append_right _ (List.mem_flatMap.mpr ⟨h, hh, hslot⟩))

/-- The slot of a transport is unregistered. -/
theorem Balanced.unregister {fd : Option ℕ} {buffers : List ℕ}
    (hb : Balanced io fds eventfd (⟨fd, [index], buffers⟩ :: hs))
    (henabled : io.fixedFilesEnabled = true) :
    Balanced (io.unregisterFixedFile index) fds eventfd (⟨fd, [], buffers⟩ :: hs) := by
  have hunique := hb.slot_unique.2
  rw [Io.unregisterFixedFile, if_neg (not_not.mpr henabled)]
  refine ⟨?_, hb.buffers, ?_, ?_, hb.fdsOpen, hb.fdsNodup⟩
  · exact (cons_append_perm index io.fixedFileFree _).trans hb.slots
  · intro h hh j hj
    rcases List.mem_cons.mp hh with rfl | hh
    · exact absurd hj List.not_mem_nil
    · have hne : j ≠ index := fun hji => hunique h hh (hji ▸ hj)
      simp only [Function.update_of_ne hne]
      exact hb.registered h (List.mem_cons_of_mem _ hh) j hj
  · intro j n hentry
    by_cases hji : j = index
    · subst hji
      simp at hentry
    · simp only [Function.update_of_ne hji] at hentry
      rcases hb.entries j n hentry with heventfd | ⟨h, hh, hslot, hfd⟩
      · exact Or.inl heventfd
      · rcases List.mem_cons.mp hh with rfl | hh
        · exact absurd (List.mem_singleton.mp hslot) hji
        · exact Or.inr ⟨h, List.mem_cons_of_mem _ hh, hslot, hfd⟩

/-- A transport without a slot forgets its fd. -/
theorem Balanced.forget {fd : Option ℕ} {buffers : List ℕ}
    (hb : Balanced io fds eventfd (⟨fd, [], buffers⟩ :: hs)) :
    Balanced io fds eventfd (⟨none, [], buffers⟩ :: hs) := by
  have hsub : (eventfd :: hs.filterMap Holding.fd).Sublist
      (eventfd :: (⟨fd, [], buffers⟩ :: hs).filterMap Holding.fd) := by
    refine List.Sublist.cons_cons _ (List.Sublist.filterMap _ ?_)
    exact List.sublist_cons_self _ _
  refine ⟨hb.slots, hb.buffers, ?_, ?_, ?_, ?_⟩
  · intro h hh j hj
    rcases List.mem_cons.mp hh with rfl | hh
    · exact absurd hj List.not_mem_nil
    · exact hb.registered h (List.mem_cons_of_mem _ hh) j hj
  · intro j n hentry
    rcases hb.entries j n hentry with heventfd | ⟨h, hh, hslot, hfd⟩
    · exact Or.inl heventfd
    · rcases List.mem_cons.mp hh with rfl | hh
      · exact absurd hslot List.not_mem_nil
      · exact Or.inr ⟨h, List.mem_cons_of_mem _ hh, hslot, hfd⟩
  · exact fun n hn => hb.fdsOpen n (hsub.subset hn)
  · exact hsub.nodup hb.fdsNodup

/-- An fd that is no transport's is closed. -/
theorem Balanced.closeFd (hb : Balanced io fds eventfd hs) {fd : ℕ}
    (hfree : fd ∉ eventfd :: hs.filterMap Holding.fd) :
    Balanced io (fds.filter (· ≠ fd)) eventfd hs := by
  refine ⟨hb.slots, hb.buffers, hb.registered, hb.entries, ?_, hb.fdsNodup⟩
  intro n hn
  have hne : n ≠ fd := fun h => hfree (h ▸ hn)
  exact List.mem_filter.mpr ⟨hb.fdsOpen n hn, by simpa using hne⟩

/-- Only the buffers of a transport change. -/
theorem Balanced.rebuffer {io' : Io} {fd : Option ℕ} {slots buffers buffers' : List ℕ}
    (hb : Balanced io fds eventfd (⟨fd, slots, buffers⟩ :: hs))
    (htable : io'.fixedFileTable = io.fixedFileTable) (hfree : io'.fixedFileFree = io.fixedFileFree)
    (hbuffers : (io'.freeSlots ++ (buffers' ++ hs.flatMap Holding.buffers)).Perm
      (List.range io'.slotCount)) :
    Balanced io' fds eventfd (⟨fd, slots, buffers'⟩ :: hs) := by
  refine ⟨?_, hbuffers, ?_, ?_, hb.fdsOpen, hb.fdsNodup⟩
  · rw [hfree]
    exact hb.slots
  · intro h hh j hj
    rw [htable]
    rcases List.mem_cons.mp hh with rfl | hh
    · exact hb.registered _ List.mem_cons_self j hj
    · exact hb.registered h (List.mem_cons_of_mem _ hh) j hj
  · intro j n hentry
    rw [htable] at hentry
    rcases hb.entries j n hentry with heventfd | ⟨h, hh, hslot⟩
    · exact Or.inl heventfd
    · rcases List.mem_cons.mp hh with rfl | hh
      · exact Or.inr ⟨_, List.mem_cons_self, hslot⟩
      · exact Or.inr ⟨h, List.mem_cons_of_mem _ hh, hslot⟩

/-- The registered buffer of a transport is released. -/
theorem Balanced.releaseBuffer {fd : Option ℕ} {slots : List ℕ}
    (hb : Balanced io fds eventfd (⟨fd, slots, [index]⟩ :: hs)) :
    Balanced (io.releaseBuffer index) fds eventfd (⟨fd, slots, []⟩ :: hs) := by
  have hperm : (index :: io.freeSlots ++ hs.flatMap Holding.buffers).Perm (List.range io.slotCount) :=
    (cons_append_perm index io.freeSlots _).trans hb.buffers
  have hlt : index < io.slotCount :=
    List.mem_range.mp (hperm.mem_iff.mp (List.mem_append_left _ List.mem_cons_self))
  have hlength := hperm.length_eq
  simp only [List.length_append, List.length_cons, List.length_range] at hlength
  rw [Io.releaseBuffer, if_neg (by omega), if_neg (by omega)]
  exact hb.rebuffer rfl rfl hperm

/-- A transport that holds nothing is gone. -/
theorem Balanced.remove (hb : Balanced io fds eventfd (⟨none, [], []⟩ :: hs)) :
    Balanced io fds eventfd hs := by
  refine ⟨hb.slots, hb.buffers, ?_, ?_, hb.fdsOpen, hb.fdsNodup⟩
  · exact fun h hh => hb.registered h (List.mem_cons_of_mem _ hh)
  · intro j n hentry
    rcases hb.entries j n hentry with heventfd | ⟨h, hh, hslot, hfd⟩
    · exact Or.inl heventfd
    · rcases List.mem_cons.mp hh with rfl | hh
      · exact absurd hslot List.not_mem_nil
      · exact Or.inr ⟨h, hh, hslot, hfd⟩

/-- A transport takes an fd. -/
theorem Balanced.add (hb : Balanced io fds eventfd hs) {fd : Option ℕ}
    (hfree : ∀ n ∈ fd, n ∈ fds ∧ n ∉ eventfd :: hs.filterMap Holding.fd) :
    Balanced io fds eventfd (⟨fd, [], []⟩ :: hs) := by
  have hentries : ∀ index n, io.fixedFileTable index = some n → index = 0 ∧ n = eventfd ∨
      ∃ h ∈ (⟨fd, [], []⟩ : Holding) :: hs, index ∈ h.slots ∧ h.fd = some n := by
    intro j n hentry
    rcases hb.entries j n hentry with heventfd | ⟨h, hh, hslot⟩
    · exact Or.inl heventfd
    · exact Or.inr ⟨h, List.mem_cons_of_mem _ hh, hslot⟩
  have hregistered : ∀ h ∈ (⟨fd, [], []⟩ : Holding) :: hs, ∀ index ∈ h.slots,
      io.fixedFileTable index = h.fd := by
    intro h hh j hj
    rcases List.mem_cons.mp hh with rfl | hh
    · exact absurd hj List.not_mem_nil
    · exact hb.registered h hh j hj
  cases fd with
  | none => exact ⟨hb.slots, hb.buffers, hregistered, hentries, hb.fdsOpen, hb.fdsNodup⟩
  | some n =>
    obtain ⟨hopen, hnot⟩ := hfree n rfl
    have hperm : (eventfd :: (⟨some n, [], []⟩ :: hs).filterMap Holding.fd).Perm
        (n :: eventfd :: hs.filterMap Holding.fd) := List.Perm.swap ..
    refine ⟨hb.slots, hb.buffers, hregistered, hentries, ?_, ?_⟩
    · intro k hk
      rcases List.mem_cons.mp (hperm.mem_iff.mp hk) with rfl | hk
      · exact hopen
      · exact hb.fdsOpen k hk
    · exact hperm.nodup_iff.mpr (List.nodup_cons.mpr ⟨hnot, hb.fdsNodup⟩)

/-- A transport asks for a registered buffer. -/
theorem Balanced.leaseBuffer {fd : Option ℕ} {slots : List ℕ}
    (hb : Balanced io fds eventfd (⟨fd, slots, []⟩ :: hs)) :
    Balanced io.leaseBuffer.1 fds eventfd (⟨fd, slots, io.leaseBuffer.2.toList⟩ :: hs) := by
  unfold Io.leaseBuffer
  split
  · exact hb
  · split
    · exact hb
    next index free hfree =>
      have hbuffers := hb.buffers
      rw [hfree] at hbuffers
      refine hb.rebuffer rfl rfl ?_
      exact (cons_append_perm index free _).symm.trans hbuffers

/-- A slot that is given out is none of the transports', and not `0`. -/
theorem Balanced.free_unique {free : List ℕ} (hb : Balanced io fds eventfd hs)
    (hfree : io.fixedFileFree = index :: free) :
    index ≠ 0 ∧ index ∉ free ∧ ∀ h ∈ hs, index ∉ h.slots := by
  have hslots := hb.slots
  rw [hfree] at hslots
  have hnot := (List.nodup_cons.mp (hslots.nodup_iff.mpr (List.nodup_range' ..))).1
  refine ⟨?_, ?_, ?_⟩
  · have hmem := hslots.mem_iff.mp List.mem_cons_self
    simp only [List.mem_range'_1] at hmem
    omega
  · exact fun hmem => hnot (List.mem_append_left _ hmem)
  · exact fun h hh hslot => hnot (List.mem_append_right _ (List.mem_flatMap.mpr ⟨h, hh, hslot⟩))

/-- The table has no entry at a free slot. -/
theorem Balanced.not_stale {n : ℕ} (hb : Balanced io fds eventfd hs)
    (hfree : index ∈ io.fixedFileFree) : io.fixedFileTable index ≠ some n := by
  intro hentry
  rcases hb.entries index n hentry with ⟨rfl, -⟩ | ⟨h, hh, hslot, -⟩
  · have hmem := hb.slots.mem_iff.mp (List.mem_append_left _ hfree)
    simp only [List.mem_range'_1] at hmem
    omega
  · have hnodup := hb.slots.nodup_iff.mpr (List.nodup_range' ..)
    exact (List.nodup_append.mp hnodup).2.2 index hfree index
      (List.mem_flatMap.mpr ⟨h, hh, hslot⟩) rfl

/-- A transport registers its fd: the books are kept exactly when the ring takes the entry, where there
is a slot and an fd. -/
theorem Balanced.register_iff {fd : Option ℕ} {buffers : List ℕ} {updated : Bool}
    (hb : Balanced io fds eventfd (⟨fd, [], buffers⟩ :: hs)) :
    Balanced (io.registerFixedFile fd updated).1 fds eventfd
        (⟨fd, slotsOf (io.registerFixedFile fd updated).2, buffers⟩ :: hs) ↔
      (fd.isSome → io.fixedFilesEnabled = true → io.fixedFileFree ≠ [] → updated = true) := by
  unfold Io.registerFixedFile
  by_cases henabled : io.fixedFilesEnabled = true
  swap
  · rw [if_pos henabled]
    exact iff_of_true hb fun _ h => absurd h henabled
  rw [if_neg (not_not.mpr henabled)]
  split
  next hfree => exact iff_of_true hb fun _ _ h => absurd hfree h
  next index free hfree =>
    obtain ⟨hzero, hfresh, hunused⟩ := hb.free_unique hfree
    have hregistered : ∀ h ∈ hs, ∀ j ∈ h.slots,
        Function.update io.fixedFileTable index fd j = h.fd := by
      intro h hh j hj
      have hne : j ≠ index := fun hji => hunused h (List.mem_cons_of_mem _ hh) (hji ▸ hj)
      rw [Function.update_of_ne hne]
      exact hb.registered h (List.mem_cons_of_mem _ hh) j hj
    have hold : ∀ j n, j ≠ index → Function.update io.fixedFileTable index fd j = some n →
        j = 0 ∧ n = eventfd ∨ ∃ h ∈ hs, j ∈ h.slots ∧ h.fd = some n := by
      intro j n hji hentry
      rw [Function.update_of_ne hji] at hentry
      rcases hb.entries j n hentry with heventfd | ⟨h, hh, hslot, hfd⟩
      · exact Or.inl heventfd
      · rcases List.mem_cons.mp hh with rfl | hh
        · exact absurd hslot List.not_mem_nil
        · exact Or.inr ⟨h, hh, hslot, hfd⟩
    cases updated with
    | true =>
      refine iff_of_true ?_ fun _ _ _ => rfl
      rw [if_pos rfl, slotsOf, if_pos hzero]
      refine ⟨?_, hb.buffers, ?_, ?_, hb.fdsOpen, hb.fdsNodup⟩
      · have hslots := hb.slots
        rw [hfree] at hslots
        exact (cons_append_perm index free _).symm.trans hslots
      · intro h hh j hj
        rcases List.mem_cons.mp hh with rfl | hh
        · rw [List.mem_singleton.mp hj]
          exact Function.update_self ..
        · exact hregistered h hh j hj
      · intro j n hentry
        by_cases hji : j = index
        · subst hji
          refine Or.inr ⟨_, List.mem_cons_self, List.mem_singleton_self j, ?_⟩
          simpa using hentry
        · rcases hold j n hji hentry with heventfd | ⟨h, hh, hslot⟩
          · exact Or.inl heventfd
          · exact Or.inr ⟨h, List.mem_cons_of_mem _ hh, hslot⟩
    | false =>
      rw [if_neg Bool.false_ne_true]
      cases fd with
      | none =>
        refine iff_of_true ?_ fun h => absurd h Bool.false_ne_true
        refine ⟨hb.slots, hb.buffers, ?_, ?_, hb.fdsOpen, hb.fdsNodup⟩
        · intro h hh j hj
          rcases List.mem_cons.mp hh with rfl | hh
          · exact absurd hj List.not_mem_nil
          · exact hregistered h hh j hj
        · intro j n hentry
          by_cases hji : j = index
          · subst hji
            simp at hentry
          · rcases hold j n hji hentry with heventfd | ⟨h, hh, hslot⟩
            · exact Or.inl heventfd
            · exact Or.inr ⟨h, List.mem_cons_of_mem _ hh, hslot⟩
      | some n =>
        refine iff_of_false ?_ fun h => ?_
        · -- the entry of a slot on the free list
          intro hb'
          refine hb'.not_stale ?_ (Function.update_self index (some n) io.fixedFileTable)
          exact hfree ▸ List.mem_cons_self
        · exact Bool.false_ne_true (h rfl henabled (hfree ▸ List.cons_ne_nil _ _))

end Books

section Teardown

variable {w : Pools} {fd : Option ℕ} {index : ℕ} {buffers : List ℕ} {hs : List Holding}

theorem Balanced.unregisterSlot
    (hb : Balanced w.io w.fds w.eventfd (⟨fd, slotsOf index, buffers⟩ :: hs))
    (henabled : w.io.fixedFilesEnabled = false → index = 0) :
    Balanced (w.unregisterSlot index).io w.fds w.eventfd (⟨fd, [], buffers⟩ :: hs) := by
  unfold Pools.unregisterSlot
  by_cases hzero : index = 0
  · subst hzero
    exact hb
  · rw [slotsOf, if_pos hzero] at hb
    rw [if_pos hzero]
    refine hb.unregister ?_
    cases h : w.io.fixedFilesEnabled with
    | true => rfl
    | false => exact absurd (henabled h) hzero

/-- The fd of a transport without a slot is closed. -/
theorem Balanced.close {n : ℕ} (hb : Balanced w.io w.fds w.eventfd (⟨some n, [], buffers⟩ :: hs)) :
    Balanced w.io (w.closeFd n).fds w.eventfd (⟨none, [], buffers⟩ :: hs) := by
  refine hb.forget.closeFd ?_
  have hperm : (w.eventfd :: (⟨some n, [], buffers⟩ :: hs).filterMap Holding.fd).Perm
      (n :: w.eventfd :: hs.filterMap Holding.fd) := List.Perm.swap ..
  exact (List.nodup_cons.mp (hperm.nodup_iff.mp hb.fdsNodup)).1

/-- The fd and the slot of a transport are torn down. -/
theorem Balanced.teardown (hb : Balanced w.io w.fds w.eventfd (⟨fd, slotsOf index, buffers⟩ :: hs))
    (henabled : w.io.fixedFilesEnabled = false → index = 0) (ownsFd : Bool) :
    Balanced ((Talyn.teardown fd index ownsFd).foldl apply w).io
      ((Talyn.teardown fd index ownsFd).foldl apply w).fds w.eventfd
      (⟨none, [], buffers⟩ :: hs) := by
  have hclosed : ∀ u : Pools, u.eventfd = w.eventfd →
      Balanced u.io u.fds u.eventfd (⟨fd, [], buffers⟩ :: hs) →
      Balanced ((if ownsFd then fd.toList.map FdEffect.closeFd else []).foldl apply u).io
        ((if ownsFd then fd.toList.map FdEffect.closeFd else []).foldl apply u).fds w.eventfd
        (⟨none, [], buffers⟩ :: hs) := by
    intro u heventfd hu
    rw [← heventfd]
    cases ownsFd with
    | false => exact hu.forget
    | true =>
      cases fd with
      | none => exact hu
      | some n => exact hu.close
  have hunregistered := hb.unregisterSlot henabled
  unfold Talyn.teardown
  rw [List.foldl_append]
  unfold Pools.unregisterSlot at hunregistered
  by_cases hzero : index = 0
  · rw [if_neg (not_not.mpr hzero)] at hunregistered ⊢
    exact hclosed w rfl hunregistered
  · rw [if_pos hzero] at hunregistered ⊢
    exact hclosed _ rfl hunregistered

end Teardown

/-! ### When the books are kept -/

/-- What the books need to know of a transport: it has a slot only where there are slots, and a stream
transport has its read buffer. -/
def Object.Live (o : Object) (fixedFilesEnabled : Bool) : Prop :=
  (fixedFilesEnabled = false → o.fixedFileIndex = 0) ∧
    match o with
    | .building o | .stream o => o.machine.stream.read.initialized = true
    | .datagram _ => True

/-- Every transport is one that the books know. -/
def Inv (w : Pools) : Prop := ∀ o ∈ w.objects, o.Live w.io.fixedFilesEnabled

/-- A slot is given out. -/
def Takes (w : Pools) : Prop := w.io.fixedFilesEnabled = true ∧ w.io.fixedFileFree ≠ []

/-- The ring takes the entry of every fd that is registered, no read is left in the ring by an `io.queue`
that fails, and a stream transport is dropped only when its slot has been unregistered. -/
def Keeps (w : Pools) (e : Event) : Prop :=
  (w.step e).isSome →
    match e with
    | .newStream _ _ _ updated failing => failing = false → w.Takes → updated = true
    | .newDatagram fd updated _ => fd.isSome → w.Takes → updated = true
    | .armFails _ left | .refuseRead _ _ _ left => left = false
    | .queueReadLeft _ => False
    | .drop i => ∀ o, w.objects[i]? = some (.stream o) → o.machine.stream.fixedFileIndex = 0
    | _ => True

variable {w w' : Pools} {i : ℕ} {o o' : Object}

/-- A transport with the others, and the transports with another in its place and without it. -/
theorem split_objects (h : w.objects[i]? = some o) :
    w.objects.Perm (o :: w.objects.eraseIdx i) ∧
      ∀ o', (w.objects.set i o').Perm (o' :: w.objects.eraseIdx i) := by
  obtain ⟨hi, rfl⟩ := List.getElem?_eq_some_iff.mp h
  exact ⟨(List.getElem_cons_eraseIdx_perm hi).symm, fun o' => List.set_perm_cons_eraseIdx hi o'⟩

theorem Sound.split (h : w.Sound) (ho : w.objects[i]? = some o) :
    Balanced w.io w.fds w.eventfd
      (o.holding :: (w.objects.eraseIdx i).map Object.holding) :=
  h.balanced.perm ((split_objects ho).1.map Object.holding)

theorem Sound.of_set (h : Balanced w.io w.fds w.eventfd
      (o'.holding :: (w.objects.eraseIdx i).map Object.holding)) (hkept : w.early = [] ∧ w.unreferenced = 0)
    (ho : w.objects[i]? = some o) : Sound { w with objects := w.objects.set i o' } :=
  ⟨h.perm (((split_objects ho).2 o').map Object.holding).symm, hkept⟩

theorem fixedFilesEnabled_registerFixedFile (io : Io) (fd : Option ℕ) (updated : Bool) :
    (io.registerFixedFile fd updated).1.fixedFilesEnabled = io.fixedFilesEnabled ∧
      (io.fixedFilesEnabled = false → (io.registerFixedFile fd updated).2 = 0) := by
  unfold Io.registerFixedFile
  by_cases henabled : io.fixedFilesEnabled = true
  swap
  · rw [if_pos henabled]
    exact ⟨rfl, fun _ => rfl⟩
  · rw [if_neg (not_not.mpr henabled)]
    refine ⟨?_, fun h => absurd (henabled.symm.trans h) nofun⟩
    split
    · rfl
    · dsimp only
      split <;> rfl

@[simp] theorem fixedFilesEnabled_leaseBuffer (io : Io) :
    io.leaseBuffer.1.fixedFilesEnabled = io.fixedFilesEnabled := by
  unfold Io.leaseBuffer
  split
  · rfl
  · split <;> rfl

@[simp] theorem fixedFilesEnabled_releaseBuffer (io : Io) (index : ℕ) :
    (io.releaseBuffer index).fixedFilesEnabled = io.fixedFilesEnabled := by
  unfold Io.releaseBuffer
  split
  · rfl
  · split <;> rfl

@[simp] theorem fixedFilesEnabled_unregisterFixedFile (io : Io) (index : ℕ) :
    (io.unregisterFixedFile index).fixedFilesEnabled = io.fixedFilesEnabled := by
  unfold Io.unregisterFixedFile
  split <;> rfl

/-- What a pool operation of a transport leaves alone. -/
structure Beside (w w' : Pools) : Prop where
  enabled : w'.io.fixedFilesEnabled = w.io.fixedFilesEnabled
  objects : w'.objects = w.objects
  eventfd : w'.eventfd = w.eventfd

theorem Beside.refl : Beside w w := ⟨rfl, rfl, rfl⟩

theorem Beside.trans {w'' : Pools} (h : Beside w w') (h' : Beside w' w'') : Beside w w'' :=
  ⟨h'.enabled.trans h.enabled, h'.objects.trans h.objects, h'.eventfd.trans h.eventfd⟩

theorem beside_unregisterSlot (w : Pools) (index : ℕ) : Beside w (w.unregisterSlot index) := by
  unfold unregisterSlot
  split
  · exact ⟨fixedFilesEnabled_unregisterFixedFile .., rfl, rfl⟩
  · exact .refl

theorem beside_releaseBuffer (w : Pools) (o : Object) : Beside w (w.releaseBuffer o) := by
  unfold releaseBuffer
  split
  · exact .refl
  · exact ⟨fixedFilesEnabled_releaseBuffer .., rfl, rfl⟩

theorem beside_closeFd (w : Pools) (fd : ℕ) : Beside w (w.closeFd fd) := ⟨rfl, rfl, rfl⟩

theorem beside_foldl_apply (w : Pools) (es : List FdEffect) : Beside w (es.foldl apply w) := by
  induction es generalizing w with
  | nil => exact .refl
  | cons e es ih =>
    refine Beside.trans ?_ (ih _)
    cases e with
    | unregisterFixedFile index => exact ⟨fixedFilesEnabled_unregisterFixedFile .., rfl, rfl⟩
    | closeFd fd => exact beside_closeFd w fd

theorem beside_cleanupResources (w : Pools) (d : DatagramObject) : Beside w (w.cleanupResources d) :=
  (beside_unregisterSlot w _).trans (beside_releaseBuffer _ _)

theorem beside_datagramClear (w : Pools) (d : DatagramObject) : Beside w (w.datagramClear d) := by
  apply (beside_cleanupResources w d).trans
  unfold datagramClear
  dsimp only
  split
  · exact .refl
  · exact beside_closeFd _ _

/-- The slot is left alone: `loop` has been cleared when `stream_clear` looks at it. -/
theorem streamClear_eq (w : Pools) (o : StreamObject) :
    w.streamClear o =
      let w := if o.machine.stream.read.initialized then w.releaseBuffer (.stream o) else w
      match o.machine.stream.fd with
      | none => w
      | some fd => if o.machine.stream.ownsFd then w.closeFd fd else w := rfl

theorem beside_streamClear (w : Pools) (o : StreamObject) : Beside w (w.streamClear o) := by
  rw [streamClear_eq]
  dsimp only
  have hreleased : Beside w (if o.machine.stream.read.initialized then w.releaseBuffer (.stream o)
      else w) := by
    split
    · exact beside_releaseBuffer w _
    · exact .refl
  generalize (if o.machine.stream.read.initialized then w.releaseBuffer (.stream o) else w) = v
    at hreleased ⊢
  apply hreleased.trans
  split
  · exact .refl
  · split
    · exact beside_closeFd _ _
    · exact .refl

/-- A transport in the place of another. -/
theorem Inv.set (h : w.Inv) (hbeside : Beside w w')
    (ho : o.Live w.io.fixedFilesEnabled) : Inv { w' with objects := w'.objects.set i o } := by
  intro x hx
  dsimp only at hx ⊢
  rw [hbeside.objects] at hx
  rw [hbeside.enabled]
  rcases List.mem_or_eq_of_mem_set hx with hx | rfl
  · exact h x hx
  · exact ho

/-- A transport is gone. -/
theorem Inv.eraseIdx (h : w.Inv) (hbeside : Beside w w') :
    Inv { w' with objects := w'.objects.eraseIdx i } := by
  intro x hx
  dsimp only at hx ⊢
  rw [hbeside.objects] at hx
  rw [hbeside.enabled]
  exact h x (List.mem_of_mem_eraseIdx hx)

theorem descriptor_arm (o : StreamObject) (task : TaskId) :
    (o.arm task).machine.stream.descriptor = o.machine.stream.descriptor := by
  unfold StreamObject.arm
  dsimp only
  cases o.machine.stream.protocol.type <;> rfl

theorem kept_foldl_apply (w : Pools) (es : List FdEffect) :
    (es.foldl apply w).early = w.early ∧ (es.foldl apply w).unreferenced = w.unreferenced := by
  induction es generalizing w with
  | nil => exact ⟨rfl, rfl⟩
  | cons e es ih => cases e <;> exact ih _

/-- A transport leaves its fd and its slot alone, or tears them down: the books stay balanced. -/
theorem Sound.settle {es : List FdEffect} (hinv : w.Inv) (h : w.Sound) (ho : w.objects[i]? = some o)
    (hbuffer : o'.fixedBufferIndex = o.fixedBufferIndex)
    (hes : es = [] ∧ o'.fd = o.fd ∧ o'.fixedFileIndex = o.fixedFileIndex ∨
      (∃ ownsFd, es = Talyn.teardown o.fd o.fixedFileIndex ownsFd) ∧ o'.fd = none ∧
        o'.fixedFileIndex = 0) : Sound (w.settle i es o') := by
  have hsplit := h.split ho
  rcases hes with ⟨rfl, hfd, hindex⟩ | ⟨⟨ownsFd, rfl⟩, hfd, hindex⟩
  · have hholding : o'.holding = o.holding := by
      rw [Object.holding, hfd, hindex, hbuffer, Object.holding]
    exact Sound.of_set (hholding ▸ hsplit) h.kept ho
  · have hbeside := beside_foldl_apply w (Talyn.teardown o.fd o.fixedFileIndex ownsFd)
    have hbalanced := hsplit.teardown (hinv o (List.mem_of_getElem? ho)).1 ownsFd
    have hholding : o'.holding = ⟨none, [], o.fixedBufferIndex.toList⟩ := by
      rw [Object.holding, hfd, hindex, hbuffer]
      rfl
    rw [← hbeside.objects, ← hholding, ← hbeside.eventfd] at hbalanced
    refine Sound.of_set hbalanced ?_ (hbeside.objects ▸ ho)
    obtain ⟨hearly, hunreferenced⟩ :=
      kept_foldl_apply w (Talyn.teardown o.fd o.fixedFileIndex ownsFd)
    exact ⟨hearly.trans h.kept.1, hunreferenced.trans h.kept.2⟩

theorem Inv.settle {es : List FdEffect} (h : w.Inv) (ho : o'.Live w.io.fixedFilesEnabled) :
    Inv (w.settle i es o') :=
  h.set (beside_foldl_apply w es) ho

theorem fdStep_refuseRearm {s : Stream} {batchDispatched : Bool} {exc : Exc} {m : Machine}
    (hs : ((s.beginRead batchDispatched).refuseRearm exc).map (Machine.push []) = some m) :
    Stream.FdStep s m.stream := by
  obtain ⟨r, hr, rfl⟩ := Option.map_eq_some_iff.1 hs
  obtain ⟨-, hr⟩ := Option.ite_none_left_eq_some.1 hr
  obtain rfl := Option.some.inj hr
  refine Stream.FdStep.trans ?_ (Stream.fdStep_failRead _ _ exc)
  cases batchDispatched with
  | false => exact .same rfl rfl
  | true => exact .same rfl rfl

/-- A refused read leaves the fd and the slot alone or tears them down. -/
theorem fdStep_refuseRead {m m' : Machine} {exc : Exc} {e : Talyn.Event}
    (hs : m.refuseRead exc e = some m') : Stream.FdStep m.stream m'.stream := by
  unfold Machine.refuseRead at hs
  split at hs
  · obtain ⟨-, hs⟩ := Option.ite_none_right_eq_some.1 hs
    obtain rfl := Option.some.inj hs
    exact .same rfl rfl
  · obtain ⟨-, hs⟩ := Option.ite_none_right_eq_some.1 hs
    exact fdStep_refuseRearm hs
  · split at hs
    · exact fdStep_refuseRearm hs
    · cases hs
  · obtain ⟨-, hs⟩ := Option.ite_none_right_eq_some.1 hs
    obtain rfl := Option.some.inj hs
    exact Stream.fdStep_failRead _ _ exc
  · rename_i site frames _
    obtain rfl := Option.some.inj hs
    exact Stream.fdStep_frameRaised m.stream (.getBuffer site) exc
  · cases hs

/-- What an event does to a stream transport, as its books see it. -/
theorem stream_settle {s : StreamObject} {m : Machine}
    (hs : Stream.FdStep s.machine.stream m.stream) :
    let es := Stream.fdEffects (m.stream.trace.drop s.machine.stream.trace.length)
    (es = [] ∧ m.stream.fd = s.machine.stream.fd ∧
        m.stream.fixedFileIndex = s.machine.stream.fixedFileIndex ∨
      (∃ ownsFd, es = Talyn.teardown s.machine.stream.fd s.machine.stream.fixedFileIndex ownsFd) ∧
        m.stream.fd = none ∧ m.stream.fixedFileIndex = 0) ∧
      m.stream.read.initialized = s.machine.stream.read.initialized := by
  dsimp only
  rcases hs with ⟨es, htrace, hes, hd⟩ | ⟨es, fd, htrace, hfd, hes, hd⟩ <;>
    rw [htrace, List.drop_left, hes]
  · exact ⟨Or.inl ⟨rfl, congrArg Prod.fst hd, congrArg (·.2.1) hd⟩, congrArg (·.2.2.2) hd⟩
  · exact ⟨Or.inr ⟨⟨_, rfl⟩, congrArg Prod.fst hd, congrArg (·.2.1) hd⟩, congrArg (·.2.2.2) hd⟩

/-- What an event does to a datagram transport, as its books see it. -/
theorem datagram_settle {t u : DatagramTransport} {e : DatagramTransport.Event}
    (hs : t.step e = some u) :
    let es := DatagramTransport.fdEffects (u.trace.drop t.trace.length)
    es = [] ∧ u.fd = t.fd ∧ u.fixedFileIndex = t.fixedFileIndex ∨
      (∃ ownsFd, es = Talyn.teardown t.fd t.fixedFileIndex ownsFd) ∧ u.fd = none ∧
        u.fixedFileIndex = 0 := by
  dsimp only
  rcases DatagramTransport.fdStep_step hs with
    ⟨es, htrace, hes, hfd, hindex⟩ | ⟨es, htrace, hes, hfd, hindex⟩ <;>
    rw [htrace, List.drop_left, hes]
  · exact Or.inl ⟨rfl, hfd, hindex⟩
  · exact Or.inr ⟨⟨_, rfl⟩, hfd, hindex⟩

theorem newStream_eq (w : Pools) (protocol : Protocol) (fd : ℕ) (serverRef updated failing : Bool) :
    w.newStream protocol fd serverRef updated failing =
      if failing then
        { w with io := w.io.leaseBuffer.2.elim w.io.leaseBuffer.1 w.io.leaseBuffer.1.releaseBuffer }
      else
        let r := w.io.leaseBuffer.1.registerFixedFile (some fd) updated
        let stream := Stream.new protocol fd r.2 true serverRef
        { w with
          io := r.1
          objects := w.objects ++ [.building ⟨⟨stream, []⟩, true, w.io.leaseBuffer.2⟩] } := rfl

theorem newDatagram_eq (w : Pools) (fd : Option ℕ) (updated failing : Bool) :
    w.newDatagram fd updated failing =
      let r := w.io.registerFixedFile fd updated
      let d : DatagramObject :=
        ⟨{ DatagramTransport.new 0 r.2 0 with fd := fd }, r.1.leaseBuffer.2, 0⟩
      let w := { w with io := r.1.leaseBuffer.1 }
      if failing then w.cleanupResources d else { w with objects := w.objects ++ [Object.datagram d] } := rfl

/-- A transport is added. -/
theorem Inv.append (h : w.Inv) {io : Io}
    (henabled : io.fixedFilesEnabled = w.io.fixedFilesEnabled) (ho : o.Live io.fixedFilesEnabled) :
    Inv { w with io := io, objects := w.objects ++ [o] } := by
  intro x hx
  rcases List.mem_append.mp hx with hx | hx
  · dsimp only
    rw [henabled]
    exact h x hx
  · obtain rfl := List.mem_singleton.mp hx
    exact ho

theorem Inv.newStream (h : w.Inv) (protocol : Protocol) (fd : ℕ) (serverRef updated failing : Bool) :
    Inv (w.newStream protocol fd serverRef updated failing) := by
  rw [newStream_eq]
  cases failing with
  | true =>
    intro o ho
    have henabled : (w.io.leaseBuffer.2.elim w.io.leaseBuffer.1
        w.io.leaseBuffer.1.releaseBuffer).fixedFilesEnabled = w.io.fixedFilesEnabled := by
      cases w.io.leaseBuffer.2 <;> simp
    rw [if_pos rfl] at ho ⊢
    rw [henabled]
    exact h o ho
  | false =>
    rw [if_neg Bool.false_ne_true]
    obtain ⟨henabled, hindex⟩ :=
      fixedFilesEnabled_registerFixedFile w.io.leaseBuffer.1 (some fd) updated
    refine h.append (henabled.trans (fixedFilesEnabled_leaseBuffer _)) ⟨fun hno => ?_, rfl⟩
    exact hindex (henabled.symm.trans hno)

theorem Inv.newDatagram (h : w.Inv) (fd : Option ℕ) (updated failing : Bool) :
    Inv (w.newDatagram fd updated failing) := by
  rw [newDatagram_eq]
  dsimp only
  obtain ⟨henabled, hindex⟩ := fixedFilesEnabled_registerFixedFile w.io fd updated
  have henabled' := (fixedFilesEnabled_leaseBuffer _).trans henabled
  cases failing with
  | true =>
    rw [if_pos rfl]
    intro o ho
    have hbeside := beside_cleanupResources
      { w with io := (w.io.registerFixedFile fd updated).1.leaseBuffer.1 }
      ⟨{ DatagramTransport.new 0 (w.io.registerFixedFile fd updated).2 0 with fd := fd },
        (w.io.registerFixedFile fd updated).1.leaseBuffer.2, 0⟩
    rw [hbeside.objects] at ho
    rw [hbeside.enabled, henabled']
    exact h o ho
  | false =>
    rw [if_neg Bool.false_ne_true]
    refine h.append henabled' ⟨fun hno => ?_, trivial⟩
    exact hindex (henabled.symm.trans ((fixedFilesEnabled_leaseBuffer _).symm.trans hno))

theorem beside_armFailed (w : Pools) (s : StreamObject) : Beside w (w.armFailed s) :=
  (beside_unregisterSlot w _).trans (beside_releaseBuffer _ _)

theorem beside_armLeft (w : Pools) (s : StreamObject) : Beside w (w.armLeft s) :=
  (beside_armFailed w s).trans ⟨rfl, rfl, rfl⟩

/-- A stream transport goes on. -/
theorem Inv.settle_stream {s : StreamObject} {m : Machine} (h : w.Inv)
    (ho : w.objects[i]? = some (.stream s)) (hm : Stream.FdStep s.machine.stream m.stream)
    (es : List FdEffect) : Inv (w.settle i es (.stream { s with machine := m })) := by
  have hlive := h _ (List.mem_of_getElem? ho)
  obtain ⟨hes, hread⟩ := stream_settle hm
  refine h.settle ⟨fun hno => ?_, hread.trans hlive.2⟩
  rcases hes with ⟨-, -, hindex⟩ | ⟨-, -, hindex⟩
  · exact hindex.trans (hlive.1 hno)
  · exact hindex

theorem fixedFileIndex_queueRead (d : DatagramObject) (task : TaskId) :
    (d.queueRead task).transport.fixedFileIndex = d.transport.fixedFileIndex ∧
      (d.queueRead task).transport.fd = d.transport.fd ∧
      (d.queueRead task).fixedBufferIndex = d.fixedBufferIndex := by
  unfold DatagramObject.queueRead
  split <;> exact ⟨rfl, rfl, rfl⟩

theorem fixedFileIndex_endRead (d : DatagramObject) (rearmed : Bool) :
    (d.endRead rearmed).transport.fixedFileIndex = d.transport.fixedFileIndex ∧
      (d.endRead rearmed).transport.fd = d.transport.fd ∧
      (d.endRead rearmed).fixedBufferIndex = d.fixedBufferIndex := by
  cases rearmed <;> exact ⟨rfl, rfl, rfl⟩

/-- **What the books know of the transports holds whatever happens.** -/
theorem Inv.step {e : Event} (h : w.Inv) (hs : w.step e = some w') : Inv w' := by
  cases step_cases hs with
  | openFd fd hclosed => exact h
  | closeFd fd hfree => exact h
  | newStream protocol fd serverRef updated failing hfree =>
    exact h.newStream protocol fd serverRef updated failing
  | arm i task o ho hpos =>
    have hlive := h _ (List.mem_of_getElem? ho)
    have hd := descriptor_arm o task
    refine h.set .refl ⟨fun hno => ?_, (congrArg (·.2.2.2) hd).trans hlive.2⟩
    exact (congrArg (·.2.1) hd).trans (hlive.1 hno)
  | armFails i o ho => exact h.eraseIdx (beside_armFailed w o)
  | armLeft i o ho => exact h.eraseIdx (beside_armLeft w o)
  | stream i e o m ho hm => exact h.settle_stream ho (Stream.fdStep_step hm) _
  | refuseRead i e exc o m ho hm => exact h.settle_stream ho (fdStep_refuseRead hm) _
  | readLeft i e exc o m v ho hm hv =>
    have hsettled := h.settle_stream ho (fdStep_refuseRead hm)
      (Stream.fdEffects (m.stream.trace.drop o.machine.stream.trace.length))
    rw [← hv] at hsettled
    exact hsettled
  | newDatagram fd updated failing hfree => exact h.newDatagram fd updated failing
  | datagram i e d t ho ht =>
    have hlive := h _ (List.mem_of_getElem? ho)
    refine h.settle ⟨fun hno => ?_, trivial⟩
    rcases datagram_settle ht with ⟨-, -, hindex⟩ | ⟨-, -, hindex⟩
    · exact hindex.trans (hlive.1 hno)
    · exact hindex
  | queueRead i task d ho hpos =>
    have hlive := h _ (List.mem_of_getElem? ho)
    refine h.set .refl ⟨fun hno => ?_, trivial⟩
    exact (fixedFileIndex_queueRead d task).1.trans (hlive.1 hno)
  | queueReadLeft i d ho => exact h
  | endRead i rearmed d ho hreads =>
    have hlive := h _ (List.mem_of_getElem? ho)
    refine h.set .refl ⟨fun hno => ?_, trivial⟩
    exact (fixedFileIndex_endRead d rearmed).1.trans (hlive.1 hno)
  | dropStream i o ho hreferences => exact h.eraseIdx (beside_streamClear w o)
  | dropDatagram i d ho hreferences => exact h.eraseIdx (beside_datagramClear w d)

theorem IsFree.not_mem {fd : ℕ} (h : w.IsFree fd) :
    fd ∉ w.eventfd :: (w.objects.map Object.holding).filterMap Holding.fd := by
  intro hmem
  rcases List.mem_cons.mp hmem with rfl | hmem
  · exact h.2.1 rfl
  · obtain ⟨holding, hholding, hfd⟩ := List.mem_filterMap.mp hmem
    obtain ⟨o, ho, rfl⟩ := List.mem_map.mp hholding
    exact h.2.2 o ho hfd

/-- A transport releases the buffer it has leased. -/
theorem Balanced.releaseOf {fd : Option ℕ} {slots : List ℕ} {hs : List Holding}
    (hb : Balanced w.io w.fds w.eventfd (⟨fd, slots, o.fixedBufferIndex.toList⟩ :: hs)) :
    Balanced (w.releaseBuffer o).io w.fds w.eventfd (⟨fd, slots, []⟩ :: hs) := by
  unfold Pools.releaseBuffer
  split
  next hnone =>
    rw [hnone] at hb
    exact hb
  next index hindex =>
    rw [hindex] at hb
    exact Balanced.releaseBuffer hb

theorem kept_releaseBuffer (hreading : o.isReading = false)
    (hkept : w.early = [] ∧ w.unreferenced = 0) :
    (w.releaseBuffer o).early = [] ∧ (w.releaseBuffer o).unreferenced = 0 := by
  unfold releaseBuffer
  split
  · exact hkept
  · rw [if_neg (by simp [hreading])]
    exact hkept

@[simp] theorem fds_releaseBuffer (w : Pools) (o : Object) : (w.releaseBuffer o).fds = w.fds := by
  unfold releaseBuffer
  split <;> rfl

@[simp] theorem fds_unregisterSlot (w : Pools) (index : ℕ) : (w.unregisterSlot index).fds = w.fds := by
  unfold unregisterSlot
  split <;> rfl

theorem kept_unregisterSlot (hkept : w.early = [] ∧ w.unreferenced = 0) (index : ℕ) :
    (w.unregisterSlot index).early = [] ∧ (w.unregisterSlot index).unreferenced = 0 := by
  unfold unregisterSlot
  split <;> exact hkept

/-- An object that nothing refers to is not being read into. -/
theorem isReading_of_references (h : o.references = 0) : o.isReading = false := by
  cases o with
  | building s => rfl
  | stream s =>
    simp only [Object.references] at h
    have hnil : s.machine.stream.pendingReads = [] := List.eq_nil_of_length_eq_zero (by omega)
    simp [Object.isReading, hnil]
  | datagram d =>
    simp only [Object.references] at h
    simp [Object.isReading]
    omega

/-- A transport gives back its slot and its buffer. -/
theorem Balanced.cleanup {u : Pools} {fd : Option ℕ} {hs : List Holding}
    (hb : Balanced w.io w.fds w.eventfd
      (⟨fd, slotsOf o.fixedFileIndex, o.fixedBufferIndex.toList⟩ :: hs))
    (henabled : w.io.fixedFilesEnabled = false → o.fixedFileIndex = 0)
    (hu : u = (w.unregisterSlot o.fixedFileIndex).releaseBuffer o) :
    Balanced u.io u.fds u.eventfd (⟨fd, [], []⟩ :: hs) := by
  have heventfd : (w.unregisterSlot o.fixedFileIndex).eventfd = w.eventfd :=
    (beside_unregisterSlot w _).eventfd
  have hunregistered := hb.unregisterSlot henabled
  rw [← heventfd, ← fds_unregisterSlot w o.fixedFileIndex] at hunregistered
  have hreleased := hunregistered.releaseOf
  rw [hu, fds_releaseBuffer, (beside_releaseBuffer _ o).eventfd]
  exact hreleased

theorem Sound.of_eraseIdx (h : Balanced w'.io w'.fds w'.eventfd
      ((w.objects.eraseIdx i).map Object.holding)) (hkept : w'.early = [] ∧ w'.unreferenced = 0)
    (hobjects : w'.objects = w.objects) : Sound { w' with objects := w'.objects.eraseIdx i } := by
  refine ⟨?_, hkept⟩
  dsimp only
  rw [hobjects]
  exact h

theorem Sound.armFailed {s : StreamObject} (hinv : w.Inv) (h : w.Sound)
    (ho : w.objects[i]? = some (.building s)) :
    Sound { w.armFailed s with objects := (w.armFailed s).objects.eraseIdx i } := by
  have hcleaned := Balanced.cleanup (h.split ho) (hinv _ (List.mem_of_getElem? ho)).1 rfl
  refine Sound.of_eraseIdx hcleaned.forget.remove ?_ (beside_armFailed w s).objects
  exact kept_releaseBuffer rfl (kept_unregisterSlot h.kept _)

theorem Sound.datagramClear {d : DatagramObject} (hinv : w.Inv) (h : w.Sound)
    (ho : w.objects[i]? = some (.datagram d)) (hreferences : (Object.datagram d).references = 0) :
    Sound { w.datagramClear d with objects := (w.datagramClear d).objects.eraseIdx i } := by
  have hcleaned := Balanced.cleanup (h.split ho) (hinv _ (List.mem_of_getElem? ho)).1 rfl
  have hkept : (w.cleanupResources d).early = [] ∧ (w.cleanupResources d).unreferenced = 0 :=
    kept_releaseBuffer (isReading_of_references hreferences) (kept_unregisterSlot h.kept _)
  refine Sound.of_eraseIdx ?_ ?_ (beside_datagramClear w d).objects
  · unfold Pools.datagramClear
    cases hfd : d.transport.fd with
    | none => exact hcleaned.forget.remove
    | some n =>
      have hfd' : (Object.datagram d).fd = some n := hfd
      rw [hfd'] at hcleaned
      exact hcleaned.close.remove
  · unfold Pools.datagramClear
    cases d.transport.fd <;> exact hkept

/-- Buffers and fixed files do not touch each other. -/
theorem files_releaseBuffer (w : Pools) (o : Object) :
    (w.releaseBuffer o).io.fixedFileTable = w.io.fixedFileTable ∧
      (w.releaseBuffer o).io.fixedFileFree = w.io.fixedFileFree := by
  unfold releaseBuffer
  split
  · exact ⟨rfl, rfl⟩
  · dsimp only
    unfold Io.releaseBuffer
    split
    · exact ⟨rfl, rfl⟩
    · split <;> exact ⟨rfl, rfl⟩

/-- A stream transport is dropped: sound exactly when it has no slot. -/
theorem Sound.streamClear_iff {s : StreamObject} (hinv : w.Inv) (h : w.Sound)
    (ho : w.objects[i]? = some (.stream s)) (hreferences : (Object.stream s).references = 0) :
    Sound { w.streamClear s with objects := (w.streamClear s).objects.eraseIdx i } ↔
      s.machine.stream.fixedFileIndex = 0 := by
  have hsplit := h.split ho
  have hbeside := beside_streamClear w s
  have hread : s.machine.stream.read.initialized = true := (hinv _ (List.mem_of_getElem? ho)).2
  have hclear := streamClear_eq w s
  simp only [hread, if_true] at hclear
  constructor
  · intro h'
    by_contra hindex
    have hfree : (w.streamClear s).io.fixedFileFree = w.io.fixedFileFree := by
      rw [hclear, ← (files_releaseBuffer w (.stream s)).2]
      split
      · rfl
      · split <;> rfl
    have hslots' := h'.balanced.slots.length_eq
    have hslots := hsplit.slots.length_eq
    have hslot : (Object.stream s).holding.slots = [s.machine.stream.fixedFileIndex] := if_pos hindex
    dsimp only at hslots'
    -- one slot more is held or free before than after
    rw [hfree, hbeside.objects] at hslots'
    rw [List.flatMap_cons, hslot] at hslots
    simp only [List.length_append, List.length_singleton] at hslots hslots'
    omega
  · intro hindex
    have hslot : slotsOf (Object.stream s).fixedFileIndex = [] := if_neg (not_not.mpr hindex)
    rw [Object.holding, hslot] at hsplit
    have hreleased := hsplit.releaseOf
    have hkept := kept_releaseBuffer (isReading_of_references hreferences) h.kept
    refine Sound.of_eraseIdx ?_ ?_ hbeside.objects
    · rw [hbeside.eventfd, hclear]
      cases hfd : s.machine.stream.fd with
      | none => exact (fds_releaseBuffer w (.stream s)) ▸ hreleased.forget.remove
      | some n =>
        have hfd' : (Object.stream s).fd = some n := hfd
        rw [hfd', ← fds_releaseBuffer w (.stream s),
          ← (beside_releaseBuffer w (.stream s)).eventfd] at hreleased
        rw [← (beside_releaseBuffer w (.stream s)).eventfd]
        dsimp only
        split
        · exact hreleased.close.remove
        · exact hreleased.forget.remove
    · rw [hclear]
      split
      · exact hkept
      · split <;> exact hkept

/-- Leasing a buffer does not touch the fixed files. -/
theorem files_leaseBuffer (io : Io) :
    io.leaseBuffer.1.fixedFileTable = io.fixedFileTable ∧
      io.leaseBuffer.1.fixedFileFree = io.fixedFileFree := by
  unfold Io.leaseBuffer
  split
  · exact ⟨rfl, rfl⟩
  · split <;> exact ⟨rfl, rfl⟩

/-- The order of registering the fd and leasing the buffer does not matter. -/
theorem leaseBuffer_registerFixedFile (io : Io) (fd : Option ℕ) (updated : Bool) :
    (io.registerFixedFile fd updated).1.leaseBuffer.1 =
        (io.leaseBuffer.1.registerFixedFile fd updated).1 ∧
      (io.registerFixedFile fd updated).1.leaseBuffer.2 = io.leaseBuffer.2 ∧
      (io.registerFixedFile fd updated).2 = (io.leaseBuffer.1.registerFixedFile fd updated).2 := by
  obtain ⟨enabled, table, free, registered, slotCount, slots⟩ := io
  cases enabled <;> cases registered <;> cases free <;> cases slots <;> cases updated <;>
    exact ⟨rfl, rfl, rfl⟩

/-- A transport leases a buffer and registers its fd: the books are kept exactly when the ring takes the
entry, where there is a slot and an fd. -/
theorem Sound.take_iff {fd : Option ℕ} {updated : Bool} (h : w.Sound)
    (hfree : ∀ n ∈ fd, w.IsFree n) :
    Balanced (w.io.leaseBuffer.1.registerFixedFile fd updated).1 w.fds w.eventfd
        (⟨fd, slotsOf (w.io.leaseBuffer.1.registerFixedFile fd updated).2,
          w.io.leaseBuffer.2.toList⟩ :: w.objects.map Object.holding) ↔
      (fd.isSome → w.Takes → updated = true) := by
  have hleased := (h.balanced.add fun n hn => ⟨(hfree n hn).1, (hfree n hn).not_mem⟩).leaseBuffer
  rw [hleased.register_iff, (files_leaseBuffer w.io).2, fixedFilesEnabled_leaseBuffer]
  exact forall_congr' fun _ => ⟨fun h htakes => h htakes.1 htakes.2, fun h h1 h2 => h ⟨h1, h2⟩⟩

theorem Sound.append_iff {io : Io} (hkept : w.early = [] ∧ w.unreferenced = 0) :
    Sound { w with io := io, objects := w.objects ++ [o] } ↔
      Balanced io w.fds w.eventfd (o.holding :: w.objects.map Object.holding) := by
  have hperm : ((w.objects ++ [o]).map Object.holding).Perm
      (o.holding :: w.objects.map Object.holding) := by
    rw [List.map_append]
    exact List.perm_append_singleton ..
  exact ⟨fun h => h.balanced.perm hperm, fun h => ⟨h.perm hperm.symm, hkept⟩⟩

theorem Sound.newStream_iff {protocol : Protocol} {fd : ℕ} {serverRef updated failing : Bool}
    (h : w.Sound) (hfree : w.IsFree fd) :
    Sound (w.newStream protocol fd serverRef updated failing) ↔
      (failing = false → w.Takes → updated = true) := by
  rw [newStream_eq]
  cases failing with
  | true =>
    refine iff_of_true ?_ fun hno => absurd hno.symm Bool.false_ne_true
    rw [if_pos rfl]
    -- the buffer goes back at once
    have hadded : Balanced w.io w.fds w.eventfd (⟨none, [], []⟩ :: w.objects.map Object.holding) :=
      h.balanced.add fun _ hn => nomatch hn
    have hleased := hadded.leaseBuffer
    refine ⟨?_, h.kept⟩
    dsimp only
    generalize hbuffer : w.io.leaseBuffer.2 = buffer at hleased ⊢
    cases buffer with
    | none => exact hleased.remove
    | some index => exact hleased.releaseBuffer.remove
  | false =>
    rw [if_neg Bool.false_ne_true, Sound.append_iff h.kept]
    have hfrees : ∀ n ∈ some fd, w.IsFree n := by
      intro n hn
      obtain rfl := Option.mem_some_iff.mp hn
      exact hfree
    have htake := @Sound.take_iff w (some fd) updated h hfrees
    refine htake.trans ⟨fun hyp _ => hyp rfl, fun hyp _ => hyp rfl⟩

/-- Where the ring does not take the entry, it stays at a free slot. -/
theorem stale_of_not_updated {io : Io} {n : ℕ} (henabled : io.fixedFilesEnabled = true)
    (hfree : io.fixedFileFree ≠ []) :
    (io.registerFixedFile (some n) false).2 = 0 ∧
      ∃ index ∈ (io.registerFixedFile (some n) false).1.fixedFileFree,
        (io.registerFixedFile (some n) false).1.fixedFileTable index = some n := by
  obtain ⟨index, free, hcons⟩ := List.exists_cons_of_ne_nil hfree
  simp [Io.registerFixedFile, henabled, hcons]

theorem Sound.newDatagram_iff {fd : Option ℕ} {updated failing : Bool} (h : w.Sound)
    (hfree : ∀ n ∈ fd, w.IsFree n) :
    Sound (w.newDatagram fd updated failing) ↔ (fd.isSome → w.Takes → updated = true) := by
  obtain ⟨hio, hbuffer, hindex⟩ := leaseBuffer_registerFixedFile w.io fd updated
  have htake := @Sound.take_iff w fd updated h hfree
  rw [newDatagram_eq]
  dsimp only
  rw [hio, hbuffer, hindex]
  cases failing with
  | false =>
    rw [if_neg Bool.false_ne_true, Sound.append_iff h.kept]
    exact htake
  | true =>
    rw [if_pos rfl]
    constructor
    · intro h' hsome htakes
      obtain ⟨n, rfl⟩ := Option.isSome_iff_exists.mp hsome
      by_contra hno
      rw [Bool.not_eq_true] at hno
      subst hno
      obtain ⟨hzero, index, hmem, hentry⟩ := @stale_of_not_updated w.io.leaseBuffer.1 n
        ((fixedFilesEnabled_leaseBuffer _).trans htakes.1) (by rw [(files_leaseBuffer _).2]; exact htakes.2)
      rw [hzero] at h'
      have hfiles := files_releaseBuffer
        { w with io := (w.io.leaseBuffer.1.registerFixedFile (some n) false).1 }
        (.datagram ⟨{ DatagramTransport.new 0 0 0 with fd := some n }, w.io.leaseBuffer.2, 0⟩)
      exact h'.balanced.not_stale (hfiles.2 ▸ hmem) ((congrFun hfiles.1 index).trans hentry)
    · intro hyp
      have henabled := fixedFilesEnabled_registerFixedFile w.io.leaseBuffer.1 fd updated
      let u : Pools := { w with io := (w.io.leaseBuffer.1.registerFixedFile fd updated).1 }
      let d : DatagramObject := ⟨{ DatagramTransport.new 0
        (w.io.leaseBuffer.1.registerFixedFile fd updated).2 0 with fd := fd }, w.io.leaseBuffer.2, 0⟩
      have hcleaned := Balanced.cleanup (w := u) (o := .datagram d) (htake.mpr hyp)
        (fun hno => henabled.2 (henabled.1.symm.trans hno)) rfl
      have hbeside := beside_cleanupResources u d
      constructor
      · show Balanced (u.cleanupResources d).io (u.cleanupResources d).fds
          (u.cleanupResources d).eventfd ((u.cleanupResources d).objects.map Object.holding)
        rw [hbeside.objects, hbeside.eventfd]
        exact (hbeside.eventfd ▸ hcleaned).forget.remove
      · have hkept : u.early = [] ∧ u.unreferenced = 0 := h.kept
        exact kept_releaseBuffer rfl (kept_unregisterSlot hkept _)

/-- One event keeps the books exactly when it meets the condition. -/
theorem sound_iff {e : Event} (hinv : w.Inv) (h : w.Sound) (hs : w.step e = some w') :
    w'.Sound ↔ w.Keeps e := by
  have hkeeps : ∀ {P : Prop}, ((w.step e).isSome → P) ↔ P := by simp [hs]
  unfold Keeps
  rw [hkeeps]
  cases step_cases hs with
  | openFd fd hclosed =>
    refine iff_of_true ?_ trivial
    refine ⟨⟨h.balanced.slots, h.balanced.buffers, h.balanced.registered, h.balanced.entries, ?_,
      h.balanced.fdsNodup⟩, h.kept⟩
    exact fun n hn => List.mem_cons_of_mem _ (h.balanced.fdsOpen n hn)
  | closeFd fd hfree => exact iff_of_true ⟨h.balanced.closeFd hfree.not_mem, h.kept⟩ trivial
  | newStream protocol fd serverRef updated failing hfree => exact h.newStream_iff hfree
  | arm i task o ho hpos =>
    refine iff_of_true ?_ trivial
    have hd := descriptor_arm o task
    exact @Sound.settle w i (.building o) (.stream (o.arm task)) [] hinv h ho rfl
      (Or.inl ⟨rfl, congrArg Prod.fst hd, congrArg (·.2.1) hd⟩)
  | armFails i o ho => exact iff_of_true (h.armFailed hinv ho) rfl
  | armLeft i o ho => exact iff_of_false (fun h' => absurd h'.kept.2 (Nat.succ_ne_zero _)) nofun
  | stream i e o m ho hm =>
    exact iff_of_true (h.settle hinv ho rfl (stream_settle (Stream.fdStep_step hm)).1) trivial
  | refuseRead i e exc o m ho hm =>
    exact iff_of_true (h.settle hinv ho rfl (stream_settle (fdStep_refuseRead hm)).1) rfl
  | readLeft i e exc o m v ho hm hv =>
    exact iff_of_false (fun h' => absurd h'.kept.2 (Nat.succ_ne_zero _)) nofun
  | newDatagram fd updated failing hfree => exact h.newDatagram_iff hfree
  | datagram i e d t ho ht => exact iff_of_true (h.settle hinv ho rfl (datagram_settle ht)) trivial
  | queueRead i task d ho hpos =>
    refine iff_of_true ?_ trivial
    obtain ⟨hindex, hfd, hbuffer⟩ := fixedFileIndex_queueRead d task
    exact @Sound.settle w i (.datagram d) (.datagram (d.queueRead task)) [] hinv h ho hbuffer
      (Or.inl ⟨rfl, hfd, hindex⟩)
  | queueReadLeft i d ho =>
    exact iff_of_false (fun h' => absurd h'.kept.2 (Nat.succ_ne_zero _)) id
  | endRead i rearmed d ho hreads =>
    refine iff_of_true ?_ trivial
    obtain ⟨hindex, hfd, hbuffer⟩ := fixedFileIndex_endRead d rearmed
    exact @Sound.settle w i (.datagram d) (.datagram (d.endRead rearmed)) [] hinv h ho hbuffer
      (Or.inl ⟨rfl, hfd, hindex⟩)
  | dropStream i o ho hreferences =>
    refine (h.streamClear_iff hinv ho hreferences).trans ⟨fun hindex s' hs' => ?_, fun hall => ?_⟩
    · rw [ho] at hs'
      obtain rfl := Object.stream.inj (Option.some.inj hs')
      exact hindex
    · exact hall o ho
  | dropDatagram i d ho hreferences =>
    refine iff_of_true (h.datagramClear hinv ho hreferences) fun s' hs' => ?_
    rw [ho] at hs'
    exact absurd (Option.some.inj hs') nofun

theorem Inv.new (eventfd : ℕ) (fixedFilesEnabled buffersRegistered : Bool) :
    Inv (new eventfd fixedFilesEnabled buffersRegistered) := fun _ h => absurd h List.not_mem_nil

theorem Sound.new (eventfd : ℕ) (fixedFilesEnabled buffersRegistered : Bool) :
    Sound (new eventfd fixedFilesEnabled buffersRegistered) := by
  refine ⟨⟨?_, ?_, ?_, ?_, ?_, ?_⟩, rfl, rfl⟩
  · simp [Pools.new, Io.new]
  · simp [Pools.new, Io.new]
  · exact fun _ h => absurd h List.not_mem_nil
  · intro index fd hentry
    have hentry : (if index = 0 ∧ fixedFilesEnabled then some eventfd else none) = some fd := hentry
    split_ifs at hentry with hzero
    exact Or.inl ⟨hzero.1, (Option.some.inj hentry).symm⟩
  · exact fun fd hfd => hfd
  · exact List.nodup_singleton eventfd

/-- The life of a transport that pauses reading and is forgotten while it is open: the cancelled read
gives up the last reference. -/
def forgotten : List Event :=
  [.openFd 9, .newStream ⟨.legacy, true, true, true⟩ 9 false true false, .arm 0 1,
    .stream 0 .pauseReading, .stream 0 (.readCompleted (-125) [] false 2), .drop 0]

end Pools

end Talyn
