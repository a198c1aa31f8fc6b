import Talyn.Loop.TaskPool

/-!
# Queueing an operation

`IO.queue_unlocked` with the functions of `read.zig`, `write.zig`, `timer.zig`, `cancel.zig` and
`socket.zig` that put an operation in the submission queue of the ring. An operation gets a task from
the pool of blocking tasks, an SQE whose `user_data` is the task, and a second SQE when it has a
timeout; on an error its task is discarded.

A task is known by its set and its slot. What an SQE is prepared with and nobody looks at (buffers,
addresses, lengths, flags of the call) is one number. The submission queue is the list of the SQEs that
the kernel has not consumed; `published` of them are in its shared ring.
-/

namespace Talyn

namespace Io

/-- What goes wrong. -/
inductive Error
  | loopDeinitialized
  | outOfMemory
  | overflow
  | submissionQueueFull
  | notImplemented
  /-- an error of `io_uring_enter` -/
  | enter (errno : ℕ)
  deriving DecidableEq, Repr

/-- The opcodes that are used. -/
inductive Opcode
  | pollAdd (events : ℕ)
  | read
  | readFixed
  | write
  | recvmsg
  | sendmsg
  | timeout
  | linkTimeout
  | timeoutRemove
  | asyncCancel
  | shutdown
  | connect
  | accept
  deriving DecidableEq, Repr

/-- A `BlockingTask`, by its set and its slot. -/
abbrev Task := ℕ × ℕ

/-- `io_uring_sqe`; `userData` is `none` for 0. -/
structure Sqe where
  opcode : Opcode
  userData : Option Task
  fd : ℤ
  payload : ℕ
  fixedFile : Bool
  link : Bool
  deriving DecidableEq, Repr

/-- `POLL.IN`. -/
def pollIn : ℕ := 1

/-- `POLL.OUT`. -/
def pollOut : ℕ := 4

/-- `WaitData`. -/
structure WaitData where
  callback : ℕ
  fd : ℤ
  fixedFileIndex : Option ℕ
  timeout : Option ℕ
  deriving DecidableEq, Repr

/-- The selectors of `IoUring.ReadBuffer`. -/
inductive ReadBuffer
  | buffer
  | iovecs
  | bufferSelection
  deriving DecidableEq, Repr

/-- `Read.PerformData`. -/
structure ReadData where
  callback : ℕ
  fd : ℤ
  fixedFileIndex : Option ℕ
  fixedBufferIndex : Option ℕ
  data : ReadBuffer
  payload : ℕ
  timeout : Option ℕ
  zeroCopy : Bool
  deriving DecidableEq, Repr

/-- `Write.PerformData` and `Write.PerformVData`. -/
structure WriteData where
  callback : ℕ
  fd : ℤ
  fixedFileIndex : Option ℕ
  payload : ℕ
  timeout : Option ℕ
  zeroCopy : Bool
  deriving DecidableEq, Repr

/-- `RecvMsgData` and `SendMsgData`. -/
structure MsgData where
  callback : ℕ
  fd : ℤ
  fixedFileIndex : Option ℕ
  payload : ℕ
  deriving DecidableEq, Repr

/-- `BlockingOperationData`. -/
inductive BlockingOperationData
  | waitReadable (data : WaitData)
  | waitWritable (data : WaitData)
  | performRead (data : ReadData)
  | performWrite (data : WriteData)
  | performWriteV (data : WriteData)
  | performRecvMsg (data : MsgData)
  | performSendMsg (data : MsgData)
  | waitTimer (callback duration : ℕ)
  | cancelIo (task : ℕ)
  | cancelTimer (task : ℕ)
  | cancelByFd (fd : ℕ)
  | socketShutdown (fd : ℤ) (how : ℕ)
  | socketConnect (callback : ℕ) (fd : ℤ) (payload : ℕ)
  | socketAccept (callback : ℕ) (fd : ℤ) (payload : ℕ)
  deriving DecidableEq, Repr

/-- What the surroundings answer during one call. -/
structure Env where
  /-- a new set of tasks can be allocated -/
  setAllocates : Bool
  /-- the copy of the iovecs can be allocated -/
  iovsAllocate : Bool
  /-- `IoUring.submit`, once it is not interrupted: the number of SQEs that are consumed, or its error -/
  submit : Except ℕ ℕ
  /-- the write to the eventfd succeeds -/
  wakes : Bool

end Io

/-- `IO`, as far as operations are queued. -/
structure Io where
  pool : TaskPool
  /-- the ring has a descriptor -/
  ringOpen : Bool
  sq : List Io.Sqe
  published : ℕ
  /-- the length of the submission queue -/
  sqEntries : ℕ
  /-- the SQEs the kernel consumed -/
  consumed : List Io.Sqe
  ringHasSubmitted : Bool
  ringBlocked : Bool
  /-- the counter of the eventfd -/
  eventfd : ℕ

namespace Io

/-! ### The ring -/

/-- `get_sqe`, and how the SQE is prepared. -/
def getSqe (io : Io) (sqe : Sqe) : Except Error Unit × Io :=
  if io.sqEntries < io.sq.length + 1 then (.error .submissionQueueFull, io)
  else (.ok (), { io with sq := io.sq ++ [sqe] })

/-- `flush_sq`. -/
def flushSq (io : Io) : Io := { io with published := io.sq.length }

/-- `submit_guaranteed`. -/
def submitGuaranteed (io : Io) (env : Env) : Except Error ℕ × Io :=
  let io := io.flushSq
  match env.submit with
  | .error errno => (.error (.enter errno), io)
  | .ok n =>
    (.ok n, { io with
      sq := io.sq.drop n, published := io.published - n, consumed := io.consumed ++ io.sq.take n })

/-- `flush_pending_sqes`. -/
def flushPendingSqes (io : Io) (env : Env) : Except Error ℕ × Io :=
  if !io.ringOpen then (.ok 0, io)
  else if io.sq.length = 0 then (.ok 0, io)
  else
    match io.submitGuaranteed env with
    | (.error e, io) => (.error e, io)
    | (.ok n, io) => (.ok n, { io with ringHasSubmitted := true })

/-- `wakeup_eventfd`; an error is logged. -/
def wakeupEventfd (io : Io) (env : Env) : Except Error Unit × Io :=
  (.ok (), if env.wakes then { io with eventfd := io.eventfd + 1 } else io)

/-! ### The operations -/

/-- `BlockingTask.discard`. -/
def discard (io : Io) (task : Task) : Io :=
  { io with pool := (io.pool.discard task.1 task.2).getD io.pool }

/-- An operation with a task: the task is pushed, and discarded when the rest of the operation fails. -/
def withTask (io : Io) (set : ℕ) (callback : Option ℕ) (rest : Io → Task → Except Error Unit × Io) :
    Except Error (Option Task) × Io :=
  match io.pool.push set callback with
  | none => (.error .overflow, io)
  | some (none, pool) => (.error .overflow, { io with pool := pool })
  | some (some slot, pool) =>
    match rest { io with pool := pool } (set, slot) with
    | (.ok (), io) => (.ok (some (set, slot)), io)
    | (.error e, io) => (.error e, io.discard (set, slot))

/-- The SQE of an operation, with the SQE of its timeout linked to it. When there is no room for the
second one, the first is taken back. -/
def prepare (io : Io) (sqe : Sqe) (timeout : Option ℕ) : Except Error Unit × Io :=
  match io.getSqe { sqe with link := timeout.isSome } with
  | (.error e, io) => (.error e, io)
  | (.ok (), io) =>
    match timeout with
    | none => (.ok (), io)
    | some ts =>
      match io.getSqe ⟨.linkTimeout, none, -1, ts, false, false⟩ with
      | (.error e, io) => (.error e, { io with sq := io.sq.dropLast })
      | (.ok (), io) => (.ok (), io)

/-- The descriptor of an SQE: the index of a fixed file, or the file descriptor. -/
def fdArg (fd : ℤ) (fixedFileIndex : Option ℕ) : ℤ :=
  match fixedFileIndex with
  | some index => index
  | none => fd

/-- `Read.wait_ready` and `Write.wait_ready`. -/
def waitReady (io : Io) (set : ℕ) (data : WaitData) (events : ℕ) : Except Error (Option Task) × Io :=
  io.withTask set (some data.callback) fun io task =>
    io.prepare ⟨.pollAdd events, some task, fdArg data.fd data.fixedFileIndex, 0,
      data.fixedFileIndex.isSome, false⟩ data.timeout

/-- `Read.perform`. -/
def readPerform (io : Io) (set : ℕ) (data : ReadData) : Except Error (Option Task) × Io :=
  io.withTask set (some data.callback) fun io task =>
    if data.fixedBufferIndex.isNone ∧ data.zeroCopy ∧ data.data ≠ .buffer then (.error .notImplemented, io)
    else
      io.prepare ⟨if data.fixedBufferIndex.isSome then .readFixed else .read, some task,
        fdArg data.fd data.fixedFileIndex, data.payload, data.fixedFileIndex.isSome, false⟩ data.timeout

/-- `Write.perform`. -/
def writePerform (io : Io) (set : ℕ) (data : WriteData) : Except Error (Option Task) × Io :=
  io.withTask set (some data.callback) fun io task =>
    io.prepare ⟨if data.zeroCopy then .sendmsg else .write, some task,
      fdArg data.fd data.fixedFileIndex, data.payload, data.fixedFileIndex.isSome, false⟩ data.timeout

/-- `Write.perform_with_iovecs`. -/
def performWithIovecs (io : Io) (set : ℕ) (data : WriteData) (env : Env) :
    Except Error (Option Task) × Io :=
  io.withTask set (some data.callback) fun io task =>
    if !env.iovsAllocate then (.error .outOfMemory, io)
    else
      io.prepare ⟨.sendmsg, some task, fdArg data.fd data.fixedFileIndex, data.payload,
        data.fixedFileIndex.isSome, false⟩ data.timeout

/-- `Read.recvmsg` and `Write.sendmsg`. -/
def message (io : Io) (set : ℕ) (data : MsgData) (opcode : Opcode) : Except Error (Option Task) × Io :=
  io.withTask set (some data.callback) fun io task =>
    match io.prepare ⟨opcode, some task, fdArg data.fd data.fixedFileIndex, data.payload,
      data.fixedFileIndex.isSome, false⟩ none with
    | (.error e, io) => (.error e, io)
    | (.ok (), io) => (.ok (), io.flushSq)

/-- `Timer.wait`. -/
def timerWait (io : Io) (set callback duration : ℕ) : Except Error (Option Task) × Io :=
  io.withTask set (some callback) fun io task =>
    io.prepare ⟨.timeout, some task, -1, duration, false, false⟩ none

/-- `Socket.connect`, `Socket.accept` and `Socket.shutdown`. -/
def socket (io : Io) (set : ℕ) (callback : Option ℕ) (opcode : Opcode) (fd : ℤ) (payload : ℕ) :
    Except Error (Option Task) × Io :=
  io.withTask set callback fun io task => io.prepare ⟨opcode, some task, fd, payload, false, false⟩ none

/-- `Cancel.perform_io`, `Cancel.perform_timer` and `Cancel.perform_by_fd`. -/
def cancel (io : Io) (opcode : Opcode) (fd : ℤ) (target : ℕ) : Except Error (Option Task) × Io :=
  match io.prepare ⟨opcode, none, fd, target, false, false⟩ none with
  | (.error e, io) => (.error e, io)
  | (.ok (), io) => (.ok none, io)

/-- The switch of `queue_unlocked`. -/
def perform (io : Io) (set : ℕ) (event : BlockingOperationData) (env : Env) :
    Except Error (Option Task) × Io :=
  match event with
  | .waitReadable data => io.waitReady set data pollIn
  | .waitWritable data => io.waitReady set data pollOut
  | .performRead data => io.readPerform set data
  | .performWrite data => io.writePerform set data
  | .performWriteV data => io.performWithIovecs set data env
  | .performRecvMsg data => io.message set data .recvmsg
  | .performSendMsg data => io.message set data .sendmsg
  | .waitTimer callback duration => io.timerWait set callback duration
  | .cancelIo task => io.cancel .asyncCancel (-1) task
  | .cancelTimer task => io.cancel .timeoutRemove (-1) task
  | .cancelByFd fd => io.cancel .asyncCancel fd 0
  | .socketShutdown fd how => io.socket set none .shutdown fd how
  | .socketConnect callback fd payload => io.socket set (some callback) .connect fd payload
  | .socketAccept callback fd payload => io.socket set (some callback) .accept fd payload

/-- The operations after which the queue is flushed at once. -/
def BlockingOperationData.isCancel : BlockingOperationData → Bool
  | .cancelIo _ | .cancelTimer _ | .cancelByFd _ => true
  | _ => false

/-- The end of `queue_unlocked`: the queue is flushed after a cancellation and when it is nearly full,
and a blocked loop is woken up. -/
def flushAndWake (io : Io) (task : Option Task) (event : BlockingOperationData) (env : Env) :
    Except Error (Option Task) × Io :=
  let flushed :=
    if event.isCancel || (!event.isCancel && io.sq.length ≥ totalTasksItems - 2) then
      io.flushPendingSqes env
    else (.ok 0, io)
  match flushed with
  | (.error e, io) => (.error e, io)
  | (.ok _, io) =>
    if io.ringBlocked then
      match io.wakeupEventfd env with
      | (.error e, io) => (.error e, io)
      | (.ok (), io) => (.ok task, io)
    else (.ok task, io)

/-- `queue_unlocked`, once there is a set for the task. -/
def queueWithSet (io : Io) (set : ℕ) (event : BlockingOperationData) (env : Env) :
    Except Error (Option Task) × Io :=
  match io.perform set event env with
  | (.error e, io) => (.error e, io)
  | (.ok task, io) => io.flushAndWake task event env

/-- `queue_unlocked`. -/
def queueUnlocked (io : Io) (event : BlockingOperationData) (env : Env) :
    Except Error (Option Task) × Io :=
  if !io.ringOpen then (.error .loopDeinitialized, io)
  else
    match io.pool.getBlockingTasksSet env.setAllocates with
    | none => (.error .outOfMemory, io)
    | some (none, pool) => (.error .outOfMemory, { io with pool := pool })
    | some (some set, pool) => { io with pool := pool }.queueWithSet set event env

end Io

/-! ### The pool -/

namespace TaskPool

variable {io io' : TaskPool} {a slot : ℕ} {s s' : BlockingTasksSet}

/-- The callback that is registered in a slot. -/
def callback? (io : TaskPool) (a slot : ℕ) : Option ℕ := (io.sets a).bind fun s => s.taskData slot

/-- A slot that is not in use has no callback. -/
def Idle (io : TaskPool) : Prop := ∀ a slot, slot ∉ io.active a → io.callback? a slot = none

theorem callback?_of_some (ha : io.sets a = some s) (slot : ℕ) : io.callback? a slot = s.taskData slot := by
  rw [callback?, ha, Option.bind_some]

/-- Overwriting a set changes the callbacks of its own slots. -/
theorem callback?_setSet (io : TaskPool) (a : ℕ) (s : BlockingTasksSet) (b slot : ℕ) :
    (io.setSet a s).callback? b slot = if b = a then s.taskData slot else io.callback? b slot := by
  by_cases hb : b = a
  · subst hb
    rw [if_pos rfl]
    exact callback?_of_some (Function.update_self _ _ _) slot
  · rw [if_neg hb]
    show (Function.update io.sets a (some s) b).bind _ = _
    rw [Function.update_of_ne hb, callback?]

/-- What `push` writes. -/
theorem push_taskData {callback : Option ℕ} (hp : s.push callback = some (slot, s')) :
    s'.taskData = Function.update s.taskData slot callback ∧ s'.activeTasks = s.activeTasks + 1 ∧
      s'.disattached = s.disattached := by
  unfold BlockingTasksSet.push at hp
  split at hp
  · split at hp
    · exact nomatch hp
    · obtain ⟨rfl, rfl⟩ := Prod.mk.inj (Option.some.inj hp)
      exact ⟨rfl, rfl, rfl⟩
  · obtain ⟨rfl, rfl⟩ := Prod.mk.inj (Option.some.inj hp)
    exact ⟨rfl, rfl, rfl⟩

/-- A set with room has a slot to hand out. -/
theorem push_of_hasRoom (hroom : s.hasRoom = true) (callback : Option ℕ) :
    ∃ slot s', s.push callback = some (slot, s') := by
  have hlt : s.index - s.freeCount < totalTasksItems := of_decide_eq_true hroom
  unfold BlockingTasksSet.push
  by_cases hzero : s.freeCount = 0
  · have hindex : s.index ≠ totalTasksItems := by omega
    rw [if_pos hzero, if_neg hindex]
    exact ⟨_, _, rfl⟩
  · rw [if_neg hzero]
    exact ⟨_, _, rfl⟩

/-- The three things `pop` does with the set. -/
theorem pop_cases (ha : io.sets a = some s) :
    (io.pop a slot = some ({ io with
        active := Function.update io.active a ((io.active a).erase slot) }.release a) ∧
        s.disattached = true ∧ s.activeTasks - 1 = 0) ∨
      ∃ s', s'.taskData = Function.update s.taskData slot none ∧
        io.pop a slot = some ({ io with
          active := Function.update io.active a ((io.active a).erase slot) }.setSet a s') := by
  unfold pop
  rw [ha]
  dsimp only
  split
  · rename_i hlast
    split
    · rename_i hdis
      exact .inl ⟨rfl, hdis, hlast⟩
    · exact .inr ⟨_, rfl, rfl⟩
  · exact .inr ⟨_, rfl, rfl⟩

/-- A task that was pushed and is discarded leaves the pool as it was. -/
theorem push_discard (h : Inv io) (hidle : Idle io) (ha : io.sets a = some s) (hroom : s.hasRoom = true)
    (hdis : s.disattached = false) (callback : Option ℕ) :
    ∃ slot p, io.push a callback = some (some slot, p) ∧
      ∃ q, p.discard a slot = some q ∧ q.active = io.active ∧ q.reservedSlots = io.reservedSlots ∧
        ∀ b t, q.callback? b t = io.callback? b t := by
  obtain ⟨slot, s', hpush⟩ := push_of_hasRoom hroom callback
  obtain ⟨hdata, -, hdis'⟩ := push_taskData hpush
  have hp : io.push a callback = some (some slot, { io.setSet a s' with
      reservedSlots := io.reservedSlots + 1
      active := Function.update io.active a (insert slot (io.active a)) }) := by
    rw [push, ha]
    dsimp only
    rw [hpush]
  have hnew : slot ∉ io.active a := (h.push hp).2 slot rfl
  refine ⟨slot, _, hp, ?_⟩
  have hset : Function.update io.sets a (some s') a = some s' := Function.update_self _ _ _
  rw [discard]
  obtain ⟨-, hdis'', -⟩ | ⟨t, htdata, heq⟩ := @pop_cases { io.setSet a s' with
      reservedSlots := io.reservedSlots + 1 - 1
      active := Function.update io.active a (insert slot (io.active a)) } a slot s' hset
  · exact nomatch (hdis'.symm.trans hdis'').symm.trans hdis
  refine ⟨_, heq, ?_, rfl, fun b t' => ?_⟩
  · show Function.update (Function.update io.active a (insert slot (io.active a))) a
      ((Function.update io.active a (insert slot (io.active a)) a).erase slot) = io.active
    rw [Function.update_idem, Function.update_self, Finset.erase_insert hnew, Function.update_eq_self]
  · have hcallback := callback?_setSet { io.setSet a s' with
      reservedSlots := io.reservedSlots + 1 - 1
      active := Function.update (Function.update io.active a (insert slot (io.active a))) a
        ((Function.update io.active a (insert slot (io.active a)) a).erase slot) } a t b t'
    refine hcallback.trans ?_
    by_cases hb : b = a
    · subst hb
      rw [if_pos rfl, htdata, hdata, Function.update_idem, callback?_of_some ha]
      by_cases ht : t' = slot
      · subst ht
        rw [Function.update_self, ← callback?_of_some ha, hidle b t' hnew]
      · rw [Function.update_of_ne ht]
    · rw [if_neg hb]
      exact (callback?_setSet io a s' b t').trans (if_neg hb)

theorem Idle.init : Idle TaskPool.init := by
  intro a slot _
  simp only [callback?, TaskPool.init]
  split <;> rfl

/-- A set gets other callbacks and slots in use, which include those with a callback. -/
theorem Idle.setSet (hidle : Idle io) {used : Finset ℕ} {reserved : ℕ}
    (hdata : ∀ slot ∉ used, s'.taskData slot = none) :
    Idle { io.setSet a s' with
      reservedSlots := reserved, active := Function.update io.active a used } := by
  intro b slot hslot
  refine (callback?_setSet io a s' b slot).trans ?_
  replace hslot : slot ∉ Function.update io.active a used b := hslot
  by_cases hb : b = a
  · subst hb
    rw [Function.update_self] at hslot
    rw [if_pos rfl, hdata slot hslot]
  · rw [Function.update_of_ne hb] at hslot
    rw [if_neg hb, hidle b slot hslot]

theorem Idle.push {callback result : Option ℕ} (hidle : Idle io)
    (hp : io.push a callback = some (result, io')) : Idle io' := by
  unfold TaskPool.push at hp
  split at hp
  · exact nomatch hp
  · rename_i s ha
    split at hp
    · obtain ⟨rfl, rfl⟩ := Prod.mk.inj (Option.some.inj hp)
      exact hidle
    · rename_i slot s' hpush
      obtain ⟨rfl, rfl⟩ := Prod.mk.inj (Option.some.inj hp)
      refine hidle.setSet fun t ht => ?_
      obtain ⟨hne, hnot⟩ := not_or.1 (Finset.mem_insert.not.1 ht)
      rw [(push_taskData hpush).1, Function.update_of_ne hne, ← callback?_of_some ha]
      exact hidle a t hnot

theorem Idle.pop {reserved : ℕ} (hidle : Idle io)
    (hp : TaskPool.pop { io with reservedSlots := reserved } a slot = some io') : Idle io' := by
  cases ha : io.sets a with
  | none =>
    rw [TaskPool.pop, ha] at hp
    exact nomatch hp
  | some s =>
    obtain ⟨heq, -⟩ | ⟨s', hdata, heq⟩ :=
      @pop_cases { io with reservedSlots := reserved } a slot s ha
    · obtain rfl := Option.some.inj (heq.symm.trans hp)
      intro b t ht
      show (Function.update io.sets a none b).bind _ = none
      by_cases hb : b = a
      · subst hb
        rw [Function.update_self, Option.bind_none]
      · rw [Function.update_of_ne hb]
        replace ht : t ∉ Function.update io.active a ((io.active a).erase slot) b := ht
        rw [Function.update_of_ne hb] at ht
        exact hidle b t ht
    · obtain rfl := Option.some.inj (heq.symm.trans hp)
      refine hidle.setSet fun t ht => ?_
      rw [hdata]
      by_cases hslot : t = slot
      · rw [hslot, Function.update_self]
      · rw [Function.update_of_ne hslot, ← callback?_of_some ha]
        exact hidle a t fun hin => ht (Finset.mem_erase.2 ⟨hslot, hin⟩)

/-- `get_blocking_tasks_set` finds a set with room, or makes one, or nothing happened. -/
theorem getBlockingTasksSet_cases (h : Inv io) (alloc : Bool) :
    ((∃ s, io.sets io.set = some s ∧ s.hasRoom = true) ∧
        io.getBlockingTasksSet alloc = some (some io.set, io)) ∨
      ((∃ s, io.sets io.set = some s ∧ s.hasRoom = false) ∧
        ((alloc = false ∧ io.getBlockingTasksSet alloc = some (none, io)) ∨
          (alloc = true ∧ ∃ p, io.getBlockingTasksSet alloc = some (some io.next, p) ∧
            p.sets io.next = some .new ∧ p.active = io.active ∧ p.reservedSlots = io.reservedSlots ∧
            ∀ b t, p.callback? b t = io.callback? b t))) := by
  obtain ⟨s, hs, hdis⟩ := h.set_live
  cases hroom : s.hasRoom with
  | true => exact .inl ⟨⟨s, hs, hroom⟩, by rw [getBlockingTasksSet, hs]; exact if_pos hroom⟩
  | false =>
    have hfull : ¬s.hasRoom = true := by
      rw [hroom]
      exact Bool.false_ne_true
    refine .inr ⟨⟨s, hs, hroom⟩, ?_⟩
    rw [getBlockingTasksSet, hs]
    dsimp only
    rw [if_neg hfull]
    cases alloc with
    | false =>
      refine .inl ⟨rfl, ?_⟩
      have heq : (io.setSet io.set { s with disattached := true }).setSet io.set
          { s with disattached := false } = io := by
        rw [setSet, setSet, Function.update_idem, ← hdis, ← hs, Function.update_eq_self]
      rw [if_neg Bool.false_ne_true]
      exact congrArg (fun p => some (none, p)) heq
    | true =>
      refine .inr ⟨rfl, _, if_pos rfl, Function.update_self _ _ _, rfl, rfl, fun b t => ?_⟩
      have hnew := callback?_setSet (io.setSet io.set { s with disattached := true }) io.next .new b t
      have hold := callback?_setSet io io.set { s with disattached := true } b t
      refine hnew.trans ?_
      by_cases hb : b = io.next
      · subst hb
        rw [if_pos rfl, callback?, h.fresh io.next le_rfl]
        rfl
      · rw [if_neg hb]
        refine hold.trans ?_
        by_cases hset : b = io.set
        · subst hset
          rw [if_pos rfl, callback?_of_some hs]
        · rw [if_neg hset]

/-- Slots that are given back lose their callback. -/
theorem Idle.step {op : Op} (h : Inv io) (hidle : Idle io) (hs : io.step op = some io') : Idle io' := by
  cases op with
  | push a callback =>
    obtain ⟨r, hr, rfl⟩ := Option.map_eq_some_iff.1 hs
    exact hidle.push hr
  | discard a slot =>
    simp only [TaskPool.step] at hs
    split at hs
    · exact hidle.pop hs
    · cases hs
  | deinit a slot =>
    simp only [TaskPool.step] at hs
    split at hs
    · exact hidle.pop hs
    · cases hs
  | getBlockingTasksSet alloc =>
    obtain ⟨r, hr, rfl⟩ := Option.map_eq_some_iff.1 hs
    obtain ⟨-, heq⟩ | ⟨-, ⟨-, heq⟩ | ⟨-, p, heq, -, hactive, -, hcallbacks⟩⟩ := getBlockingTasksSet_cases h alloc
    · obtain rfl := Option.some.inj (heq.symm.trans hr)
      exact hidle
    · obtain rfl := Option.some.inj (heq.symm.trans hr)
      exact hidle
    · obtain rfl := Option.some.inj (heq.symm.trans hr)
      intro b t ht
      rw [hactive] at ht
      rw [hcallbacks]
      exact hidle b t ht

end TaskPool

namespace Io

/-! ### The submission queue -/

variable {io io' : Io} {set : ℕ}

/-- How many SQEs an operation takes. -/
def sqes (timeout : Option ℕ) : ℕ := if timeout.isSome then 2 else 1

/-- An operation is prepared when there is room for all its SQEs, and otherwise nothing happens. -/
theorem prepare_cases (io : Io) (sqe : Sqe) (timeout : Option ℕ) :
    (io.sq.length + sqes timeout ≤ io.sqEntries ∧ ∃ new, new.length = sqes timeout ∧
        io.prepare sqe timeout = (.ok (), { io with sq := io.sq ++ new })) ∨
      (io.sqEntries < io.sq.length + sqes timeout ∧
        io.prepare sqe timeout = (.error .submissionQueueFull, io)) := by
  unfold prepare getSqe
  cases timeout with
  | none =>
    by_cases hfull : io.sqEntries < io.sq.length + 1
    · refine .inr ⟨hfull, ?_⟩
      rw [if_pos hfull]
    · refine .inl ⟨not_lt.1 hfull, [{ sqe with link := false }], rfl, ?_⟩
      rw [if_neg hfull]
      rfl
  | some ts =>
    by_cases hfull : io.sqEntries < io.sq.length + 1
    · refine .inr ⟨hfull.trans (Nat.lt_succ_self _), ?_⟩
      rw [if_pos hfull]
    · rw [if_neg hfull]
      dsimp only
      rw [List.length_append, List.length_singleton]
      by_cases hlink : io.sqEntries < io.sq.length + 1 + 1
      · refine .inr ⟨hlink, ?_⟩
        rw [if_pos hlink]
        dsimp only
        rw [List.dropLast_concat]
      · refine .inl ⟨not_lt.1 hlink,
          [{ sqe with link := true }, ⟨.linkTimeout, none, -1, ts, false, false⟩], rfl, ?_⟩
        rw [if_neg hlink]
        dsimp only
        rw [List.append_assoc]
        rfl

/-- The rest of an operation after its task was pushed: it takes `n` SQEs, or nothing happens. -/
def Stages (n : ℕ) (ok : Bool) (rest : Io → Task → Except Error Unit × Io) : Prop :=
  ∀ io task,
    ((ok = true ∧ io.sq.length + n ≤ io.sqEntries) ∧ ∃ new published, new.length = n ∧
        rest io task = (.ok (), { io with sq := io.sq ++ new, published := published })) ∨
      (¬(ok = true ∧ io.sq.length + n ≤ io.sqEntries) ∧ ∃ e, rest io task = (.error e, io))

theorem stages_prepare (sqe : Task → Sqe) (timeout : Option ℕ) :
    Stages (sqes timeout) true fun io task => io.prepare (sqe task) timeout := by
  intro io task
  obtain ⟨hroom, new, hlen, heq⟩ | ⟨hfull, heq⟩ := prepare_cases io (sqe task) timeout
  · exact .inl ⟨⟨rfl, hroom⟩, new, io.published, hlen, heq⟩
  · exact .inr ⟨fun hboth => absurd hboth.2 (not_le.2 hfull), _, heq⟩

/-- A check before the SQE is prepared. -/
theorem Stages.guard {n : ℕ} {rest : Io → Task → Except Error Unit × Io} (h : Stages n true rest)
    {c : Prop} [Decidable c] (e : Error) :
    Stages n (decide ¬c) fun io task => if c then (.error e, io) else rest io task := by
  intro io task
  by_cases hc : c
  · refine .inr ⟨fun hboth => ?_, e, if_pos hc⟩
    exact absurd hc (of_decide_eq_true hboth.1)
  · obtain ⟨⟨-, hroom⟩, hnew⟩ | ⟨hnot, e', heq⟩ := h io task
    · refine .inl ⟨⟨decide_eq_true hc, hroom⟩, ?_⟩
      simp only [if_neg hc]
      exact hnew
    · refine .inr ⟨fun hboth => hnot ⟨rfl, hboth.2⟩, e', ?_⟩
      simp only [if_neg hc]
      exact heq

/-- Nothing of an operation remains: no SQE, no task in use, no reservation and no callback. -/
structure Untouched (io io' : Io) : Prop where
  sq : io'.sq = io.sq
  consumed : io'.consumed = io.consumed
  active : io'.pool.active = io.pool.active
  reserved : io'.pool.reservedSlots = io.pool.reservedSlots
  callbacks : ∀ a slot, io'.pool.callback? a slot = io.pool.callback? a slot

theorem Untouched.refl (io : Io) : Untouched io io := ⟨rfl, rfl, rfl, rfl, fun _ _ => rfl⟩

theorem Untouched.trans {io'' : Io} (h : Untouched io io') (h' : Untouched io' io'') : Untouched io io'' :=
  ⟨h'.sq.trans h.sq, h'.consumed.trans h.consumed, h'.active.trans h.active,
    h'.reserved.trans h.reserved, fun a slot => (h'.callbacks a slot).trans (h.callbacks a slot)⟩

/-- The set that is handed out has a slot. -/
structure HasSlot (io : Io) (set : ℕ) : Prop where
  inv : io.pool.Inv
  idle : io.pool.Idle
  live : ∃ s, io.pool.sets set = some s ∧ s.hasRoom = true ∧ s.disattached = false

/-- What an operation does before the queue is flushed. -/
inductive Performed (io : Io) (n : ℕ) (ok : Bool) : Except Error (Option Task) × Io → Prop
  | queued {task : Option Task} {io' : Io} {new : List Sqe} (hok : ok = true)
      (hroom : io.sq.length + n ≤ io.sqEntries) (hlen : new.length = n) (hsq : io'.sq = io.sq ++ new)
      (hopen : io'.ringOpen = io.ringOpen) : Performed io n ok (.ok task, io')
  | failed {e : Error} {io' : Io} (hnot : ¬(ok = true ∧ io.sq.length + n ≤ io.sqEntries))
      (huntouched : Untouched io io') : Performed io n ok (.error e, io')

/-- An operation that fails gives its task back. -/
theorem performed_withTask {n : ℕ} {ok : Bool} {rest : Io → Task → Except Error Unit × Io}
    (hslot : HasSlot io set) (hrest : Stages n ok rest) (callback : Option ℕ) :
    Performed io n ok (io.withTask set callback rest) := by
  obtain ⟨s, hs, hroom, hdis⟩ := hslot.live
  obtain ⟨slot, p, hpush, q, hdiscard, hactive, hreserved, hcallbacks⟩ :=
    TaskPool.push_discard hslot.inv hslot.idle hs hroom hdis callback
  rw [withTask, hpush]
  dsimp only
  obtain ⟨⟨hok, hfits⟩, new, published, hlen, heq⟩ | ⟨hnot, e, heq⟩ :=
    hrest { io with pool := p } (set, slot)
  · rw [heq]
    exact .queued hok hfits hlen rfl rfl
  · rw [heq]
    refine .failed hnot ?_
    have hpool : ({ io with pool := p }.discard (set, slot)).pool = q := by
      rw [discard]
      dsimp only
      rw [hdiscard, Option.getD_some]
    exact ⟨rfl, rfl, by rw [hpool, hactive], by rw [hpool, hreserved], by rw [hpool]; exact hcallbacks⟩

/-! ### The operations -/

/-- The timeout of an operation. -/
def BlockingOperationData.timeout : BlockingOperationData → Option ℕ
  | .waitReadable data | .waitWritable data => data.timeout
  | .performRead data => data.timeout
  | .performWrite data | .performWriteV data => data.timeout
  | _ => none

/-- What an operation checks and allocates itself. -/
def BlockingOperationData.accepted (event : BlockingOperationData) (env : Env) : Bool :=
  match event with
  | .performRead data => !(data.fixedBufferIndex.isNone && data.zeroCopy && data.data != .buffer)
  | .performWriteV _ => env.iovsAllocate
  | _ => true

/-- Each operation takes its SQEs, or nothing of it remains. -/
theorem performed_perform (hslot : HasSlot io set) (event : BlockingOperationData) (env : Env) :
    Performed io (sqes event.timeout) (event.accepted env) (io.perform set event env) := by
  have hplain : ∀ sqe : Task → Sqe, ∀ timeout callback, Performed io (sqes timeout) true
      (io.withTask set callback fun io task => io.prepare (sqe task) timeout) :=
    fun sqe timeout callback => performed_withTask hslot (stages_prepare sqe timeout) callback
  have hcancel : ∀ opcode fd target, Performed io (sqes none) true (io.cancel opcode fd target) := by
    intro opcode fd target
    rw [cancel]
    obtain ⟨hroom, new, hlen, heq⟩ | ⟨hfull, heq⟩ :=
      prepare_cases io ⟨opcode, none, fd, target, false, false⟩ none
    · rw [heq]
      exact .queued rfl hroom hlen rfl rfl
    · rw [heq]
      exact .failed (fun hboth => absurd hboth.2 (not_le.2 hfull)) (.refl io)
  have hmessage : ∀ data opcode, Performed io (sqes none) true (io.message set data opcode) := by
    intro data opcode
    refine performed_withTask hslot (fun io task => ?_) _
    obtain ⟨⟨-, hroom⟩, new, published, hlen, heq⟩ | ⟨hnot, e, heq⟩ :=
      stages_prepare (fun task => ⟨opcode, some task, fdArg data.fd data.fixedFileIndex, data.payload,
        data.fixedFileIndex.isSome, false⟩) none io task
    · refine .inl ⟨⟨rfl, hroom⟩, new, (io.sq ++ new).length, hlen, ?_⟩
      dsimp only at heq ⊢
      rw [heq]
      rfl
    · refine .inr ⟨hnot, e, ?_⟩
      dsimp only at heq ⊢
      rw [heq]
  have hwait : ∀ data events, Performed io (sqes data.timeout) true (io.waitReady set data events) := by
    intro data events
    unfold waitReady
    exact hplain _ data.timeout _
  have hsocket : ∀ callback opcode fd payload,
      Performed io (sqes none) true (io.socket set callback opcode fd payload) := by
    intro callback opcode fd payload
    unfold socket
    exact hplain _ none _
  cases event with
  | waitReadable data => exact hwait data pollIn
  | waitWritable data => exact hwait data pollOut
  | performRead data =>
    have haccepted : (BlockingOperationData.performRead data).accepted env =
        decide ¬(data.fixedBufferIndex.isNone ∧ data.zeroCopy ∧ data.data ≠ .buffer) := by
      rw [BlockingOperationData.accepted]
      cases data.fixedBufferIndex <;> cases data.zeroCopy <;> cases data.data <;> rfl
    rw [haccepted]
    show Performed io _ _ (io.readPerform set data)
    unfold readPerform
    exact performed_withTask hslot ((stages_prepare _ data.timeout).guard _) _
  | performWrite data =>
    show Performed io (sqes data.timeout) true (io.writePerform set data)
    unfold writePerform
    exact hplain _ data.timeout _
  | performWriteV data =>
    have haccepted : (BlockingOperationData.performWriteV data).accepted env =
        decide ¬((!env.iovsAllocate) = true) := by
      rw [BlockingOperationData.accepted]
      cases env.iovsAllocate <;> rfl
    rw [haccepted]
    show Performed io _ _ (io.performWithIovecs set data env)
    unfold performWithIovecs
    exact performed_withTask hslot ((stages_prepare _ data.timeout).guard _) _
  | performRecvMsg data => exact hmessage data .recvmsg
  | performSendMsg data => exact hmessage data .sendmsg
  | waitTimer callback duration =>
    show Performed io (sqes none) true (io.timerWait set callback duration)
    unfold timerWait
    exact hplain _ none _
  | cancelIo task => exact hcancel .asyncCancel (-1) task
  | cancelTimer task => exact hcancel .timeoutRemove (-1) task
  | cancelByFd fd => exact hcancel .asyncCancel fd 0
  | socketShutdown fd how => exact hsocket none .shutdown fd how
  | socketConnect callback fd payload => exact hsocket (some callback) .connect fd payload
  | socketAccept callback fd payload => exact hsocket (some callback) .accept fd payload

/-! ### `queue_unlocked` -/

/-- The flush that `queue_unlocked` makes fails: the operation is put in the queue, it is a
cancellation or the queue is nearly full with it, and `io_uring_enter` returns an error. -/
structure FlushFails (io : Io) (event : BlockingOperationData) (env : Env) : Prop where
  ringOpen : io.ringOpen = true
  hasSet : (∃ s, io.pool.sets io.pool.set = some s ∧ s.hasRoom = true) ∨ env.setAllocates = true
  accepted : event.accepted env = true
  room : io.sq.length + sqes event.timeout ≤ io.sqEntries
  flushes : event.isCancel = true ∨ totalTasksItems - 2 ≤ io.sq.length + sqes event.timeout
  enter : ∃ errno, env.submit = .error errno

/-- An error after the operation was queued is an error of the flush, which leaves the queue as it is. -/
theorem flushAndWake_cases (io : Io) (task : Option Task) (event : BlockingOperationData) (env : Env)
    (hopen : io.ringOpen = true) (hsq : io.sq ≠ []) :
    (((event.isCancel = true ∨ totalTasksItems - 2 ≤ io.sq.length) ∧
        ∃ errno, env.submit = .error errno) ∧
      ∃ e, (io.flushAndWake task event env).1 = .error e ∧
        (io.flushAndWake task event env).2.sq = io.sq) ∨
    (¬((event.isCancel = true ∨ totalTasksItems - 2 ≤ io.sq.length) ∧
        ∃ errno, env.submit = .error errno) ∧
      (io.flushAndWake task event env).1 = .ok task) := by
  have hwake : ∀ v : Io, ((if v.ringBlocked then
      match v.wakeupEventfd env with
      | (.error e, v) => ((.error e, v) : Except Error (Option Task) × Io)
      | (.ok (), v) => (.ok task, v)
    else (.ok task, v)) : Except Error (Option Task) × Io).1 = .ok task := by
    intro v
    split <;> rfl
  have hlength : ¬io.sq.length = 0 := fun hzero => hsq (List.length_eq_zero_iff.1 hzero)
  have hcond : (event.isCancel || (!event.isCancel && decide (io.sq.length ≥ totalTasksItems - 2))) = true ↔
      event.isCancel = true ∨ totalTasksItems - 2 ≤ io.sq.length := by
    cases event.isCancel <;> simp
  unfold flushAndWake
  dsimp only
  by_cases hflush : event.isCancel = true ∨ totalTasksItems - 2 ≤ io.sq.length
  · rw [if_pos (hcond.2 hflush), flushPendingSqes, hopen, Bool.not_true, if_neg Bool.false_ne_true,
      if_neg hlength, submitGuaranteed]
    cases hsubmit : env.submit with
    | error errno => exact .inl ⟨⟨hflush, errno, rfl⟩, .enter errno, rfl, rfl⟩
    | ok n =>
      refine .inr ⟨?_, hwake _⟩
      rintro ⟨-, errno, herror⟩
      exact nomatch herror
  · rw [if_neg fun h => hflush (hcond.1 h)]
    exact .inr ⟨fun hboth => hflush hboth.1, hwake io⟩

/-- Once there is a set, nothing of an operation that fails remains, unless the flush fails. -/
theorem queueWithSet_fails_clean {io' : Io} (hslot : HasSlot io' set) (huntouched : Untouched io io')
    (hsq : io'.sqEntries = io.sqEntries) (hopen : io'.ringOpen = io.ringOpen)
    (event : BlockingOperationData) (env : Env) (hring : io.ringOpen = true)
    (hhas : (∃ s, io.pool.sets io.pool.set = some s ∧ s.hasRoom = true) ∨ env.setAllocates = true) :
    (∀ e, (io'.queueWithSet set event env).1 = .error e →
      Untouched io (io'.queueWithSet set event env).2) ↔ ¬FlushFails io event env := by
  have hperformed := performed_perform hslot event env
  unfold queueWithSet
  generalize io'.perform set event env = result at hperformed ⊢
  cases hperformed with
  | failed hnot hrest =>
    refine iff_of_true (fun _ _ => huntouched.trans hrest) fun hf => hnot ⟨hf.accepted, ?_⟩
    rw [huntouched.sq, hsq]
    exact hf.room
  | @queued task io'' new hok hroom hlen hnew hopen' =>
    rw [huntouched.sq] at hnew hroom
    have hlength : io''.sq.length = io.sq.length + sqes event.timeout := by
      rw [hnew, List.length_append, hlen]
    have hpos : 0 < sqes event.timeout := by
      unfold sqes
      split <;> decide
    have hne : io''.sq ≠ [] := by
      intro hnil
      rw [hnil, List.length_nil] at hlength
      omega
    obtain ⟨⟨hflush, henter⟩, e, herr, hsame⟩ | ⟨hnot, hdone⟩ :=
      flushAndWake_cases io'' task event env ((hopen'.trans hopen).trans hring) hne
    · refine iff_of_false (fun hall => ?_) (not_not_intro ?_)
      · have hlengths := congrArg List.length ((hall e herr).sq.symm.trans hsame)
        omega
      · rw [hlength] at hflush
        exact ⟨hring, hhas, hok, hsq ▸ hroom, hflush, henter⟩
    · refine iff_of_true (fun e he => ?_) fun hf => hnot ⟨?_, hf.enter⟩
      · exact nomatch hdone.symm.trans he
      · rw [hlength]
        exact hf.flushes

/-- **Queueing.** Whenever `queue_unlocked` returns an error nothing of the operation remains, exactly
when the error does not come from the flush after the operation was queued. -/
theorem queue_unlocked_fails_clean {io : Io}
    (hr : Runs.Reaches TaskPool.step (fun _ _ => True) .init io.pool) (event : BlockingOperationData)
    (env : Env) :
    (∀ e, (io.queueUnlocked event env).1 = .error e → Untouched io (io.queueUnlocked event env).2) ↔
      ¬FlushFails io event env := by
  obtain ⟨hinv, hidle⟩ : io.pool.Inv ∧ io.pool.Idle :=
    hr.invariant (I := fun p => p.Inv ∧ p.Idle) ⟨.init, .init⟩
      fun u e v hu _ hv => ⟨hu.1.step hv, hu.2.step hu.1 hv⟩
  unfold queueUnlocked
  by_cases hopen : io.ringOpen = true
  · have hring : ¬(!io.ringOpen) = true := by simp [hopen]
    rw [if_neg hring]
    obtain ⟨s, hs, hdis⟩ := hinv.set_live
    obtain ⟨⟨s', hs', hroom⟩, heq⟩ | ⟨⟨s', hs', hfull⟩, ⟨halloc, heq⟩ |
      ⟨halloc, p, heq, hnew, hactive, hreserved, hcallbacks⟩⟩ :=
      TaskPool.getBlockingTasksSet_cases hinv env.setAllocates
    · obtain rfl := Option.some.inj (hs.symm.trans hs')
      rw [heq]
      exact queueWithSet_fails_clean ⟨hinv, hidle, s, hs, hroom, hdis⟩ (.refl io) rfl rfl event env hopen
        (.inl ⟨s, hs, hroom⟩)
    · rw [heq]
      refine iff_of_true (fun _ _ => ⟨rfl, rfl, rfl, rfl, fun _ _ => rfl⟩) fun hf => ?_
      obtain ⟨s'', hs'', hroom⟩ | hset := hf.hasSet
      · obtain rfl := Option.some.inj (hs'.symm.trans hs'')
        exact nomatch hfull.symm.trans hroom
      · exact nomatch halloc.symm.trans hset
    · rw [heq]
      have hstep : io.pool.step (.getBlockingTasksSet env.setAllocates) = some p :=
        Option.map_eq_some_iff.2 ⟨_, heq, rfl⟩
      have huntouched : Untouched io { io with pool := p } :=
        ⟨rfl, rfl, hactive, hreserved, hcallbacks⟩
      have hslot : HasSlot { io with pool := p } io.pool.next :=
        ⟨hinv.step hstep, hidle.step hinv hstep, .new, hnew, rfl, rfl⟩
      exact queueWithSet_fails_clean hslot huntouched rfl rfl event env hopen (.inr halloc)
  · have hring : (!io.ringOpen) = true := by simpa using hopen
    rw [if_pos hring]
    exact iff_of_true (fun _ _ => .refl io) fun hf => hopen hf.ringOpen

/-- A new `IO` with its ring. -/
def init : Io where
  pool := .init
  ringOpen := true
  sq := []
  published := 0
  sqEntries := 1024
  consumed := []
  ringHasSubmitted := false
  ringBlocked := false
  eventfd := 0

/-- A timer that finds 1024 operations in the submission queue is not queued at all. -/
theorem queue_unlocked_fails_clean_full :
    let io := { init with sq := List.replicate 1024 ⟨.asyncCancel, none, -1, 0, false, false⟩ }
    let env : Env := ⟨true, true, .error 16, true⟩
    (io.queueUnlocked (.waitTimer 1 5) env).1 = .error .submissionQueueFull ∧
      Untouched io (io.queueUnlocked (.waitTimer 1 5) env).2 := by
  intro io env
  have hfails : (io.queueUnlocked (.waitTimer 1 5) env).1 = .error .submissionQueueFull := by
    decide +kernel
  have hr : Runs.Reaches TaskPool.step (fun _ _ => True) .init io.pool := .refl _
  have hfull : ¬io.sq.length + sqes (BlockingOperationData.timeout (.waitTimer 1 5)) ≤ io.sqEntries := by
    decide +kernel
  have hclean := queue_unlocked_fails_clean hr (.waitTimer 1 5) env
  exact ⟨hfails, hclean.2 (fun hf => hfull hf.room) _ hfails⟩

/-- A timer is queued behind 1021 operations and the flush fails: the caller gets the error, and the
callback stays registered in the task. -/
theorem queue_unlocked_fails_with_task : ¬∀ (io : Io) (event : BlockingOperationData) (env : Env),
    Runs.Reaches TaskPool.step (fun _ _ => True) .init io.pool →
      ∀ e, (io.queueUnlocked event env).1 = .error e → Untouched io (io.queueUnlocked event env).2 := by
  intro hall
  have hfails := hall { init with sq := List.replicate 1021 ⟨.asyncCancel, none, -1, 0, false, false⟩ }
    (.waitTimer 1 5) ⟨true, true, .error 16, true⟩ (.refl _) (.enter 16) (by decide +kernel)
  have hcallback := hfails.callbacks 0 0
  exact absurd hcallback (by decide +kernel)

end Io

end Talyn
