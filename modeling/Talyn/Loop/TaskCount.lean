import Talyn.Loop.Queue

/-!
# Counting blocking tasks

`active_tasks` of all sets of a pool together, and how it moves with `reserved_slots`: every operation of
the pool changes both by the same amount, except for `deinit`, whose caller returns the slot. Queueing an
operation on the ring is a run of such operations, whatever fails in it.
-/

namespace Talyn

namespace TaskPool

open Runs

variable {io io' : TaskPool} {a slot : ℕ} {s : BlockingTasksSet}

/-- `active_tasks` of the set at an address. -/
def tasksAt (io : TaskPool) (a : ℕ) : ℕ := (io.sets a).elim 0 BlockingTasksSet.activeTasks

/-- The active blocking tasks: those of all sets that were ever allocated. -/
def activeTasks (io : TaskPool) : ℕ := ∑ a ∈ Finset.range io.next, io.tasksAt a

theorem tasksAt_of_some (h : io.sets a = some s) : io.tasksAt a = s.activeTasks := by
  rw [tasksAt, h]
  rfl

theorem tasksAt_of_none (h : io.sets a = none) : io.tasksAt a = 0 := by
  rw [tasksAt, h]
  rfl

/-- When one set changes, the sum changes by what that set does. -/
theorem activeTasks_update (hnext : io'.next = io.next) (ha : a < io.next)
    (hsets : ∀ b, b ≠ a → io'.sets b = io.sets b) :
    io'.activeTasks + io.tasksAt a = io.activeTasks + io'.tasksAt a := by
  have hmem : a ∈ Finset.range io.next := Finset.mem_range.2 ha
  have hothers : ∑ b ∈ (Finset.range io.next).erase a, io'.tasksAt b =
      ∑ b ∈ (Finset.range io.next).erase a, io.tasksAt b := by
    refine Finset.sum_congr rfl fun b hb => ?_
    rw [tasksAt, tasksAt, hsets b (Finset.ne_of_mem_erase hb)]
  unfold activeTasks
  rw [hnext, ← Finset.sum_erase_add _ _ hmem, ← Finset.sum_erase_add _ _ hmem, hothers]
  omega

/-- A set that has a task in use counts it. -/
theorem Inv.activeTasks_pos (h : Inv io) (hs : io.sets a = some s) (hslot : slot ∈ io.active a) :
    0 < s.activeTasks := by
  rw [← (h.slots a s hs).card]
  exact Finset.card_pos.2 ⟨slot, hslot⟩

/-- A task in use is in a set that is there. -/
theorem Inv.exists_set (h : Inv io) (hslot : slot ∈ io.active a) : ∃ s, io.sets a = some s := by
  rcases hs : io.sets a with _ | s
  · rw [h.gone a hs] at hslot
    exact absurd hslot (Finset.notMem_empty slot)
  · exact ⟨s, rfl⟩

/-- `pop` returns one task. -/
theorem Inv.activeTasks_pop {reserved : ℕ} (h : Inv io) (hslot : slot ∈ io.active a)
    (hp : TaskPool.pop { io with reservedSlots := reserved } a slot = some io') :
    io.activeTasks = io'.activeTasks + 1 ∧ io'.reservedSlots = reserved := by
  obtain ⟨s, hs⟩ := h.exists_set hslot
  have hpos := h.activeTasks_pos hs hslot
  have hlt := h.lt_next hs
  have hat := tasksAt_of_some hs
  unfold TaskPool.pop at hp
  rw [show TaskPool.sets { io with reservedSlots := reserved } a = some s from hs] at hp
  dsimp only at hp
  -- the set afterwards has one task less, whether it is kept, emptied or freed
  have hone : ∀ {io' : TaskPool}, io'.next = io.next → (∀ b, b ≠ a → io'.sets b = io.sets b) →
      io'.tasksAt a + 1 = s.activeTasks → io.activeTasks = io'.activeTasks + 1 := by
    intro io' hnext hsets htasks
    have hsum := activeTasks_update hnext hlt hsets
    omega
  split at hp
  · split at hp
    · obtain rfl := Option.some.inj hp
      refine ⟨hone rfl (fun b hb => Function.update_of_ne hb _ _) ?_, rfl⟩
      rw [tasksAt_of_none (Function.update_self a _ _)]
      omega
    · obtain rfl := Option.some.inj hp
      refine ⟨hone rfl (fun b hb => Function.update_of_ne hb _ _) ?_, rfl⟩
      rw [tasksAt_of_some (Function.update_self a _ _)]
      show 0 + 1 = s.activeTasks
      omega
  · obtain rfl := Option.some.inj hp
    refine ⟨hone rfl (fun b hb => Function.update_of_ne hb _ _) ?_, rfl⟩
    rw [tasksAt_of_some (Function.update_self a _ _)]
    show s.activeTasks - 1 + 1 = s.activeTasks
    omega

/-- `push` takes one task and one slot, or none of both. -/
theorem Inv.activeTasks_push {callback result : Option ℕ} (h : Inv io)
    (hp : io.push a callback = some (result, io')) :
    io'.reservedSlots + io.activeTasks = io.reservedSlots + io'.activeTasks := by
  unfold TaskPool.push at hp
  split at hp
  · exact nomatch hp
  · rename_i s hs
    split at hp
    · obtain ⟨rfl, rfl⟩ := Prod.mk.inj (Option.some.inj hp)
      rfl
    · rename_i slot s' hpush
      obtain ⟨rfl, rfl⟩ := Prod.mk.inj (Option.some.inj hp)
      have htasks : s'.activeTasks = s.activeTasks + 1 := by
        unfold BlockingTasksSet.push at hpush
        split at hpush
        · split at hpush
          · exact nomatch hpush
          · obtain ⟨-, rfl⟩ := Prod.mk.inj (Option.some.inj hpush)
            rfl
        · obtain ⟨-, rfl⟩ := Prod.mk.inj (Option.some.inj hpush)
          rfl
      have hsum : (io.setSet a s').activeTasks + io.tasksAt a =
          io.activeTasks + (io.setSet a s').tasksAt a :=
        activeTasks_update rfl (h.lt_next hs) fun b hb => Function.update_of_ne hb _ _
      rw [tasksAt_of_some hs,
        tasksAt_of_some (show (io.setSet a s').sets a = some s' from Function.update_self _ _ _)] at hsum
      show io.reservedSlots + 1 + io.activeTasks = io.reservedSlots + (io.setSet a s').activeTasks
      omega

/-- A new set has no tasks. -/
theorem activeTasks_new (hnext : io'.next = io.next + 1)
    (hsets : io'.sets = Function.update io.sets io.next (some .new)) : io'.activeTasks = io.activeTasks := by
  have hold : ∀ b ∈ Finset.range io.next, io'.tasksAt b = io.tasksAt b := by
    intro b hb
    rw [tasksAt, tasksAt, hsets, Function.update_of_ne (Finset.mem_range.1 hb).ne]
  have hfresh : io'.tasksAt io.next = 0 := by
    rw [tasksAt, hsets, Function.update_self]
    rfl
  unfold activeTasks
  rw [hnext, Finset.sum_range_succ, Finset.sum_congr rfl hold, hfresh]
  rfl

/-- Detaching a set leaves its tasks where they are. -/
theorem Inv.activeTasks_setSet (h : Inv io) (hs : io.sets a = some s) (s' : BlockingTasksSet)
    (hcount : s'.activeTasks = s.activeTasks) : (io.setSet a s').activeTasks = io.activeTasks := by
  have hsum : (io.setSet a s').activeTasks + io.tasksAt a =
      io.activeTasks + (io.setSet a s').tasksAt a :=
    activeTasks_update rfl (h.lt_next hs) fun b hb => Function.update_of_ne hb _ _
  rw [tasksAt_of_some hs,
    tasksAt_of_some (show (io.setSet a s').sets a = some s' from Function.update_self _ _ _)] at hsum
  omega

/-- `get_blocking_tasks_set` leaves the tasks and the slots alone. -/
theorem Inv.activeTasks_getBlockingTasksSet {alloc : Bool} {result : Option ℕ} (h : Inv io)
    (hp : io.getBlockingTasksSet alloc = some (result, io')) :
    io'.activeTasks = io.activeTasks ∧ io'.reservedSlots = io.reservedSlots := by
  obtain ⟨s, hs, -⟩ := h.set_live
  have hdetach := h.activeTasks_setSet hs { s with disattached := true } rfl
  unfold TaskPool.getBlockingTasksSet at hp
  rw [hs] at hp
  dsimp only at hp
  split at hp
  · obtain ⟨-, rfl⟩ := Prod.mk.inj (Option.some.inj hp)
    exact ⟨rfl, rfl⟩
  · split at hp
    · obtain ⟨-, rfl⟩ := Prod.mk.inj (Option.some.inj hp)
      refine ⟨Eq.trans ?_ hdetach, rfl⟩
      apply activeTasks_new
      · rfl
      · rfl
    · obtain ⟨-, rfl⟩ := Prod.mk.inj (Option.some.inj hp)
      have hsame : (io.setSet io.set { s with disattached := true }).setSet io.set
          { s with disattached := false } = io.setSet io.set { s with disattached := false } := by
        unfold TaskPool.setSet
        simp only [Function.update_idem]
      refine ⟨Eq.trans (congrArg activeTasks hsame) ?_, rfl⟩
      exact h.activeTasks_setSet hs _ rfl

/-- The operations that account for the slot themselves. -/
def Accounted : Op → Prop
  | .deinit _ _ => False
  | _ => True

/-- **Step of the pool.** What is reserved beside the active tasks stays. -/
theorem Inv.reserved_step {op : Op} {k : ℕ} (h : Inv io) (hop : Accounted op)
    (hs : io.step op = some io') (hk : io.reservedSlots = io.activeTasks + k) :
    io'.reservedSlots = io'.activeTasks + k := by
  cases op with
  | push a callback =>
    obtain ⟨⟨result, p⟩, hp, rfl⟩ := Option.map_eq_some_iff.1 hs
    have hboth := h.activeTasks_push hp
    dsimp only
    omega
  | discard a slot =>
    simp only [TaskPool.step] at hs
    split at hs
    · rename_i hslot
      obtain ⟨hactive, hreserved⟩ := h.activeTasks_pop hslot hs
      omega
    · cases hs
  | deinit a slot => exact hop.elim
  | getBlockingTasksSet alloc =>
    obtain ⟨⟨result, p⟩, hp, rfl⟩ := Option.map_eq_some_iff.1 hs
    obtain ⟨hactive, hreserved⟩ := h.activeTasks_getBlockingTasksSet hp
    dsimp only
    omega

end TaskPool

/-! ### Queueing -/

namespace Io

open Runs

variable {io : Io} {set : ℕ}

/-- The pool was changed by operations that account for the slot themselves. -/
def Pooled (p q : TaskPool) : Prop := Reaches TaskPool.step (fun _ op => TaskPool.Accounted op) p q

theorem Pooled.refl (p : TaskPool) : Pooled p p := Reaches.refl p

theorem Pooled.snoc {p q r : TaskPool} (h : Pooled p q) (op : TaskPool.Op)
    (hop : TaskPool.Accounted op) (hs : q.step op = some r) : Pooled p r := Reaches.snoc h hop hs

theorem Pooled.trans {p q r : TaskPool} (h : Pooled p q) (h' : Pooled q r) : Pooled p r :=
  Reaches.invariant (I := Pooled p) h' h fun _ _ _ hp hop hs => hp.snoc _ hop hs

@[simp] theorem prepare_pool (io : Io) (sqe : Sqe) (timeout : Option ℕ) :
    (io.prepare sqe timeout).2.pool = io.pool := by
  rcases prepare_cases io sqe timeout with ⟨-, new, -, heq⟩ | ⟨-, heq⟩
  · rw [heq]
  · rw [heq]

/-- Nothing but the task itself concerns the pool. -/
theorem pooled_withTask {rest : Io → Task → Except Error Unit × Io}
    (hrest : ∀ io task, (rest io task).2.pool = io.pool) (callback : Option ℕ) :
    Pooled io.pool (io.withTask set callback rest).2.pool := by
  unfold withTask
  rcases hp : io.pool.push set callback with _ | ⟨_ | slot, pool⟩
  · exact .refl _
  · exact (Pooled.refl _).snoc (.push set callback) trivial
      (Option.map_eq_some_iff.2 ⟨_, hp, rfl⟩)
  · have hpushed : Pooled io.pool pool := (Pooled.refl _).snoc (.push set callback) trivial
      (Option.map_eq_some_iff.2 ⟨_, hp, rfl⟩)
    have hslot : slot ∈ pool.active set := by
      unfold TaskPool.push at hp
      split at hp
      · exact nomatch hp
      · split at hp
        · exact nomatch hp
        · obtain ⟨hslot, rfl⟩ := Prod.mk.inj (Option.some.inj hp)
          obtain rfl := Option.some.inj hslot
          show _ ∈ Function.update io.pool.active set _ set
          rw [Function.update_self]
          exact Finset.mem_insert_self _ _
    have hpool := hrest { io with pool := pool } (set, slot)
    dsimp only
    rcases hr : rest { io with pool := pool } (set, slot) with ⟨_ | _, io'⟩
    · rw [hr] at hpool
      replace hpool : io'.pool = pool := hpool
      show Pooled io.pool ((io'.pool.discard set slot).getD io'.pool)
      rw [hpool]
      rcases hd : pool.discard set slot with _ | q
      · exact hpushed
      · exact hpushed.snoc (.discard set slot) trivial ((if_pos hslot).trans hd)
    · rw [hr] at hpool
      replace hpool : io'.pool = pool := hpool
      show Pooled io.pool io'.pool
      rw [hpool]
      exact hpushed

theorem pooled_cancel (io : Io) (opcode : Opcode) (fd : ℤ) (target : ℕ) :
    (io.cancel opcode fd target).2.pool = io.pool := by
  have hpool := prepare_pool io ⟨opcode, none, fd, target, false, false⟩ none
  unfold cancel
  split <;> rename_i heq <;> rw [heq] at hpool <;> exact hpool

/-- The operations, one by one. -/
theorem pooled_perform (event : BlockingOperationData) (env : Env) :
    Pooled io.pool (io.perform set event env).2.pool := by
  have hmessage : ∀ data opcode, Pooled io.pool (io.message set data opcode).2.pool := by
    intro data opcode
    refine pooled_withTask (fun io task => ?_) _
    have hpool := prepare_pool io ⟨opcode, some task, fdArg data.fd data.fixedFileIndex, data.payload,
      data.fixedFileIndex.isSome, false⟩ none
    split <;> rename_i heq <;> rw [heq] at hpool <;> exact hpool
  cases event with
  | waitReadable data => exact pooled_withTask (fun _ _ => prepare_pool _ _ _) _
  | waitWritable data => exact pooled_withTask (fun _ _ => prepare_pool _ _ _) _
  | performRead data =>
    refine pooled_withTask (fun io task => ?_) _
    split
    · rfl
    · exact prepare_pool _ _ _
  | performWrite data => exact pooled_withTask (fun _ _ => prepare_pool _ _ _) _
  | performWriteV data =>
    refine pooled_withTask (fun io task => ?_) _
    split
    · rfl
    · exact prepare_pool _ _ _
  | performRecvMsg data => exact hmessage data .recvmsg
  | performSendMsg data => exact hmessage data .sendmsg
  | waitTimer callback duration => exact pooled_withTask (fun _ _ => prepare_pool _ _ _) _
  | cancelIo task =>
    show Pooled io.pool (io.cancel _ _ _).2.pool
    rw [pooled_cancel]
    exact .refl _
  | cancelTimer task =>
    show Pooled io.pool (io.cancel _ _ _).2.pool
    rw [pooled_cancel]
    exact .refl _
  | cancelByFd fd =>
    show Pooled io.pool (io.cancel _ _ _).2.pool
    rw [pooled_cancel]
    exact .refl _
  | socketShutdown fd how => exact pooled_withTask (fun _ _ => prepare_pool _ _ _) _
  | socketConnect callback fd payload => exact pooled_withTask (fun _ _ => prepare_pool _ _ _) _
  | socketAccept callback fd payload => exact pooled_withTask (fun _ _ => prepare_pool _ _ _) _

/-- The flush of the submission queue and the wake-up do not concern the pool. -/
theorem flushPendingSqes_pool (io : Io) (env : Env) : (io.flushPendingSqes env).2.pool = io.pool := by
  unfold flushPendingSqes submitGuaranteed
  by_cases hopen : io.ringOpen = true
  · by_cases hempty : io.sq.length = 0
    · simp [hopen, hempty]
    · rcases hsubmit : env.submit with errno | n <;> simp [hopen, hempty, flushSq]
  · simp [hopen]

theorem flushAndWake_pool (io : Io) (task : Option Task) (event : BlockingOperationData) (env : Env) :
    (io.flushAndWake task event env).2.pool = io.pool := by
  have hwake : ∀ v : Io, (v.wakeupEventfd env).2.pool = v.pool := by
    intro v
    unfold wakeupEventfd
    cases env.wakes <;> rfl
  have hflush := flushPendingSqes_pool io env
  unfold flushAndWake
  dsimp only
  split
  · rename_i heq
    split at heq
    · rw [heq] at hflush
      exact hflush
    · cases (Prod.mk.inj heq).1
  · rename_i v heq
    have hpool : v.pool = io.pool := by
      split at heq
      · rw [heq] at hflush
        exact hflush
      · obtain ⟨-, rfl⟩ := Prod.mk.inj heq
        rfl
    split
    · have hwakes := hwake v
      split <;> rename_i heq' <;> rw [heq'] at hwakes <;> exact hwakes.trans hpool
    · exact hpool

/-- **Queueing.** Whatever fails in `queue_unlocked`, the slots of the loop are accounted for. -/
theorem pooled_queueUnlocked (io : Io) (event : BlockingOperationData) (env : Env) :
    Pooled io.pool (io.queueUnlocked event env).2.pool := by
  unfold queueUnlocked
  split
  · exact .refl _
  · have hset : ∀ p result, io.pool.getBlockingTasksSet env.setAllocates = some (result, p) →
        Pooled io.pool p := fun p result hp =>
      (Pooled.refl _).snoc (.getBlockingTasksSet env.setAllocates) trivial
        (Option.map_eq_some_iff.2 ⟨_, hp, rfl⟩)
    split
    · exact .refl _
    · rename_i p hp
      exact hset p none hp
    · rename_i set p hp
      have hperform := @pooled_perform { io with pool := p } set event env
      have hdone : Pooled io.pool (perform { io with pool := p } set event env).2.pool :=
        (hset p _ hp).trans hperform
      unfold queueWithSet
      split
      · rename_i heq
        rw [heq] at hdone
        exact hdone
      · rename_i heq
        rw [heq] at hdone
        rw [flushAndWake_pool]
        exact hdone

end Io

end Talyn
