import Mathlib.Data.List.ReduceOption
import Talyn.Loop.TaskPool
import Talyn.Loop.Watchers
import Talyn.Transports.ClosedLoop

/-!
# Closing the loop

`release_claimed` of `loop/main.zig`, from the moment `loop.close` has cleared `initialized`. It gives up
the parts of the loop one after the other and in between releases the callbacks in the two ready queues:
each is called with the `cancelled` flag set, and whatever it calls can reach back into the loop. The
stages are in the order of the source; `advance` is the code between two drains, `invoke` the next round
of a drain.

While a callback runs (`calling`), it and the Python code it leads to can call the methods of transports,
start operations, dispatch callbacks and drop objects; the calls that check `initialized` first are
`guarded`. A callback is `other` when nothing of the loop is used by the callback itself once it is
cancelled: handles, timers, futures, signals, child processes, datagram transports, sockets and DNS
queries. What such a callback does besides comes as separate events.

`freed` lists what has been given up, `faults` the uses of it after that. A set of tasks is the list of
its active tasks; the slot numbers, and the reuse of slots, are those of `TaskPool`.
-/

namespace Talyn

namespace Teardown

/-- What the teardown gives up. -/
inductive Component
  | watcherTrees
  | taskSets
  | fixedFileTable
  | fixedFileFree
  | readyQueues
  | hookLists
  deriving DecidableEq, Repr

/-- The stages of `release_claimed`; `drain late queue` releases one of the ready queues, before or after
`io.deinit`. -/
inductive Stage
  | dnsDeinit
  | fsWatcherDeinit
  | childWatcherDeinit
  | unixSignalsDeinit
  | drain (late : Bool) (queue : Fin 2)
  | freeWatchers
  | ioDeinit
  | releaseDeferred
  | freeQueues
  | clearHooks
  | closed
  deriving DecidableEq, Repr

/-- Whose function a callback is: the read or the write of a stream transport, the poll of a watcher or
its wrapper, or another. -/
inductive Callback
  | read (transport : ℕ)
  | write (transport : ℕ)
  | poll (watcher : ℕ)
  | wrapper (watcher : ℕ)
  | other
  deriving DecidableEq, Repr

/-- A callback that waits to be called. -/
structure Queued where
  number : ℕ
  callback : Callback
  cancelled : Bool
  deriving DecidableEq, Repr

/-- `set_cancelled(true)`. -/
def Queued.setCancelled (c : Queued) : Queued := { c with cancelled := true }

/-- A node of a hook list: the prepare hook of a write transport, whose `cleanup` is null, or the hook of
a `HookHandle`. -/
inductive Hook
  | flush (transport : ℕ)
  | handle (handle : ℕ)
  deriving DecidableEq, Repr

end Teardown

/-- A loop that is being closed. -/
structure Teardown where
  stage : Teardown.Stage
  initialized : Bool
  /-- `ring.fd >= 0` -/
  ring : Bool
  fixedFilesEnabled : Bool
  /-- `ready_tasks_queues` and `ready_tasks_queue_index` -/
  queues : Fin 2 → List Teardown.Queued
  index : Fin 2
  /-- the active tasks of `io.set`, and of each of `io.busy_sets`; a task can be without a callback -/
  current : List (Option Teardown.Queued)
  busy : List (List (Option Teardown.Queued))
  /-- the user callbacks of the DNS queries that are not resolved -/
  dns : List Teardown.Queued
  /-- `unix_signals.callbacks` -/
  signals : List Teardown.Queued
  /-- `fs_watcher`, the child watchers and `unix_signals` have that many operations to cancel -/
  inotifyTask : Bool
  childTasks : ℕ
  signalTask : Bool
  watchers : Watchers
  /-- `prepare_hooks`, `check_hooks` and `idle_hooks` -/
  hooks : List Teardown.Hook
  /-- the hook handles with their `cancelled` field -/
  hookHandles : ℕ → Bool
  transports : ℕ → Option Stream
  /-- the transports that wait for `get_buffer` in `resume_reading` -/
  frames : List ℕ
  /-- a callback, or a destructor, is running -/
  calling : Bool
  /-- the number of the next callback -/
  next : ℕ
  invoked : List Teardown.Queued
  freed : List Teardown.Component
  faults : List Teardown.Component

namespace Teardown

/-- A part of the loop is used. -/
def use (l : Teardown) (c : Component) : Teardown :=
  if c ∈ l.freed then { l with faults := l.faults ++ [c] } else l

/-- A part of the loop is given up. -/
def free (l : Teardown) (c : Component) : Teardown := { l with freed := l.freed ++ [c] }

/-- `dispatch_nonthreadsafe`. -/
def dispatch (l : Teardown) (c : Queued) : Teardown :=
  { l.use .readyQueues with
    queues := Function.update l.queues l.index (l.queues l.index ++ [c]) }

/-- Callbacks are dispatched with the `cancelled` flag set. -/
def dispatchCancelled (l : Teardown) (cs : List Queued) : Teardown :=
  cs.foldl (fun l c => l.dispatch c.setCancelled) l

/-! ### `io` -/

/-- `get_blocking_tasks_set`: a full set is put with the busy ones. -/
def getBlockingTasksSet (l : Teardown) : Teardown :=
  if l.current.length < totalTasksItems then l
  else { l with current := [], busy := l.busy ++ [l.current] }

/-- `io.queue` with an operation that cancels another. -/
def cancelIo (l : Teardown) : Teardown :=
  if l.ring then (l.use .taskSets).getBlockingTasksSet else l

/-- A new callback. -/
def newCallback (l : Teardown) (callback : Callback) : Queued := ⟨l.next, callback, false⟩

/-- `io.queue` with another operation, whose callback can be null. -/
def queueTask (l : Teardown) (callback : Option Callback) : Teardown :=
  if l.ring then
    let l := (l.use .taskSets).getBlockingTasksSet
    match callback with
    | none => { l with current := l.current ++ [none] }
    | some callback =>
      { l with current := l.current ++ [some (l.newCallback callback)], next := l.next + 1 }
  else l

/-- `unregister_fixed_file`. -/
def unregisterFixedFile (l : Teardown) : Teardown :=
  if l.fixedFilesEnabled then (l.use .fixedFileTable).use .fixedFileFree else l

/-- `cancel_all` of a set, and its `deinit`. -/
def cancelAll (l : Teardown) (set : List (Option Queued)) : Teardown :=
  l.dispatchCancelled set.reduceOption

/-- `IO.deinit`. -/
def ioDeinit (l : Teardown) : Teardown :=
  let l := l.cancelAll l.current
  let l := l.busy.foldl cancelAll l
  let l := { l with current := [], busy := [], ring := false }
  ((l.free .taskSets).free .fixedFileFree).free .fixedFileTable

/-! ### What a callback does to the loop -/

/-- What an effect of a transport means for the loop. -/
def effect (i : ℕ) (l : Teardown) : Effect → Teardown
  | .performRead _ => l.queueTask (some (.read i))
  | .performWrite _ _ => l.queueTask (some (.write i))
  | .cancelIo _ => l.cancelIo
  | .socketShutdown => l.queueTask none
  | .unregisterFixedFile _ => l.unregisterFixedFile
  | _ => l

/-- The transport `s` becomes `t`, and what it did to the loop on the way. -/
def update (l : Teardown) (i : ℕ) (s t : Stream) : Teardown :=
  (t.trace.drop s.trace.length).foldl (effect i)
    { l with transports := Function.update l.transports i (some t) }

/-- `loop_watchers_cleanup_callback` looks into a tree if the watcher has its descriptor. -/
def useTree (l : Teardown) (h : ℕ) : Teardown :=
  match l.watchers.heap h with
  | none => l
  | some c => if 0 ≤ c.fd then l.use .watcherTrees else l

/-- A callback is called, with the `cancelled` flag set. -/
def call (l : Teardown) (callback : Callback) : Teardown :=
  match callback with
  | .read i =>
    match l.transports i with
    | none => l
    | some s => l.update i s (ClosedLoop.readCancelled s)
  | .write i =>
    match l.transports i with
    | none => l
    | some s => l.update i s (ClosedLoop.writeCancelled s)
  | .poll h => { l.useTree h with watchers := l.watchers.loopWatchersCallback h 0 true true }
  | .wrapper h => { l.useTree h with watchers := l.watchers.wrapperCallback h true none true }
  | .other => l

/-- One round of `release_dynamic_ring_buffer`. -/
def release (l : Teardown) (queue : Fin 2) : Option Teardown :=
  match l.queues queue with
  | [] => none
  | c :: cs =>
    let c := c.setCancelled
    let l := l.use .readyQueues
    let l :=
      { l with
        queues := Function.update l.queues queue cs, invoked := l.invoked ++ [c], calling := true }
    some (l.call c.callback)

/-- `HookHandle.cancel`. -/
def cancelHook (l : Teardown) (h : ℕ) : Teardown :=
  let l' := { l with hookHandles := Function.update l.hookHandles h true }
  if l.hookHandles h || !l.initialized then l' else l'.use .hookLists

/-- A call that checks `initialized` before it uses the loop: `add_reader`, `remove_reader`, `add_hook`,
`call_soon`, closing a datagram transport, or the garbage collector's `loop_traverse`. -/
def guarded (l : Teardown) (c : Component) : Teardown := if l.initialized then l.use c else l

/-- `stream_clear`, when a transport is destroyed. The write side takes its hook out of the list while the
loop is open; the slot is given back through `loop`, which is already cleared then. -/
def streamClear (l : Teardown) (s : Stream) : Teardown :=
  let l := if s.write.initialized then l.guarded .hookLists else l
  let loop := false
  if s.fd.isSome && decide (s.fixedFileIndex ≠ 0) && loop then l.unregisterFixedFile else l

/-! ### The stages -/

/-- The callbacks that have not been called. -/
def waiting (l : Teardown) : List Queued :=
  l.queues 0 ++ l.queues 1 ++ l.current.reduceOption ++ (l.busy.map List.reduceOption).flatten ++
    l.dns ++ l.signals

/-- The next stage is reached. -/
def goto (l : Teardown) (stage : Stage) : Teardown := { l with stage := stage }

/-- The queue to release is empty. -/
def drained (l : Teardown) (late : Bool) (queue : Fin 2) : Teardown :=
  l.goto <|
    if queue = 0 then .drain late 1
    else if late then .releaseDeferred else .freeWatchers

/-- The code up to the next drain. The destructors of the objects that are dropped run at the end of a
stage. The hook lists count as given up from the first node on. -/
def advance (l : Teardown) : Option Teardown :=
  match l.stage with
  | .dnsDeinit => some ({ l.dispatchCancelled l.dns with dns := [] }.goto .fsWatcherDeinit)
  | .fsWatcherDeinit =>
    let l := if l.inotifyTask then l.cancelIo else l
    some ({ l with inotifyTask := false, calling := true }.goto .childWatcherDeinit)
  | .childWatcherDeinit =>
    some ({ cancelIo^[l.childTasks] l with childTasks := 0, calling := true }.goto .unixSignalsDeinit)
  | .unixSignalsDeinit =>
    let l := if l.signalTask && l.ring then l.cancelIo else l
    some ({ l.dispatchCancelled l.signals with signals := [], signalTask := false }.goto (.drain false 0))
  | .drain late queue => if l.queues queue = [] then some (l.drained late queue) else none
  | .freeWatchers =>
    let watchers := (l.watchers.popAll .pollIn).popAll .pollOut
    some (({ l.use .watcherTrees with watchers := watchers }.free .watcherTrees).goto .ioDeinit)
  | .ioDeinit => some (l.ioDeinit.goto (.drain true 0))
  | .releaseDeferred => some (l.goto .freeQueues)
  | .freeQueues => some (((l.free .readyQueues).free .hookLists).goto .clearHooks)
  | .clearHooks =>
    match l.hooks with
    | [] => some (l.goto .closed)
    | .flush _ :: hooks => some { l with hooks := hooks }
    | .handle h :: hooks =>
      some
        { l with
          hooks := hooks, hookHandles := Function.update l.hookHandles h true, calling := true }
  | .closed => none

/-- What can happen. The first two are `release_claimed`; the rest is done by a callback or a destructor
that runs, and once the loop is closed by anyone who drops an object. -/
inductive Event
  | advance
  | invoke
  /-- the callback or destructor returns -/
  | returned
  | transport (i : ℕ) (c : ClosedLoop.TransportCall)
  /-- `get_buffer` returned, or raised -/
  | getBufferReturned (writable : Bool) (task : TaskId)
  /-- an operation is queued, or one that cancels another -/
  | startIo
  | cancelIo
  /-- a callback is dispatched by a call that does not check `initialized` -/
  | dispatch
  | guarded (c : Component)
  | cancelHook (h : ℕ)
  | destroyTransport (i : ℕ)
  | destroyHandle
  deriving DecidableEq, Repr

/-- An operation of the transport is under way, or one of its methods runs, and holds a reference. -/
def refers (l : Teardown) (i : ℕ) : Bool :=
  decide (i ∈ l.frames) ||
    l.waiting.any fun c => decide (c.callback = .read i ∨ c.callback = .write i)

/-- A method of a transport is called. -/
def transportCall (l : Teardown) (i : ℕ) (s : Stream) (c : ClosedLoop.TransportCall) : Teardown :=
  let r := ClosedLoop.call l.ring s c
  let l := l.update i s r.1
  if r.2 then { l with frames := i :: l.frames } else l

/-- Objects can be dropped: something runs, or the loop is closed. -/
def droppable (l : Teardown) : Bool := l.calling || decide (l.stage = .closed)

/-- One event; `none` when it cannot happen. A task id is not zero. -/
def step (l : Teardown) (e : Event) : Option Teardown :=
  match e with
  | .advance => if l.calling then none else l.advance
  | .invoke =>
    match l.stage with
    | .drain _ queue => if l.calling then none else l.release queue
    | _ => none
  | .returned => if l.calling ∧ l.frames = [] then some { l with calling := false } else none
  | .transport i c =>
    if l.calling ∧ c ≠ .resumeReading 0 then (l.transports i).map fun s => l.transportCall i s c
    else none
  | .getBufferReturned writable task =>
    match l.frames with
    | [] => none
    | i :: frames =>
      if task = 0 then none
      else
        let l := { l with frames := frames }
        match l.transports i with
        | none => some l
        | some s => some (l.update i s (ClosedLoop.getBufferReturned l.ring s writable task))
  | .startIo => if l.calling then some (l.queueTask (some .other)) else none
  | .cancelIo => if l.calling then some l.cancelIo else none
  | .dispatch =>
    if l.calling then some { l.dispatch (l.newCallback .other) with next := l.next + 1 } else none
  | .guarded c => if l.calling then some (l.guarded c) else none
  | .cancelHook h => if l.calling then some (l.cancelHook h) else none
  | .destroyTransport i =>
    if l.droppable ∧ l.refers i = false then
      (l.transports i).map fun s =>
        { l.streamClear s with transports := Function.update l.transports i none, calling := true }
    else none
  | .destroyHandle => if l.droppable then some { l with calling := true } else none

/-! ### What is promised -/

/-- The number of a stage. -/
def Stage.rank : Stage → ℕ
  | .dnsDeinit => 0
  | .fsWatcherDeinit => 1
  | .childWatcherDeinit => 2
  | .unixSignalsDeinit => 3
  | .drain late queue => 4 + 4 * late.toNat + queue
  | .freeWatchers => 6
  | .ioDeinit => 7
  | .releaseDeferred => 10
  | .freeQueues => 11
  | .clearHooks => 12
  | .closed => 13

/-- The rounds of `release_claimed`, and the callbacks it calls returning. -/
def Event.Native : Event → Prop
  | .advance | .invoke | .returned | .getBufferReturned _ _ => True
  | _ => False

/-- Nothing that was given up is used; the callbacks called so far and those that wait are each of the
callbacks of the loop once, and the called ones were called with the `cancelled` flag set; none is left
when the ready queues are given up, and the teardown gets to its end from here. -/
structure Sound (l : Teardown) : Prop where
  intact : l.faults = []
  cancelled : ∀ c ∈ l.invoked, c.cancelled = true
  once : ((l.invoked ++ l.waiting).map Queued.number).Perm (List.range l.next)
  settled : 11 ≤ l.stage.rank → l.waiting = []
  finishes : ∃ es l', (∀ e ∈ es, e.Native) ∧ Runs.exec step l es = some l' ∧ l'.stage = .closed

/-- A watcher that has its descriptor is in the tree. -/
def Placed (w : Watchers) : Prop :=
  ∀ h c, w.heap h = some c → 0 ≤ c.fd → (w.trees c.eventType).lookup c.fd = some h

/-- A loop whose teardown `loop.close` has claimed. -/
structure Claimed (l : Teardown) : Prop where
  stage : l.stage = .dnsDeinit
  initialized : l.initialized = false
  ring : l.ring = true
  calling : l.calling = false
  frames : l.frames = []
  invoked : l.invoked = []
  freed : l.freed = []
  faults : l.faults = []
  numbered : (l.waiting.map Queued.number).Perm (List.range l.next)
  placed : Placed l.watchers

/-- The slot of a transport that still has its fd is in the table that was given up. -/
def Stale (l : Teardown) (s : Stream) : Prop :=
  l.fixedFilesEnabled = true ∧ .fixedFileTable ∈ l.freed ∧ s.fd ≠ none ∧ s.fixedFileIndex ≠ 0

/-- The function that the next round of the drain calls. -/
def nextCallback (l : Teardown) : Option Callback :=
  match l.stage with
  | .drain _ queue => (l.queues queue).head?.map Queued.callback
  | _ => none

/-- With the fixed-file table given up, no read is released whose transport is only waiting for it to be
closed, and no method is called that tears down the fd of a transport with a slot; and nothing is
dispatched with the ready queues given up. -/
def Keeps (l : Teardown) (e : Event) : Prop :=
  (l.step e).isSome →
    match e with
    | .invoke => ∀ i s, l.nextCallback = some (.read i) → l.transports i = some s → l.Stale s →
        ¬ClosedLoop.ReadSettles s
    | .transport i c => ∀ s, l.transports i = some s → l.Stale s → ¬ClosedLoop.TearsDown s c
    | .dispatch => .readyQueues ∉ l.freed
    | _ => True

variable {l l' : Teardown}

/-! ### What is used -/

theorem use_eq {c : Component} (h : c ∉ l.freed) : l.use c = l := if_neg h

theorem use_cases (l : Teardown) (c : Component) :
    ∃ faults, l.use c = { l with faults := l.faults ++ faults } := by
  unfold use
  split
  · exact ⟨[c], rfl⟩
  · exact ⟨[], by simp⟩

/-- The stage from which on a part of the loop is given up. -/
def Component.freedAt : Component → ℕ
  | .watcherTrees => 7
  | .taskSets | .fixedFileFree | .fixedFileTable => 8
  | .readyQueues | .hookLists => 12

/-- The numbers of the callbacks. -/
def numbers (l : Teardown) : Multiset ℕ := ((l.invoked ++ l.waiting).map Queued.number : List ℕ)

/-- What holds of a loop on the way. -/
structure Inv (l : Teardown) : Prop where
  initialized : l.initialized = false
  ring : l.ring = decide (l.stage.rank < 8)
  freed : ∀ c, c ∈ l.freed ↔ c.freedAt ≤ l.stage.rank
  cancelled : ∀ c ∈ l.invoked, c.cancelled = true
  once : l.numbers = Multiset.range l.next
  frames : l.calling = false → l.frames = []
  -- when nothing runs: before the first drain, between the drains and after them
  calling : l.calling = true →
    l.stage.rank ≠ 6 ∧ l.stage.rank ≠ 7 ∧ l.stage.rank ≠ 10 ∧ l.stage.rank ≠ 11 ∧
      (l.stage.rank = 9 → l.index = 1)
  dns : 1 ≤ l.stage.rank → l.dns = []
  signals : 4 ≤ l.stage.rank → l.signals = []
  -- once it was drained, the queue that callbacks are not dispatched to stays empty
  first : 5 ≤ l.stage.rank → l.index = 1 → l.queues 0 = []
  second : 6 ≤ l.stage.rank → l.index = 0 → l.queues 1 = []
  tasks : 8 ≤ l.stage.rank → l.current = [] ∧ l.busy = []
  third : 9 ≤ l.stage.rank → l.queues 0 = []
  fourth : 10 ≤ l.stage.rank → l.queues 1 = []
  placed : l.stage.rank ≤ 6 → Placed l.watchers
  popped : 7 ≤ l.stage.rank → ∀ h c, l.watchers.heap h = some c → c.fd < 0

theorem Inv.usable (h : Inv l) {c : Component} (hc : l.stage.rank < c.freedAt) : l.use c = l :=
  use_eq fun hmem => absurd ((h.freed c).1 hmem) (Nat.not_le.2 hc)

/-! ### The callbacks that wait -/

/-- The numbers of the callbacks in a list. -/
def numbersOf (cs : List Queued) : Multiset ℕ := (cs.map Queued.number : List ℕ)

@[simp] theorem numbersOf_nil : numbersOf [] = 0 := rfl

@[simp] theorem numbersOf_cons (c : Queued) (cs : List Queued) :
    numbersOf (c :: cs) = {c.number} + numbersOf cs := rfl

@[simp] theorem numbersOf_append (cs cs' : List Queued) :
    numbersOf (cs ++ cs') = numbersOf cs + numbersOf cs' := by
  rw [numbersOf, List.map_append, ← Multiset.coe_add]
  rfl

@[simp] theorem numbersOf_setCancelled (cs : List Queued) :
    numbersOf (cs.map Queued.setCancelled) = numbersOf cs := by
  rw [numbersOf, List.map_map]
  rfl

/-- The numbers of the callbacks of the tasks. -/
def numbersOfTasks (current : List (Option Queued)) (busy : List (List (Option Queued))) : Multiset ℕ :=
  numbersOf current.reduceOption + numbersOf (busy.map List.reduceOption).flatten

theorem numbers_eq (l : Teardown) :
    l.numbers = numbersOf l.invoked + (numbersOf (l.queues 0) + numbersOf (l.queues 1)) +
      numbersOfTasks l.current l.busy + numbersOf l.dns + numbersOf l.signals := by
  show numbersOf (l.invoked ++ l.waiting) = _
  rw [waiting, numbersOfTasks]
  simp only [numbersOf_append, add_assoc]

/-- Callbacks are added to one of the queues. -/
theorem numbersOf_queues (queues : Fin 2 → List Queued) (i : Fin 2) (cs : List Queued) :
    numbersOf (Function.update queues i (queues i ++ cs) 0) +
        numbersOf (Function.update queues i (queues i ++ cs) 1) =
      numbersOf (queues 0) + numbersOf (queues 1) + numbersOf cs := by
  fin_cases i
  · simp only [Fin.zero_eta, Function.update_self, numbersOf_append]
    rw [Function.update_of_ne (by decide)]
    exact add_right_comm _ _ _
  · simp only [Fin.mk_one, Function.update_self, numbersOf_append]
    rw [Function.update_of_ne (by decide)]
    exact (add_assoc _ _ _).symm

/-- The first callback of a queue is taken. -/
theorem numbersOf_take {queues : Fin 2 → List Queued} {i : Fin 2} {c : Queued} {cs : List Queued}
    (hq : queues i = c :: cs) :
    {c.number} + (numbersOf (Function.update queues i cs 0) + numbersOf (Function.update queues i cs 1)) =
      numbersOf (queues 0) + numbersOf (queues 1) := by
  fin_cases i
  · simp only [Fin.zero_eta] at hq ⊢
    rw [Function.update_self, Function.update_of_ne (by decide), hq, numbersOf_cons, add_assoc]
  · simp only [Fin.mk_one] at hq ⊢
    rw [Function.update_self, Function.update_of_ne (by decide), hq, numbersOf_cons, add_left_comm]

/-- Several callbacks are dispatched. -/
def pushed (l : Teardown) (cs : List Queued) : Teardown :=
  { l with queues := Function.update l.queues l.index (l.queues l.index ++ cs) }

theorem pushed_nil (l : Teardown) : l.pushed [] = l := by
  rw [pushed, List.append_nil, Function.update_eq_self]

theorem pushed_pushed (l : Teardown) (cs cs' : List Queued) :
    (l.pushed cs).pushed cs' = l.pushed (cs ++ cs') := by
  simp only [pushed, Function.update_self, Function.update_idem, List.append_assoc]

theorem dispatch_eq (h : .readyQueues ∉ l.freed) (c : Queued) : l.dispatch c = l.pushed [c] := by
  rw [dispatch, use_eq h]
  rfl

theorem dispatchCancelled_eq (h : .readyQueues ∉ l.freed) (cs : List Queued) :
    l.dispatchCancelled cs = l.pushed (cs.map Queued.setCancelled) := by
  unfold dispatchCancelled
  induction cs generalizing l with
  | nil => exact l.pushed_nil.symm
  | cons c cs ih =>
    rw [List.foldl_cons, dispatch_eq h, ih (l := l.pushed [c.setCancelled]) h, pushed_pushed]
    rfl

theorem busy_cancelAll (h : .readyQueues ∉ l.freed) (sets : List (List (Option Queued))) :
    sets.foldl cancelAll l =
      l.pushed ((sets.map List.reduceOption).flatten.map Queued.setCancelled) := by
  induction sets generalizing l with
  | nil => exact l.pushed_nil.symm
  | cons set sets ih =>
    rw [List.foldl_cons, cancelAll, dispatchCancelled_eq h, ih (l := l.pushed _) h, pushed_pushed,
      List.map_cons, List.flatten_cons, List.map_append]

/-! ### The sets of tasks -/

theorem reduceOption_snoc (set : List (Option Queued)) (c : Option Queued) :
    (set ++ [c]).reduceOption = set.reduceOption ++ c.toList := by
  rw [List.reduceOption_append]
  cases c <;> rfl

theorem numbersOfTasks_snoc (current : List (Option Queued)) (busy : List (List (Option Queued)))
    (c : Option Queued) :
    numbersOfTasks (current ++ [c]) busy = numbersOfTasks current busy + numbersOf c.toList := by
  rw [numbersOfTasks, reduceOption_snoc, numbersOf_append, add_right_comm]
  rfl

theorem getBlockingTasksSet_cases (l : Teardown) :
    ∃ current busy, l.getBlockingTasksSet = { l with current := current, busy := busy } ∧
      numbersOfTasks current busy = numbersOfTasks l.current l.busy := by
  unfold getBlockingTasksSet
  split
  · exact ⟨l.current, l.busy, rfl, rfl⟩
  · refine ⟨[], l.busy ++ [l.current], rfl, ?_⟩
    rw [numbersOfTasks, numbersOfTasks, List.map_append, List.flatten_append, numbersOf_append,
      List.map_singleton, List.flatten_singleton, add_comm (numbersOf (l.busy.map _).flatten)]
    exact zero_add _

/-- The sets of tasks change: there is a new callback, or none. -/
theorem Inv.retask (h : Inv l) {current : List (Option Queued)} {busy : List (List (Option Queued))}
    {next : ℕ} (hrank : l.stage.rank < 8) (new : Multiset ℕ)
    (htasks : numbersOfTasks current busy = numbersOfTasks l.current l.busy + new)
    (hnext : Multiset.range next = Multiset.range l.next + new) :
    Inv { l with current := current, busy := busy, next := next } :=
  { h with
    once := by
      rw [hnext, ← h.once, numbers_eq, numbers_eq]
      dsimp only
      rw [htasks]
      abel
    tasks := fun hlate => absurd hrank (Nat.not_lt.2 hlate) }

theorem Inv.ringOpen (h : Inv l) (hring : l.ring = true) : l.stage.rank < 8 := by
  rw [h.ring] at hring
  exact of_decide_eq_true hring

theorem Inv.cancelIo (h : Inv l) : Inv l.cancelIo := by
  unfold Teardown.cancelIo
  split
  · rename_i hring
    have hrank := h.ringOpen hring
    rw [h.usable (c := .taskSets) hrank]
    obtain ⟨current, busy, heq, hnumbers⟩ := l.getBlockingTasksSet_cases
    rw [heq]
    exact h.retask hrank 0 (hnumbers.trans (add_zero _).symm) (add_zero _).symm
  · exact h

theorem Inv.queueTask (h : Inv l) (callback : Option Callback) : Inv (l.queueTask callback) := by
  unfold Teardown.queueTask
  split
  · rename_i hring
    have hrank := h.ringOpen hring
    rw [h.usable (c := .taskSets) hrank]
    obtain ⟨current, busy, heq, hnumbers⟩ := l.getBlockingTasksSet_cases
    rw [heq]
    cases callback with
    | none =>
      refine h.retask hrank 0 ?_ (add_zero _).symm
      exact (numbersOfTasks_snoc current busy none).trans (congrArg (· + 0) hnumbers)
    | some callback =>
      refine h.retask hrank {l.next} ?_ ?_
      · exact (numbersOfTasks_snoc current busy _).trans (congrArg (· + {l.next}) hnumbers)
      · rw [Multiset.range_succ, ← Multiset.singleton_add, add_comm]
  · exact h

theorem Inv.cancelIo_faults (h : Inv l) : l.cancelIo.faults = l.faults := by
  unfold Teardown.cancelIo
  split
  · rename_i hring
    rw [h.usable (c := .taskSets) (h.ringOpen hring)]
    obtain ⟨current, busy, heq, -⟩ := l.getBlockingTasksSet_cases
    rw [heq]
  · rfl

theorem Inv.queueTask_faults (h : Inv l) (callback : Option Callback) :
    (l.queueTask callback).faults = l.faults := by
  unfold Teardown.queueTask
  split
  · rename_i hring
    rw [h.usable (c := .taskSets) (h.ringOpen hring)]
    obtain ⟨current, busy, heq, -⟩ := l.getBlockingTasksSet_cases
    rw [heq]
    cases callback <;> rfl
  · rfl

theorem Inv.fault (h : Inv l) (faults : List Component) : Inv { l with faults := faults } := { h with }

theorem unregisterFixedFile_frame (l : Teardown) :
    ∃ faults, l.unregisterFixedFile = { l with faults := l.faults ++ faults } := by
  unfold Teardown.unregisterFixedFile
  split
  · obtain ⟨faults, htable⟩ := l.use_cases .fixedFileTable
    obtain ⟨faults', hfree⟩ := (l.use .fixedFileTable).use_cases .fixedFileFree
    exact ⟨faults ++ faults', by rw [hfree, htable, List.append_assoc]⟩
  · exact ⟨[], by rw [List.append_nil]⟩

theorem Inv.unregisterFixedFile_faults (h : Inv l)
    (hok : l.fixedFilesEnabled = true → .fixedFileTable ∉ l.freed) :
    l.unregisterFixedFile.faults = l.faults := by
  unfold Teardown.unregisterFixedFile
  split
  · rename_i henabled
    have hfree : .fixedFileFree ∉ l.freed := by
      rw [h.freed]
      have := hok henabled
      rwa [h.freed] at this
    rw [use_eq (hok henabled), use_eq hfree]
  · rfl

/-! ### What a transport does to the loop -/

/-- An effect gives back a slot. -/
def GivesBack (es : List Effect) : Prop := ∃ index, .unregisterFixedFile index ∈ es

theorem Inv.effect (h : Inv l) (i : ℕ) (e : Effect) : Inv (l.effect i e) := by
  cases e with
  | performRead task => exact h.queueTask (some (.read i))
  | performWrite task data => exact h.queueTask (some (.write i))
  | cancelIo task => exact h.cancelIo
  | socketShutdown => exact h.queueTask none
  | unregisterFixedFile index =>
    show Inv l.unregisterFixedFile
    obtain ⟨faults, heq⟩ := l.unregisterFixedFile_frame
    rw [heq]
    exact h.fault _
  | _ => exact h

theorem Inv.effect_faults (h : Inv l) (i : ℕ) {e : Effect}
    (hok : (∃ index, e = .unregisterFixedFile index) → l.fixedFilesEnabled = true →
      .fixedFileTable ∉ l.freed) : (l.effect i e).faults = l.faults := by
  cases e with
  | performRead task => exact h.queueTask_faults (some (.read i))
  | performWrite task data => exact h.queueTask_faults (some (.write i))
  | cancelIo task => exact h.cancelIo_faults
  | socketShutdown => exact h.queueTask_faults none
  | unregisterFixedFile index => exact h.unregisterFixedFile_faults (hok ⟨index, rfl⟩)
  | _ => rfl

theorem cancelIo_frame (l : Teardown) :
    ∃ current busy faults, l.cancelIo =
      { l with current := current, busy := busy, faults := l.faults ++ faults } := by
  unfold Teardown.cancelIo
  split
  · obtain ⟨faults, huse⟩ := l.use_cases .taskSets
    obtain ⟨current, busy, heq, -⟩ := (l.use .taskSets).getBlockingTasksSet_cases
    exact ⟨current, busy, faults, by rw [heq, huse]⟩
  · exact ⟨l.current, l.busy, [], by simp⟩

theorem effect_frame (i : ℕ) (l : Teardown) (e : Effect) :
    ∃ current busy next faults, l.effect i e =
      { l with current := current, busy := busy, next := next, faults := l.faults ++ faults } := by
  have hcancel : ∃ current busy next faults, l.cancelIo =
      { l with current := current, busy := busy, next := next, faults := l.faults ++ faults } := by
    obtain ⟨current, busy, faults, heq⟩ := l.cancelIo_frame
    exact ⟨current, busy, l.next, faults, heq⟩
  have hqueue : ∀ callback, ∃ current busy next faults, l.queueTask callback =
      { l with current := current, busy := busy, next := next, faults := l.faults ++ faults } := by
    intro callback
    unfold Teardown.queueTask
    split
    · obtain ⟨faults, huse⟩ := l.use_cases .taskSets
      obtain ⟨current, busy, heq, -⟩ := (l.use .taskSets).getBlockingTasksSet_cases
      rw [heq, huse]
      cases callback with
      | none => exact ⟨current ++ [none], busy, l.next, faults, rfl⟩
      | some callback => exact ⟨_, busy, l.next + 1, faults, rfl⟩
    · exact ⟨l.current, l.busy, l.next, [], by simp⟩
  have hunregister : ∃ current busy next faults, l.unregisterFixedFile =
      { l with current := current, busy := busy, next := next, faults := l.faults ++ faults } := by
    obtain ⟨faults, heq⟩ := l.unregisterFixedFile_frame
    exact ⟨l.current, l.busy, l.next, faults, heq⟩
  cases e with
  | performRead task => exact hqueue (some (.read i))
  | performWrite task data => exact hqueue (some (.write i))
  | cancelIo task => exact hcancel
  | socketShutdown => exact hqueue none
  | unregisterFixedFile index => exact hunregister
  | _ => exact ⟨l.current, l.busy, l.next, [], by rw [List.append_nil]; rfl⟩

theorem Inv.effects (h : Inv l) (i : ℕ) (es : List Effect) : Inv (es.foldl (Teardown.effect i) l) := by
  induction es generalizing l with
  | nil => exact h
  | cons e es ih => exact ih (h.effect i e)

theorem Inv.effects_faults (h : Inv l) (i : ℕ) {es : List Effect}
    (hok : GivesBack es → l.fixedFilesEnabled = true → .fixedFileTable ∉ l.freed) :
    (es.foldl (Teardown.effect i) l).faults = l.faults := by
  induction es generalizing l with
  | nil => rfl
  | cons e es ih =>
    rw [List.foldl_cons]
    obtain ⟨current, busy, next, faults, heq⟩ := effect_frame i l e
    refine (ih (h.effect i e) ?_).trans (h.effect_faults i ?_)
    · rintro ⟨index, hmem⟩
      rw [heq]
      exact hok ⟨index, List.mem_cons_of_mem _ hmem⟩
    · rintro ⟨index, rfl⟩
      exact hok ⟨index, List.mem_cons_self⟩

theorem effects_frame (i : ℕ) (l : Teardown) (es : List Effect) :
    ∃ current busy next faults, es.foldl (Teardown.effect i) l =
      { l with current := current, busy := busy, next := next, faults := l.faults ++ faults } := by
  induction es generalizing l with
  | nil => exact ⟨l.current, l.busy, l.next, [], by rw [List.append_nil]; rfl⟩
  | cons e es ih =>
    obtain ⟨current, busy, next, faults, heq⟩ := effect_frame i l e
    obtain ⟨current', busy', next', faults', hrest⟩ := ih (l.effect i e)
    refine ⟨current', busy', next', faults ++ faults', ?_⟩
    rw [List.foldl_cons, hrest, heq, List.append_assoc]

theorem update_frame (l : Teardown) (i : ℕ) (s t : Stream) :
    ∃ current busy next faults, l.update i s t =
      { l with
        transports := Function.update l.transports i (some t)
        current := current, busy := busy, next := next, faults := l.faults ++ faults } :=
  effects_frame i { l with transports := Function.update l.transports i (some t) } _

theorem faults_of_unregister (henabled : l.fixedFilesEnabled = true)
    (hfreed : .fixedFileTable ∈ l.freed) : l.unregisterFixedFile.faults ≠ [] := by
  rw [Teardown.unregisterFixedFile, if_pos henabled]
  obtain ⟨faults, hfree⟩ := (l.use .fixedFileTable).use_cases .fixedFileFree
  rw [hfree, use, if_pos hfreed]
  simp

/-- A slot that is given back to the table that was given up. -/
theorem faults_of_givesBack (i : ℕ) {es : List Effect} (hes : GivesBack es)
    (henabled : l.fixedFilesEnabled = true) (hfreed : .fixedFileTable ∈ l.freed) :
    (es.foldl (Teardown.effect i) l).faults ≠ [] := by
  obtain ⟨index, hmem⟩ := hes
  induction es generalizing l with
  | nil => exact absurd hmem List.not_mem_nil
  | cons e es ih =>
    rw [List.foldl_cons]
    rcases List.mem_cons.1 hmem with rfl | hmem
    · intro hnone
      obtain ⟨current, busy, next, faults, heq⟩ :=
        effects_frame i (l.effect i (.unregisterFixedFile index)) es
      rw [heq] at hnone
      exact faults_of_unregister henabled hfreed (List.append_eq_nil_iff.1 hnone).1
    · obtain ⟨current, busy, next, faults, heq⟩ := effect_frame i l e
      refine ih ?_ ?_ hmem
      · rw [heq]
        exact henabled
      · rw [heq]
        exact hfreed

/-- The slot is given back when the fd is torn down. -/
theorem givesBack_iff {s t : Stream} (hf : Stream.FdStep s t) :
    GivesBack (t.trace.drop s.trace.length) ↔ s.fd ≠ none ∧ t.fd = none ∧ s.fixedFileIndex ≠ 0 := by
  have hmem : ∀ {es}, GivesBack es ↔ ∃ index, FdEffect.unregisterFixedFile index ∈ Stream.fdEffects es := by
    intro es
    constructor
    · rintro ⟨index, hin⟩
      exact ⟨index, List.mem_filterMap.2 ⟨_, hin, rfl⟩⟩
    · rintro ⟨index, hin⟩
      obtain ⟨e, he, hfd⟩ := List.mem_filterMap.1 hin
      refine ⟨index, ?_⟩
      cases e <;> simp_all [Effect.fd?]
  cases hf with
  | kept es htrace hes hkept =>
    have hfd : t.fd = s.fd := congrArg Prod.fst hkept
    rw [htrace, List.drop_left, hmem, hes, hfd]
    simp only [List.not_mem_nil, exists_false, false_iff, not_and]
    exact fun hsome hnone => absurd hnone hsome
  | torn es fd htrace hsome hes htorn =>
    have hnone : t.fd = none := congrArg Prod.fst htorn
    rw [htrace, List.drop_left, hmem, hes, hsome, hnone, teardown]
    by_cases hindex : s.fixedFileIndex = 0
    · simp only [hindex, ne_eq, not_true_eq_false, if_false, List.nil_append, and_false, iff_false]
      rintro ⟨index, hin⟩
      split at hin
      · simp at hin
      · simp at hin
    · simp [hindex]

theorem Inv.update (h : Inv l) (i : ℕ) (s t : Stream) : Inv (l.update i s t) := by
  have hset : Inv { l with transports := Function.update l.transports i (some t) } := { h with }
  exact hset.effects i _

/-- A transport changes, and does not give a slot back too late. -/
theorem Inv.update_faults (h : Inv l) (i : ℕ) {s t : Stream} (hf : Stream.FdStep s t)
    (hok : ¬(l.Stale s ∧ t.fd = none)) : (l.update i s t).faults = l.faults := by
  have hset : Inv { l with transports := Function.update l.transports i (some t) } := { h with }
  refine hset.effects_faults i fun hgives henabled hfreed => ?_
  obtain ⟨hsome, hnone, hindex⟩ := (givesBack_iff hf).1 hgives
  exact hok ⟨⟨henabled, hfreed, hsome, hindex⟩, hnone⟩

theorem faults_of_update (i : ℕ) {s t : Stream} (hf : Stream.FdStep s t) (hstale : l.Stale s)
    (hnone : t.fd = none) : (l.update i s t).faults ≠ [] :=
  faults_of_givesBack (l := { l with transports := _ }) i
    ((givesBack_iff hf).2 ⟨hstale.2.2.1, hnone, hstale.2.2.2⟩) hstale.1 hstale.2.1

/-! ### The watchers -/

section
open Watchers

variable {w v : Watchers}

theorem Placed.congr (hp : Placed w) (hheap : v.heap = w.heap) (htrees : v.trees = w.trees) :
    Placed v := by
  intro h c hc hfd
  rw [htrees]
  exact hp h c (hheap ▸ hc) hfd

/-- What the loop's own code promises of its watchers. -/
theorem placed_of_mapped (hm : Watchers.Mapped w) : Placed w :=
  fun h c hc hfd => (hm c.eventType c.fd h).2 ⟨c, hc, rfl, rfl, hfd⟩

theorem heap_cleanup {h h' : ℕ} {c : FDWatcher} (hc : (w.cleanup h).heap h' = some c) :
    h' ≠ h ∧ w.heap h' = some c := by
  unfold Watchers.cleanup at hc
  split at hc
  · rename_i hnone
    refine ⟨?_, hc⟩
    rintro rfl
    exact nomatch hnone.symm.trans hc
  · rename_i d hd
    have hheap : ((if 0 ≤ d.fd then w.delete d.eventType d.fd else w).destroy h).heap =
        Function.update w.heap h none := by
      split <;> rfl
    rw [hheap] at hc
    by_cases heq : h' = h
    · rw [heq, Function.update_self] at hc
      exact nomatch hc
    · rw [Function.update_of_ne heq] at hc
      exact ⟨heq, hc⟩

theorem Placed.cleanup (hp : Placed w) (h : ℕ) : Placed (w.cleanup h) := by
  intro h' c hc hfd
  obtain ⟨hne, hheap⟩ := heap_cleanup hc
  have hlookup := hp h' c hheap hfd
  unfold Watchers.cleanup
  split
  · exact hlookup
  rename_i d hd
  split
  · rename_i hpos
    show AList.lookup c.fd (Function.update w.trees d.eventType ((w.trees d.eventType).erase d.fd)
      c.eventType) = some h'
    by_cases hevent : c.eventType = d.eventType
    · -- the entry that is deleted is that of `h`, so another one than that of `h'`
      have hother : c.fd ≠ d.fd := by
        intro heq
        rw [hevent, heq, hp h d hd hpos] at hlookup
        exact hne (Option.some.inj hlookup).symm
      rw [hevent, Function.update_self, AList.lookup_erase_ne hother, ← hevent]
      exact hlookup
    · rw [Function.update_of_ne hevent]
      exact hlookup
  · exact hlookup

/-- Both callbacks of a watcher free it when they are cancelled. -/
theorem watcher_released (w : Watchers) (h : ℕ) :
    (∀ v, v = w.loopWatchersCallback h 0 true true ∨ v = w.wrapperCallback h true none true →
      (Placed w → Placed v) ∧ ∀ h' c, v.heap h' = some c → w.heap h' = some c) := by
  rintro v (rfl | rfl)
  · cases hc : w.heap h with
    | none =>
      rw [Watchers.loopWatchersCallback, hc]
      exact ⟨fun hp => hp.congr rfl rfl, fun h' c hc => hc⟩
    | some c =>
      rw [Watchers.loopWatchersCallback_cancelled hc]
      exact ⟨fun hp => hp.cleanup h, fun h' c hc => (heap_cleanup hc).2⟩
  · cases hc : w.heap h with
    | none =>
      rw [Watchers.wrapperCallback, hc]
      exact ⟨fun hp => hp.congr rfl rfl, fun h' c hc => hc⟩
    | some c =>
      rw [Watchers.wrapperCallback_cancelled hc]
      refine ⟨fun hp => ?_, fun h' c hc => (heap_cleanup hc).2⟩
      have hemit : Placed (w.emit (.decref h)) := hp.congr rfl rfl
      exact hemit.cleanup h

theorem invalidate_trees (w : Watchers) (h : ℕ) : (w.invalidate h).trees = w.trees := by
  unfold Watchers.invalidate
  split <;> rfl

theorem invalidate_heap {h h' : ℕ} {c : FDWatcher} (hc : (w.invalidate h).heap h' = some c) :
    c.fd < 0 ∨ h' ≠ h ∧ w.heap h' = some c := by
  unfold Watchers.invalidate at hc
  split at hc
  · rename_i hnone
    refine .inr ⟨?_, hc⟩
    rintro rfl
    exact nomatch hnone.symm.trans hc
  · by_cases heq : h' = h
    · subst heq
      obtain rfl := Option.some.inj ((Function.update_self h' _ _).symm.trans hc)
      exact .inl (show (-1 : ℤ) < 0 by decide)
    · exact .inr ⟨heq, (Function.update_of_ne heq _ _).symm.trans hc⟩

theorem foldl_invalidate_heap {hs : List ℕ} {h' : ℕ} {c : FDWatcher}
    (hc : (hs.foldl Watchers.invalidate w).heap h' = some c) :
    c.fd < 0 ∨ h' ∉ hs ∧ w.heap h' = some c := by
  induction hs generalizing w with
  | nil => exact .inr ⟨List.not_mem_nil, hc⟩
  | cons h hs ih =>
    rcases ih hc with hneg | ⟨hnot, hheap⟩
    · exact .inl hneg
    rcases invalidate_heap hheap with hneg | ⟨hne, hheap⟩
    · exact .inl hneg
    · exact .inr ⟨fun hmem => (List.mem_cons.1 hmem).elim hne hnot, hheap⟩

theorem popAll_heap {event : PollEvent} {h : ℕ} {c : FDWatcher}
    (hc : (w.popAll event).heap h = some c) :
    c.fd < 0 ∨ w.heap h = some c ∧ ∀ fd, (w.trees event).lookup fd ≠ some h := by
  rcases foldl_invalidate_heap hc with hneg | ⟨hnot, hheap⟩
  · exact .inl hneg
  · refine .inr ⟨hheap, fun fd hlookup => hnot ?_⟩
    exact List.mem_map.2 ⟨⟨fd, h⟩, AList.mem_lookup_iff.1 hlookup, rfl⟩

theorem popAll_trees (w : Watchers) (event : PollEvent) :
    (w.popAll event).trees = Function.update w.trees event ∅ := by
  have hfold : ∀ (hs : List ℕ) (u : Watchers), (hs.foldl Watchers.invalidate u).trees = u.trees := by
    intro hs
    induction hs with
    | nil => exact fun u => rfl
    | cons h hs ih => exact fun u => (ih _).trans (invalidate_trees u h)
  exact congrArg (Function.update · event ∅) (hfold _ w)

/-- Once both trees are emptied no watcher has its descriptor. -/
theorem popAll_popped (hp : Placed w) {h : ℕ} {c : FDWatcher}
    (hc : ((w.popAll .pollIn).popAll .pollOut).heap h = some c) : c.fd < 0 := by
  rcases popAll_heap hc with hneg | ⟨hheap, hout⟩
  · exact hneg
  rcases popAll_heap hheap with hneg | ⟨hheap, hin⟩
  · exact hneg
  by_contra hpos
  have hlookup := hp h c hheap (not_lt.1 hpos)
  cases hevent : c.eventType with
  | pollIn => exact hin c.fd (hevent ▸ hlookup)
  | pollOut =>
    refine hout c.fd ?_
    rw [popAll_trees, Function.update_of_ne (by decide)]
    exact hevent ▸ hlookup

end

/-! ### The callbacks -/

theorem Inv.rewatch (h : Inv l) {v : Watchers} (hplaced : Placed l.watchers → Placed v)
    (hheap : ∀ h c, v.heap h = some c → l.watchers.heap h = some c) : Inv { l with watchers := v } :=
  { h with
    placed := fun hrank => hplaced (h.placed hrank)
    popped := fun hrank h' c hc => h.popped hrank h' c (hheap h' c hc) }

/-- Only a watcher of a tree that is there has its descriptor. -/
theorem Inv.useTree (h : Inv l) (i : ℕ) : l.useTree i = l := by
  unfold Teardown.useTree
  split
  · rfl
  rename_i c hc
  split
  · rename_i hfd
    refine h.usable ?_
    by_contra hlate
    exact absurd hfd (not_le.2 (h.popped (not_lt.1 hlate) i c hc))
  · rfl

theorem Inv.call (h : Inv l) (callback : Callback) : Inv (l.call callback) := by
  cases callback with
  | read i =>
    unfold Teardown.call
    dsimp only
    split
    · exact h
    · exact h.update i _ _
  | write i =>
    unfold Teardown.call
    dsimp only
    split
    · exact h
    · exact h.update i _ _
  | poll i =>
    show Inv { l.useTree i with watchers := _ }
    rw [h.useTree]
    have hv := watcher_released l.watchers i _ (.inl rfl)
    exact h.rewatch hv.1 hv.2
  | wrapper i =>
    show Inv { l.useTree i with watchers := _ }
    rw [h.useTree]
    have hv := watcher_released l.watchers i _ (.inr rfl)
    exact h.rewatch hv.1 hv.2
  | other => exact h

/-- Tearing the fd down is harmless, or does not happen. -/
theorem Inv.call_faults (h : Inv l) (callback : Callback)
    (hok : ∀ i s, callback = .read i → l.transports i = some s → l.Stale s →
      ¬ClosedLoop.ReadSettles s) : (l.call callback).faults = l.faults := by
  cases callback with
  | read i =>
    unfold Teardown.call
    dsimp only
    split
    · rfl
    · rename_i s hs
      refine h.update_faults i (ClosedLoop.fdStep_readCancelled s) ?_
      rintro ⟨hstale, hnone⟩
      exact ((ClosedLoop.readCancelled_fd s).1 hnone).elim hstale.2.2.1 (hok i s rfl hs hstale)
  | write i =>
    unfold Teardown.call
    dsimp only
    split
    · rfl
    · rename_i s hs
      refine h.update_faults i (ClosedLoop.fdStep_writeCancelled s) ?_
      exact fun hboth => hboth.1.2.2.1 hboth.2
  | poll i =>
    show (l.useTree i).faults = l.faults
    rw [h.useTree]
  | wrapper i =>
    show (l.useTree i).faults = l.faults
    rw [h.useTree]
  | other => rfl

theorem rank_drain {late : Bool} {queue : Fin 2} (hstage : l.stage = .drain late queue) :
    l.stage.rank = 4 ∧ queue = 0 ∨ l.stage.rank = 5 ∧ queue = 1 ∨
      l.stage.rank = 8 ∧ queue = 0 ∨ l.stage.rank = 9 ∧ queue = 1 := by
  rw [hstage]
  cases late <;> fin_cases queue <;> simp [Stage.rank]

/-- The next callback is taken from the queue. -/
theorem Inv.take (h : Inv l) {late : Bool} {queue : Fin 2} {c : Queued} {cs : List Queued}
    (hstage : l.stage = .drain late queue) (hq : l.queues queue = c :: cs) :
    Inv { l with
      queues := Function.update l.queues queue cs, invoked := l.invoked ++ [c.setCancelled]
      calling := true } := by
  have hkeep : ∀ q, l.queues q = [] → Function.update l.queues queue cs q = [] := by
    intro q hnil
    have hne : q ≠ queue := by
      rintro rfl
      exact nomatch hnil.symm.trans hq
    rw [Function.update_of_ne hne]
    exact hnil
  refine
    { h with
      cancelled := ?_, once := ?_, frames := nofun, calling := ?_
      first := fun h5 hindex => hkeep 0 (h.first h5 hindex)
      second := fun h6 hindex => hkeep 1 (h.second h6 hindex)
      third := fun h9 => hkeep 0 (h.third h9)
      fourth := fun h10 => hkeep 1 (h.fourth h10) }
  · intro x hx
    rcases List.mem_append.1 hx with hx | hx
    · exact h.cancelled x hx
    · rw [List.mem_singleton.1 hx]
      rfl
  · show numbers _ = Multiset.range l.next
    have htake := numbersOf_take hq
    rw [← h.once, numbers_eq, numbers_eq, ← htake]
    dsimp only
    rw [numbersOf_append, numbersOf_cons, numbersOf_nil]
    have hnumber : c.setCancelled.number = c.number := rfl
    rw [hnumber]
    abel
  · intro _
    have hrank := rank_drain hstage
    refine ⟨by dsimp only; omega, by dsimp only; omega, by dsimp only; omega, by dsimp only; omega, ?_⟩
    intro h9
    dsimp only at h9 ⊢
    by_contra hindex
    have hzero : l.index = 0 := by omega
    have hone : queue = 1 := by omega
    rw [hone, h.second (by omega) hzero] at hq
    exact nomatch hq

/-- What a round of the drain comes to. -/
theorem Inv.release_cases (h : Inv l) {late : Bool} {queue : Fin 2}
    (hstage : l.stage = .drain late queue) (hs : l.release queue = some l') :
    ∃ c cs, l.queues queue = c :: cs ∧ l.nextCallback = some c.callback ∧
      l' = { l with
        queues := Function.update l.queues queue cs, invoked := l.invoked ++ [c.setCancelled]
        calling := true }.call c.callback := by
  unfold Teardown.release at hs
  split at hs
  · exact nomatch hs
  rename_i c cs hq
  obtain rfl := Option.some.inj hs
  have hrank := rank_drain hstage
  rw [h.usable (c := .readyQueues) (by dsimp only [Component.freedAt]; omega)]
  refine ⟨c, cs, hq, ?_, rfl⟩
  rw [nextCallback, hstage]
  dsimp only
  rw [hq]
  rfl

/-! ### The stages -/

/-- Callbacks are moved to the ready queue, or new ones are dispatched. -/
theorem Inv.repush (h : Inv l) (cs dns signals : List Queued) (current : List (Option Queued))
    (busy : List (List (Option Queued))) (next : ℕ) (hrank : l.stage.rank < 10)
    (hlate : l.stage.rank = 9 → l.index = 1)
    (honce : numbersOf cs + numbersOfTasks current busy + numbersOf dns + numbersOf signals +
        Multiset.range l.next =
      numbersOfTasks l.current l.busy + numbersOf l.dns + numbersOf l.signals + Multiset.range next)
    (hdns : 1 ≤ l.stage.rank → dns = []) (hsignals : 4 ≤ l.stage.rank → signals = [])
    (htasks : 8 ≤ l.stage.rank → current = [] ∧ busy = []) :
    Inv { l.pushed cs with
      dns := dns, signals := signals, current := current, busy := busy, next := next } := by
  have hother : ∀ q, q ≠ l.index → (l.pushed cs).queues q = l.queues q :=
    fun q hne => Function.update_of_ne hne _ _
  refine
    { h with
      once := ?_, dns := hdns, signals := hsignals, tasks := htasks
      first := fun h5 hindex => (hother 0 ?_).trans (h.first h5 hindex)
      second := fun h6 hindex => (hother 1 ?_).trans (h.second h6 hindex)
      third := fun h9 => (hother 0 ?_).trans (h.third h9)
      fourth := fun h10 => absurd hrank (Nat.not_lt.2 h10) }
  · have hl := h.once
    have hqueues : numbersOf ((l.pushed cs).queues 0) + numbersOf ((l.pushed cs).queues 1) =
        numbersOf (l.queues 0) + numbersOf (l.queues 1) + numbersOf cs := numbersOf_queues _ _ _
    rw [numbers_eq] at hl ⊢
    dsimp only
    rw [hqueues]
    apply add_right_cancel (b := Multiset.range l.next)
    calc numbersOf l.invoked + (numbersOf (l.queues 0) + numbersOf (l.queues 1) + numbersOf cs) +
            numbersOfTasks current busy + numbersOf dns + numbersOf signals + Multiset.range l.next
        = numbersOf l.invoked + (numbersOf (l.queues 0) + numbersOf (l.queues 1)) +
            (numbersOf cs + numbersOfTasks current busy + numbersOf dns + numbersOf signals +
              Multiset.range l.next) := by abel
      _ = numbersOf l.invoked + (numbersOf (l.queues 0) + numbersOf (l.queues 1)) +
            numbersOfTasks l.current l.busy + numbersOf l.dns + numbersOf l.signals +
              Multiset.range next := by rw [honce]; abel
      _ = Multiset.range next + Multiset.range l.next := by rw [hl, add_comm]
  · rw [show l.index = 1 from hindex]
    decide
  · rw [show l.index = 0 from hindex]
    decide
  · rw [hlate (by dsimp only [pushed] at h9; omega)]
    decide

/-- The teardown goes on to a stage before which nothing is given up. -/
theorem Inv.goto (h : Inv l) {s : Stage} (r q : ℕ) (hr : l.stage.rank = r) (hq : s.rank = q)
    (hle : r ≤ q) (hcalling : l.calling = false)
    (hfreed : ∀ c : Component, c.freedAt ≤ q → c.freedAt ≤ r)
    (hdns : 1 ≤ q → l.dns = []) (hsignals : 4 ≤ q → l.signals = [])
    (hfirst : 5 ≤ q → l.queues 0 = [] ∨ 5 ≤ r) (hsecond : 6 ≤ q → l.queues 1 = [] ∨ 6 ≤ r)
    (hthird : 9 ≤ q → l.queues 0 = []) (hfourth : 10 ≤ q → l.queues 1 = []) :
    Inv (l.goto s) := by
  have hqueues : (l.goto s).stage.rank = q := hq
  have hring : decide (l.stage.rank < 8) = decide ((l.goto s).stage.rank < 8) := by
    have := hfreed .taskSets
    dsimp only [Component.freedAt] at this
    rw [hqueues, hr, decide_eq_decide]
    omega
  constructor <;> try rw [hqueues]
  · exact h.initialized
  · rw [← hqueues, ← hring]
    exact h.ring
  · intro c
    refine (h.freed c).trans ?_
    rw [hr]
    exact ⟨fun hc => hc.trans hle, hfreed c⟩
  · exact h.cancelled
  · exact h.once
  · exact h.frames
  · exact fun hc => absurd (hcalling.symm.trans hc) Bool.false_ne_true
  · exact hdns
  · exact hsignals
  · exact fun h5 hindex => (hfirst h5).elim id fun h5 => h.first (hr ▸ h5) hindex
  · exact fun h6 hindex => (hsecond h6).elim id fun h6 => h.second (hr ▸ h6) hindex
  · exact fun h8 => h.tasks (hr ▸ hfreed .taskSets h8)
  · exact hthird
  · exact hfourth
  · exact fun h6 => h.placed (hr ▸ hle.trans h6)
  · exact fun h7 => h.popped (hr ▸ hfreed .watcherTrees h7)

/-- Something starts to run. -/
theorem Inv.run (h : Inv l) (r : ℕ) (hr : l.stage.rank = r)
    (hrank : r ≠ 6 ∧ r ≠ 7 ∧ r ≠ 10 ∧ r ≠ 11) (hlate : r = 9 → l.index = 1) :
    Inv { l with calling := true } := by
  subst hr
  exact
    { h with
      frames := nofun
      calling := fun _ => ⟨hrank.1, hrank.2.1, hrank.2.2.1, hrank.2.2.2, hlate⟩ }

theorem Inv.dnsDeinit (h : Inv l) (hstage : l.stage = .dnsDeinit) (hcalling : l.calling = false) :
    Inv ({ l.dispatchCancelled l.dns with dns := [] }.goto .fsWatcherDeinit) := by
  have hrank : l.stage.rank = 0 := by rw [hstage, Stage.rank]
  have hready : Component.readyQueues ∉ l.freed := by
    rw [h.freed, hrank]
    decide
  rw [dispatchCancelled_eq hready]
  have hpushed : Inv { l.pushed (l.dns.map Queued.setCancelled) with dns := [] } := by
    refine h.repush _ [] l.signals l.current l.busy l.next (by omega) (by omega) ?_ (fun _ => rfl)
      (by omega) (by omega)
    rw [numbersOf_setCancelled, numbersOf_nil]
    abel
  refine hpushed.goto 0 1 hrank rfl (by decide) hcalling (fun c => by cases c <;> decide)
    (fun _ => rfl) ?_ ?_ ?_ ?_ ?_
  all_goals exact fun hfar => absurd hfar (by decide)

theorem Inv.unixSignalsDeinit (h : Inv l) (hstage : l.stage = .unixSignalsDeinit)
    (hcalling : l.calling = false) :
    Inv ({ l.dispatchCancelled l.signals with signals := [], signalTask := false }.goto
      (.drain false 0)) := by
  have hrank : l.stage.rank = 3 := by rw [hstage, Stage.rank]
  have hready : Component.readyQueues ∉ l.freed := by
    rw [h.freed, hrank]
    decide
  rw [dispatchCancelled_eq hready]
  have hpushed : Inv { l.pushed (l.signals.map Queued.setCancelled) with
      signals := [], signalTask := false } := by
    refine { h.repush _ l.dns [] l.current l.busy l.next (by omega) (by omega) ?_ h.dns (fun _ => rfl)
      (by omega) with }
    rw [numbersOf_setCancelled, numbersOf_nil]
    abel
  refine hpushed.goto 3 4 hrank rfl (by decide) hcalling (fun c => by cases c <;> decide)
    (fun _ => h.dns (by omega)) (fun _ => rfl) ?_ ?_ ?_ ?_
  all_goals exact fun hfar => absurd hfar (by decide)

/-- The end of a drain. -/
theorem Inv.drained (h : Inv l) {late : Bool} {queue : Fin 2} (hstage : l.stage = .drain late queue)
    (hcalling : l.calling = false) (hq : l.queues queue = []) : Inv (l.drained late queue) := by
  have hdns : l.dns = [] := h.dns (by have := rank_drain hstage; omega)
  have hsignals : l.signals = [] := h.signals (by have := rank_drain hstage; omega)
  have hrank : l.stage.rank = (Stage.drain late queue).rank := congrArg Stage.rank hstage
  obtain rfl | rfl : queue = 0 ∨ queue = 1 := by omega
  · cases late with
    | false =>
      refine h.goto 4 5 hrank rfl (by decide) hcalling (fun c => by cases c <;> decide) (fun _ => hdns)
        (fun _ => hsignals) (fun _ => .inl hq) ?_ ?_ ?_
      all_goals exact fun hfar => absurd hfar (by decide)
    | true =>
      refine h.goto 8 9 hrank rfl (by decide) hcalling (fun c => by cases c <;> decide) (fun _ => hdns)
        (fun _ => hsignals) (fun _ => .inr (by decide)) (fun _ => .inr (by decide)) (fun _ => hq) ?_
      exact fun hfar => absurd hfar (by decide)
  · cases late with
    | false =>
      refine h.goto 5 6 hrank rfl (by decide) hcalling (fun c => by cases c <;> decide) (fun _ => hdns)
        (fun _ => hsignals) (fun _ => .inr (by decide)) (fun _ => .inl hq) ?_ ?_
      all_goals exact fun hfar => absurd hfar (by decide)
    | true =>
      exact h.goto 9 10 hrank rfl (by decide) hcalling (fun c => by cases c <;> decide) (fun _ => hdns)
        (fun _ => hsignals) (fun _ => .inr (by decide)) (fun _ => .inr (by decide))
        (fun _ => h.third hrank.ge) (fun _ => hq)

/-- A stage that gives up parts of the loop. -/
theorem Inv.gaveUp (h : Inv l) (s : Stage) (freed : List Component) (ring : Bool) (r : ℕ)
    (hr : l.stage.rank = r) (hq : s.rank = r + 1) (hfar : 6 ≤ r)
    (hfreed : ∀ c : Component, c ∈ freed ↔ c.freedAt = r + 1) (hring : ring = decide (r + 1 < 8))
    (hcalling : l.calling = false) (htasks : 8 ≤ r + 1 → l.current = [] ∧ l.busy = [])
    (hthird : 9 ≤ r + 1 → l.queues 0 = []) (hfourth : 10 ≤ r + 1 → l.queues 1 = [])
    (hpopped : ∀ h c, l.watchers.heap h = some c → c.fd < 0) :
    Inv ({ l with freed := l.freed ++ freed, ring := ring }.goto s) := by
  have hrank : ({ l with freed := l.freed ++ freed, ring := ring }.goto s).stage.rank = r + 1 := hq
  constructor <;> try rw [hrank]
  · exact h.initialized
  · exact hring
  · intro c
    show c ∈ l.freed ++ freed ↔ _
    rw [List.mem_append, h.freed, hfreed, hr]
    omega
  · exact h.cancelled
  · exact h.once
  · exact h.frames
  · exact fun hc => absurd (hcalling.symm.trans hc) Bool.false_ne_true
  · exact fun _ => h.dns (by omega)
  · exact fun _ => h.signals (by omega)
  · exact fun _ hindex => h.first (by omega) hindex
  · exact fun _ hindex => h.second (by omega) hindex
  · exact htasks
  · exact hthird
  · exact hfourth
  · exact fun hle => absurd hfar (by omega)
  · exact fun _ => hpopped

theorem Inv.freeWatchers (h : Inv l) (hstage : l.stage = .freeWatchers) (hcalling : l.calling = false) :
    Inv (({ l.use .watcherTrees with
      watchers := (l.watchers.popAll .pollIn).popAll .pollOut }.free .watcherTrees).goto .ioDeinit) := by
  have hrank : l.stage.rank = 6 := by rw [hstage, Stage.rank]
  have hpopped : ∀ h c, ((l.watchers.popAll .pollIn).popAll .pollOut).heap h = some c → c.fd < 0 :=
    fun i c hc => popAll_popped (h.placed hrank.le) hc
  rw [h.usable (c := .watcherTrees) (by rw [hrank]; decide)]
  have hwatched : Inv { l with watchers := (l.watchers.popAll .pollIn).popAll .pollOut } :=
    { h with
      placed := fun _ i c hc hfd => absurd hfd (not_le.2 (hpopped i c hc))
      popped := fun _ => hpopped }
  refine hwatched.gaveUp _ [.watcherTrees] _ 6 hrank rfl (by decide) (fun c => by cases c <;> decide)
    (h.ring.trans (by rw [hrank]; decide)) hcalling ?_ ?_ ?_ hpopped
  all_goals exact fun hfar => absurd hfar (by decide)

theorem ioDeinit_eq (hready : Component.readyQueues ∉ l.freed) :
    l.ioDeinit = { l.pushed ((l.current.reduceOption ++
      (l.busy.map List.reduceOption).flatten).map Queued.setCancelled) with
        current := [], busy := [], ring := false
        freed := l.freed ++ [.taskSets, .fixedFileFree, .fixedFileTable] } := by
  unfold Teardown.ioDeinit
  rw [cancelAll, dispatchCancelled_eq hready]
  dsimp only
  rw [show (l.pushed _).busy = l.busy from rfl, busy_cancelAll (l := l.pushed _) hready, pushed_pushed,
    ← List.map_append]
  simp [free, pushed]

theorem Inv.ioDeinit (h : Inv l) (hstage : l.stage = .ioDeinit) (hcalling : l.calling = false) :
    Inv (l.ioDeinit.goto (.drain true 0)) := by
  have hrank : l.stage.rank = 7 := by rw [hstage, Stage.rank]
  have hready : Component.readyQueues ∉ l.freed := by
    rw [h.freed, hrank]
    decide
  have hpushed : Inv { l.pushed ((l.current.reduceOption ++
      (l.busy.map List.reduceOption).flatten).map Queued.setCancelled) with
        current := [], busy := [] } := by
    refine h.repush _ l.dns l.signals [] [] l.next (by omega) (by omega) ?_ h.dns h.signals
      (fun _ => ⟨rfl, rfl⟩)
    rw [numbersOf_setCancelled, numbersOf_append]
    show numbersOfTasks l.current l.busy + (0 + 0) + _ + _ + _ = _
    rw [add_zero, add_zero]
  rw [ioDeinit_eq hready]
  refine hpushed.gaveUp _ _ false 7 hrank rfl (by decide) (fun c => by cases c <;> decide) rfl hcalling
    (fun _ => ⟨rfl, rfl⟩) ?_ ?_ (h.popped hrank.ge)
  all_goals exact fun hfar => absurd hfar (by decide)

theorem Inv.freeQueues (h : Inv l) (hstage : l.stage = .freeQueues) (hcalling : l.calling = false) :
    Inv (((l.free .readyQueues).free .hookLists).goto .clearHooks) := by
  have hrank : l.stage.rank = 11 := by rw [hstage, Stage.rank]
  have hgone := h.gaveUp .clearHooks [.readyQueues, .hookLists] l.ring 11 hrank
    rfl (by decide) (fun c => by cases c <;> decide) (h.ring.trans (by rw [hrank]; decide))
    hcalling (fun _ => h.tasks (by omega)) (fun _ => h.third (by omega)) (fun _ => h.fourth (by omega))
    (h.popped (by omega))
  have hfree : (l.free .readyQueues).free .hookLists =
      { l with freed := l.freed ++ [.readyQueues, .hookLists] } := by
    simp [free]
  rw [hfree]
  exact hgone

/-- Operations are cancelled, and the loop goes on to the next stage. -/
theorem Inv.cancelling (h : Inv l) (n : ℕ) {s : Stage} (r : ℕ) (hr : l.stage.rank = r)
    (hq : s.rank = r + 1) (hnear : r + 1 < 4) (hfar : 1 ≤ r) (hcalling : l.calling = false) :
    Inv ((Teardown.cancelIo^[n] l).goto s) := by
  induction n generalizing l with
  | zero =>
    refine h.goto r (r + 1) hr hq (Nat.le_succ r) hcalling (fun c hc => ?_) (fun _ => h.dns (by omega))
      ?_ ?_ ?_ ?_ ?_
    · have : 7 ≤ c.freedAt := by cases c <;> decide
      omega
    all_goals exact fun hlate => absurd hlate (by omega)
  | succ n ih =>
    obtain ⟨current, busy, faults, heq⟩ := l.cancelIo_frame
    rw [Function.iterate_succ_apply]
    exact ih h.cancelIo (by rw [heq]; exact hr) (by rw [heq]; exact hcalling)

theorem Inv.advance (h : Inv l) (hcalling : l.calling = false) (hs : l.advance = some l') : Inv l' := by
  unfold Teardown.advance at hs
  split at hs
  next hstage =>
    obtain rfl := Option.some.inj hs
    exact h.dnsDeinit hstage hcalling
  next hstage =>
    obtain rfl := Option.some.inj hs
    have hrank : l.stage.rank = 1 := congrArg Stage.rank hstage
    have hgone : Inv ((if l.inotifyTask = true then l.cancelIo else l).goto .childWatcherDeinit) := by
      split
      · exact h.cancelling 1 1 hrank rfl (by decide) (by decide) hcalling
      · exact h.cancelling 0 1 hrank rfl (by decide) (by decide) hcalling
    have hdone : Inv { (if l.inotifyTask = true then l.cancelIo else l).goto .childWatcherDeinit with
        inotifyTask := false } := { hgone with }
    exact hdone.run 2 rfl (by decide) (fun hlate => absurd hlate (by decide))
  next hstage =>
    obtain rfl := Option.some.inj hs
    have hrank : l.stage.rank = 2 := congrArg Stage.rank hstage
    have hgone : Inv ((Teardown.cancelIo^[l.childTasks] l).goto .unixSignalsDeinit) :=
      h.cancelling l.childTasks 2 hrank rfl (by decide) (by decide) hcalling
    have hdone : Inv { (Teardown.cancelIo^[l.childTasks] l).goto .unixSignalsDeinit with
        childTasks := 0 } := { hgone with }
    exact hdone.run 3 rfl (by decide) (fun hlate => absurd hlate (by decide))
  next hstage =>
    obtain rfl := Option.some.inj hs
    dsimp only
    split
    · obtain ⟨current, busy, faults, heq⟩ := l.cancelIo_frame
      have hcancelled := h.cancelIo
      rw [heq] at hcancelled ⊢
      exact hcancelled.unixSignalsDeinit hstage hcalling
    · exact h.unixSignalsDeinit hstage hcalling
  next late queue hstage =>
    split at hs
    · rename_i hq
      obtain rfl := Option.some.inj hs
      exact h.drained hstage hcalling hq
    · exact nomatch hs
  next hstage =>
    obtain rfl := Option.some.inj hs
    exact h.freeWatchers hstage hcalling
  next hstage =>
    obtain rfl := Option.some.inj hs
    exact h.ioDeinit hstage hcalling
  next hstage =>
    obtain rfl := Option.some.inj hs
    have hrank : l.stage.rank = 10 := congrArg Stage.rank hstage
    exact h.goto 10 11 hrank rfl (by decide) hcalling (fun c => by cases c <;> decide)
      (fun _ => h.dns (by omega)) (fun _ => h.signals (by omega)) (fun _ => .inr (by decide))
      (fun _ => .inr (by decide)) (fun _ => h.third (by omega)) (fun _ => h.fourth (by omega))
  next hstage =>
    obtain rfl := Option.some.inj hs
    exact h.freeQueues hstage hcalling
  next hstage =>
    have hrank : l.stage.rank = 12 := congrArg Stage.rank hstage
    split at hs
    · obtain rfl := Option.some.inj hs
      exact h.goto 12 13 hrank rfl (by decide) hcalling (fun c => by cases c <;> decide)
        (fun _ => h.dns (by omega)) (fun _ => h.signals (by omega)) (fun _ => .inr (by decide))
        (fun _ => .inr (by decide)) (fun _ => h.third (by omega)) (fun _ => h.fourth (by omega))
    · obtain rfl := Option.some.inj hs
      exact { h with }
    · obtain rfl := Option.some.inj hs
      rename_i i hooks hhooks
      have hdone : Inv { l with
          hooks := hooks, hookHandles := Function.update l.hookHandles i true } := { h with }
      exact hdone.run 12 hrank (by decide) (fun hlate => absurd hlate (by decide))
  next => exact nomatch hs

/-! ### The steps -/

theorem Inv.ringClosed (h : Inv l) (hfreed : Component.fixedFileTable ∈ l.freed) : l.ring = false := by
  rw [h.ring, decide_eq_false_iff_not, not_lt]
  exact (h.freed _).1 hfreed

theorem Inv.cancelHook (h : Inv l) (i : ℕ) :
    l.cancelHook i = { l with hookHandles := Function.update l.hookHandles i true } := by
  have hclosed : (l.hookHandles i || !l.initialized) = true := by
    rw [h.initialized]
    exact Bool.or_true _
  exact if_pos hclosed

/-- With the loop closed nothing of it is used. -/
theorem Inv.streamClear (h : Inv l) (s : Stream) : l.streamClear s = l := by
  unfold Teardown.streamClear Teardown.guarded
  rw [h.initialized]
  simp

/-- An object is dropped, and its destructor runs. -/
theorem Inv.drop (h : Inv l) (hdrop : l.droppable = true) : Inv { l with calling := true } := by
  rcases Bool.or_eq_true_iff.1 hdrop with hrunning | hclosed
  · exact { h with frames := nofun, calling := fun _ => h.calling hrunning }
  · have hrank : l.stage.rank = 13 := by rw [of_decide_eq_true hclosed, Stage.rank]
    exact h.run 13 hrank (by decide) (fun hlate => absurd hlate (by decide))

theorem Inv.transportCall (h : Inv l) (hcalling : l.calling = true) (i : ℕ) (s : Stream)
    (c : ClosedLoop.TransportCall) : Inv (l.transportCall i s c) := by
  have hupdate : Inv (l.update i s (ClosedLoop.call l.ring s c).1) := h.update i _ _
  have hrunning : (l.update i s (ClosedLoop.call l.ring s c).1).calling = true := by
    obtain ⟨current, busy, next, faults, heq⟩ := l.update_frame i s (ClosedLoop.call l.ring s c).1
    rw [heq]
    exact hcalling
  unfold Teardown.transportCall
  dsimp only
  split
  · exact { hupdate with frames := fun hidle => absurd (hrunning.symm.trans hidle) nofun }
  · exact hupdate

theorem transportCall_faults_eq (l : Teardown) (i : ℕ) (s : Stream) (c : ClosedLoop.TransportCall) :
    (l.transportCall i s c).faults = (l.update i s (ClosedLoop.call l.ring s c).1).faults := by
  unfold Teardown.transportCall
  dsimp only
  split <;> rfl

theorem Inv.transportCall_faults (h : Inv l) {i : ℕ} {s : Stream} {c : ClosedLoop.TransportCall}
    (hok : l.Stale s → ¬ClosedLoop.TearsDown s c) : (l.transportCall i s c).faults = l.faults := by
  rw [transportCall_faults_eq]
  refine h.update_faults i (ClosedLoop.fdStep_call s c) ?_
  rintro ⟨hstale, hnone⟩
  rw [h.ringClosed hstale.2.1] at hnone
  exact ((ClosedLoop.call_fd s c).1 hnone).elim hstale.2.2.1 (hok hstale)

/-- What one step can do. -/
inductive Step (l : Teardown) : Event → Teardown → Prop
  | advance (l' : Teardown) (hidle : l.calling = false) (hs : l.advance = some l') : Step l .advance l'
  | invoke (late : Bool) (queue : Fin 2) (l' : Teardown) (hstage : l.stage = .drain late queue)
      (hs : l.release queue = some l') : Step l .invoke l'
  | returned (hframes : l.frames = []) : Step l .returned { l with calling := false }
  | transport (i : ℕ) (c : ClosedLoop.TransportCall) (s : Stream) (hrunning : l.calling = true)
      (hi : l.transports i = some s) : Step l (.transport i c) (l.transportCall i s c)
  | transportGone (writable : Bool) (task : TaskId) (i : ℕ) (frames : List ℕ)
      (hframes : l.frames = i :: frames) :
      Step l (.getBufferReturned writable task) { l with frames := frames }
  | getBufferReturned (writable : Bool) (task : TaskId) (i : ℕ) (frames : List ℕ) (s : Stream)
      (hframes : l.frames = i :: frames) :
      Step l (.getBufferReturned writable task)
        ({ l with frames := frames }.update i s (ClosedLoop.getBufferReturned l.ring s writable task))
  | startIo : Step l .startIo (l.queueTask (some .other))
  | cancelIo : Step l .cancelIo l.cancelIo
  | dispatch (hrunning : l.calling = true) :
      Step l .dispatch { l.dispatch (l.newCallback .other) with next := l.next + 1 }
  | guarded (c : Component) : Step l (.guarded c) (l.guarded c)
  | cancelHook (h : ℕ) : Step l (.cancelHook h) (l.cancelHook h)
  | destroyTransport (i : ℕ) (s : Stream) (hdrop : l.droppable = true) :
      Step l (.destroyTransport i)
        { l.streamClear s with transports := Function.update l.transports i none, calling := true }
  | destroyHandle (hdrop : l.droppable = true) : Step l .destroyHandle { l with calling := true }

/-- **Inversion of `step`.** -/
theorem step_cases {e : Event} (hs : l.step e = some l') : Step l e l' := by
  cases e with
  | advance =>
    obtain ⟨hidle, hs⟩ := Option.ite_none_left_eq_some.1 hs
    exact .advance l' (Bool.eq_false_iff.2 hidle) hs
  | invoke =>
    simp only [Teardown.step] at hs
    split at hs
    · rename_i late queue hstage
      obtain ⟨-, hs⟩ := Option.ite_none_left_eq_some.1 hs
      exact .invoke late queue l' hstage hs
    · exact nomatch hs
  | returned =>
    obtain ⟨hrunning, hs⟩ := Option.ite_none_right_eq_some.1 hs
    obtain rfl := Option.some.inj hs
    exact .returned hrunning.2
  | transport i c =>
    obtain ⟨hrunning, hs⟩ := Option.ite_none_right_eq_some.1 hs
    obtain ⟨s, hi, rfl⟩ := Option.map_eq_some_iff.1 hs
    exact .transport i c s hrunning.1 hi
  | getBufferReturned writable task =>
    simp only [Teardown.step] at hs
    split at hs
    · exact nomatch hs
    · rename_i i frames hframes
      obtain ⟨-, hs⟩ := Option.ite_none_left_eq_some.1 hs
      split at hs
      · obtain rfl := Option.some.inj hs
        exact .transportGone writable task i frames hframes
      · rename_i s hi
        obtain rfl := Option.some.inj hs
        exact .getBufferReturned writable task i frames s hframes
  | startIo =>
    obtain ⟨-, hs⟩ := Option.ite_none_right_eq_some.1 hs
    obtain rfl := Option.some.inj hs
    exact .startIo
  | cancelIo =>
    obtain ⟨-, hs⟩ := Option.ite_none_right_eq_some.1 hs
    obtain rfl := Option.some.inj hs
    exact .cancelIo
  | dispatch =>
    obtain ⟨hrunning, hs⟩ := Option.ite_none_right_eq_some.1 hs
    obtain rfl := Option.some.inj hs
    exact .dispatch hrunning
  | guarded c =>
    obtain ⟨-, hs⟩ := Option.ite_none_right_eq_some.1 hs
    obtain rfl := Option.some.inj hs
    exact .guarded c
  | cancelHook i =>
    obtain ⟨-, hs⟩ := Option.ite_none_right_eq_some.1 hs
    obtain rfl := Option.some.inj hs
    exact .cancelHook i
  | destroyTransport i =>
    obtain ⟨hdrop, hs⟩ := Option.ite_none_right_eq_some.1 hs
    obtain ⟨s, hi, rfl⟩ := Option.map_eq_some_iff.1 hs
    exact .destroyTransport i s hdrop.1
  | destroyHandle =>
    obtain ⟨hdrop, hs⟩ := Option.ite_none_right_eq_some.1 hs
    obtain rfl := Option.some.inj hs
    exact .destroyHandle hdrop

/-- A `get_buffer` only returns to a callback that runs. -/
theorem Inv.popFrame (h : Inv l) {i : ℕ} {frames : List ℕ} (hframes : l.frames = i :: frames) :
    Inv { l with frames := frames } :=
  { h with frames := fun hidle => nomatch (h.frames hidle).symm.trans hframes }

/-- A callback is dispatched while the ready queues are there. -/
theorem Inv.dispatch (h : Inv l) (hrunning : l.calling = true) (hready : Component.readyQueues ∉ l.freed) :
    Inv { l.dispatch (l.newCallback .other) with next := l.next + 1 } := by
  rw [dispatch_eq hready]
  have hrank := h.calling hrunning
  have hopen : l.stage.rank < 12 := by
    rw [h.freed] at hready
    exact not_le.1 hready
  refine h.repush _ l.dns l.signals l.current l.busy (l.next + 1) (by omega) hrank.2.2.2.2 ?_ h.dns
    h.signals h.tasks
  rw [Multiset.range_succ, ← Multiset.singleton_add]
  have hnew : numbersOf [l.newCallback .other] = {l.next} := rfl
  rw [hnew]
  abel

theorem Inv.step {e : Event} (h : Inv l) (hok : e = .dispatch → Component.readyQueues ∉ l.freed)
    (hs : l.step e = some l') : Inv l' := by
  cases step_cases hs with
  | advance l' hidle hs => exact h.advance hidle hs
  | invoke late queue l' hstage hs =>
    obtain ⟨c, cs, hq, -, rfl⟩ := h.release_cases hstage hs
    exact (h.take hstage hq).call _
  | returned hframes => exact { h with frames := fun _ => hframes, calling := nofun }
  | transport i c s hrunning hi => exact h.transportCall hrunning i s c
  | transportGone writable task i frames hframes => exact h.popFrame hframes
  | getBufferReturned writable task i frames s hframes => exact (h.popFrame hframes).update i _ _
  | startIo => exact h.queueTask _
  | cancelIo => exact h.cancelIo
  | dispatch hrunning => exact h.dispatch hrunning (hok rfl)
  | guarded c =>
    rw [Teardown.guarded, h.initialized]
    exact h
  | cancelHook i =>
    rw [h.cancelHook]
    exact { h with }
  | destroyTransport i s hdrop =>
    rw [h.streamClear]
    have hgone : Inv { l with transports := Function.update l.transports i none } := { h with }
    exact hgone.drop hdrop
  | destroyHandle hdrop => exact h.drop hdrop

theorem Inv.ready (h : Inv l) (hrank : l.stage.rank < 12) : Component.readyQueues ∉ l.freed :=
  fun hmem => absurd ((h.freed _).1 hmem) (Nat.not_le.2 hrank)

theorem Inv.cancelIo_eq (h : Inv l) :
    ∃ current busy, l.cancelIo = { l with current := current, busy := busy } := by
  obtain ⟨current, busy, faults, heq⟩ := l.cancelIo_frame
  have hfaults : l.faults ++ faults = l.faults :=
    (congrArg Teardown.faults heq).symm.trans h.cancelIo_faults
  exact ⟨current, busy, by rw [heq, hfaults]⟩

theorem Inv.iterate_cancelIo_eq (h : Inv l) (n : ℕ) :
    ∃ current busy, Teardown.cancelIo^[n] l = { l with current := current, busy := busy } := by
  induction n generalizing l with
  | zero => exact ⟨l.current, l.busy, rfl⟩
  | succ n ih =>
    obtain ⟨current, busy, heq⟩ := h.cancelIo_eq
    obtain ⟨current', busy', hrest⟩ := ih h.cancelIo
    refine ⟨current', busy', ?_⟩
    rw [Function.iterate_succ_apply, hrest, heq]

/-- What the code up to the next drain leaves alone. It is done with a stage, or with a hook. -/
structure Advances (l l' : Teardown) : Prop where
  faults : l'.faults = l.faults
  next : l'.next = l.next
  invoked : l'.invoked = l.invoked
  frames : l'.frames = l.frames
  nearer : l'.hooks.length + (13 - l'.stage.rank) < l.hooks.length + (13 - l.stage.rank)

theorem Advances.of_stage (r q : ℕ) (hr : l.stage.rank = r) (hq : l'.stage.rank = q) (hlt : r < q)
    (hle : q ≤ 13) (hfaults : l'.faults = l.faults) (hnext : l'.next = l.next)
    (hinvoked : l'.invoked = l.invoked) (hframes : l'.frames = l.frames) (hhooks : l'.hooks = l.hooks) :
    Advances l l' where
  faults := hfaults
  next := hnext
  invoked := hinvoked
  frames := hframes
  nearer := by
    rw [hr, hq, hhooks]
    omega

theorem Advances.of_hook {hook : Hook} (hhooks : l.hooks = hook :: l'.hooks) (hstage : l'.stage = l.stage)
    (hfaults : l'.faults = l.faults) (hnext : l'.next = l.next) (hinvoked : l'.invoked = l.invoked)
    (hframes : l'.frames = l.frames) : Advances l l' where
  faults := hfaults
  next := hnext
  invoked := hinvoked
  frames := hframes
  nearer := by
    rw [hhooks, hstage, List.length_cons]
    exact Nat.add_lt_add_right (Nat.lt_succ_self _) _

/-- The code between two drains uses only what is there. -/
theorem Inv.advances (h : Inv l) (hs : l.advance = some l') : Advances l l' := by
  unfold Teardown.advance at hs
  split at hs
  next hstage =>
    obtain rfl := Option.some.inj hs
    have hrank : l.stage.rank = 0 := congrArg Stage.rank hstage
    rw [dispatchCancelled_eq (h.ready (by omega))]
    exact .of_stage 0 1 hrank rfl (by decide) (by decide) rfl rfl rfl rfl rfl
  next hstage =>
    obtain rfl := Option.some.inj hs
    have hrank : l.stage.rank = 1 := congrArg Stage.rank hstage
    split
    · obtain ⟨current, busy, heq⟩ := h.cancelIo_eq
      rw [heq]
      exact .of_stage 1 2 hrank rfl (by decide) (by decide) rfl rfl rfl rfl rfl
    · exact .of_stage 1 2 hrank rfl (by decide) (by decide) rfl rfl rfl rfl rfl
  next hstage =>
    obtain rfl := Option.some.inj hs
    have hrank : l.stage.rank = 2 := congrArg Stage.rank hstage
    obtain ⟨current, busy, heq⟩ := h.iterate_cancelIo_eq l.childTasks
    rw [heq]
    exact .of_stage 2 3 hrank rfl (by decide) (by decide) rfl rfl rfl rfl rfl
  next hstage =>
    obtain rfl := Option.some.inj hs
    have hrank : l.stage.rank = 3 := congrArg Stage.rank hstage
    have hready : Component.readyQueues ∉ l.freed := h.ready (by omega)
    dsimp only
    split
    · obtain ⟨current, busy, heq⟩ := h.cancelIo_eq
      have hready' : Component.readyQueues ∉ l.cancelIo.freed := by
        rw [heq]
        exact hready
      rw [dispatchCancelled_eq hready', heq]
      exact .of_stage 3 4 hrank rfl (by decide) (by decide) rfl rfl rfl rfl rfl
    · rw [dispatchCancelled_eq hready]
      exact .of_stage 3 4 hrank rfl (by decide) (by decide) rfl rfl rfl rfl rfl
  next late queue hstage =>
    split at hs
    · obtain rfl := Option.some.inj hs
      have hrank : l.stage.rank = (Stage.drain late queue).rank := congrArg Stage.rank hstage
      obtain rfl | rfl : queue = 0 ∨ queue = 1 := by omega
      · cases late with
        | false => exact .of_stage 4 5 hrank rfl (by decide) (by decide) rfl rfl rfl rfl rfl
        | true => exact .of_stage 8 9 hrank rfl (by decide) (by decide) rfl rfl rfl rfl rfl
      · cases late with
        | false => exact .of_stage 5 6 hrank rfl (by decide) (by decide) rfl rfl rfl rfl rfl
        | true => exact .of_stage 9 10 hrank rfl (by decide) (by decide) rfl rfl rfl rfl rfl
    · exact nomatch hs
  next hstage =>
    obtain rfl := Option.some.inj hs
    have hrank : l.stage.rank = 6 := congrArg Stage.rank hstage
    rw [h.usable (c := .watcherTrees) (by rw [hrank]; decide)]
    exact .of_stage 6 7 hrank rfl (by decide) (by decide) rfl rfl rfl rfl rfl
  next hstage =>
    obtain rfl := Option.some.inj hs
    have hrank : l.stage.rank = 7 := congrArg Stage.rank hstage
    rw [ioDeinit_eq (h.ready (by omega))]
    exact .of_stage 7 8 hrank rfl (by decide) (by decide) rfl rfl rfl rfl rfl
  next hstage =>
    obtain rfl := Option.some.inj hs
    have hrank : l.stage.rank = 10 := congrArg Stage.rank hstage
    exact .of_stage 10 11 hrank rfl (by decide) (by decide) rfl rfl rfl rfl rfl
  next hstage =>
    obtain rfl := Option.some.inj hs
    have hrank : l.stage.rank = 11 := congrArg Stage.rank hstage
    exact .of_stage 11 12 hrank rfl (by decide) (by decide) rfl rfl rfl rfl rfl
  next hstage =>
    have hrank : l.stage.rank = 12 := congrArg Stage.rank hstage
    split at hs
    · obtain rfl := Option.some.inj hs
      exact .of_stage 12 13 hrank rfl (by decide) (by decide) rfl rfl rfl rfl rfl
    · rename_i i hooks hhooks
      obtain rfl := Option.some.inj hs
      exact .of_hook hhooks rfl rfl rfl rfl rfl
    · rename_i i hooks hhooks
      obtain rfl := Option.some.inj hs
      exact .of_hook hhooks rfl rfl rfl rfl rfl
  next => exact nomatch hs

/-- A step that meets the condition uses only what is there. -/
theorem Inv.step_faults {e : Event} (h : Inv l) (hok : Keeps l e) (hs : l.step e = some l') :
    l'.faults = l.faults := by
  have hok := hok (by rw [hs]; rfl)
  cases step_cases hs with
  | advance l' hidle hs => exact (h.advances hs).faults
  | invoke late queue l' hstage hs =>
    obtain ⟨c, cs, hq, hcallback, rfl⟩ := h.release_cases hstage hs
    refine (h.take hstage hq).call_faults _ fun i s hread => hok i s ?_
    rw [hcallback, hread]
  | returned hframes => rfl
  | transport i c s hrunning hi => exact h.transportCall_faults (hok s hi)
  | transportGone writable task i frames hframes => rfl
  | getBufferReturned writable task i frames s hframes =>
    refine (h.popFrame hframes).update_faults i (ClosedLoop.fdStep_getBufferReturned s writable task) ?_
    rw [ClosedLoop.getBufferReturned_fd]
    exact fun hboth => hboth.1.2.2.1 hboth.2
  | startIo => exact h.queueTask_faults _
  | cancelIo => exact h.cancelIo_faults
  | dispatch hrunning =>
    rw [dispatch_eq hok]
    rfl
  | guarded c =>
    rw [Teardown.guarded, h.initialized]
    rfl
  | cancelHook i => rw [h.cancelHook]
  | destroyTransport i s hdrop => rw [h.streamClear]
  | destroyHandle hdrop => rfl

theorem faults_of_call {i : ℕ} {s : Stream} (hs : l.transports i = some s) (hstale : l.Stale s)
    (hsettles : ClosedLoop.ReadSettles s) : (l.call (.read i)).faults ≠ [] := by
  rw [Teardown.call, hs]
  exact faults_of_update i (ClosedLoop.fdStep_readCancelled s) hstale
    ((ClosedLoop.readCancelled_fd s).2 (.inr hsettles))

theorem faults_of_transportCall (h : Inv l) {i : ℕ} {s : Stream} {c : ClosedLoop.TransportCall}
    (hstale : l.Stale s) (htears : ClosedLoop.TearsDown s c) : (l.transportCall i s c).faults ≠ [] := by
  rw [transportCall_faults_eq]
  refine faults_of_update i (ClosedLoop.fdStep_call s c) hstale ?_
  rw [h.ringClosed hstale.2.1]
  exact (ClosedLoop.call_fd s c).2 (.inr htears)

/-- A step that does not meet the condition uses what was given up. -/
theorem Inv.keeps {e : Event} (h : Inv l) (hs : l.step e = some l') (hintact : l'.faults = []) :
    Keeps l e := by
  intro _
  cases step_cases hs with
  | invoke late queue l' hstage hs =>
    intro i s hnext hi hstale hsettles
    obtain ⟨c, cs, hq, hcallback, rfl⟩ := h.release_cases hstage hs
    rw [Option.some.inj (hcallback.symm.trans hnext)] at hintact
    refine absurd hintact (faults_of_call ?_ ?_ hsettles)
    · exact hi
    · exact hstale
  | transport i c s' hrunning hi' =>
    intro s hi hstale htears
    obtain rfl := Option.some.inj (hi.symm.trans hi')
    exact faults_of_transportCall h hstale htears hintact
  | dispatch hrunning =>
    intro hfreed
    have hfault : (l.use .readyQueues).faults = [] := hintact
    rw [use, if_pos hfreed] at hfault
    exact absurd hfault (by simp)
  | _ => trivial

/-! ### The end of the teardown -/

/-- What is left to do: callbacks, hooks and stages, and the return of what they call. -/
def remaining (l : Teardown) : ℕ :=
  2 * (l.next - l.invoked.length + l.hooks.length + (13 - l.stage.rank)) + l.frames.length +
    l.calling.toNat

theorem Inv.invoked_le (h : Inv l) : l.invoked.length ≤ l.next := by
  have hcard := congrArg Multiset.card h.once
  rw [numbers, Multiset.coe_card, List.length_map, List.length_append, Multiset.card_range] at hcard
  omega

theorem Advances.remaining_lt (h : Advances l l') (hidle : l.calling = false) :
    l'.remaining < l.remaining := by
  have hone : l'.calling.toNat ≤ 1 := Bool.toNat_le _
  have hnearer := h.nearer
  rw [remaining, remaining, h.next, h.invoked, h.frames, hidle, Bool.toNat_false]
  omega

/-- Tearing down an fd queues nothing. -/
theorem update_next (l : Teardown) (i : ℕ) {s t : Stream} (hsettled : ClosedLoop.Settled s t) :
    (l.update i s t).next = l.next := by
  obtain ⟨es, htrace, hes⟩ := hsettled
  unfold Teardown.update
  rw [htrace, List.drop_left]
  have heffects : ∀ m : Teardown, (es.foldl (Teardown.effect i) m).next = m.next := by
    clear htrace
    induction es with
    | nil => exact fun m => rfl
    | cons e es ih =>
      intro m
      rw [List.foldl_cons, ih fun e' he' => hes e' (List.mem_cons_of_mem _ he')]
      have he := hes e List.mem_cons_self
      cases e with
      | unregisterFixedFile index =>
        obtain ⟨faults, heq⟩ := m.unregisterFixedFile_frame
        show m.unregisterFixedFile.next = m.next
        rw [heq]
      | closeFd fd => rfl
      | detachServer => rfl
      | connectionLost exc => rfl
      | _ => exact he.elim
  exact heffects _

/-- What a cancelled callback leaves alone. -/
theorem call_frame (l : Teardown) (callback : Callback) :
    (l.call callback).next = l.next ∧ (l.call callback).invoked = l.invoked ∧
      (l.call callback).hooks = l.hooks ∧ (l.call callback).stage = l.stage ∧
        (l.call callback).frames = l.frames ∧ (l.call callback).calling = l.calling := by
  have hupdate : ∀ i s t, ClosedLoop.Settled s t → (l.update i s t).next = l.next ∧
      (l.update i s t).invoked = l.invoked ∧ (l.update i s t).hooks = l.hooks ∧
        (l.update i s t).stage = l.stage ∧ (l.update i s t).frames = l.frames ∧
          (l.update i s t).calling = l.calling := by
    intro i s t hsettled
    refine ⟨l.update_next i hsettled, ?_⟩
    obtain ⟨current, busy, next, faults, heq⟩ := l.update_frame i s t
    rw [heq]
    exact ⟨rfl, rfl, rfl, rfl, rfl⟩
  have htree : ∀ i, ∃ faults, l.useTree i = { l with faults := l.faults ++ faults } := by
    intro i
    unfold Teardown.useTree
    split
    · exact ⟨[], by rw [List.append_nil]⟩
    split
    · exact l.use_cases .watcherTrees
    · exact ⟨[], by rw [List.append_nil]⟩
  cases callback with
  | read i =>
    unfold Teardown.call
    dsimp only
    split
    · exact ⟨rfl, rfl, rfl, rfl, rfl, rfl⟩
    · exact hupdate i _ _ (ClosedLoop.settled_readCancelled _)
  | write i =>
    unfold Teardown.call
    dsimp only
    split
    · exact ⟨rfl, rfl, rfl, rfl, rfl, rfl⟩
    · exact hupdate i _ _ (.same rfl)
  | poll i =>
    obtain ⟨faults, heq⟩ := htree i
    unfold Teardown.call
    dsimp only
    rw [heq]
    exact ⟨rfl, rfl, rfl, rfl, rfl, rfl⟩
  | wrapper i =>
    obtain ⟨faults, heq⟩ := htree i
    unfold Teardown.call
    dsimp only
    rw [heq]
    exact ⟨rfl, rfl, rfl, rfl, rfl, rfl⟩
  | other => exact ⟨rfl, rfl, rfl, rfl, rfl, rfl⟩

theorem advance_isSome (hopen : l.stage ≠ .closed)
    (hready : ∀ late queue, l.stage = .drain late queue → l.queues queue = []) :
    ∃ l', l.advance = some l' := by
  unfold Teardown.advance
  split
  case h_11 hstage => exact absurd hstage hopen
  case h_5 late queue hstage => exact ⟨_, if_pos (hready late queue hstage)⟩
  case h_10 hstage => split <;> exact ⟨_, rfl⟩
  all_goals exact ⟨_, rfl⟩

/-- `release_claimed` is never stuck, and each of its steps brings the end nearer. -/
theorem Inv.progress (h : Inv l) (hopen : l.stage ≠ .closed) :
    ∃ e l', e.Native ∧ l.step e = some l' ∧ l'.remaining < l.remaining := by
  by_cases hcalling : l.calling = true
  · cases hframes : l.frames with
    | nil =>
      refine ⟨.returned, { l with calling := false }, trivial, if_pos ⟨hcalling, hframes⟩, ?_⟩
      rw [remaining, remaining]
      dsimp only
      rw [hcalling, Bool.toNat_false, Bool.toNat_true]
      exact Nat.lt_succ_self _
    | cons i frames =>
      have hshort : l.frames.length = frames.length + 1 := by rw [hframes, List.length_cons]
      cases hi : l.transports i with
      | none =>
        refine ⟨.getBufferReturned false 1, { l with frames := frames }, trivial, ?_, ?_⟩
        · simp only [Teardown.step, hframes]
          rw [if_neg (by decide), hi]
        · rw [remaining, remaining, hshort]
          dsimp only
          omega
      | some s =>
        have hupdate : { l with frames := frames }.update i s
            (ClosedLoop.getBufferReturned l.ring s false 1) =
              { l with
                frames := frames
                transports := Function.update l.transports i (some { s with isReading := false }) } := by
          unfold Teardown.update ClosedLoop.getBufferReturned
          simp
        refine ⟨.getBufferReturned false 1,
          { l with
            frames := frames
            transports := Function.update l.transports i (some { s with isReading := false }) },
          trivial, ?_, ?_⟩
        · simp only [Teardown.step, hframes]
          rw [if_neg (by decide), hi]
          exact congrArg some hupdate
        · rw [remaining, remaining, hshort]
          dsimp only
          omega
  · have hidle : l.calling = false := Bool.eq_false_iff.2 hcalling
    by_cases hready : ∀ late queue, l.stage = .drain late queue → l.queues queue = []
    · obtain ⟨l', hs⟩ := advance_isSome hopen hready
      refine ⟨.advance, l', trivial, ?_, (h.advances hs).remaining_lt hidle⟩
      rw [Teardown.step, if_neg hcalling, hs]
    · simp only [not_forall] at hready
      obtain ⟨late, queue, hstage, hq⟩ := hready
      obtain ⟨c, cs, hq⟩ := List.exists_cons_of_ne_nil hq
      obtain ⟨l', hrelease⟩ : ∃ l', l.release queue = some l' := by
        rw [Teardown.release, hq]
        exact ⟨_, rfl⟩
      have hs : l.step .invoke = some l' := by
        simp only [Teardown.step, hstage]
        rw [if_neg hcalling, hrelease]
      refine ⟨.invoke, l', trivial, hs, ?_⟩
      have hle := (h.step (e := .invoke) nofun hs).invoked_le
      obtain ⟨c, cs, -, -, rfl⟩ := h.release_cases hstage hrelease
      generalize hm : ({ l with
        queues := Function.update l.queues queue cs, invoked := l.invoked ++ [c.setCancelled]
        calling := true } : Teardown) = m at hle ⊢
      obtain ⟨hnext, hinvoked, hhooks, hstage', hframes, hcalls⟩ := m.call_frame c.callback
      rw [hinvoked, hnext] at hle
      rw [remaining, remaining, hnext, hinvoked, hhooks, hstage', hframes, hcalls, hidle, ← hm]
      rw [← hm] at hle
      dsimp only at hle ⊢
      rw [List.length_append, List.length_singleton] at hle ⊢
      rw [Bool.toNat_true, Bool.toNat_false]
      omega

/-- From any state on the way the teardown reaches its end by itself. -/
theorem Inv.finishes (h : Inv l) :
    ∃ es l', (∀ e ∈ es, Event.Native e) ∧ Runs.exec Teardown.step l es = some l' ∧ l'.stage = .closed := by
  induction hn : l.remaining using Nat.strong_induction_on generalizing l with
  | _ n ih =>
    by_cases hclosed : l.stage = .closed
    · exact ⟨[], l, fun e he => absurd he List.not_mem_nil, rfl, hclosed⟩
    obtain ⟨e, m, hnative, hs, hless⟩ := h.progress hclosed
    have hm : Inv m := by
      refine h.step ?_ hs
      rintro rfl
      exact hnative.elim
    obtain ⟨es, l', hrest, hexec, hend⟩ := ih m.remaining (hn ▸ hless) hm rfl
    refine ⟨e :: es, l', ?_, ?_, hend⟩
    · intro e' he'
      rcases List.mem_cons.1 he' with rfl | he'
      · exact hnative
      · exact hrest e' he'
    · rw [Runs.exec_cons, hs]
      exact hexec

theorem Inv.settled (h : Inv l) (hrank : 11 ≤ l.stage.rank) : l.waiting = [] := by
  obtain ⟨hcurrent, hbusy⟩ := h.tasks (by omega)
  rw [waiting, h.third (by omega), h.fourth (by omega), hcurrent, hbusy, h.dns (by omega),
    h.signals (by omega)]
  rfl

theorem Inv.sound (h : Inv l) (hintact : l.faults = []) : Sound l where
  intact := hintact
  cancelled := h.cancelled
  once := by
    have honce := h.once
    rw [numbers, ← Multiset.coe_range] at honce
    exact Multiset.coe_eq_coe.1 honce
  settled := h.settled
  finishes := h.finishes

theorem Claimed.inv (h : Claimed l) : Inv l := by
  have hrank : l.stage.rank = 0 := congrArg Stage.rank h.stage
  have hlate : ∀ {r : ℕ} {P : Prop}, 0 < r → r ≤ l.stage.rank → P :=
    fun hpos hle => absurd (hrank ▸ hle) (Nat.not_le.2 hpos)
  exact
    { initialized := h.initialized
      ring := by rw [h.ring, hrank]; rfl
      freed := fun c => by
        rw [h.freed, hrank]
        cases c <;> simp [Component.freedAt]
      cancelled := fun c hc => by
        rw [h.invoked] at hc
        exact absurd hc List.not_mem_nil
      once := by
        rw [numbers, h.invoked, List.nil_append, ← Multiset.coe_range]
        exact Multiset.coe_eq_coe.2 h.numbered
      frames := fun _ => h.frames
      calling := fun hrunning => nomatch h.calling.symm.trans hrunning
      dns := hlate (by decide)
      signals := hlate (by decide)
      first := hlate (by decide)
      second := hlate (by decide)
      tasks := hlate (by decide)
      third := hlate (by decide)
      fourth := hlate (by decide)
      placed := fun _ => h.placed
      popped := hlate (by decide) }

/-- **Closing the loop.** Each callback is called once and with the `cancelled` flag set, and nothing is
used after it was given up, exactly in the runs in which no slot is given back to the fixed-file table
after `io.deinit` and nothing is dispatched after the last drain. -/
theorem release_sound_iff (h : Claimed l) (es : List Event) :
    Runs.Always step Sound l es ↔ Runs.Along step Keeps l es := by
  refine Runs.always_iff_along_of_break (I := fun l => Inv l ∧ l.faults = []) ⟨h.inv, h.faults⟩
    ?_ ?_ ?_ ?_
  · exact fun l h => h.1.sound h.2
  · rintro l e l' ⟨hinv, hintact⟩ hok hs
    refine ⟨hinv.step ?_ hs, (hinv.step_faults hok hs).trans hintact⟩
    rintro rfl
    exact hok (Option.isSome_of_eq_some hs)
  · exact fun l e l' h hs hsound => h.1.keeps hs hsound.intact
  · intro l e hs hsome
    rw [hs] at hsome
    exact nomatch hsome

/-- `transport.close()` was called on a transport with a slot whose read is under way, and then
`loop.close()`. -/
def closedTransport : Teardown where
  stage := .dnsDeinit
  initialized := false
  ring := true
  fixedFilesEnabled := true
  queues := fun _ => []
  index := 0
  current := [some ⟨0, .read 0, false⟩]
  busy := []
  dns := []
  signals := []
  inotifyTask := false
  childTasks := 0
  signalTask := false
  watchers := .init
  hooks := [.flush 0]
  hookHandles := fun _ => false
  transports :=
    Function.update (fun _ => none) 0
      (some ((Stream.new ⟨.legacy, true, true, true⟩ 7 1 true false).performRead 1).transportClose)
  frames := []
  calling := false
  next := 1
  invoked := []
  freed := []
  faults := []

theorem closedTransport_claimed : Claimed closedTransport :=
  { stage := rfl, initialized := rfl, ring := rfl, calling := rfl, frames := rfl, invoked := rfl
    freed := rfl, faults := rfl, numbered := .refl _, placed := nofun }

/-- The stages up to `io.deinit`, each followed by the return of the destructors it runs. -/
def upToDrain : List Event :=
  [.advance, .advance, .returned, .advance, .returned, .advance, .advance, .advance, .advance, .advance]

theorem release_sound_closedTransport :
    Claimed closedTransport ∧ (Runs.Always step Sound closedTransport upToDrain ↔
      Runs.Along step Keeps closedTransport upToDrain) :=
  ⟨closedTransport_claimed, release_sound_iff closedTransport_claimed upToDrain⟩

/-- The cancelled read gives the slot back to a table that is gone. -/
theorem slot_returned_late :
    Claimed closedTransport ∧
      ¬Runs.Always step Sound closedTransport (upToDrain ++ [.invoke]) := by
  refine ⟨closedTransport_claimed, fun h => ?_⟩
  obtain ⟨l, hexec, hfaults⟩ : ∃ l, Runs.exec step closedTransport (upToDrain ++ [.invoke]) = some l ∧
      l.faults = [.fixedFileTable, .fixedFileFree] := ⟨_, rfl, rfl⟩
  have hsound := h.last hexec
  exact absurd (hfaults.symm.trans hsound.intact) (by decide)

end Teardown

end Talyn
