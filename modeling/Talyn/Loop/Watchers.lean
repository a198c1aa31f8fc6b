import Mathlib.Data.List.AList
import Talyn.Loop.Handles

/-!
# Readers and writers

`loop/python/io/watchers.zig`. `add_reader` and `add_writer` store a watcher for a descriptor in one of
two trees and poll the descriptor. `loop_watchers_callback` is the callback of the poll; it dispatches
`loop_watcher_python_wrapper_callback`, which calls the user's callback and arms the poll again. A
watcher that is removed or replaced loses its descriptor (`fd` is -1), and whoever gets to it next
frees it.

A watcher is known by its address, and addresses are not used again; its handle has the same number.
The trees are the maps they stand for, one for each event type. A completion can arrive at any time,
with any result. Closing the loop drains the ready queue, empties the trees, puts the callbacks of all
polls in the ready queue and drains it again, with the `cancelled` flag set (`release_claimed`).
-/

namespace Talyn

/-- `POLL.IN` and `POLL.OUT`: a watcher of `reader_watchers`, or of `writer_watchers`. -/
inductive PollEvent
  | pollIn
  | pollOut
  deriving DecidableEq, Repr

/-- `FDWatcher`. -/
structure FDWatcher where
  blockingTaskId : ℕ
  eventType : PollEvent
  fd : ℤ
  deriving DecidableEq, Repr

namespace Watchers

open HandleLoop (Phase CallFailure)

/-- What happens to watchers. -/
inductive Effect
  | poll (event : PollEvent) (fd : ℤ) (task : ℕ)
  | cancelIo (task : ℕ)
  /-- the user's callback is called -/
  | called (h : ℕ)
  /-- the watcher is taken out of its tree because it is removed or replaced -/
  | removed (h : ℕ)
  /-- the references to the handle -/
  | incref (h : ℕ)
  | decref (h : ℕ)
  | destroy (h : ℕ)
  | callExceptionHandler (h : ℕ)
  /-- memory that is not a watcher any more is used -/
  | invalidAccess (h : ℕ)
  deriving DecidableEq, Repr

/-- A ready callback: `loop_watchers_callback` with the result of its poll, or the wrapper. -/
inductive Ready
  | poll (h errno : ℕ)
  | wrapper (h : ℕ)
  deriving DecidableEq, Repr

/-- The watcher of a ready callback. -/
def Ready.watcher : Ready → ℕ
  | .poll h _ | .wrapper h => h

/-- Where the wrapper is: in the user's callback, in the exception handler, or before it arms the poll
again. -/
inductive Frame
  | callback (h : ℕ)
  | handler (h : ℕ)
  | finishing (h : ℕ)
  deriving DecidableEq, Repr

/-- The watcher of a frame. -/
def Frame.watcher : Frame → ℕ
  | .callback h | .handler h | .finishing h => h

/-- What `queue_unlocked` does with a poll: when it fails, the operation can still be in the ring
(`left`). -/
inductive Queue
  | queued (task : ℕ)
  | failed (left : Bool)
  deriving DecidableEq, Repr

/-- How `z_loop_add_watcher` ends once the old watcher is out of the way. When `insert` fails, a split
node that could not be allocated, the entry can still be in the tree (`placed`). -/
inductive Added
  | allocFails
  | insertFails (placed : Bool)
  | inserted (queue : Queue)
  deriving DecidableEq, Repr

/-- Something is left behind by a call that failed. -/
def Added.leaves : Added → Bool
  | .insertFails placed => placed
  | .inserted (.failed left) => left
  | _ => false

/-- What becomes of the watcher that is stored for a descriptor. -/
inductive Detached
  | absent
  | detached
  | cancelFailed
  deriving DecidableEq, Repr

end Watchers

/-- The watchers of a loop. -/
structure Watchers where
  heap : ℕ → Option FDWatcher
  handles : ℕ → PythonHandle
  /-- the next address -/
  next : ℕ
  /-- `reader_watchers` and `writer_watchers` -/
  trees : PollEvent → AList fun _ : ℤ => ℕ
  /-- the watchers whose poll is in flight -/
  inFlight : List ℕ
  ready : List Watchers.Ready
  frames : List Watchers.Frame
  phase : HandleLoop.Phase
  trace : List Watchers.Effect

namespace Watchers

open HandleLoop (Phase CallFailure)

/-- A new loop. -/
def init : Watchers where
  heap := fun _ => none
  handles := fun _ => .new false 0
  next := 0
  trees := fun _ => ∅
  inFlight := []
  ready := []
  frames := []
  phase := .running
  trace := []

/-- Record an effect. -/
def emit (w : Watchers) (e : Effect) : Watchers := { w with trace := w.trace ++ [e] }

/-- Overwrite a watcher. -/
def setWatcher (w : Watchers) (h : ℕ) (c : FDWatcher) : Watchers :=
  { w with heap := Function.update w.heap h (some c) }

/-- Overwrite a handle. -/
def setHandle (w : Watchers) (h : ℕ) (handle : PythonHandle) : Watchers :=
  { w with handles := Function.update w.handles h handle }

/-- `watchers.delete`. -/
def delete (w : Watchers) (event : PollEvent) (fd : ℤ) : Watchers :=
  { w with trees := Function.update w.trees event ((w.trees event).erase fd) }

/-- `watchers.insert`, for a descriptor that is not stored. -/
def insert (w : Watchers) (event : PollEvent) (fd : ℤ) (h : ℕ) : Watchers :=
  { w with trees := Function.update w.trees event ((w.trees event).insert fd h) }

/-- The reference to the handle is dropped and the memory freed. -/
def destroy (w : Watchers) (h : ℕ) : Watchers :=
  { (w.emit (.decref h)).emit (.destroy h) with heap := Function.update w.heap h none }

/-- `loop_watchers_cleanup_callback`. -/
def cleanup (w : Watchers) (h : ℕ) : Watchers :=
  match w.heap h with
  | none => w.emit (.invalidAccess h)
  | some c => (if 0 ≤ c.fd then w.delete c.eventType c.fd else w).destroy h

/-- The first part of `z_loop_add_watcher` and of `z_loop_remove_watcher`: the watcher stored for the
descriptor is taken out of the tree and its poll cancelled. -/
def detach (w : Watchers) (event : PollEvent) (fd : ℤ) (cancelFails : Bool) : Detached × Watchers :=
  match (w.trees event).lookup fd with
  | none => (.absent, w)
  | some old =>
    let w := w.delete event fd
    match w.heap old with
    | none => (.detached, w.emit (.invalidAccess old))
    | some c =>
      let w := (w.setWatcher old { c with fd := -1 }).emit (.removed old)
      if c.blockingTaskId = 0 then (.detached, w)
      else if cancelFails then (.cancelFailed, w)
      else (.detached, w.emit (.cancelIo c.blockingTaskId))

/-- The new watcher of `z_loop_add_watcher`, and its handle. -/
def create (w : Watchers) (event : PollEvent) (fd : ℤ) : Watchers :=
  { (w.setWatcher w.next ⟨0, event, fd⟩).setHandle w.next (.new false 0) with next := w.next + 1 }

/-- The poll of a watcher is queued, and the task stored. -/
def arm (w : Watchers) (h : ℕ) (c : FDWatcher) (task : ℕ) : Watchers :=
  { w.setWatcher h { c with blockingTaskId := task } with
    inFlight := w.inFlight ++ [h] }.emit (.poll c.eventType c.fd task)

/-- A poll that `queue_unlocked` failed to queue. -/
def leave (w : Watchers) (h : ℕ) (left : Bool) : Watchers :=
  if left then { w with inFlight := w.inFlight ++ [h] } else w

/-- `z_loop_add_watcher` with an open loop. -/
def addWatcher (w : Watchers) (event : PollEvent) (fd : ℤ) (cancelFails : Bool) (added : Added) :
    Watchers :=
  match w.detach event fd cancelFails with
  | (.cancelFailed, w) => w
  | (_, w) =>
    let h := w.next
    match added with
    | .allocFails => w
    | .insertFails placed =>
      let w := w.create event fd
      (if placed then w.insert event fd h else w).destroy h
    | .inserted (.failed left) =>
      ((((w.create event fd).insert event fd h).leave h left).delete event fd).destroy h
    | .inserted (.queued task) => ((w.create event fd).insert event fd h).arm h ⟨0, event, fd⟩ task

/-- `z_loop_remove_watcher` with an open loop. -/
def removeWatcher (w : Watchers) (event : PollEvent) (fd : ℤ) (cancelFails : Bool) : Watchers :=
  (w.detach event fd cancelFails).2

/-- `loop_watchers_callback`; `dispatches` is false when the dispatch of the wrapper fails. -/
def loopWatchersCallback (w : Watchers) (h errno : ℕ) (cancelled dispatches : Bool) : Watchers :=
  match w.heap h with
  | none => w.emit (.invalidAccess h)
  | some c =>
    if cancelled ∨ c.fd < 0 then w.cleanup h
    else if errno = 0 then
      let w := (w.setWatcher h { c with blockingTaskId := 0 }).emit (.incref h)
      if dispatches then { w with ready := w.ready ++ [.wrapper h] }
      else (w.emit (.decref h)).cleanup h
    else w.cleanup h

/-- The wrapper goes on after the user's callback. -/
def finish (w : Watchers) (h : ℕ) : Watchers := { w with frames := .finishing h :: w.frames }

/-- The callback of the handle failed; `reported` is false when the context of the exception handler
cannot be allocated. -/
def failed (w : Watchers) (h : ℕ) (reported : Bool) : Watchers :=
  let w := w.emit (.decref h)
  if reported then { w with frames := .handler h :: w.frames }.emit (.callExceptionHandler h)
  else w.finish h

/-- `loop_watcher_python_wrapper_callback`, up to the call of the user's callback, with
`callback_for_python_generic_callbacks`, which drops the reference of the dispatch unless it fails. -/
def wrapperCallback (w : Watchers) (h : ℕ) (cancelled : Bool) (failure : Option CallFailure)
    (reported : Bool) : Watchers :=
  match w.heap h with
  | none => w.emit (.invalidAccess h)
  | some c =>
    if cancelled ∨ c.fd < 0 then (w.emit (.decref h)).cleanup h
    else
      let w := w.setWatcher h { c with blockingTaskId := 0 }
      let (handle, goesOn) := HandleLoop.claim (w.handles h) false
      let w := w.setHandle h handle
      if !goesOn || !handle.contextvars then (w.emit (.decref h)).finish h
      else if failure = some .contextEnter then w.failed h reported
      else if !handle.pyCallback then (w.emit (.decref h)).finish h
      else if failure = some .argsTuple then w.failed h reported
      else { w with frames := .callback h :: w.frames }.emit (.called h)

/-- The end of the wrapper: the poll is armed again, or the watcher is freed. -/
def rearm (w : Watchers) (h : ℕ) (queue : Queue) : Watchers :=
  match w.heap h with
  | none => w.emit (.invalidAccess h)
  | some c =>
    if w.phase ≠ .running ∨ c.fd < 0 then w.cleanup h
    else
      match queue with
      | .queued task => w.arm h c task
      | .failed left => (w.leave h left).cleanup h

/-- A watcher is popped from its tree and loses its descriptor. -/
def invalidate (w : Watchers) (h : ℕ) : Watchers :=
  match w.heap h with
  | none => w.emit (.invalidAccess h)
  | some c => w.setWatcher h { c with fd := -1 }

/-- The tree is emptied. -/
def popAll (w : Watchers) (event : PollEvent) : Watchers :=
  let v := ((w.trees event).entries.map Sigma.snd).foldl invalidate w
  { v with trees := Function.update v.trees event ∅ }

/-- What can happen. User code gets hold of a handle through the context of the exception handler, and
can then cancel it or initialise it again; `setHandle` is any such change. -/
inductive Event
  | addWatcher (event : PollEvent) (fd : ℕ) (cancelFails : Bool) (added : Added)
  | removeWatcher (event : PollEvent) (fd : ℕ) (cancelFails : Bool)
  | setHandle (h : ℕ) (handle : PythonHandle)
  /-- a poll completes -/
  | harvest (index errno : ℕ)
  /-- the next ready callback -/
  | execute (failure : Option CallFailure) (reported dispatches : Bool)
  | returned
  /-- the user's callback raised; `exits` for `KeyboardInterrupt` and `SystemExit` -/
  | raised (exits reported : Bool)
  /-- the exception handler returned or raised -/
  | handled
  | rearm (queue : Queue)
  | close
  /-- the next callback of the ready queue is released -/
  | release
  /-- the trees are emptied, and `cancel_all` on all sets of tasks -/
  | cancelAll
  | closed
  deriving DecidableEq, Repr

/-- One event; `none` when it cannot happen. Adding and removing raise once the loop is closing, and the
loop itself only runs outside of user code. -/
def step (w : Watchers) (e : Event) : Option Watchers :=
  match e with
  | .addWatcher event fd cancelFails added =>
    if w.phase = .running then some (w.addWatcher event fd cancelFails added) else none
  | .removeWatcher event fd cancelFails =>
    if w.phase = .running then some (w.removeWatcher event fd cancelFails) else none
  | .setHandle h handle => some (w.setHandle h handle)
  | .harvest index errno =>
    if w.phase = .running ∧ w.frames = [] then
      (w.inFlight[index]?).map fun h =>
        { w with inFlight := w.inFlight.eraseIdx index, ready := w.ready ++ [.poll h errno] }
    else none
  | .execute failure reported dispatches =>
    if w.phase = .running ∧ w.frames = [] then
      match w.ready with
      | [] => none
      | .poll h errno :: ready =>
        some ({ w with ready := ready }.loopWatchersCallback h errno false dispatches)
      | .wrapper h :: ready => some ({ w with ready := ready }.wrapperCallback h false failure reported)
    else none
  | .returned =>
    match w.frames with
    | .callback h :: frames => some (({ w with frames := frames }.emit (.decref h)).finish h)
    | _ => none
  | .raised exits reported =>
    match w.frames with
    | .callback h :: frames =>
      if exits then some (({ w with frames := frames }.emit (.decref h)).cleanup h)
      else some ({ w with frames := frames }.failed h reported)
    | _ => none
  | .handled =>
    match w.frames with
    | .handler h :: frames => some ({ w with frames := frames }.finish h)
    | _ => none
  | .rearm queue =>
    match w.frames with
    | .finishing h :: frames => some ({ w with frames := frames }.rearm h queue)
    | _ => none
  | .close =>
    if w.phase = .running ∧ w.frames = [] then some { w with phase := .releasing } else none
  | .release =>
    if w.phase = .releasing ∨ w.phase = .draining then
      match w.ready with
      | [] => none
      | .poll h errno :: ready => some ({ w with ready := ready }.loopWatchersCallback h errno true true)
      | .wrapper h :: ready => some ({ w with ready := ready }.wrapperCallback h true none true)
    else none
  | .cancelAll =>
    if w.phase = .releasing ∧ w.ready = [] then
      let w := (w.popAll .pollIn).popAll .pollOut
      some { w with ready := w.inFlight.map fun h => .poll h 0, inFlight := [], phase := .draining }
    else none
  | .closed =>
    if w.phase = .draining ∧ w.ready = [] then some { w with phase := .closed } else none

/-! ### Who frees a watcher -/

/-- The watchers that a poll in flight, a ready callback or a running wrapper will get to. -/
def places (w : Watchers) : List ℕ :=
  w.inFlight ++ w.ready.map Ready.watcher ++ w.frames.map Frame.watcher

/-- The user's callback is not called after the watcher was removed or replaced. -/
def NotAfterRemoved (trace : List Effect) (h : ℕ) : Prop :=
  ∀ pre post, trace = pre ++ .called h :: post → .removed h ∉ pre

/-- Every watcher that exists is in exactly one place, or held by the code that runs; the others were
freed once. -/
structure Owned (held : List ℕ) (w : Watchers) : Prop where
  nodup : (held ++ w.places).Nodup
  alive : ∀ h, h ∈ held ++ w.places ↔ w.heap h ≠ none
  made : ∀ h, w.heap h ≠ none → h < w.next
  freed : ∀ h < w.next, w.heap h = none → w.trace.count (.destroy h) = 1
  unfreed : ∀ h, w.next ≤ h ∨ w.heap h ≠ none → .destroy h ∉ w.trace
  quiet : ∀ h, w.next ≤ h → .removed h ∉ w.trace
  order : ∀ h, NotAfterRemoved w.trace h
  valid : ∀ h, .invalidAccess h ∉ w.trace

variable {w w' v : Watchers} {h : ℕ} {c : FDWatcher} {held : List ℕ}

theorem NotAfterRemoved.append {trace : List Effect} (ho : NotAfterRemoved trace h) {e : Effect}
    (he : e = .called h → .removed h ∉ trace) : NotAfterRemoved (trace ++ [e]) h := by
  intro pre post heq
  rcases post.eq_nil_or_concat with rfl | ⟨post, last, rfl⟩
  · obtain ⟨rfl, hlast⟩ := List.append_inj' heq rfl
    exact he (List.singleton_inj.1 hlast)
  · rw [List.concat_eq_append, ← List.cons_append, ← List.append_assoc] at heq
    exact ho pre post (List.append_inj' heq rfl).1

/-- An effect that no promise is about. -/
def Effect.Quiet : Effect → Prop
  | .poll _ _ _ | .cancelIo _ | .incref _ | .decref _ | .callExceptionHandler _ => True
  | _ => False

/-- Nothing changes but places, which are permuted, and the fields of watchers. -/
theorem Owned.congr {held' : List ℕ} (ho : Owned held w)
    (hplaces : (held' ++ v.places).Perm (held ++ w.places))
    (hheap : ∀ h, v.heap h = none ↔ w.heap h = none) (hnext : v.next = w.next)
    (htrace : v.trace = w.trace) : Owned held' v := by
  refine ⟨hplaces.nodup_iff.2 ho.nodup, fun h => ?_, fun h => ?_, fun h => ?_, fun h => ?_, ?_, ?_, ?_⟩
  · rw [hplaces.mem_iff, ho.alive h, Ne, Ne, hheap h]
  · rw [Ne, hheap h, hnext]
    exact ho.made h
  · rw [htrace, hnext, hheap h]
    exact ho.freed h
  · rw [htrace, hnext, Ne, hheap h]
    exact ho.unfreed h
  · rw [htrace, hnext]
    exact ho.quiet
  · rw [htrace]
    exact ho.order
  · rw [htrace]
    exact ho.valid

theorem Owned.emit (ho : Owned held w) {e : Effect} (he : e.Quiet) : Owned held (w.emit e) := by
  have hnot : ∀ {e'}, ¬e'.Quiet → e' ≠ e := by
    rintro e' hquiet rfl
    exact hquiet he
  have hdestroy : ∀ h, Effect.destroy h ≠ e := fun h => hnot id
  have hremoved : ∀ h, Effect.removed h ≠ e := fun h => hnot id
  have hcalled : ∀ h, Effect.called h ≠ e := fun h => hnot id
  have hinvalid : ∀ h, Effect.invalidAccess h ≠ e := fun h => hnot id
  refine ⟨ho.nodup, ho.alive, ho.made, fun h hlt hnone => ?_, fun h hor => ?_, fun h hle => ?_,
    fun h => ?_, fun h => ?_⟩
  · show (w.trace ++ [e]).count _ = _
    rw [List.count_append, List.count_singleton, if_neg (by simpa using (hdestroy h).symm), Nat.add_zero]
    exact ho.freed h hlt hnone
  · simpa [Watchers.emit, hdestroy h] using ho.unfreed h hor
  · simpa [Watchers.emit, hremoved h] using ho.quiet h hle
  · exact (ho.order h).append fun heq => absurd heq.symm (hcalled h)
  · simpa [Watchers.emit, hinvalid h] using ho.valid h

theorem Owned.alive_held (ho : Owned (h :: held) w) : ∃ c, w.heap h = some c :=
  Option.ne_none_iff_exists'.1 ((ho.alive h).1 List.mem_cons_self)

theorem Owned.setWatcher (ho : Owned held w) (hc : w.heap h = some c) (c' : FDWatcher) :
    Owned held (w.setWatcher h c') := by
  refine ho.congr .rfl (fun h' => ?_) rfl rfl
  show Function.update w.heap h (some c') h' = none ↔ _
  by_cases hh : h' = h
  · subst hh
    simp [hc]
  · rw [Function.update_of_ne hh]

/-- The code that holds a watcher frees it. -/
theorem Owned.destroy (ho : Owned (h :: held) w) : Owned held (w.destroy h) := by
  obtain ⟨c, hc⟩ := ho.alive_held
  have hlt := ho.made h (by rw [hc]; exact nofun)
  have hnodup := List.nodup_cons.1 ho.nodup
  have hnot : h ∉ held ++ w.places := hnodup.1
  have hheap : ∀ h', h' ≠ h → (w.destroy h).heap h' = w.heap h' :=
    fun h' hne => Function.update_of_ne hne _ _
  have hself : (w.destroy h).heap h = none := Function.update_self _ _ _
  have htrace : (w.destroy h).trace = w.trace ++ [.decref h] ++ [.destroy h] := rfl
  refine ⟨hnodup.2, fun h' => ?_, fun h' hne => ?_, fun h' hlt' hnone => ?_, fun h' hor => ?_,
    fun h' hle => ?_, fun h' => ?_, fun h' => ?_⟩
  · by_cases hh : h' = h
    · subst hh
      rw [hself]
      exact iff_of_false hnot (not_not_intro rfl)
    · rw [hheap h' hh, ← ho.alive h', List.cons_append, List.mem_cons]
      exact ⟨.inr, fun hor => hor.resolve_left hh⟩
  · by_cases hh : h' = h
    · rw [hh]
      exact hlt
    · rw [hheap h' hh] at hne
      exact ho.made h' hne
  · rw [htrace, List.count_append, List.count_append]
    by_cases hh : h' = h
    · subst hh
      have hzero := List.count_eq_zero.2 (ho.unfreed h' (.inr (by rw [hc]; exact nofun)))
      simp [hzero]
    · rw [hheap h' hh] at hnone
      simp [ho.freed h' hlt' hnone, Ne.symm hh]
  · rw [htrace]
    have hne : h' ≠ h := by
      rintro rfl
      exact hor.elim (fun hle => absurd hlt (not_lt.2 hle)) fun hne => hne hself
    rw [hheap h' hne] at hor
    simpa [hne] using ho.unfreed h' hor
  · rw [htrace]
    simpa using ho.quiet h' hle
  · rw [htrace]
    exact ((ho.order h').append (e := .decref h) nofun).append (e := .destroy h) nofun
  · rw [htrace]
    simpa using ho.valid h'

theorem cleanup_eq (hc : w.heap h = some c) :
    w.cleanup h = (if 0 ≤ c.fd then w.delete c.eventType c.fd else w).destroy h := by
  rw [cleanup, hc]

theorem Owned.delete (ho : Owned held w) (event : PollEvent) (fd : ℤ) : Owned held (w.delete event fd) :=
  ho.congr .rfl (fun _ => .rfl) rfl rfl

theorem Owned.cleanup (ho : Owned (h :: held) w) : Owned held (w.cleanup h) := by
  obtain ⟨c, hc⟩ := ho.alive_held
  rw [cleanup_eq hc]
  split
  · exact (ho.delete _ _).destroy
  · exact ho.destroy

/-- What `cleanup` does not touch. -/
theorem cleanup_frame (hc : w.heap h = some c) :
    (w.cleanup h).phase = w.phase ∧ (w.cleanup h).frames = w.frames ∧
      (w.cleanup h).inFlight = w.inFlight ∧ (w.cleanup h).ready = w.ready := by
  rw [cleanup_eq hc]
  split <;> exact ⟨rfl, rfl, rfl, rfl⟩

theorem Owned.create (ho : Owned held w) (event : PollEvent) (fd : ℤ) :
    Owned (w.next :: held) (w.create event fd) := by
  have hnone : w.heap w.next = none := by
    by_contra hne
    exact lt_irrefl _ (ho.made w.next hne)
  have hheap : ∀ h, h ≠ w.next → (w.create event fd).heap h = w.heap h :=
    fun h hne => Function.update_of_ne hne _ _
  have hself : (w.create event fd).heap w.next = some ⟨0, event, fd⟩ := Function.update_self _ _ _
  refine ⟨?_, fun h => ?_, fun h hne => ?_, fun h hlt hgone => ?_, fun h hor => ?_, fun h hle => ?_,
    ho.order, ho.valid⟩
  · refine List.nodup_cons.2 ⟨fun hin => ?_, ho.nodup⟩
    exact (ho.alive _).1 hin hnone
  · by_cases hh : h = w.next
    · subst hh
      rw [hself]
      exact iff_of_true List.mem_cons_self nofun
    · rw [hheap h hh, ← ho.alive h, List.cons_append, List.mem_cons]
      exact ⟨fun hor => hor.resolve_left hh, .inr⟩
  · show h < w.next + 1
    by_cases hh : h = w.next
    · omega
    · rw [hheap h hh] at hne
      exact Nat.lt_succ_of_lt (ho.made h hne)
  · have hne : h ≠ w.next := by
      rintro rfl
      exact nomatch hself.symm.trans hgone
    rw [hheap h hne] at hgone
    exact ho.freed h (lt_of_le_of_ne (Nat.lt_succ_iff.1 hlt) hne) hgone
  · refine ho.unfreed h ?_
    by_cases hh : h = w.next
    · exact .inl hh.ge
    · rw [hheap h hh] at hor
      exact hor.imp Nat.le_of_succ_le id
  · exact ho.quiet h (Nat.le_of_succ_le hle)

theorem Owned.insert (ho : Owned held w) (event : PollEvent) (fd : ℤ) (h : ℕ) :
    Owned held (w.insert event fd h) :=
  ho.congr .rfl (fun _ => .rfl) rfl rfl

/-- The poll that is queued gets to the watcher. -/
theorem Owned.arm (ho : Owned (h :: held) w) (c' : FDWatcher) (task : ℕ) : Owned held (w.arm h c' task) := by
  obtain ⟨c, hc⟩ := ho.alive_held
  have hset := ho.setWatcher hc { c' with blockingTaskId := task }
  refine Owned.emit (w := { w.setWatcher h { c' with blockingTaskId := task } with
    inFlight := w.inFlight ++ [h] }) ?_ trivial
  refine hset.congr ?_ (fun _ => .rfl) rfl rfl
  show (held ++ (w.inFlight ++ [h] ++ w.ready.map Ready.watcher ++ w.frames.map Frame.watcher)).Perm
    (h :: held ++ w.places)
  simp only [places, List.append_assoc, List.cons_append]
  rw [← List.append_assoc, ← List.append_assoc held]
  exact List.perm_middle

theorem Owned.removed (ho : Owned held w) (hc : w.heap h = some c) : Owned held (w.emit (.removed h)) := by
  have hlt := ho.made h (by rw [hc]; exact nofun)
  refine ⟨ho.nodup, ho.alive, ho.made, fun h' hlt' hnone => ?_, fun h' hor => ?_, fun h' hle => ?_,
    fun h' => ?_, fun h' => ?_⟩
  · show (w.trace ++ [_]).count _ = _
    rw [List.count_append, ho.freed h' hlt' hnone]
    simp
  · simpa [Watchers.emit] using ho.unfreed h' hor
  · have hne : h' ≠ h := by
      rintro rfl
      exact absurd hlt (not_lt.2 hle)
    simpa [Watchers.emit, hne] using ho.quiet h' hle
  · exact (ho.order h').append nofun
  · simpa [Watchers.emit] using ho.valid h'

/-- The user's callback is called for a watcher that was not removed. -/
theorem Owned.called (ho : Owned held w) (hnot : .removed h ∉ w.trace) : Owned held (w.emit (.called h)) := by
  refine ⟨ho.nodup, ho.alive, ho.made, fun h' hlt' hnone => ?_, fun h' hor => ?_, fun h' hle => ?_,
    fun h' => ?_, fun h' => ?_⟩
  · show (w.trace ++ [_]).count _ = _
    rw [List.count_append, ho.freed h' hlt' hnone]
    simp
  · simpa [Watchers.emit] using ho.unfreed h' hor
  · simpa [Watchers.emit] using ho.quiet h' hle
  · refine (ho.order h').append fun heq => ?_
    obtain rfl : h = h' := by simpa using heq
    exact hnot
  · simpa [Watchers.emit] using ho.valid h'

/-! ### The trees -/

/-- The trees have the watchers that exist and have a descriptor, each under its own. -/
def Mapped (w : Watchers) : Prop :=
  ∀ event fd h, (w.trees event).lookup fd = some h ↔
    ∃ c, w.heap h = some c ∧ c.eventType = event ∧ c.fd = fd ∧ 0 ≤ fd

/-- Besides, a watcher has no descriptor once it was removed, and until the trees are emptied only
then. -/
structure Stored (w : Watchers) : Prop where
  mapped : Mapped w
  removed : ∀ h c, w.heap h = some c → .removed h ∈ w.trace → c.fd < 0
  kept : w.phase = .running ∨ w.phase = .releasing →
    ∀ h c, w.heap h = some c → c.fd < 0 → .removed h ∈ w.trace

theorem Stored.congr (hst : Stored w) (hheap : ∀ h, v.heap h = w.heap h) (htrees : v.trees = w.trees)
    (hremoved : ∀ h, .removed h ∈ v.trace ↔ .removed h ∈ w.trace)
    (hphase : v.phase = .running ∨ v.phase = .releasing → w.phase = .running ∨ w.phase = .releasing) :
    Stored v := by
  refine ⟨fun event fd h => ?_, fun h c hc => ?_, fun hp h c hc => ?_⟩
  · rw [htrees, hheap]
    exact hst.mapped event fd h
  · rw [hremoved]
    exact hst.removed h c (hheap h ▸ hc)
  · rw [hremoved]
    exact hst.kept (hphase hp) h c (hheap h ▸ hc)

theorem Stored.emit (hst : Stored w) {e : Effect} (he : ∀ h, e ≠ .removed h) : Stored (w.emit e) := by
  refine hst.congr (fun _ => rfl) rfl (fun h => ?_) id
  simp [Watchers.emit, (he h).symm]

theorem Stored.setWatcher (hst : Stored w) (hc : w.heap h = some c) {c' : FDWatcher}
    (hevent : c'.eventType = c.eventType) (hfd : c'.fd = c.fd) : Stored (w.setWatcher h c') := by
  have hself : (w.setWatcher h c').heap h = some c' := Function.update_self _ _ _
  have hother : ∀ h', h' ≠ h → (w.setWatcher h c').heap h' = w.heap h' :=
    fun h' hne => Function.update_of_ne hne _ _
  refine ⟨fun event fd h' => ?_, fun h' d hd => ?_, fun hp h' d hd => ?_⟩
  · show (w.trees event).lookup fd = some h' ↔ _
    rw [hst.mapped event fd h']
    by_cases hh : h' = h
    · subst hh
      rw [hself, hc]
      simp [hevent, hfd]
    · rw [hother h' hh]
  · by_cases hh : h' = h
    · subst hh
      obtain rfl := Option.some.inj (hself.symm.trans hd)
      rw [hfd]
      exact hst.removed h' c hc
    · exact hst.removed h' d (hother h' hh ▸ hd)
  · by_cases hh : h' = h
    · subst hh
      obtain rfl := Option.some.inj (hself.symm.trans hd)
      rw [hfd]
      exact hst.kept hp h' c hc
    · exact hst.kept hp h' d (hother h' hh ▸ hd)

/-- A watcher is freed: its own entry goes, the others stay. -/
theorem Stored.cleanup (hst : Stored w) (hc : w.heap h = some c) : Stored (w.cleanup h) := by
  have hself : (w.cleanup h).heap h = none := by
    rw [cleanup_eq hc]
    exact Function.update_self _ _ _
  have hother : ∀ h', h' ≠ h → (w.cleanup h).heap h' = w.heap h' := by
    intro h' hne
    rw [cleanup_eq hc]
    refine (Function.update_of_ne hne _ _).trans ?_
    split <;> rfl
  have hremoved : ∀ h', .removed h' ∈ (w.cleanup h).trace ↔ .removed h' ∈ w.trace := by
    intro h'
    rw [cleanup_eq hc]
    split <;> simp [destroy, Watchers.emit, delete]
  have hentry : ∀ event fd h', h' ≠ h →
      (((w.cleanup h).trees event).lookup fd = some h' ↔ (w.trees event).lookup fd = some h') := by
    intro event fd h' hne
    rw [cleanup_eq hc]
    split
    · rename_i hfd
      show (Function.update w.trees c.eventType ((w.trees c.eventType).erase c.fd) event).lookup fd = _ ↔ _
      by_cases hevent : event = c.eventType
      · subst hevent
        rw [Function.update_self]
        by_cases hsame : fd = c.fd
        · subst hsame
          have hmine := (hst.mapped c.eventType c.fd h).2 ⟨c, hc, rfl, rfl, hfd⟩
          rw [AList.lookup_erase, hmine]
          exact iff_of_false nofun fun heq => hne (Option.some.inj heq).symm
        · rw [AList.lookup_erase_ne hsame]
      · rw [Function.update_of_ne hevent]
    · rfl
  refine ⟨fun event fd h' => ?_, fun h' d hd => ?_, fun hp h' d hd => ?_⟩
  · by_cases hh : h' = h
    · subst hh
      rw [hself]
      refine iff_of_false (fun hlookup => ?_) nofun
      rw [cleanup_eq hc] at hlookup
      split at hlookup
      · rename_i hfd
        replace hlookup : (Function.update w.trees c.eventType ((w.trees c.eventType).erase c.fd)
            event).lookup fd = some h' := hlookup
        by_cases hevent : event = c.eventType
        · subst hevent
          rw [Function.update_self] at hlookup
          by_cases hsame : fd = c.fd
          · subst hsame
            rw [AList.lookup_erase] at hlookup
            exact nomatch hlookup
          · rw [AList.lookup_erase_ne hsame] at hlookup
            obtain ⟨d, hd, -, hfd', -⟩ := (hst.mapped _ _ _).1 hlookup
            obtain rfl := Option.some.inj (hc.symm.trans hd)
            exact hsame hfd'.symm
        · rw [Function.update_of_ne hevent] at hlookup
          obtain ⟨d, hd, hevent', -⟩ := (hst.mapped _ _ _).1 hlookup
          obtain rfl := Option.some.inj (hc.symm.trans hd)
          exact hevent hevent'.symm
      · rename_i hfd
        obtain ⟨d, hd, -, rfl, hpos⟩ := (hst.mapped event fd h').1 hlookup
        obtain rfl := Option.some.inj (hc.symm.trans hd)
        exact hfd hpos
    · rw [hentry event fd h' hh, hst.mapped event fd h', hother h' hh]
  · rw [hremoved]
    by_cases hh : h' = h
    · subst hh
      exact nomatch hself.symm.trans hd
    · exact hst.removed h' d (hother h' hh ▸ hd)
  · rw [hremoved]
    by_cases hh : h' = h
    · subst hh
      exact nomatch hself.symm.trans hd
    · refine hst.kept ?_ h' d (hother h' hh ▸ hd)
      rwa [(cleanup_frame hc).1] at hp

/-- The new watcher is stored under its own descriptor, which nobody has. -/
theorem Stored.insert_create (hst : Stored w) (ho : Owned held w) {event : PollEvent} {fd : ℤ}
    (hfd : 0 ≤ fd) (hnone : (w.trees event).lookup fd = none) :
    Stored ((w.create event fd).insert event fd w.next) := by
  have hfresh : w.heap w.next = none := by
    by_contra hne
    exact lt_irrefl _ (ho.made w.next hne)
  have hself : ((w.create event fd).insert event fd w.next).heap w.next = some ⟨0, event, fd⟩ :=
    Function.update_self _ _ _
  have hother : ∀ h, h ≠ w.next → ((w.create event fd).insert event fd w.next).heap h = w.heap h :=
    fun h hne => Function.update_of_ne hne _ _
  have hlookup : ∀ event' fd', (((w.create event fd).insert event fd w.next).trees event').lookup fd' =
      if event' = event ∧ fd' = fd then some w.next else (w.trees event').lookup fd' := by
    intro event' fd'
    show (Function.update w.trees event ((w.trees event).insert fd w.next) event').lookup fd' = _
    by_cases hevent : event' = event
    · subst hevent
      rw [Function.update_self]
      by_cases hsame : fd' = fd
      · subst hsame
        rw [AList.lookup_insert, if_pos ⟨rfl, rfl⟩]
      · rw [AList.lookup_insert_ne hsame, if_neg fun hboth => hsame hboth.2]
    · rw [Function.update_of_ne hevent, if_neg fun hboth => hevent hboth.1]
  refine ⟨fun event' fd' h => ?_, fun h c hc hin => ?_, fun hp h c hc hneg => ?_⟩
  · rw [hlookup]
    by_cases hh : h = w.next
    · subst hh
      rw [hself]
      split
      · rename_i hsame
        exact iff_of_true rfl ⟨_, rfl, hsame.1.symm, hsame.2.symm, hsame.2.symm ▸ hfd⟩
      · rename_i hdiff
        refine iff_of_false (fun hin => ?_) ?_
        · obtain ⟨c, hc, -⟩ := (hst.mapped event' fd' w.next).1 hin
          exact nomatch hfresh.symm.trans hc
        · rintro ⟨c, hc, hevent, hsame, -⟩
          obtain rfl := Option.some.inj hc
          exact hdiff ⟨hevent.symm, hsame.symm⟩
    · rw [hother h hh, ← hst.mapped event' fd' h]
      split
      · rename_i hsame
        obtain ⟨rfl, rfl⟩ := hsame
        rw [hnone]
        exact iff_of_false (fun heq => hh (Option.some.inj heq).symm) nofun
      · rfl
  · by_cases hh : h = w.next
    · subst hh
      exact absurd hin (ho.quiet w.next le_rfl)
    · exact hst.removed h c (hother h hh ▸ hc) hin
  · by_cases hh : h = w.next
    · subst hh
      obtain rfl := Option.some.inj (hself.symm.trans hc)
      exact absurd hneg (not_lt.2 hfd)
    · exact hst.kept hp h c (hother h hh ▸ hc) hneg

/-- A watcher loses its descriptor and its entry. -/
theorem Stored.detached (hst : Stored w) {event : PollEvent} {fd : ℤ} {old : ℕ} (hc : w.heap old = some c)
    (hevent : c.eventType = event) (hfd : c.fd = fd) :
    Stored (((w.delete event fd).setWatcher old { c with fd := -1 }).emit (.removed old)) := by
  have hself : (((w.delete event fd).setWatcher old { c with fd := -1 }).emit (.removed old)).heap old =
      some { c with fd := -1 } := Function.update_self _ _ _
  have hother : ∀ h, h ≠ old →
      (((w.delete event fd).setWatcher old { c with fd := -1 }).emit (.removed old)).heap h = w.heap h :=
    fun h hne => Function.update_of_ne hne _ _
  have hremoved : ∀ h, h ≠ old → (.removed h ∈
      (((w.delete event fd).setWatcher old { c with fd := -1 }).emit (.removed old)).trace ↔
        .removed h ∈ w.trace) := by
    intro h hne
    simp [Watchers.emit, Watchers.setWatcher, delete, hne]
  refine ⟨fun event' fd' h => ?_, fun h d hd hin => ?_, fun hp h d hd hneg => ?_⟩
  · show (Function.update w.trees event ((w.trees event).erase fd) event').lookup fd' = some h ↔ _
    have hlookup : (Function.update w.trees event ((w.trees event).erase fd) event').lookup fd' =
        if event' = event ∧ fd' = fd then none else (w.trees event').lookup fd' := by
      by_cases hevent' : event' = event
      · subst hevent'
        rw [Function.update_self]
        by_cases hsame : fd' = fd
        · subst hsame
          rw [AList.lookup_erase, if_pos ⟨rfl, rfl⟩]
        · rw [AList.lookup_erase_ne hsame, if_neg fun hboth => hsame hboth.2]
      · rw [Function.update_of_ne hevent', if_neg fun hboth => hevent' hboth.1]
    rw [hlookup]
    by_cases hh : h = old
    · subst hh
      rw [hself]
      refine iff_of_false (fun hin => ?_) ?_
      · split at hin
        · exact nomatch hin
        · rename_i hdiff
          obtain ⟨d, hd, hevent', hfd', -⟩ := (hst.mapped event' fd' h).1 hin
          obtain rfl := Option.some.inj (hc.symm.trans hd)
          exact hdiff ⟨hevent'.symm.trans hevent, hfd'.symm.trans hfd⟩
      · rintro ⟨d, hd, -, rfl, hpos⟩
        obtain rfl := Option.some.inj hd
        exact absurd hpos (by simp)
    · rw [hother h hh, ← hst.mapped event' fd' h]
      split
      · rename_i hsame
        obtain ⟨rfl, rfl⟩ := hsame
        refine iff_of_false nofun fun hin => hh ?_
        by_cases hpos : 0 ≤ c.fd
        · have hmine := (hst.mapped event' fd' old).2 ⟨c, hc, hevent, hfd, hfd ▸ hpos⟩
          exact Option.some.inj (hin.symm.trans hmine)
        · obtain ⟨d, -, -, hfd', hpos'⟩ := (hst.mapped event' fd' h).1 hin
          exact absurd (hfd ▸ hpos') hpos
      · rfl
  · by_cases hh : h = old
    · subst hh
      obtain rfl := Option.some.inj (hself.symm.trans hd)
      show (-1 : ℤ) < 0
      decide
    · exact hst.removed h d (hother h hh ▸ hd) ((hremoved h hh).1 hin)
  · by_cases hh : h = old
    · subst hh
      simp [Watchers.emit]
    · exact (hremoved h hh).2 (hst.kept hp h d (hother h hh ▸ hd) hneg)

/-- What holds of a whole loop, up to what the phase says. -/
structure Sane (held : List ℕ) (w : Watchers) : Prop where
  owned : Owned held w
  stored : Stored w

theorem Sane.emit (hs : Sane held w) {e : Effect} (he : e.Quiet) : Sane held (w.emit e) := by
  refine ⟨hs.owned.emit he, hs.stored.emit fun h heq => ?_⟩
  rw [heq] at he
  exact he

theorem Sane.cleanup (hs : Sane (h :: held) w) : Sane held (w.cleanup h) := by
  obtain ⟨c, hc⟩ := hs.owned.alive_held
  exact ⟨hs.owned.cleanup, hs.stored.cleanup hc⟩

theorem Sane.setWatcher (hs : Sane held w) (hc : w.heap h = some c) {c' : FDWatcher}
    (hevent : c'.eventType = c.eventType) (hfd : c'.fd = c.fd) : Sane held (w.setWatcher h c') :=
  ⟨hs.owned.setWatcher hc c', hs.stored.setWatcher hc hevent hfd⟩

/-- Nothing changes but places, which are permuted. -/
theorem Sane.congr {held' : List ℕ} (hs : Sane held w)
    (hplaces : (held' ++ v.places).Perm (held ++ w.places)) (hheap : v.heap = w.heap)
    (hnext : v.next = w.next) (htrees : v.trees = w.trees) (htrace : v.trace = w.trace)
    (hphase : v.phase = w.phase) : Sane held' v := by
  refine ⟨hs.owned.congr hplaces (fun h => by rw [hheap]) hnext htrace,
    hs.stored.congr (fun h => by rw [hheap]) htrees (fun h => by rw [htrace]) ?_⟩
  rw [hphase]
  exact id

theorem Sane.arm (hs : Sane (h :: held) w) (hc : w.heap h = some c) (task : ℕ) :
    Sane held (w.arm h c task) := by
  refine ⟨hs.owned.arm c task, ?_⟩
  have hset : Stored (w.setWatcher h { c with blockingTaskId := task }) :=
    hs.stored.setWatcher hc rfl rfl
  exact (hset.congr (v := { w.setWatcher h { c with blockingTaskId := task } with
    inFlight := w.inFlight ++ [h] }) (fun _ => rfl) rfl (fun _ => .rfl) id).emit nofun

/-- The watcher of a descriptor is taken out of the way. -/
theorem Sane.detach (hs : Sane held w) (event : PollEvent) (fd : ℤ) (cancelFails : Bool) :
    Sane held (w.detach event fd cancelFails).2 ∧
      ((w.detach event fd cancelFails).2.trees event).lookup fd = none ∧
      (w.detach event fd cancelFails).2.phase = w.phase ∧
      (w.detach event fd cancelFails).2.frames = w.frames := by
  unfold Watchers.detach
  cases hlookup : (w.trees event).lookup fd with
  | none => exact ⟨hs, hlookup, rfl, rfl⟩
  | some old =>
    obtain ⟨c, hc, hevent, hfd, -⟩ := (hs.stored.mapped event fd old).1 hlookup
    have hdelete : (w.delete event fd).heap old = some c := hc
    have hgone : ((w.delete event fd).trees event).lookup fd = none := by
      show (Function.update w.trees event ((w.trees event).erase fd) event).lookup fd = none
      rw [Function.update_self, AList.lookup_erase]
    have hsane : Sane held (((w.delete event fd).setWatcher old { c with fd := -1 }).emit (.removed old)) := by
      refine ⟨?_, hs.stored.detached hc hevent hfd⟩
      have hset := (hs.owned.delete event fd).setWatcher hdelete { c with fd := -1 }
      exact hset.removed (c := { c with fd := -1 }) (Function.update_self _ _ _)
    dsimp only
    rw [hdelete]
    dsimp only
    split
    · exact ⟨hsane, hgone, rfl, rfl⟩
    · split
      · exact ⟨hsane, hgone, rfl, rfl⟩
      · exact ⟨hsane.emit trivial, hgone, rfl, rfl⟩

/-! ### Adding a watcher -/

/-- The new watcher is freed before anybody else knows it. -/
theorem Sane.destroy_create (hs : Sane held w) (event : PollEvent) (fd : ℤ) :
    Sane held ((w.create event fd).destroy w.next) := by
  have hnone : w.heap w.next = none := by
    by_contra hne
    exact lt_irrefl _ (hs.owned.made w.next hne)
  refine ⟨(hs.owned.create event fd).destroy, hs.stored.congr (fun h => ?_) rfl (fun h => ?_) id⟩
  · show Function.update (Function.update w.heap w.next _) w.next none h = w.heap h
    by_cases hh : h = w.next
    · rw [hh, Function.update_self, hnone]
    · rw [Function.update_of_ne hh, Function.update_of_ne hh]
  · simp [Watchers.destroy, Watchers.create, Watchers.emit, Watchers.setWatcher, Watchers.setHandle]

/-- The new watcher is stored, and the code that made it holds it. -/
theorem Sane.insert_create (hs : Sane held w) {event : PollEvent} {fd : ℤ} (hfd : 0 ≤ fd)
    (hnone : (w.trees event).lookup fd = none) :
    Sane (w.next :: held) ((w.create event fd).insert event fd w.next) :=
  ⟨(hs.owned.create event fd).insert event fd w.next, hs.stored.insert_create hs.owned hfd hnone⟩

theorem heap_insert_create (w : Watchers) (event : PollEvent) (fd : ℤ) :
    ((w.create event fd).insert event fd w.next).heap w.next = some ⟨0, event, fd⟩ :=
  Function.update_self _ _ _

/-- How `z_loop_add_watcher` goes on from the state `v` in which the old watcher is out of the way. -/
theorem addWatcher_cases (w : Watchers) (event : PollEvent) (fd : ℤ) (cancelFails : Bool)
    (added : Added) :
    let v := (w.detach event fd cancelFails).2
    ((w.detach event fd cancelFails).1 = .cancelFailed ∧
        w.addWatcher event fd cancelFails added = v) ∨
      ((w.detach event fd cancelFails).1 ≠ .cancelFailed ∧
        w.addWatcher event fd cancelFails added =
          match added with
          | .allocFails => v
          | .insertFails placed =>
            (if placed then (v.create event fd).insert event fd v.next else v.create event fd).destroy
              v.next
          | .inserted (.failed left) =>
            ((((v.create event fd).insert event fd v.next).leave v.next left).delete event fd).destroy
              v.next
          | .inserted (.queued task) =>
            ((v.create event fd).insert event fd v.next).arm v.next ⟨0, event, fd⟩ task) := by
  unfold addWatcher
  obtain ⟨found, v⟩ := w.detach event fd cancelFails
  cases found with
  | cancelFailed => exact .inl ⟨rfl, rfl⟩
  | absent => exact .inr ⟨nofun, rfl⟩
  | detached => exact .inr ⟨nofun, rfl⟩

/-- Adding keeps what holds of the loop, when a call that fails leaves nothing behind. -/
theorem Sane.addWatcher (hs : Sane [] w) (event : PollEvent) {fd : ℤ} (hfd : 0 ≤ fd) (cancelFails : Bool)
    {added : Added}
    (hclean : added.leaves = true → (w.detach event fd cancelFails).1 = .cancelFailed) :
    Sane [] (w.addWatcher event fd cancelFails added) := by
  obtain ⟨hsane, hnone, -⟩ := hs.detach event fd cancelFails
  obtain ⟨-, heq⟩ | ⟨hgoes, heq⟩ := addWatcher_cases w event fd cancelFails added
  · rw [heq]
    exact hsane
  · rw [heq]
    have hleaves : added.leaves = false := by
      cases hl : added.leaves with
      | true => exact absurd (hclean hl) hgoes
      | false => rfl
    generalize (w.detach event fd cancelFails).2 = v at hsane hnone
    have hstored := hsane.insert_create hfd hnone
    cases added with
    | allocFails => exact hsane
    | insertFails placed =>
      obtain rfl : placed = false := hleaves
      exact hsane.destroy_create event fd
    | inserted queue =>
      cases queue with
      | queued task => exact hstored.arm (heap_insert_create v event fd) task
      | failed left =>
        obtain rfl : left = false := hleaves
        have hclean := hstored.cleanup
        rwa [cleanup_eq (heap_insert_create v event fd), if_pos hfd] at hclean

/-! ### The trees are emptied -/

theorem invalidate_eq (hc : w.heap h = some c) : w.invalidate h = w.setWatcher h { c with fd := -1 } := by
  rw [invalidate, hc]

/-- Popping watchers takes their descriptors and nothing else. -/
theorem foldl_invalidate {hs : List ℕ} (ho : Owned held w) (halive : ∀ h ∈ hs, w.heap h ≠ none) :
    Owned held (hs.foldl invalidate w) ∧
      (∀ h c', (hs.foldl invalidate w).heap h = some c' → ∃ c, w.heap h = some c ∧
        c'.eventType = c.eventType ∧ (h ∈ hs → c'.fd = -1) ∧ (h ∉ hs → c'.fd = c.fd)) ∧
      (∀ h c, w.heap h = some c → ∃ c', (hs.foldl invalidate w).heap h = some c') ∧
      hs.foldl invalidate w = { w with heap := (hs.foldl invalidate w).heap } := by
  induction hs generalizing w with
  | nil => exact ⟨ho, fun h c' hc => ⟨c', hc, rfl, nofun, fun _ => rfl⟩, fun h c hc => ⟨c, hc⟩, rfl⟩
  | cons h' hs ih =>
    obtain ⟨c, hc⟩ := Option.ne_none_iff_exists'.1 (halive h' List.mem_cons_self)
    rw [List.foldl_cons, invalidate_eq hc]
    have hself : (w.setWatcher h' { c with fd := -1 }).heap h' = some { c with fd := -1 } :=
      Function.update_self _ _ _
    have hother : ∀ h, h ≠ h' → (w.setWatcher h' { c with fd := -1 }).heap h = w.heap h :=
      fun h hne => Function.update_of_ne hne _ _
    have hsome : ∀ h ∈ hs, (w.setWatcher h' { c with fd := -1 }).heap h ≠ none := by
      intro h hh
      by_cases heq : h = h'
      · rw [heq, hself]
        exact nofun
      · rw [hother h heq]
        exact halive h (List.mem_cons_of_mem h' hh)
    obtain ⟨ho', hback, hforth, hrest⟩ := ih (ho.setWatcher hc _) hsome
    refine ⟨ho', fun h d hd => ?_, fun h d hd => ?_, ?_⟩
    · obtain ⟨d', hd', hevent, hin, hout⟩ := hback h d hd
      by_cases heq : h = h'
      · subst heq
        obtain rfl := Option.some.inj (hself.symm.trans hd')
        refine ⟨c, hc, hevent, fun _ => ?_, fun hnot => absurd List.mem_cons_self hnot⟩
        by_cases hmem : h ∈ hs
        · exact hin hmem
        · exact hout hmem
      · refine ⟨d', hother h heq ▸ hd', hevent, fun hmem => ?_, fun hnot => ?_⟩
        · exact hin ((List.mem_cons.1 hmem).resolve_left heq)
        · exact hout fun hmem => hnot (List.mem_cons_of_mem h' hmem)
    · by_cases heq : h = h'
      · exact hforth h { c with fd := -1 } (heq ▸ hself)
      · exact hforth h d ((hother h heq).trans hd)
    · exact hrest

/-- After a tree was emptied its watchers have no descriptor. -/
theorem popAll_spec (ho : Owned held w) (hm : Mapped w) (event : PollEvent) :
    Owned held (w.popAll event) ∧ Mapped (w.popAll event) ∧
      (∀ h c', (w.popAll event).heap h = some c' → ∃ c, w.heap h = some c ∧ (c.fd < 0 → c'.fd < 0)) ∧
      w.popAll event = { w with
        heap := (w.popAll event).heap, trees := Function.update w.trees event ∅ } := by
  have hmem : ∀ {h}, h ∈ (w.trees event).entries.map Sigma.snd ↔
      ∃ fd, (w.trees event).lookup fd = some h := by
    intro h
    constructor
    · intro hin
      obtain ⟨⟨fd, h⟩, hentry, rfl⟩ := List.mem_map.1 hin
      exact ⟨fd, AList.mem_lookup_iff.2 hentry⟩
    · rintro ⟨fd, hlookup⟩
      exact List.mem_map.2 ⟨⟨fd, h⟩, AList.mem_lookup_iff.1 hlookup, rfl⟩
  obtain ⟨ho', hback, hforth, hrest⟩ := foldl_invalidate ho fun h hin => by
    obtain ⟨fd, hlookup⟩ := hmem.1 hin
    obtain ⟨c, hc, -⟩ := (hm event fd h).1 hlookup
    rw [hc]
    exact nofun
  unfold popAll
  generalize hv : ((w.trees event).entries.map Sigma.snd).foldl invalidate w = v at ho' hback hforth hrest
  have htrees : v.trees = w.trees := by rw [hrest]
  refine ⟨ho'.congr .rfl (fun _ => .rfl) rfl rfl, fun event' fd h => ?_, fun h c' hc' => ?_, ?_⟩
  · show (Function.update v.trees event ∅ event').lookup fd = some h ↔
      ∃ c, v.heap h = some c ∧ c.eventType = event' ∧ c.fd = fd ∧ 0 ≤ fd
    by_cases hevent : event' = event
    · subst hevent
      rw [Function.update_self, AList.lookup_empty]
      refine iff_of_false nofun ?_
      rintro ⟨c', hc', hsame, rfl, hpos⟩
      obtain ⟨c, hc, hevent, hin, hout⟩ := hback h c' hc'
      by_cases hmem' : h ∈ (w.trees event').entries.map Sigma.snd
      · rw [hin hmem'] at hpos
        exact absurd hpos (by decide)
      · refine hmem' (hmem.2 ⟨c.fd, (hm event' c.fd h).2 ⟨c, hc, hevent.symm.trans hsame, rfl, ?_⟩⟩)
        rwa [← hout hmem']
    · rw [Function.update_of_ne hevent, htrees, hm event' fd h]
      have hnot : ∀ {c}, w.heap h = some c → c.eventType = event' →
          h ∉ (w.trees event).entries.map Sigma.snd := by
        intro c hc hsame hin
        obtain ⟨fd', hlookup⟩ := hmem.1 hin
        obtain ⟨d, hd, hsame', -⟩ := (hm event fd' h).1 hlookup
        obtain rfl := Option.some.inj (hc.symm.trans hd)
        exact hevent (hsame.symm.trans hsame')
      constructor
      · rintro ⟨c, hc, hsame, hfd, hpos⟩
        obtain ⟨c', hc'⟩ := hforth h c hc
        obtain ⟨d, hd, hevent', -, hout⟩ := hback h c' hc'
        obtain rfl := Option.some.inj (hc.symm.trans hd)
        exact ⟨c', hc', hevent'.trans hsame, (hout (hnot hc hsame)).trans hfd, hpos⟩
      · rintro ⟨c', hc', hsame, hfd, hpos⟩
        obtain ⟨c, hc, hevent', -, hout⟩ := hback h c' hc'
        have hsame' := hevent'.symm.trans hsame
        exact ⟨c, hc, hsame', (hout (hnot hc hsame')).symm.trans hfd, hpos⟩
  · obtain ⟨c, hc, -, hin, hout⟩ := hback h c' hc'
    refine ⟨c, hc, fun hneg => ?_⟩
    by_cases hmem' : h ∈ (w.trees event).entries.map Sigma.snd
    · rw [hin hmem']
      decide
    · rwa [hout hmem']
  · rw [hrest]

/-! ### The callbacks -/

/-- The next ready callback is taken from the queue. -/
theorem Sane.takeReady (hs : Sane [] w) {r : Ready} {ready : List Ready} (hready : w.ready = r :: ready) :
    Sane [r.watcher] { w with ready := ready } := by
  refine hs.congr ?_ rfl rfl rfl rfl rfl
  show ([r.watcher] ++ (w.inFlight ++ ready.map Ready.watcher ++ w.frames.map Frame.watcher)).Perm
    ([] ++ w.places)
  rw [places, hready]
  simp only [List.map_cons, List.append_assoc, List.nil_append, List.cons_append]
  exact List.perm_middle.symm

/-- User code returned to the frame on top. -/
theorem Sane.takeFrame (hs : Sane [] w) {frame : Frame} {frames : List Frame}
    (hframes : w.frames = frame :: frames) : Sane [frame.watcher] { w with frames := frames } := by
  refine hs.congr ?_ rfl rfl rfl rfl rfl
  show ([frame.watcher] ++ (w.inFlight ++ w.ready.map Ready.watcher ++ frames.map Frame.watcher)).Perm
    ([] ++ w.places)
  rw [places, hframes]
  simp only [List.map_cons, List.nil_append, List.singleton_append]
  exact List.perm_middle.symm

/-- The watcher that is held waits in a new frame. -/
theorem Sane.pushFrame (hs : Sane [h] w) {frame : Frame} (hframe : frame.watcher = h) :
    Sane [] { w with frames := frame :: w.frames } := by
  subst hframe
  refine hs.congr ?_ rfl rfl rfl rfl rfl
  show ([] ++ (w.inFlight ++ w.ready.map Ready.watcher ++ (frame :: w.frames).map Frame.watcher)).Perm
    ([frame.watcher] ++ w.places)
  rw [places]
  simp only [List.map_cons, List.nil_append, List.singleton_append]
  exact List.perm_middle

theorem Sane.failed (hs : Sane [h] w) (reported : Bool) : Sane [] (w.failed h reported) := by
  have hemit : Sane [h] (w.emit (.decref h)) := hs.emit trivial
  unfold Watchers.failed
  dsimp only
  split
  · exact (hemit.pushFrame rfl).emit trivial
  · exact hemit.pushFrame rfl

theorem Sane.loopWatchersCallback (hs : Sane [h] w) (errno : ℕ) (cancelled dispatches : Bool) :
    Sane [] (w.loopWatchersCallback h errno cancelled dispatches) := by
  obtain ⟨c, hc⟩ := hs.owned.alive_held
  have hset : Sane [h] (w.setWatcher h { c with blockingTaskId := 0 }) := hs.setWatcher hc rfl rfl
  have hincref := hset.emit (e := .incref h) trivial
  rw [Watchers.loopWatchersCallback, hc]
  dsimp only
  split
  · exact hs.cleanup
  split
  · split
    · refine hincref.congr ?_ rfl rfl rfl rfl rfl
      show ([] ++ (w.inFlight ++ (w.ready ++ [Ready.wrapper h]).map Ready.watcher ++
        w.frames.map Frame.watcher)).Perm ([h] ++ w.places)
      rw [places]
      simp only [List.map_append, List.map_cons, List.map_nil, Ready.watcher, List.nil_append,
        List.append_assoc, List.cons_append]
      rw [← List.append_assoc, ← List.append_assoc w.inFlight]
      exact List.perm_middle
    · exact (hincref.emit (e := .decref h) trivial).cleanup
  · exact hs.cleanup

theorem Sane.setHandle (hs : Sane held w) (h : ℕ) (handle : PythonHandle) : Sane held (w.setHandle h handle) :=
  hs.congr .rfl rfl rfl rfl rfl rfl

/-- The wrapper calls the user's callback only for a watcher that has its descriptor. -/
theorem Sane.wrapperCallback (hs : Sane [h] w) (cancelled : Bool) (failure : Option CallFailure)
    (reported : Bool) : Sane [] (w.wrapperCallback h cancelled failure reported) := by
  obtain ⟨c, hc⟩ := hs.owned.alive_held
  rw [Watchers.wrapperCallback, hc]
  dsimp only
  split
  · exact (hs.emit (e := .decref h) trivial).cleanup
  rename_i hnot
  have hwatcher : Sane [h] (w.setWatcher h { c with blockingTaskId := 0 }) := hs.setWatcher hc rfl rfl
  have hset := hwatcher.setHandle h (HandleLoop.claim (w.handles h) false).1
  have hremoved : .removed h ∉ w.trace := fun hin => hnot (.inr (hs.stored.removed h c hc hin))
  have hdone : Sane [] (Watchers.finish (((w.setWatcher h { c with blockingTaskId := 0 }).setHandle h
      (HandleLoop.claim (w.handles h) false).1).emit (.decref h)) h) :=
    (hset.emit (e := .decref h) trivial).pushFrame rfl
  split
  · exact hdone
  split
  · exact hset.failed reported
  split
  · exact hdone
  split
  · exact hset.failed reported
  · have hpush := hset.pushFrame (show (Frame.callback h).watcher = h from rfl)
    exact ⟨hpush.owned.called hremoved, hpush.stored.emit nofun⟩

/-- Arming again keeps what holds of the loop, when a queue that fails leaves nothing behind. -/
theorem Sane.rearm (hs : Sane [h] w) {queue : Queue}
    (hclean : queue = .failed true → ∀ c, w.heap h = some c → c.fd < 0) : Sane [] (w.rearm h queue) := by
  obtain ⟨c, hc⟩ := hs.owned.alive_held
  rw [Watchers.rearm, hc]
  dsimp only
  split
  · exact hs.cleanup
  · rename_i hnot
    cases queue with
    | queued task => exact hs.arm hc task
    | failed left =>
      cases left with
      | true => exact absurd (.inr (hclean rfl c hc)) hnot
      | false => exact hs.cleanup

/-- Neither callback touches the phase. -/
theorem failed_phase (reported : Bool) : (w.failed h reported).phase = w.phase := by
  unfold Watchers.failed
  dsimp only
  split <;> rfl

theorem cleanup_phase (ho : Owned (h :: held) w) : (w.cleanup h).phase = w.phase := by
  obtain ⟨c, hc⟩ := ho.alive_held
  exact (cleanup_frame hc).1

theorem loopWatchersCallback_phase (hs : Sane [h] w) (errno : ℕ) (cancelled dispatches : Bool) :
    (w.loopWatchersCallback h errno cancelled dispatches).phase = w.phase := by
  obtain ⟨c, hc⟩ := hs.owned.alive_held
  rw [Watchers.loopWatchersCallback, hc]
  dsimp only
  split
  · exact cleanup_phase hs.owned
  split
  · split
    · rfl
    · refine cleanup_frame (c := { c with blockingTaskId := 0 }) ?_ |>.1
      exact Function.update_self _ _ _
  · exact cleanup_phase hs.owned

theorem wrapperCallback_phase (hs : Sane [h] w) (cancelled : Bool) (failure : Option CallFailure)
    (reported : Bool) : (w.wrapperCallback h cancelled failure reported).phase = w.phase := by
  obtain ⟨c, hc⟩ := hs.owned.alive_held
  rw [Watchers.wrapperCallback, hc]
  dsimp only
  split
  · exact (cleanup_frame (w := w.emit (.decref h)) hc).1
  split
  · rfl
  split
  · exact failed_phase reported
  split
  · rfl
  split
  · exact failed_phase reported
  · rfl

theorem leave_phase (left : Bool) : (w.leave h left).phase = w.phase := by
  unfold leave
  split <;> rfl

theorem rearm_phase (hs : Sane [h] w) (queue : Queue) : (w.rearm h queue).phase = w.phase := by
  obtain ⟨c, hc⟩ := hs.owned.alive_held
  rw [Watchers.rearm, hc]
  dsimp only
  split
  · exact cleanup_phase hs.owned
  · cases queue with
    | queued task => rfl
    | failed left =>
      refine (cleanup_frame (c := c) ?_).1.trans (leave_phase left)
      unfold leave
      split <;> exact hc

theorem Sane.addWatcher_phase (hs : Sane [] w) (event : PollEvent) (fd : ℤ) (cancelFails : Bool)
    (added : Added) : (w.addWatcher event fd cancelFails added).phase = w.phase := by
  obtain ⟨-, -, hphase, -⟩ := hs.detach event fd cancelFails
  obtain ⟨-, heq⟩ | ⟨-, heq⟩ := addWatcher_cases w event fd cancelFails added
  · rw [heq, hphase]
  · rw [heq, ← hphase]
    cases added with
    | allocFails => rfl
    | insertFails placed => cases placed <;> rfl
    | inserted queue =>
      cases queue with
      | queued task => rfl
      | failed left => cases left <;> rfl

/-- In a closing loop both callbacks free their watcher. -/
theorem loopWatchersCallback_cancelled (hc : w.heap h = some c) (errno : ℕ) (dispatches : Bool) :
    w.loopWatchersCallback h errno true dispatches = w.cleanup h := by
  rw [Watchers.loopWatchersCallback, hc]
  exact if_pos (.inl rfl)

theorem wrapperCallback_cancelled (hc : w.heap h = some c) (failure : Option CallFailure)
    (reported : Bool) :
    w.wrapperCallback h true failure reported = (w.emit (.decref h)).cleanup h := by
  rw [Watchers.wrapperCallback, hc]
  exact if_pos (.inl rfl)

/-! ### One step -/

/-- What the phase says. -/
structure PhaseInv (w : Watchers) : Prop where
  frames : w.phase ≠ .running → w.frames = []
  inFlight : w.phase = .draining ∨ w.phase = .closed → w.inFlight = []
  ready : w.phase = .closed → w.ready = []

theorem PhaseInv.of_running (hphase : w.phase = .running) : PhaseInv w where
  frames := fun hnot => absurd hphase hnot
  inFlight := by
    rintro (h | h) <;> exact nomatch hphase.symm.trans h
  ready := fun h => nomatch hphase.symm.trans h

/-- A ready callback was released. -/
theorem PhaseInv.released (hp : PhaseInv w) (hphase : w.phase = .releasing ∨ w.phase = .draining)
    {ready : List Ready} (hframe : v.phase = w.phase ∧ v.frames = w.frames ∧ v.inFlight = w.inFlight ∧
      v.ready = ready) : PhaseInv v := by
  obtain ⟨hphase', hframes, hinFlight, -⟩ := hframe
  refine ⟨fun hnot => ?_, fun hor => ?_, fun hclosed => ?_⟩
  · rw [hframes]
    exact hp.frames (hphase' ▸ hnot)
  · rw [hinFlight]
    exact hp.inFlight (hphase' ▸ hor)
  · rw [hphase'] at hclosed
    rw [hclosed] at hphase
    exact absurd hphase (by decide)

theorem PhaseInv.running (hp : PhaseInv w) {frame : Frame} {frames : List Frame}
    (hframes : w.frames = frame :: frames) : w.phase = .running := by
  by_contra hnot
  exact nomatch hframes.symm.trans (hp.frames hnot)

/-- A call that fails leaves nothing behind: the tree has no entry of a watcher that could not be
inserted, and the ring no poll that could not be queued. -/
def Clean (w : Watchers) : Event → Prop
  | .addWatcher event fd cancelFails added => added.leaves = true → w.phase = .running →
    (w.detach event fd cancelFails).1 = .cancelFailed
  | .rearm queue => queue = .failed true → ∀ h frames, w.frames = .finishing h :: frames →
    ∀ c, w.heap h = some c → c.fd < 0
  | _ => True

/-- What holds of the watchers of a loop. -/
structure LoopInv (w : Watchers) : Prop where
  sane : Sane [] w
  phase : PhaseInv w

/-- The trees are emptied, and `cancel_all` moves all polls to the ready queue. -/
theorem LoopInv.cancelAll (hinv : LoopInv w) (hphase : w.phase = .releasing) (hready : w.ready = []) :
    LoopInv { (w.popAll .pollIn).popAll .pollOut with
      ready := ((w.popAll .pollIn).popAll .pollOut).inFlight.map fun h => .poll h 0
      inFlight := [], phase := .draining } := by
  obtain ⟨hin, hinMapped, hinBack, hinRest⟩ := popAll_spec hinv.sane.owned hinv.sane.stored.mapped .pollIn
  obtain ⟨hout, houtMapped, houtBack, houtRest⟩ := popAll_spec hin hinMapped .pollOut
  have hnot : w.phase ≠ .running := by
    rw [hphase]
    exact nofun
  have hframes : ((w.popAll .pollIn).popAll .pollOut).frames = [] := by
    rw [houtRest, hinRest]
    exact hinv.phase.frames hnot
  have hempty : ((w.popAll .pollIn).popAll .pollOut).ready = [] := by
    rw [houtRest, hinRest]
    exact hready
  refine ⟨⟨hout.congr ?_ (fun _ => .rfl) rfl rfl, houtMapped, fun h c hc hremoved => ?_, ?_⟩,
    ⟨fun _ => hframes, fun _ => rfl, nofun⟩⟩
  · simp only [places, hframes, hempty, List.map_map, List.map_nil, List.append_nil, List.nil_append]
    rw [show (Ready.watcher ∘ fun h => Ready.poll h 0) = id from rfl, List.map_id]
  · obtain ⟨c', hc', himp'⟩ := houtBack h c hc
    obtain ⟨d, hd, himp⟩ := hinBack h c' hc'
    refine himp' (himp (hinv.sane.stored.removed h d hd ?_))
    replace hremoved : .removed h ∈ ((w.popAll .pollIn).popAll .pollOut).trace := hremoved
    rw [houtRest, hinRest] at hremoved
    exact hremoved
  · rintro (h | h) <;> exact nomatch h

/-- A poll that completes is queued. -/
theorem LoopInv.harvest (hinv : LoopInv w) (hphase : w.phase = .running) {index h : ℕ}
    (hpoll : w.inFlight[index]? = some h) (errno : ℕ) :
    LoopInv { w with inFlight := w.inFlight.eraseIdx index, ready := w.ready ++ [.poll h errno] } := by
  obtain ⟨hlt, hget⟩ := List.getElem?_eq_some_iff.1 hpoll
  have hperm : (h :: w.inFlight.eraseIdx index).Perm w.inFlight := by
    rw [← hget]
    exact List.getElem_cons_eraseIdx_perm hlt
  refine ⟨hinv.sane.congr ?_ rfl rfl rfl rfl rfl, .of_running hphase⟩
  show ([] ++ (w.inFlight.eraseIdx index ++ (w.ready ++ [Ready.poll h errno]).map Ready.watcher ++
    w.frames.map Frame.watcher)).Perm ([] ++ w.places)
  rw [List.nil_append, List.nil_append, places, List.map_append, ← List.append_assoc]
  refine List.Perm.append_right _ ?_
  exact (List.perm_append_singleton _ _).trans (hperm.append_right _)

theorem LoopInv.close (hinv : LoopInv w) (hphase : w.phase = .running) (hidle : w.frames = []) :
    LoopInv { w with phase := .releasing } := by
  have hsane := hinv.sane
  refine ⟨⟨hsane.owned.congr .rfl (fun _ => .rfl) rfl rfl,
    hsane.stored.congr (fun _ => rfl) rfl (fun _ => .rfl) fun _ => .inl hphase⟩,
    ⟨fun _ => hidle, ?_, nofun⟩⟩
  rintro (h | h) <;> exact nomatch h

/-- A callback that is released frees its watcher. -/
theorem LoopInv.releasePoll (hinv : LoopInv w) (hphase : w.phase = .releasing ∨ w.phase = .draining)
    {h errno : ℕ} {ready : List Ready} (hready : w.ready = .poll h errno :: ready) :
    LoopInv ({ w with ready := ready }.loopWatchersCallback h errno true true) := by
  have htake := hinv.sane.takeReady hready
  refine ⟨htake.loopWatchersCallback _ _ _, ?_⟩
  obtain ⟨c, hc⟩ := htake.owned.alive_held
  rw [loopWatchersCallback_cancelled (h := h) hc]
  exact hinv.phase.released hphase (cleanup_frame hc)

theorem LoopInv.releaseWrapper (hinv : LoopInv w) (hphase : w.phase = .releasing ∨ w.phase = .draining)
    {h : ℕ} {ready : List Ready} (hready : w.ready = .wrapper h :: ready) :
    LoopInv ({ w with ready := ready }.wrapperCallback h true none true) := by
  have htake := hinv.sane.takeReady hready
  refine ⟨htake.wrapperCallback _ _ _, ?_⟩
  obtain ⟨c, hc⟩ := htake.owned.alive_held
  rw [wrapperCallback_cancelled (h := h) hc]
  exact hinv.phase.released hphase (cleanup_frame (w := emit _ _) (h := h) hc)

theorem LoopInv.closed (hinv : LoopInv w) (hphase : w.phase = .draining) (hready : w.ready = []) :
    LoopInv { w with phase := .closed } := by
  have hsane := hinv.sane
  have hnot : w.phase ≠ .running := by
    rw [hphase]
    exact nofun
  refine ⟨⟨hsane.owned.congr .rfl (fun _ => .rfl) rfl rfl,
    hsane.stored.congr (fun _ => rfl) rfl (fun _ => .rfl) ?_⟩,
    ⟨fun _ => hinv.phase.frames hnot, fun _ => hinv.phase.inFlight (.inl hphase), fun _ => hready⟩⟩
  rintro (h | h) <;> exact nomatch h

/-- One clean step keeps what holds of the loop. -/
theorem LoopInv.step {e : Event} (hinv : LoopInv w) (hok : Clean w e) (hs : w.step e = some w') :
    LoopInv w' := by
  have hsane := hinv.sane
  cases e with
  | addWatcher event fd cancelFails added =>
    obtain ⟨hphase, hs⟩ := Option.ite_none_right_eq_some.1 hs
    obtain rfl := Option.some.inj hs
    refine ⟨hsane.addWatcher event (Int.natCast_nonneg fd) cancelFails fun hl => hok hl hphase, .of_running ?_⟩
    exact (hsane.addWatcher_phase event fd cancelFails added).trans hphase
  | removeWatcher event fd cancelFails =>
    obtain ⟨hphase, hs⟩ := Option.ite_none_right_eq_some.1 hs
    obtain rfl := Option.some.inj hs
    obtain ⟨hdetached, -, hsame, -⟩ := hsane.detach event fd cancelFails
    exact ⟨hdetached, .of_running (hsame.trans hphase)⟩
  | setHandle h handle =>
    obtain rfl := Option.some.inj hs
    exact ⟨hsane.setHandle h handle, ⟨hinv.phase.frames, hinv.phase.inFlight, hinv.phase.ready⟩⟩
  | harvest index errno =>
    obtain ⟨hcond, hs⟩ := Option.ite_none_right_eq_some.1 hs
    obtain ⟨h, hget, rfl⟩ := Option.map_eq_some_iff.1 hs
    exact hinv.harvest hcond.1 hget errno
  | execute failure reported dispatches =>
    obtain ⟨hcond, hs⟩ := Option.ite_none_right_eq_some.1 hs
    split at hs
    · exact nomatch hs
    · rename_i hready
      obtain rfl := Option.some.inj hs
      have htake := hsane.takeReady hready
      refine ⟨htake.loopWatchersCallback _ _ _, .of_running ?_⟩
      exact (loopWatchersCallback_phase htake _ _ _).trans hcond.1
    · rename_i hready
      obtain rfl := Option.some.inj hs
      have htake := hsane.takeReady hready
      refine ⟨htake.wrapperCallback _ _ _, .of_running ?_⟩
      exact (wrapperCallback_phase htake _ _ _).trans hcond.1
  | returned =>
    simp only [Watchers.step] at hs
    split at hs
    · rename_i h frames hframes
      obtain rfl := Option.some.inj hs
      have htake := hsane.takeFrame hframes
      have hemit := htake.emit (e := .decref h) trivial
      exact ⟨hemit.pushFrame rfl, .of_running (hinv.phase.running hframes)⟩
    · exact nomatch hs
  | raised exits reported =>
    simp only [Watchers.step] at hs
    split at hs
    · rename_i h frames hframes
      have htake := hsane.takeFrame hframes
      have hphase := hinv.phase.running hframes
      split at hs
      · obtain rfl := Option.some.inj hs
        have hemit := htake.emit (e := .decref h) trivial
        exact ⟨hemit.cleanup, .of_running ((cleanup_phase hemit.owned).trans hphase)⟩
      · obtain rfl := Option.some.inj hs
        exact ⟨htake.failed reported, .of_running ((failed_phase reported).trans hphase)⟩
    · exact nomatch hs
  | handled =>
    simp only [Watchers.step] at hs
    split at hs
    · rename_i hframes
      obtain rfl := Option.some.inj hs
      exact ⟨(hsane.takeFrame hframes).pushFrame rfl, .of_running (hinv.phase.running hframes)⟩
    · exact nomatch hs
  | rearm queue =>
    simp only [Watchers.step] at hs
    split at hs
    · rename_i hframes
      obtain rfl := Option.some.inj hs
      have htake := hsane.takeFrame hframes
      refine ⟨htake.rearm fun hq c hc => hok hq _ _ hframes c hc, .of_running ?_⟩
      exact (rearm_phase htake queue).trans (hinv.phase.running hframes)
    · exact nomatch hs
  | close =>
    obtain ⟨hcond, hs⟩ := Option.ite_none_right_eq_some.1 hs
    obtain rfl := Option.some.inj hs
    exact hinv.close hcond.1 hcond.2
  | release =>
    obtain ⟨hphase, hs⟩ := Option.ite_none_right_eq_some.1 hs
    split at hs
    · exact nomatch hs
    · rename_i hready
      obtain rfl := Option.some.inj hs
      exact hinv.releasePoll hphase hready
    · rename_i hready
      obtain rfl := Option.some.inj hs
      exact hinv.releaseWrapper hphase hready
  | cancelAll =>
    obtain ⟨hcond, hs⟩ := Option.ite_none_right_eq_some.1 hs
    obtain rfl := Option.some.inj hs
    exact hinv.cancelAll hcond.1 hcond.2
  | closed =>
    obtain ⟨hcond, hs⟩ := Option.ite_none_right_eq_some.1 hs
    obtain rfl := Option.some.inj hs
    exact hinv.closed hcond.1 hcond.2

/-! ### Whole runs -/

/-- What is promised about a watcher that was made. -/
structure Sound (w : Watchers) (h : ℕ) : Prop where
  /-- it was freed once, or it is in one place from which it will be -/
  freed : w.trace.count (.destroy h) + w.places.count h = 1
  /-- in a closed loop it was freed -/
  closed : w.phase = .closed → w.trace.count (.destroy h) = 1
  /-- its memory is not used afterwards -/
  valid : .invalidAccess h ∉ w.trace
  /-- its callback is not called after it was removed or replaced -/
  notAfterRemoved : NotAfterRemoved w.trace h
  /-- until it is removed, replaced or freed, it keeps its descriptor -/
  kept : w.phase = .running ∨ w.phase = .releasing →
    ∀ c, w.heap h = some c → .removed h ∉ w.trace → 0 ≤ c.fd

/-- What is promised about all watchers: besides, the watchers with a descriptor are those that are
stored for it. -/
structure AllSound (w : Watchers) : Prop where
  sound : ∀ h < w.next, Sound w h
  mapped : Mapped w

theorem loopInv_init : LoopInv init := by
  refine ⟨⟨⟨List.nodup_nil, fun h => ?_, ?_, nofun, nofun, nofun, fun h pre post heq => ?_, nofun⟩,
    ⟨fun event fd h => ?_, nofun, nofun⟩⟩, .of_running rfl⟩
  · exact iff_of_false nofun (not_not_intro rfl)
  · exact fun h hne => absurd rfl hne
  · exact absurd heq.symm (by simp [init])
  · refine iff_of_false ?_ nofun
    rw [init, AList.lookup_empty]
    exact nofun

theorem LoopInv.allSound (hinv : LoopInv w) : AllSound w := by
  have ho := hinv.sane.owned
  have hfreed : ∀ h < w.next, w.trace.count (.destroy h) + w.places.count h = 1 := by
    intro h hlt
    by_cases hheap : w.heap h = none
    · have hnot : h ∉ w.places := fun hin => (ho.alive h).1 hin hheap
      rw [ho.freed h hlt hheap, List.count_eq_zero_of_not_mem hnot]
    · have hin : h ∈ w.places := (ho.alive h).2 hheap
      have hone : w.places.count h = 1 := List.count_eq_one_of_mem ho.nodup hin
      rw [List.count_eq_zero_of_not_mem (ho.unfreed h (.inr hheap)), hone]
  refine ⟨fun h hlt => ⟨hfreed h hlt, fun hclosed => ?_, ho.valid h, ho.order h, fun hp c hc hin => ?_⟩,
    hinv.sane.stored.mapped⟩
  · have hplaces : w.places = [] := by
      have hframes := hinv.phase.frames (by rw [hclosed]; exact nofun)
      simp [places, hinv.phase.inFlight (.inr hclosed), hinv.phase.ready hclosed, hframes]
    have honce := hfreed h hlt
    rw [hplaces] at honce
    simpa using honce
  · by_contra hneg
    exact hin (hinv.sane.stored.kept hp h c hc (not_le.1 hneg))

/-- A watcher that is freed while its poll is in flight is lost. -/
theorem not_allSound_of_left (hlt : h < w.next) (hdestroy : .destroy h ∈ w.trace) (hin : h ∈ w.inFlight) :
    ¬AllSound w := by
  intro hall
  have hfreed := (hall.sound h hlt).freed
  have hplaces : 0 < w.places.count h := by
    rw [List.count_pos_iff, places]
    exact List.mem_append_left _ (List.mem_append_left _ hin)
  have hcount := List.count_pos_iff.2 hdestroy
  omega

/-- A call that leaves something behind breaks the promises. -/
theorem addWatcher_leaves {event : PollEvent} {fd : ℤ} {cancelFails : Bool}
    {added : Added} (hleaves : added.leaves = true)
    (hgoes : (w.detach event fd cancelFails).1 ≠ .cancelFailed) :
    ¬AllSound (w.addWatcher event fd cancelFails added) := by
  obtain ⟨hcancel, -⟩ | ⟨-, heq⟩ := addWatcher_cases w event fd cancelFails added
  · exact absurd hcancel hgoes
  rw [heq]
  generalize (w.detach event fd cancelFails).2 = v
  cases added with
  | allocFails => exact nomatch hleaves
  | insertFails placed =>
    obtain rfl : placed = true := hleaves
    intro hall
    have hgone : (((v.create event fd).insert event fd v.next).destroy v.next).heap v.next = none :=
      Function.update_self _ _ _
    have hentry : ((((v.create event fd).insert event fd v.next).destroy v.next).trees event).lookup fd =
        some v.next := by
      show (Function.update v.trees event ((v.trees event).insert fd v.next) event).lookup fd = _
      rw [Function.update_self, AList.lookup_insert]
    obtain ⟨c, hc, -⟩ := (hall.mapped event fd v.next).1 hentry
    exact nomatch hgone.symm.trans hc
  | inserted queue =>
    cases queue with
    | queued task => exact nomatch hleaves
    | failed left =>
      obtain rfl : left = true := hleaves
      refine not_allSound_of_left (h := v.next) (Nat.lt_succ_self _) ?_ ?_
      · exact List.mem_append_right _ (List.mem_singleton.2 rfl)
      · exact List.mem_append_right _ (List.mem_singleton.2 rfl)

theorem rearm_leaves (hs : Sane [h] w) (hc : w.heap h = some c) (hphase : w.phase = .running)
    (hfd : ¬c.fd < 0) : ¬AllSound (w.rearm h (.failed true)) := by
  have hgoes : ¬(w.phase ≠ .running ∨ c.fd < 0) := not_or.2 ⟨not_not_intro hphase, hfd⟩
  have hlt := hs.owned.made h (by rw [hc]; exact nofun)
  rw [Watchers.rearm, hc]
  dsimp only
  rw [if_neg hgoes, leave, if_pos rfl, cleanup_eq (by exact hc), if_pos (not_lt.1 hfd)]
  refine not_allSound_of_left (h := h) hlt ?_ ?_
  · exact List.mem_append_right _ (List.mem_singleton.2 rfl)
  · exact List.mem_append_right _ (List.mem_singleton.2 rfl)

/-- **Readers and writers.** In every run, the promises hold in every state exactly when no call that
fails leaves something behind. -/
theorem watchers_sound (es : List Event) :
    Runs.Always step AllSound init es ↔ Runs.Along step Clean init es := by
  refine Runs.always_iff_along_of_break loopInv_init (fun _ hinv => hinv.allSound)
    (fun _ _ _ hinv hok hs => hinv.step hok hs) ?_ ?_
  · intro w e v hinv hs hsound
    cases e with
    | addWatcher event fd cancelFails added =>
      intro hleaves hphase
      simp only [step, if_pos hphase] at hs
      obtain rfl := Option.some.inj hs
      by_contra hgoes
      exact addWatcher_leaves hleaves hgoes hsound
    | rearm queue =>
      rintro rfl h frames hframes c hc
      simp only [step, hframes] at hs
      obtain rfl := Option.some.inj hs
      by_contra hfd
      have htake := hinv.sane.takeFrame hframes
      exact rearm_leaves htake hc (hinv.phase.running hframes) hfd hsound
    | _ => trivial
  · intro w e hs
    cases e with
    | addWatcher event fd cancelFails added =>
      intro _ hphase
      simp only [step, if_pos hphase] at hs
      exact nomatch hs
    | rearm queue =>
      rintro _ h frames hframes
      simp only [step, hframes] at hs
      exact nomatch hs
    | _ => trivial

/-- The poll of a new reader stays in the ring although `queue_unlocked` fails, and its completion finds
freed memory. -/
theorem watchers_sound_fails : ¬∀ es, Runs.Always step AllSound init es := by
  intro h
  have hrun := h [.addWatcher .pollIn 7 false (.inserted (.failed true)), .harvest 0 0,
    .execute none true true]
  have hend := (((hrun.2 _ rfl).2 _ rfl).2 _ rfl).sound 0 (by decide)
  exact hend.valid (by decide +kernel)

end Watchers

end Talyn
