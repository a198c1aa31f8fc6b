import Mathlib.Data.List.AList
import Talyn.Loop.Handles

/-!
# Child watchers

`loop/child_watcher.zig`. `add_child_handler` opens a pidfd and polls it; `on_child_exit` is the
callback of the poll. A handler that is replaced or removed is only marked, and its poll cancelled; the
invocation of `on_child_exit` that the poll still owes tears it down.

A handler is known by its address, and addresses are not used again. A completion can arrive at any
time, because the pidfd became readable or because the poll was cancelled. Closing the loop runs
`deinit`, drains the ready queue, puts the callbacks of all polls in it and drains it again, with the
`cancelled` flag set (`release_claimed`). `io.queue` succeeds; an error `on_child_exit` returns goes to
the exception handler, which has nothing to do with handlers.
-/

namespace Talyn

/-- `ChildHandler`; its callback is known by the handler. -/
structure ChildHandler where
  pid : ℤ
  pidfd : ℕ
  taskId : ℕ
  completed : Bool
  removed : Bool
  deriving DecidableEq, Repr

namespace ChildWatcher

open HandleLoop (Phase)

/-- What happens to handlers. -/
inductive Effect
  | waitReadable (pidfd task : ℕ)
  | cancelIo (task : ℕ)
  | called (h : ℕ) (pid returncode : ℤ)
  /-- the handler is taken out of the map and marked -/
  | removed (h : ℕ)
  | closePidfd (h : ℕ)
  /-- the reference to the callback is dropped -/
  | decref (h : ℕ)
  | destroy (h : ℕ)
  | callExceptionHandler
  /-- memory that is not a handler any more is used -/
  | invalidAccess (h : ℕ)
  deriving DecidableEq, Repr

/-- `on_child_exit` waiting for user code: the child callback, or the exception handler. -/
inductive Frame
  | callback (h : ℕ)
  | handler (h : ℕ)
  deriving DecidableEq, Repr

/-- The handler of a frame. -/
def Frame.child : Frame → ℕ
  | .callback h | .handler h => h

/-- The fields of `siginfo_t` that are read. -/
structure Siginfo where
  signo : ℕ
  code : ℕ
  status : ℤ
  deriving DecidableEq, Repr

/-- What `waitid` answers, once it was not interrupted. -/
inductive Waitid
  | errno (e : ℕ)
  | success (info : Siginfo)
  deriving DecidableEq, Repr

/-- `EINTR`. -/
def eintr : ℕ := 4

/-- `EAGAIN`. -/
def eagain : ℕ := 11

/-- `classify_child_siginfo`. -/
def classifyChildSiginfo (info : Siginfo) : Option ℤ :=
  if info.signo = 0 then none
  else if info.code = 1 then some info.status
  else if info.code = 2 ∨ info.code = 3 then some (-info.status)
  else some 0

end ChildWatcher

/-- `ChildWatcher`, with the heap its handlers live in and the loop around it. -/
structure ChildWatcher where
  heap : ℕ → Option ChildHandler
  /-- the next address -/
  next : ℕ
  handlers : AList fun _ : ℤ => ℕ
  /-- the handlers whose poll is in flight -/
  inFlight : List ℕ
  /-- the handlers whose `on_child_exit` is in the ready queue -/
  ready : List ℕ
  frames : List ChildWatcher.Frame
  phase : HandleLoop.Phase
  trace : List ChildWatcher.Effect

namespace ChildWatcher

open HandleLoop (Phase)

/-- `init`. -/
def init : ChildWatcher where
  heap := fun _ => none
  next := 0
  handlers := ∅
  inFlight := []
  ready := []
  frames := []
  phase := .running
  trace := []

/-- Record an effect. -/
def emit (w : ChildWatcher) (e : Effect) : ChildWatcher := { w with trace := w.trace ++ [e] }

/-- Overwrite a handler. -/
def setHandler (w : ChildWatcher) (h : ℕ) (c : ChildHandler) : ChildWatcher :=
  { w with heap := Function.update w.heap h (some c) }

/-- `teardown_child_handler`. -/
def teardown (w : ChildWatcher) (h : ℕ) : ChildWatcher :=
  match w.heap h with
  | none => w.emit (.invalidAccess h)
  | some _ =>
    { ((w.emit (.closePidfd h)).emit (.decref h)).emit (.destroy h) with
      heap := Function.update w.heap h none }

/-- What `deinit`, `add_child_handler` and `remove_child_handler` do with a handler they take out of
the map. -/
def retire (w : ChildWatcher) (h : ℕ) : ChildWatcher :=
  match w.heap h with
  | none => w.emit (.invalidAccess h)
  | some c =>
    let w := (w.setHandler h { c with removed := true }).emit (.removed h)
    if c.completed then w
    else if c.taskId ≠ 0 then w.emit (.cancelIo c.taskId)
    else w.teardown h

/-- `deinit`; the map is freed. -/
def deinit (w : ChildWatcher) : ChildWatcher :=
  { (w.handlers.entries.map Sigma.snd).foldl retire w with handlers := ∅ }

/-- `handlers.fetchRemove`. After `deinit` the map is freed memory, and `stale` is what is read
there. -/
def fetchRemove (w : ChildWatcher) (pid : ℤ) (stale : Option ℕ) : Option ℕ × ChildWatcher :=
  if w.phase = .running then (w.handlers.lookup pid, { w with handlers := w.handlers.erase pid })
  else (stale, w)

/-- The first part of `add_child_handler`: the new handler is made and its poll queued, with the
descriptor `pidfd_open` and the task `io.queue` returned. -/
def register (w : ChildWatcher) (pid : ℤ) (pidfd task : ℕ) : ChildWatcher :=
  { w.setHandler w.next ⟨pid, pidfd, task, false, false⟩ with
    next := w.next + 1, inFlight := w.inFlight ++ [w.next] }.emit (.waitReadable pidfd task)

/-- `add_child_handler`. -/
def addChildHandler (w : ChildWatcher) (pid : ℤ) (pidfd task : ℕ) (stale : Option ℕ) : ChildWatcher :=
  let handler := w.next
  let w :=
    match (w.register pid pidfd task).fetchRemove pid stale with
    | (none, w) => w
    | (some old, w) => w.retire old
  { w with handlers := w.handlers.insert pid handler }

/-- `remove_child_handler`. -/
def removeChildHandler (w : ChildWatcher) (pid : ℤ) (stale : Option ℕ) : Bool × ChildWatcher :=
  match w.fetchRemove pid stale with
  | (none, w) => (false, w)
  | (some h, w) => (true, w.retire h)

/-- `finalize_child_handler`. -/
def finalize (w : ChildWatcher) (h : ℕ) : ChildWatcher :=
  match w.heap h with
  | none => w.emit (.invalidAccess h)
  | some c =>
    let w := if w.handlers.lookup c.pid = some h then { w with handlers := w.handlers.erase c.pid } else w
    w.teardown h

/-- `rearm_child_handler`; `io.queue` returns `task`. -/
def rearm (w : ChildWatcher) (h : ℕ) (c : ChildHandler) (task : ℕ) : ChildWatcher :=
  { w.setHandler h { c with taskId := task, completed := false } with
    inFlight := w.inFlight ++ [h] }.emit (.waitReadable c.pidfd task)

/-- `on_child_exit`, up to the call of the child callback. `waitid` and `task` are what `waitid` and a
re-arming `io.queue` return; `allocates` is false when the arguments of the callback cannot be
allocated. -/
def onChildExit (w : ChildWatcher) (h : ℕ) (cancelled : Bool) (waitid : Waitid) (task : ℕ)
    (allocates : Bool) : ChildWatcher :=
  match w.heap h with
  | none => w.emit (.invalidAccess h)
  | some c =>
    let c := { c with taskId := 0, completed := true }
    let w := w.setHandler h c
    if cancelled then if c.removed then w.teardown h else w
    else if w.phase ≠ .running then w
    else if c.removed then w.teardown h
    else
      match waitid with
      | .errno e => if e ≠ eintr ∧ e ≠ eagain then w.finalize h else w.rearm h c task
      | .success info =>
        match classifyChildSiginfo info with
        | none => w.rearm h c task
        | some returncode =>
          if allocates then
            { w with frames := .callback h :: w.frames }.emit (.called h c.pid returncode)
          else w.finalize h

/-- What can happen. -/
inductive Event
  | addChildHandler (pid : ℤ) (pidfd task : ℕ) (stale : Option ℕ)
  | removeChildHandler (pid : ℤ) (stale : Option ℕ)
  /-- a poll completes -/
  | harvest (index : ℕ)
  /-- the next ready callback -/
  | execute (waitid : Waitid) (task : ℕ) (allocates : Bool)
  | returned
  /-- the child callback raised; `reported` is false when the context cannot be allocated -/
  | raised (reported : Bool)
  /-- the exception handler returned or raised -/
  | handled
  | deinit
  /-- the next callback of the ready queue is released -/
  | release
  /-- `cancel_all` on all sets of tasks -/
  | cancelAll
  | closed
  deriving DecidableEq, Repr

/-- One event; `none` when it cannot happen. The loop itself only runs outside of user code, and
`io.queue` fails once `io.deinit` was called. -/
def step (w : ChildWatcher) (e : Event) : Option ChildWatcher :=
  match e with
  | .addChildHandler pid pidfd task stale =>
    if (w.phase = .running ∨ w.phase = .releasing) ∧ task ≠ 0 then
      some (w.addChildHandler pid pidfd task stale)
    else none
  | .removeChildHandler pid stale => some (w.removeChildHandler pid stale).2
  | .harvest index =>
    if w.phase = .running ∧ w.frames = [] then
      (w.inFlight[index]?).map fun h =>
        { w with inFlight := w.inFlight.eraseIdx index, ready := w.ready ++ [h] }
    else none
  | .execute waitid task allocates =>
    if w.phase = .running ∧ w.frames = [] ∧ task ≠ 0 then
      match w.ready with
      | [] => none
      | h :: ready => some ({ w with ready := ready }.onChildExit h false waitid task allocates)
    else none
  | .returned =>
    match w.frames with
    | .callback h :: frames => some ({ w with frames := frames }.finalize h)
    | _ => none
  | .raised reported =>
    match w.frames with
    | .callback h :: frames =>
      if reported then some ({ w with frames := .handler h :: frames }.emit .callExceptionHandler)
      else some ({ w with frames := frames }.finalize h)
    | _ => none
  | .handled =>
    match w.frames with
    | .handler h :: frames => some ({ w with frames := frames }.finalize h)
    | _ => none
  | .deinit =>
    if w.phase = .running ∧ w.frames = [] then some { w.deinit with phase := .releasing } else none
  | .release =>
    if w.phase = .releasing ∨ w.phase = .draining then
      match w.ready with
      | [] => none
      | h :: ready => some ({ w with ready := ready }.onChildExit h true (.errno 0) 0 false)
    else none
  | .cancelAll =>
    if w.phase = .releasing ∧ w.ready = [] then
      some { w with ready := w.inFlight, inFlight := [], phase := .draining }
    else none
  | .closed =>
    if w.phase = .draining ∧ w.ready = [] then some { w with phase := .closed } else none

/-! ### One handler -/

/-- The handlers whose `on_child_exit` has not been entered. -/
def waiting (w : ChildWatcher) : List ℕ := w.inFlight ++ w.ready

/-- The handlers whose `on_child_exit` waits for user code. -/
def running (w : ChildWatcher) : List ℕ := w.frames.map Frame.child

/-- The handler an effect is about; what the kernel and the exception handler are told does not count. -/
def Effect.child : Effect → Option ℕ
  | .called h _ _ | .removed h | .closePidfd h | .decref h | .destroy h | .invalidAccess h => some h
  | .waitReadable _ _ | .cancelIo _ | .callExceptionHandler => none

/-- The callback of the handler `h` is called. -/
def Effect.isCall (h : ℕ) : Effect → Bool
  | .called h' _ _ => h' = h
  | _ => false

/-- How often the callback of the handler `h` was called. -/
def calls (w : ChildWatcher) (h : ℕ) : ℕ := w.trace.countP (Effect.isCall h)

/-- The callback of `h` is not called after the handler was removed or replaced. -/
def NotAfterRemoved (trace : List Effect) (h : ℕ) : Prop :=
  ∀ pre post pid returncode, trace = pre ++ .called h pid returncode :: post → .removed h ∉ pre

/-- What holds of the handler `h`. -/
structure HandlerInv (w : ChildWatcher) (h : ℕ) : Prop where
  once : w.trace.count (.destroy h) + w.waiting.count h + w.running.count h =
    if h < w.next then 1 else 0
  alive : w.heap h ≠ none ↔ h ∈ w.waiting ∨ h ∈ w.running
  freed : w.trace.count (.closePidfd h) = w.trace.count (.destroy h) ∧
    w.trace.count (.decref h) = w.trace.count (.destroy h)
  waits : ∀ c, w.heap h = some c → h ∈ w.waiting →
    c.completed = false ∧ c.taskId ≠ 0 ∧ w.calls h = 0
  runs : ∀ c, w.heap h = some c → h ∈ w.running → c.completed = true
  marked : ∀ c, w.heap h = some c → (c.removed = true ↔ .removed h ∈ w.trace)
  unmade : w.next ≤ h → .removed h ∉ w.trace ∧ w.calls h = 0
  calls : w.calls h ≤ 1
  order : NotAfterRemoved w.trace h
  valid : .invalidAccess h ∉ w.trace

variable {w w' v : ChildWatcher} {h : ℕ} {c : ChildHandler}

theorem NotAfterRemoved.append {trace : List Effect} (ho : NotAfterRemoved trace h) {e : Effect}
    (he : e.isCall h = true → .removed h ∉ trace) : NotAfterRemoved (trace ++ [e]) h := by
  intro pre post pid returncode heq
  rcases post.eq_nil_or_concat with rfl | ⟨post, last, rfl⟩
  · obtain ⟨rfl, hlast⟩ := List.append_inj' heq rfl
    obtain rfl := List.singleton_inj.1 hlast
    exact he (by simp [Effect.isCall])
  · rw [List.concat_eq_append, ← List.cons_append, ← List.append_assoc] at heq
    exact ho pre post pid returncode (List.append_inj' heq rfl).1

theorem NotAfterRemoved.append_all {trace : List Effect} (ho : NotAfterRemoved trace h)
    {es : List Effect} (hes : ∀ e ∈ es, e.isCall h = false) : NotAfterRemoved (trace ++ es) h := by
  induction es generalizing trace with
  | nil => rwa [List.append_nil]
  | cons e es ih =>
    have he : NotAfterRemoved (trace ++ [e]) h := by
      refine ho.append fun hcall => ?_
      exact absurd (hes e List.mem_cons_self) (by simp [hcall])
    have := ih he fun e' he' => hes e' (List.mem_cons_of_mem e he')
    rwa [List.append_assoc, List.singleton_append] at this

/-- `w'` comes from `w` by something that is not about the handler `h`. -/
structure SameFor (h : ℕ) (w w' : ChildWatcher) : Prop where
  waiting : w'.waiting.count h = w.waiting.count h
  running : w'.running.count h = w.running.count h
  heap : w'.heap h = w.heap h
  next : h < w'.next ↔ h < w.next
  trace : ∃ es, w'.trace = w.trace ++ es ∧ ∀ e ∈ es, e.child ≠ some h

theorem isCall_of_child {e : Effect} (he : e.child ≠ some h) : e.isCall h = false := by
  cases e with
  | called h' pid returncode => simpa [Effect.child, Effect.isCall] using he
  | _ => rfl

theorem calls_append {es : List Effect} (htrace : w'.trace = w.trace ++ es)
    (hes : ∀ e ∈ es, e.isCall h = false) : w'.calls h = w.calls h := by
  have hnone : es.countP (Effect.isCall h) = 0 := by
    refine List.countP_eq_zero.2 fun e he => ?_
    rw [hes e he]
    exact Bool.false_ne_true
  rw [ChildWatcher.calls, htrace, List.countP_append, hnone, Nat.add_zero, ChildWatcher.calls]

theorem HandlerInv.of_same (hinv : HandlerInv w h) (hsame : SameFor h w w') : HandlerInv w' h := by
  obtain ⟨hwaiting, hrunning, hheap, hnext, es, htrace, hes⟩ := hsame
  have hnone : ∀ e, e.child = some h → e ∉ es := fun e he hin => hes e hin he
  have hcount : ∀ e, e.child = some h → w'.trace.count e = w.trace.count e := by
    intro e he
    rw [htrace, List.count_append, List.count_eq_zero_of_not_mem (hnone e he), Nat.add_zero]
  have hmem : ∀ e, e.child = some h → (e ∈ w'.trace ↔ e ∈ w.trace) := by
    intro e he
    rw [← List.count_pos_iff, hcount e he, List.count_pos_iff]
  have hwait : h ∈ w'.waiting ↔ h ∈ w.waiting := by
    rw [← List.count_pos_iff, hwaiting, List.count_pos_iff]
  have hrun : h ∈ w'.running ↔ h ∈ w.running := by
    rw [← List.count_pos_iff, hrunning, List.count_pos_iff]
  have hcalls : w'.calls h = w.calls h :=
    calls_append htrace fun e he => isCall_of_child (hes e he)
  refine ⟨?_, ?_, ?_, ?_, ?_, ?_, ?_, ?_, ?_, ?_⟩
  · rw [hcount _ rfl, hwaiting, hrunning, hinv.once]
    simp only [hnext]
  · rw [hheap, hwait, hrun]
    exact hinv.alive
  · rw [hcount _ rfl, hcount _ rfl, hcount _ rfl]
    exact hinv.freed
  · rw [hheap, hwait, hcalls]
    exact hinv.waits
  · rw [hheap, hrun]
    exact hinv.runs
  · rw [hheap, hmem _ rfl]
    exact hinv.marked
  · rw [← not_lt, hnext, not_lt, hmem _ rfl, hcalls]
    exact hinv.unmade
  · rw [hcalls]
    exact hinv.calls
  · rw [htrace]
    exact hinv.order.append_all fun e he => isCall_of_child (hes e he)
  · rw [hmem _ rfl]
    exact hinv.valid

/-- Where a handler that exists is. -/
theorem HandlerInv.lt_next (hinv : HandlerInv w h) (hheap : w.heap h ≠ none) : h < w.next := by
  by_contra hge
  have honce := hinv.once
  rw [if_neg hge] at honce
  obtain hin | hin := hinv.alive.1 hheap
  · have := List.count_pos_iff.2 hin
    omega
  · have := List.count_pos_iff.2 hin
    omega

theorem HandlerInv.heap_next (hinv : HandlerInv w w.next) : w.heap w.next = none := by
  by_contra hheap
  exact lt_irrefl _ (hinv.lt_next hheap)

/-! ### Marking a handler -/

/-- `w'` is `w` with the handler `h` marked. -/
structure Retired (h : ℕ) (w w' : ChildWatcher) : Prop where
  heap : ∃ c, w.heap h = some c ∧ w'.heap = Function.update w.heap h (some { c with removed := true })
  next : w'.next = w.next
  handlers : w'.handlers = w.handlers
  inFlight : w'.inFlight = w.inFlight
  ready : w'.ready = w.ready
  frames : w'.frames = w.frames
  phase : w'.phase = w.phase
  trace : ∃ es, w'.trace = w.trace ++ .removed h :: es ∧ ∀ e ∈ es, e.child = none

/-- A handler that still exists is only marked: its poll is cancelled, or `on_child_exit` runs. -/
theorem HandlerInv.retired (hinv : HandlerInv w h) (hheap : w.heap h ≠ none) :
    Retired h w (w.retire h) := by
  obtain ⟨c, hc⟩ := Option.ne_none_iff_exists'.1 hheap
  unfold retire
  rw [hc]
  dsimp only
  by_cases hcompleted : c.completed = true
  · rw [if_pos hcompleted]
    exact ⟨⟨c, hc, rfl⟩, rfl, rfl, rfl, rfl, rfl, rfl, [], rfl, nofun⟩
  · have htask : c.taskId ≠ 0 := by
      obtain hin | hin := hinv.alive.1 hheap
      · exact (hinv.waits c hc hin).2.1
      · exact absurd (hinv.runs c hc hin) hcompleted
    rw [if_neg hcompleted, if_pos htask]
    refine ⟨⟨c, hc, rfl⟩, rfl, rfl, rfl, rfl, rfl, rfl, [.cancelIo c.taskId], ?_, ?_⟩
    · exact List.append_assoc _ _ _
    · intro e he
      rw [List.mem_singleton.1 he]
      rfl

theorem HandlerInv.of_retired (hinv : HandlerInv w h) {h' : ℕ} (hret : Retired h' w w') :
    HandlerInv w' h := by
  obtain ⟨⟨c, hc, hheap⟩, hnext, -, hinFlight, hready, hframes, -, es, htrace, hes⟩ := hret
  have hwaiting : w'.waiting = w.waiting := by rw [waiting, hinFlight, hready, waiting]
  have hrunning : w'.running = w.running := by rw [running, hframes, running]
  by_cases hh : h = h'
  · subst hh
    have hcount : ∀ e, e ≠ .removed h → e.child ≠ none → w'.trace.count e = w.trace.count e := by
      intro e he hchild
      have hnot : e ∉ es := fun hin => hchild (hes e hin)
      rw [htrace, List.count_append, List.count_cons_of_ne he.symm,
        List.count_eq_zero_of_not_mem hnot, Nat.add_zero]
    have hcall : ∀ e ∈ Effect.removed h :: es, e.isCall h = false := by
      intro e he
      obtain rfl | he := List.mem_cons.1 he
      · rfl
      · exact isCall_of_child (by rw [hes e he]; exact nofun)
    have hcalls : w'.calls h = w.calls h := calls_append htrace hcall
    have hself : w'.heap h = some { c with removed := true } := by
      rw [hheap, Function.update_self]
    have hlt := hinv.lt_next (by rw [hc]; exact nofun)
    refine ⟨?_, ?_, ?_, ?_, ?_, ?_, ?_, ?_, ?_, ?_⟩
    · rw [hcount (.destroy h) nofun nofun, hwaiting, hrunning, hnext]
      exact hinv.once
    · rw [hself, hwaiting, hrunning, ← hinv.alive, hc]
      exact iff_of_true nofun nofun
    · rw [hcount (.closePidfd h) nofun nofun, hcount (.destroy h) nofun nofun,
        hcount (.decref h) nofun nofun]
      exact hinv.freed
    · intro c' hc' hin
      obtain rfl := Option.some.inj (hself.symm.trans hc')
      rw [hwaiting] at hin
      rw [hcalls]
      exact hinv.waits c hc hin
    · intro c' hc' hin
      obtain rfl := Option.some.inj (hself.symm.trans hc')
      rw [hrunning] at hin
      exact hinv.runs c hc hin
    · intro c' hc'
      obtain rfl := Option.some.inj (hself.symm.trans hc')
      refine iff_of_true rfl ?_
      rw [htrace]
      exact List.mem_append_right _ List.mem_cons_self
    · rw [hnext]
      exact fun hle => absurd hlt (not_lt.2 hle)
    · rw [hcalls]
      exact hinv.calls
    · rw [htrace]
      exact hinv.order.append_all hcall
    · rw [← List.count_eq_zero, hcount (.invalidAccess h) nofun nofun, List.count_eq_zero]
      exact hinv.valid
  · refine hinv.of_same ⟨by rw [hwaiting], by rw [hrunning], ?_, by rw [hnext], _, htrace, ?_⟩
    · rw [hheap, Function.update_of_ne hh]
    · intro e he
      obtain rfl | he := List.mem_cons.1 he
      · exact fun heq => hh (Option.some.inj heq).symm
      · rw [hes e he]
        exact nofun

/-! ### Tearing a handler down -/

theorem teardown_eq (hc : w.heap h = some c) :
    w.teardown h =
      { w with
        trace := w.trace ++ [.closePidfd h, .decref h, .destroy h]
        heap := Function.update w.heap h none } := by
  simp [teardown, hc, emit]

theorem finalize_eq (hc : w.heap h = some c) :
    w.finalize h =
      { w with
        handlers := if w.handlers.lookup c.pid = some h then w.handlers.erase c.pid else w.handlers
      }.teardown h := by
  rw [finalize, hc]
  dsimp only
  split <;> rfl

theorem finalize_phase (hc : w.heap h = some c) : (w.finalize h).phase = w.phase := by
  rw [finalize_eq hc, teardown_eq (by exact hc)]

/-- The handler that is torn down was waiting or running before, once. -/
theorem HandlerInv.tornDown (hinv : HandlerInv w h) (hc : v.heap h = some c)
    (htrace : v.trace = w.trace) (hnext : v.next = w.next)
    (hcount : v.waiting.count h + v.running.count h + 1 = w.waiting.count h + w.running.count h) :
    HandlerInv (v.teardown h) h := by
  have honce := hinv.once
  have hlt : h < w.next := by
    by_contra hge
    rw [if_neg hge] at honce
    omega
  rw [if_pos hlt] at honce
  have hdestroy : w.trace.count (.destroy h) = 0 := by omega
  have hwaiting : v.waiting.count h = 0 := by omega
  have hrunning : v.running.count h = 0 := by omega
  rw [teardown_eq hc, htrace]
  have hcall : ∀ e ∈ [Effect.closePidfd h, .decref h, .destroy h], e.isCall h = false := by
    intro e he
    simp only [List.mem_cons, List.not_mem_nil, or_false] at he
    obtain rfl | rfl | rfl := he <;> rfl
  have hself : (Function.update v.heap h none) h = none := Function.update_self _ _ _
  refine ⟨?_, ?_, ?_, ?_, ?_, ?_, ?_, ?_, ?_, ?_⟩
  · show (w.trace ++ [_, _, _]).count _ + v.waiting.count h + v.running.count h = _
    rw [List.count_append, hdestroy, hwaiting, hrunning, hnext, if_pos hlt]
    simp
  · show (Function.update v.heap h none) h ≠ none ↔ h ∈ v.waiting ∨ h ∈ v.running
    rw [hself, ← List.count_pos_iff, ← List.count_pos_iff, hwaiting, hrunning]
    simp
  · obtain ⟨hclose, hdecref⟩ := hinv.freed
    show (w.trace ++ _).count _ = (w.trace ++ _).count _ ∧
      (w.trace ++ _).count _ = (w.trace ++ _).count _
    rw [List.count_append, List.count_append, List.count_append, hclose, hdecref]
    simp
  · exact fun c' hc' => nomatch hself.symm.trans hc'
  · exact fun c' hc' => nomatch hself.symm.trans hc'
  · exact fun c' hc' => nomatch hself.symm.trans hc'
  · intro hle
    exact absurd hlt (not_lt.2 (hnext ▸ hle))
  · rw [calls_append rfl hcall]
    exact hinv.calls
  · exact hinv.order.append_all hcall
  · simpa using hinv.valid

/-- Tearing down another handler changes nothing for `h`. -/
theorem sameFor_teardown {h' : ℕ} (hne : h ≠ h') (hc : v.heap h' = some c)
    (hsame : SameFor h w v) : SameFor h w (v.teardown h') := by
  obtain ⟨hwaiting, hrunning, hheap, hnext, es, htrace, hes⟩ := hsame
  rw [teardown_eq hc]
  refine ⟨hwaiting, hrunning, ?_, hnext, es ++ [.closePidfd h', .decref h', .destroy h'], ?_, ?_⟩
  · exact (Function.update_of_ne hne _ _).trans hheap
  · show v.trace ++ _ = _
    rw [htrace, List.append_assoc]
  · intro e he
    obtain he | he := List.mem_append.1 he
    · exact hes e he
    · simp only [List.mem_cons, List.not_mem_nil, or_false] at he
      obtain rfl | rfl | rfl := he <;> exact fun heq => hne (Option.some.inj heq).symm

/-! ### `on_child_exit` -/

/-- What `on_child_exit` finds: after `deinit` every handler is marked, and before it no invocation is
cancelled unless its handler was taken out of the map. -/
structure Expected (w : ChildWatcher) (c : ChildHandler) (cancelled : Bool) : Prop where
  onCancel : cancelled = true → c.removed = true
  onRun : cancelled = false → w.phase = .running

/-- `on_child_exit` tears its handler down, or arms the poll again, or calls the child callback. -/
theorem onChildExit_cases {cancelled : Bool} (hc : w.heap h = some c)
    (hexpected : Expected w c cancelled) (waitid : Waitid) (task : ℕ) (allocates : Bool) :
    (c.removed = true ∧ w.onChildExit h cancelled waitid task allocates =
        (w.setHandler h { c with taskId := 0, completed := true }).teardown h) ∨
      (c.removed = false ∧
        (w.onChildExit h cancelled waitid task allocates =
            (w.setHandler h { c with taskId := 0, completed := true }).finalize h ∨
          w.onChildExit h cancelled waitid task allocates =
            (w.setHandler h { c with taskId := 0, completed := true }).rearm h
              { c with taskId := 0, completed := true } task ∨
          ∃ returncode, w.onChildExit h cancelled waitid task allocates =
            { w.setHandler h { c with taskId := 0, completed := true } with
              frames := .callback h :: w.frames }.emit (.called h c.pid returncode))) := by
  rw [onChildExit, hc]
  dsimp only
  cases cancelled with
  | true => exact .inl ⟨hexpected.onCancel rfl, by rw [if_pos rfl, if_pos (hexpected.onCancel rfl)]⟩
  | false =>
    have hrunning : ¬(w.setHandler h { c with taskId := 0, completed := true }).phase ≠ .running :=
      not_not_intro (hexpected.onRun rfl)
    rw [if_neg Bool.false_ne_true, if_neg hrunning]
    cases hremoved : c.removed with
    | true => exact .inl ⟨rfl, if_pos rfl⟩
    | false =>
      refine .inr ⟨rfl, ?_⟩
      rw [if_neg Bool.false_ne_true]
      cases waitid with
      | errno e =>
        dsimp only
        split
        · exact .inl rfl
        · exact .inr (.inl rfl)
      | success info =>
        dsimp only
        cases classifyChildSiginfo info with
        | none => exact .inr (.inl rfl)
        | some returncode =>
          cases allocates with
          | true => exact .inr (.inr ⟨returncode, rfl⟩)
          | false => exact .inl rfl

/-- The handler `h` still exists, in another place and with other fields. -/
theorem HandlerInv.updated (hinv : HandlerInv w h) (hc : w.heap h = some c) {c' : ChildHandler}
    (hc' : v.heap h = some c') (hremoved : c'.removed = c.removed) (hnext : v.next = w.next)
    (hcount : v.waiting.count h + v.running.count h = w.waiting.count h + w.running.count h)
    {e : Effect} (htrace : v.trace = w.trace ++ [e]) (he : e.isCall h = false → e.child ≠ some h)
    (hwaits : h ∈ v.waiting → c'.completed = false ∧ c'.taskId ≠ 0 ∧ v.calls h = 0)
    (hruns : h ∈ v.running → c'.completed = true) (hcalls : v.calls h ≤ 1)
    (hcall : e.isCall h = true → c.removed = false) : HandlerInv v h := by
  have hsame : ∀ e', e'.child = some h → e'.isCall h = false → v.trace.count e' = w.trace.count e' := by
    intro e' hchild hnot
    have hne : e ≠ e' := by
      rintro rfl
      exact he hnot hchild
    rw [htrace, List.count_append, List.count_singleton, if_neg (by simpa using hne), Nat.add_zero]
  have hmem : ∀ e', e'.child = some h → e'.isCall h = false → (e' ∈ v.trace ↔ e' ∈ w.trace) := by
    intro e' hchild hnot
    rw [← List.count_pos_iff, hsame e' hchild hnot, List.count_pos_iff]
  have hlt := hinv.lt_next (by rw [hc]; exact nofun)
  refine ⟨?_, ?_, ?_, ?_, ?_, ?_, ?_, hcalls, ?_, ?_⟩
  · rw [hsame _ rfl rfl, add_assoc, hcount, hnext, ← hinv.once, add_assoc]
  · refine iff_of_true (by rw [hc']; exact nofun) ?_
    obtain hin | hin := hinv.alive.1 (by rw [hc]; exact nofun)
    · have := List.count_pos_iff.2 hin
      by_contra hnot
      obtain ⟨hwait, hrun⟩ := not_or.1 hnot
      rw [List.count_eq_zero_of_not_mem hwait, List.count_eq_zero_of_not_mem hrun] at hcount
      omega
    · have := List.count_pos_iff.2 hin
      by_contra hnot
      obtain ⟨hwait, hrun⟩ := not_or.1 hnot
      rw [List.count_eq_zero_of_not_mem hwait, List.count_eq_zero_of_not_mem hrun] at hcount
      omega
  · rw [hsame _ rfl rfl, hsame _ rfl rfl, hsame _ rfl rfl]
    exact hinv.freed
  · intro c'' hc'' hin
    obtain rfl := Option.some.inj (hc'.symm.trans hc'')
    exact hwaits hin
  · intro c'' hc'' hin
    obtain rfl := Option.some.inj (hc'.symm.trans hc'')
    exact hruns hin
  · intro c'' hc''
    obtain rfl := Option.some.inj (hc'.symm.trans hc'')
    rw [hremoved, hmem _ rfl rfl]
    exact hinv.marked c hc
  · rw [hnext]
    exact fun hle => absurd hlt (not_lt.2 hle)
  · rw [htrace]
    refine hinv.order.append fun hiscall hin => ?_
    rw [← hinv.marked c hc, hcall hiscall] at hin
    exact nomatch hin
  · rw [hmem _ rfl rfl]
    exact hinv.valid

theorem onChildExit_phase {cancelled : Bool} (hc : w.heap h = some c)
    (hexpected : Expected w c cancelled) (waitid : Waitid) (task : ℕ) (allocates : Bool) :
    (w.onChildExit h cancelled waitid task allocates).phase = w.phase := by
  have hself : ∀ c', (w.setHandler h c').heap h = some c' := fun c' => Function.update_self _ _ _
  obtain ⟨-, heq⟩ | ⟨-, heq | heq | ⟨returncode, heq⟩⟩ :=
    onChildExit_cases hc hexpected waitid task allocates
  · rw [heq, teardown_eq (hself _)]
    rfl
  · rw [heq]
    exact finalize_phase (hself _)
  · rw [heq]
    rfl
  · rw [heq]
    rfl

/-- `on_child_exit` keeps what holds of its own handler. -/
theorem HandlerInv.onChildExit (hinv : HandlerInv w h) {ready : List ℕ} (hready : w.ready = h :: ready)
    (hc : w.heap h = some c) {cancelled : Bool} (hexpected : Expected w c cancelled)
    (waitid : Waitid) {task : ℕ} (htask : cancelled = false → task ≠ 0) (allocates : Bool) :
    HandlerInv ({ w with ready := ready }.onChildExit h cancelled waitid task allocates) h := by
  have hwaits : h ∈ w.waiting := by simp [waiting, hready]
  obtain ⟨-, -, hcalls⟩ := hinv.waits c hc hwaits
  have hcount : (w.inFlight ++ ready).count h + 1 = w.waiting.count h := by
    rw [waiting, hready, List.count_append, List.count_append, List.count_cons_self]
    omega
  have hlt := hinv.lt_next (by rw [hc]; exact nofun)
  have honce := hinv.once
  rw [if_pos hlt] at honce
  have hself : ∀ c', (Function.update w.heap h (some c')) h = some c' :=
    fun c' => Function.update_self _ _ _
  obtain ⟨-, heq⟩ | ⟨hremoved, heq | heq | ⟨returncode, heq⟩⟩ :=
    onChildExit_cases (w := { w with ready := ready }) hc ⟨hexpected.1, hexpected.2⟩ waitid task allocates
  · rw [heq]
    refine hinv.tornDown (hself _) rfl rfl ?_
    show (w.inFlight ++ ready).count h + w.running.count h + 1 = _
    omega
  · rw [heq, finalize_eq (hself _)]
    refine hinv.tornDown (hself _) rfl rfl ?_
    show (w.inFlight ++ ready).count h + w.running.count h + 1 = _
    omega
  · have hcancelled : cancelled = false := by
      cases cancelled with
      | true => exact nomatch hremoved.symm.trans (hexpected.onCancel rfl)
      | false => rfl
    have hrunning : h ∉ w.running := by
      rw [← List.count_pos_iff]
      omega
    rw [heq]
    have hsame : ChildWatcher.calls (({ w with ready := ready }.setHandler h
        { c with taskId := 0, completed := true }).rearm h
          { c with taskId := 0, completed := true } task) h = 0 := by
      rw [← hcalls]
      refine calls_append rfl fun e he => ?_
      rw [List.mem_singleton.1 he]
      rfl
    refine hinv.updated hc (Function.update_self _ _ _) rfl rfl ?_ rfl (fun _ => nofun) ?_ ?_ ?_ nofun
    · show ((w.inFlight ++ [h]) ++ ready).count h + w.running.count h = _
      rw [List.count_append, List.count_append, List.count_singleton_self]
      rw [List.count_append] at hcount
      omega
    · exact fun _ => ⟨rfl, htask hcancelled, hsame⟩
    · exact fun hin => absurd hin hrunning
    · rw [hsame]
      exact Nat.zero_le _
  · have hwaiting : h ∉ w.inFlight ++ ready := by
      rw [← List.count_pos_iff]
      omega
    rw [heq]
    refine hinv.updated hc (hself _) rfl rfl ?_ rfl ?_ ?_ ?_ ?_ fun _ => hremoved
    · show (w.inFlight ++ ready).count h + (h :: w.running).count h = _
      rw [List.count_cons_self]
      omega
    · intro hnot
      simp [Effect.isCall] at hnot
    · exact fun hin => absurd hin hwaiting
    · exact fun _ => rfl
    · show (w.trace ++ [Effect.called h c.pid returncode]).countP (Effect.isCall h) ≤ 1
      rw [List.countP_append]
      have : w.trace.countP (Effect.isCall h) = 0 := hcalls
      simp [this, Effect.isCall]

/-- `on_child_exit` is about its own handler only. -/
theorem sameFor_onChildExit {h' : ℕ} {ready : List ℕ} (hready : w.ready = h' :: ready) (hne : h ≠ h')
    (hc : w.heap h' = some c) {cancelled : Bool} (hexpected : Expected w c cancelled) (waitid : Waitid)
    (task : ℕ) (allocates : Bool) :
    SameFor h w ({ w with ready := ready }.onChildExit h' cancelled waitid task allocates) := by
  have hcount : (w.inFlight ++ ready).count h = w.waiting.count h := by
    rw [waiting, hready, List.count_append, List.count_append, List.count_cons_of_ne hne.symm]
  have hself : ∀ c', (Function.update w.heap h' (some c')) h' = some c' :=
    fun c' => Function.update_self _ _ _
  have hheap : ∀ c', (Function.update w.heap h' c') h = w.heap h := fun c' => Function.update_of_ne hne _ _
  have hquiet : SameFor h w
      ({ w with ready := ready }.setHandler h' { c with taskId := 0, completed := true }) :=
    ⟨hcount, rfl, hheap _, .rfl, [], (List.append_nil _).symm, nofun⟩
  obtain ⟨-, heq⟩ | ⟨-, heq | heq | ⟨returncode, heq⟩⟩ :=
    onChildExit_cases (w := { w with ready := ready }) hc ⟨hexpected.1, hexpected.2⟩ waitid task allocates
  · rw [heq]
    exact sameFor_teardown hne (hself _) hquiet
  · rw [heq, finalize_eq (hself _)]
    refine sameFor_teardown hne (hself _) ⟨hquiet.waiting, hquiet.running, hquiet.heap, .rfl, [], ?_, nofun⟩
    exact (List.append_nil _).symm
  · rw [heq]
    refine ⟨?_, rfl, (Function.update_of_ne hne _ _).trans (hheap _), .rfl, _, rfl, ?_⟩
    · show ((w.inFlight ++ [h']) ++ ready).count h = _
      rw [List.count_append, List.count_append, List.count_singleton, if_neg (by simpa using hne.symm)]
      rw [List.count_append] at hcount
      exact hcount
    · intro e he
      rw [List.mem_singleton.1 he]
      exact nofun
  · rw [heq]
    refine ⟨hcount, List.count_cons_of_ne hne.symm, hheap _, .rfl, _, rfl, ?_⟩
    intro e he
    rw [List.mem_singleton.1 he]
    exact fun heq => hne (Option.some.inj heq).symm

/-! ### The map -/

/-- The map has the handlers that exist and are not marked, each under its own pid. -/
def Mapped (w : ChildWatcher) : Prop :=
  ∀ pid h, w.handlers.lookup pid = some h ↔ ∃ c, w.heap h = some c ∧ c.pid = pid ∧ c.removed = false

theorem Mapped.congr (hm : Mapped w) (hheap : v.heap = w.heap) (hhandlers : v.handlers = w.handlers) :
    Mapped v := by
  intro pid h
  rw [hheap, hhandlers]
  exact hm pid h

/-- What the map says about a handler does not change when its pid and its mark do not. -/
theorem Mapped.setHandler (hm : Mapped w) (hc : w.heap h = some c) {c' : ChildHandler}
    (hpid : c'.pid = c.pid) (hremoved : c'.removed = c.removed) : Mapped (w.setHandler h c') := by
  intro pid h'
  show w.handlers.lookup pid = some h' ↔ ∃ d, Function.update w.heap h (some c') h' = some d ∧ _
  rw [hm pid h']
  by_cases hh : h' = h
  · subst hh
    simp [hc, hpid, hremoved]
  · rw [Function.update_of_ne hh]

/-- Tearing down a marked handler. -/
theorem Mapped.teardown (hm : Mapped w) (hc : w.heap h = some c) (hremoved : c.removed = true) :
    Mapped (w.teardown h) := by
  rw [teardown_eq hc]
  intro pid h'
  show w.handlers.lookup pid = some h' ↔ ∃ d, Function.update w.heap h none h' = some d ∧ _
  rw [hm pid h']
  by_cases hh : h' = h
  · subst hh
    simp [hc, hremoved]
  · rw [Function.update_of_ne hh]

/-- A handler that finishes leaves the entries of the others alone. -/
theorem Mapped.finalize (hm : Mapped w) (hc : w.heap h = some c) : Mapped (w.finalize h) := by
  cases hremoved : c.removed with
  | true =>
    have hnot : w.handlers.lookup c.pid ≠ some h := by
      intro hlookup
      obtain ⟨d, hd, -, hunmarked⟩ := (hm c.pid h).1 hlookup
      obtain rfl := Option.some.inj (hc.symm.trans hd)
      exact nomatch hremoved.symm.trans hunmarked
    rw [finalize_eq hc, if_neg hnot]
    exact (hm.congr rfl rfl : Mapped { w with handlers := w.handlers }).teardown hc hremoved
  | false =>
    have hlookup : w.handlers.lookup c.pid = some h := (hm c.pid h).2 ⟨c, hc, rfl, hremoved⟩
    rw [finalize_eq hc, if_pos hlookup,
      teardown_eq (w := { w with handlers := w.handlers.erase c.pid }) hc]
    intro pid h'
    show (w.handlers.erase c.pid).lookup pid = some h' ↔
      ∃ d, Function.update w.heap h none h' = some d ∧ _
    by_cases hpid : pid = c.pid
    · subst hpid
      rw [AList.lookup_erase]
      refine iff_of_false nofun ?_
      rintro ⟨d, hd, hsame, hunmarked⟩
      by_cases hh : h' = h
      · subst hh
        rw [Function.update_self] at hd
        exact nomatch hd
      · rw [Function.update_of_ne hh] at hd
        have := (hm c.pid h').2 ⟨d, hd, hsame, hunmarked⟩
        exact hh (Option.some.inj (this.symm.trans hlookup))
    · rw [AList.lookup_erase_ne hpid, hm pid h']
      by_cases hh : h' = h
      · subst hh
        rw [Function.update_self, hc]
        refine iff_of_false ?_ nofun
        rintro ⟨d, hd, hsame, -⟩
        obtain rfl := Option.some.inj hd
        exact hpid hsame.symm
      · rw [Function.update_of_ne hh]

/-- `on_child_exit` keeps the map. -/
theorem Mapped.onChildExit (hm : Mapped w) (hc : w.heap h = some c) {cancelled : Bool}
    (hexpected : Expected w c cancelled) (waitid : Waitid) (task : ℕ) (allocates : Bool) :
    Mapped (w.onChildExit h cancelled waitid task allocates) := by
  have hself : ∀ c', (Function.update w.heap h (some c')) h = some c' :=
    fun c' => Function.update_self _ _ _
  have hset : Mapped (w.setHandler h { c with taskId := 0, completed := true }) :=
    hm.setHandler hc rfl rfl
  obtain ⟨hremoved, heq⟩ | ⟨-, heq | heq | ⟨returncode, heq⟩⟩ :=
    onChildExit_cases hc hexpected waitid task allocates
  · rw [heq]
    exact hset.teardown (hself _) hremoved
  · rw [heq]
    exact hset.finalize (hself _)
  · rw [heq]
    have hagain := hset.setHandler (hself _)
      (show ChildHandler.pid { c with taskId := task, completed := false } = c.pid from rfl) rfl
    exact hagain.congr rfl rfl
  · rw [heq]
    exact hset.congr rfl rfl

/-! ### Adding and removing -/

/-- The new handler waits for its poll. -/
theorem HandlerInv.register (hinv : HandlerInv w h) (pid : ℤ) (pidfd : ℕ) {task : ℕ} (htask : task ≠ 0) :
    HandlerInv (w.register pid pidfd task) h := by
  have hcount : (w.register pid pidfd task).waiting.count h =
      w.waiting.count h + if w.next = h then 1 else 0 := by
    show ((w.inFlight ++ [w.next]) ++ w.ready).count h = _
    rw [waiting, List.count_append, List.count_append, List.count_append, List.count_singleton]
    simp only [beq_iff_eq]
    omega
  by_cases hh : h = w.next
  · subst hh
    have honce := hinv.once
    rw [if_neg (lt_irrefl _)] at honce
    obtain ⟨hremoved, hcalls⟩ := hinv.unmade le_rfl
    have hself : (w.register pid pidfd task).heap w.next = some ⟨pid, pidfd, task, false, false⟩ :=
      Function.update_self _ _ _
    have hsame : ∀ e, e ≠ Effect.waitReadable pidfd task →
        (w.register pid pidfd task).trace.count e = w.trace.count e := by
      intro e he
      show (w.trace ++ [_]).count e = _
      rw [List.count_append, List.count_singleton, if_neg (by simpa using he.symm), Nat.add_zero]
    have hcalls' : (w.register pid pidfd task).calls w.next = 0 := by
      rw [← hcalls]
      refine calls_append rfl fun e he => ?_
      rw [List.mem_singleton.1 he]
      rfl
    rw [if_pos rfl] at hcount
    refine ⟨?_, ?_, ?_, ?_, ?_, ?_, ?_, ?_, ?_, ?_⟩
    · rw [hsame (.destroy w.next) nofun, hcount]
      show _ + _ + w.running.count w.next = if w.next < w.next + 1 then 1 else 0
      rw [if_pos (Nat.lt_succ_self _)]
      omega
    · rw [hself]
      refine iff_of_true nofun (.inl ?_)
      rw [← List.count_pos_iff]
      omega
    · rw [hsame (.closePidfd w.next) nofun, hsame (.destroy w.next) nofun, hsame (.decref w.next) nofun]
      exact hinv.freed
    · intro c hc _
      obtain rfl := Option.some.inj (hself.symm.trans hc)
      exact ⟨rfl, htask, hcalls'⟩
    · intro c hc hin
      have : 0 < w.running.count w.next := List.count_pos_iff.2 hin
      omega
    · intro c hc
      obtain rfl := Option.some.inj (hself.symm.trans hc)
      refine iff_of_false nofun ?_
      rw [← List.count_eq_zero, hsame (.removed w.next) nofun, List.count_eq_zero]
      exact hremoved
    · exact fun hle => absurd hle (Nat.not_succ_le_self _)
    · rw [hcalls']
      exact Nat.zero_le _
    · exact hinv.order.append nofun
    · rw [← List.count_eq_zero, hsame (.invalidAccess w.next) nofun, List.count_eq_zero]
      exact hinv.valid
  · refine hinv.of_same ⟨?_, rfl, Function.update_of_ne hh _ _, ?_, _, rfl, ?_⟩
    · rw [hcount, if_neg (Ne.symm hh), Nat.add_zero]
    · show h < w.next + 1 ↔ h < w.next
      omega
    · intro e he
      rw [List.mem_singleton.1 he]
      exact nofun

/-- The map without the entry of `pid`, and the handler it named marked. -/
inductive Unmapped (pid : ℤ) (w : ChildWatcher) : ChildWatcher → Prop
  | nobody (hlookup : w.handlers.lookup pid = none) :
    Unmapped pid w { w with handlers := w.handlers.erase pid }
  | retired {old : ℕ} {v : ChildWatcher} (hlookup : w.handlers.lookup pid = some old)
    (hret : Retired old { w with handlers := w.handlers.erase pid } v) : Unmapped pid w v

/-- Where `fetchRemove` finds a handler, it is one that exists. -/
theorem unmapped_fetchRemove (hinv : ∀ h, HandlerInv w h) (hphase : w.phase = .running) {pid : ℤ}
    (halive : ∀ old, w.handlers.lookup pid = some old → w.heap old ≠ none) (stale : Option ℕ) :
    Unmapped pid w
      (match w.fetchRemove pid stale with
        | (none, w) => w
        | (some old, w) => w.retire old) := by
  rw [fetchRemove, if_pos hphase]
  cases hlookup : w.handlers.lookup pid with
  | none => exact .nobody hlookup
  | some old =>
    refine .retired hlookup (HandlerInv.retired ?_ (halive old hlookup))
    exact (hinv old).of_same ⟨rfl, rfl, rfl, .rfl, [], (List.append_nil _).symm, nofun⟩

theorem Unmapped.handlerInv {pid : ℤ} (hun : Unmapped pid w v) (hinv : HandlerInv w h) :
    HandlerInv v h := by
  have herase : HandlerInv { w with handlers := w.handlers.erase pid } h :=
    hinv.of_same ⟨rfl, rfl, rfl, .rfl, [], (List.append_nil _).symm, nofun⟩
  cases hun with
  | nobody _ => exact herase
  | retired _ hret => exact herase.of_retired hret

/-- What else stays as it was. -/
theorem Unmapped.frame {pid : ℤ} (hun : Unmapped pid w v) :
    v.phase = w.phase ∧ v.frames = w.frames ∧ v.handlers = w.handlers.erase pid := by
  cases hun with
  | nobody _ => exact ⟨rfl, rfl, rfl⟩
  | retired _ hret => exact ⟨hret.phase, hret.frames, hret.handlers⟩

/-- After the entry of `pid` was taken out, the other handlers that are not marked are those that
were not. -/
theorem Unmapped.heap {pid : ℤ} (hun : Unmapped pid w v) {P : ChildHandler → Prop} (h : ℕ)
    (hP : ∀ c, P c → c.removed = false) :
    (∃ c, v.heap h = some c ∧ P c) ↔
      (∃ c, w.heap h = some c ∧ P c) ∧ w.handlers.lookup pid ≠ some h := by
  cases hun with
  | nobody hlookup => simp [hlookup]
  | @retired old _ hlookup hret =>
    obtain ⟨c, hc, hheap⟩ := hret.heap
    rw [hheap]
    by_cases hh : h = old
    · subst hh
      rw [Function.update_self]
      refine iff_of_false ?_ fun hboth => hboth.2 hlookup
      rintro ⟨d, hd, hd'⟩
      obtain rfl := Option.some.inj hd
      exact nomatch hP _ hd'
    · rw [Function.update_of_ne hh, hlookup]
      refine ⟨fun hex => ⟨hex, fun heq => hh (Option.some.inj heq).symm⟩, And.left⟩

/-- The map without `pid`. -/
theorem Unmapped.mapped {pid : ℤ} (hun : Unmapped pid w v) (hm : Mapped w) : Mapped v := by
  intro pid' h
  rw [hun.frame.2.2, hun.heap h fun c hc => hc.2, ← hm pid' h]
  by_cases hpid : pid' = pid
  · subst hpid
    rw [AList.lookup_erase]
    exact iff_of_false nofun fun hboth => hboth.2 hboth.1
  · rw [AList.lookup_erase_ne hpid]
    refine ⟨fun hlookup => ⟨hlookup, fun hother => hpid ?_⟩, And.left⟩
    obtain ⟨c, hc, hcpid, -⟩ := (hm pid' h).1 hlookup
    obtain ⟨d, hd, hdpid, -⟩ := (hm pid h).1 hother
    obtain rfl := Option.some.inj (hc.symm.trans hd)
    exact hcpid.symm.trans hdpid

/-- The map with the new handler in the place of the old one. -/
theorem Unmapped.mapped_insert {pid : ℤ} {pidfd task : ℕ}
    (hun : Unmapped pid (w.register pid pidfd task) v) (hm : Mapped w) (hnext : w.heap w.next = none) :
    Mapped { v with handlers := v.handlers.insert pid w.next } := by
  intro pid' h
  show (v.handlers.insert pid w.next).lookup pid' = some h ↔ ∃ c, v.heap h = some c ∧ _
  rw [hun.frame.2.2, hun.heap h fun c hc => hc.2,
    show (w.register pid pidfd task).handlers = w.handlers from rfl]
  have hfresh : ∀ p, w.handlers.lookup p ≠ some w.next := by
    intro p hlookup
    obtain ⟨c, hc, -⟩ := (hm p w.next).1 hlookup
    exact nomatch hnext.symm.trans hc
  show _ ↔ (∃ c, Function.update w.heap w.next (some ⟨pid, pidfd, task, false, false⟩) h = some c ∧ _) ∧
    w.handlers.lookup pid ≠ some h
  by_cases hh : h = w.next
  · subst hh
    rw [Function.update_self]
    by_cases hpid : pid' = pid
    · subst hpid
      rw [AList.lookup_insert]
      exact iff_of_true rfl ⟨⟨_, rfl, rfl, rfl⟩, hfresh pid'⟩
    · rw [AList.lookup_insert_ne hpid, AList.lookup_erase_ne hpid]
      refine iff_of_false (hfresh pid') ?_
      rintro ⟨⟨c, hc, hcpid, -⟩, -⟩
      obtain rfl := Option.some.inj hc
      exact hpid hcpid.symm
  · rw [Function.update_of_ne hh, ← hm pid' h]
    by_cases hpid : pid' = pid
    · subst hpid
      rw [AList.lookup_insert]
      exact iff_of_false (fun heq => hh (Option.some.inj heq).symm) fun hboth => hboth.2 hboth.1
    · rw [AList.lookup_insert_ne hpid, AList.lookup_erase_ne hpid]
      refine ⟨fun hlookup => ⟨hlookup, fun hother => hpid ?_⟩, And.left⟩
      obtain ⟨c, hc, hcpid, -⟩ := (hm pid' h).1 hlookup
      obtain ⟨d, hd, hdpid, -⟩ := (hm pid h).1 hother
      obtain rfl := Option.some.inj (hc.symm.trans hd)
      exact hcpid.symm.trans hdpid

/-! ### `deinit` -/

/-- `deinit` marks every handler of the map. -/
theorem foldl_retire {hs : List ℕ} (hinv : ∀ h, HandlerInv w h) (halive : ∀ h ∈ hs, w.heap h ≠ none) :
    (∀ h, HandlerInv (hs.foldl retire w) h) ∧ (hs.foldl retire w).frames = w.frames ∧
      ∀ h c, (hs.foldl retire w).heap h = some c →
        ∃ c', w.heap h = some c' ∧ (c'.removed = true ∨ h ∈ hs → c.removed = true) := by
  induction hs generalizing w with
  | nil =>
    refine ⟨hinv, rfl, fun h c hc => ⟨c, hc, ?_⟩⟩
    simp
  | cons h' hs ih =>
    have hret := (hinv h').retired (halive h' List.mem_cons_self)
    obtain ⟨c', hc', hheap⟩ := hret.heap
    have hsome : ∀ h ∈ hs, (w.retire h').heap h ≠ none := by
      intro h hh
      rw [hheap]
      by_cases heq : h = h'
      · subst heq
        rw [Function.update_self]
        exact nofun
      · rw [Function.update_of_ne heq]
        exact halive h (List.mem_cons_of_mem h' hh)
    obtain ⟨hinv', hframes, hmarked⟩ := ih (fun h => (hinv h).of_retired hret) hsome
    refine ⟨hinv', hframes.trans hret.frames, fun h c hc => ?_⟩
    obtain ⟨d, hd, hdmarked⟩ := hmarked h c hc
    rw [hheap] at hd
    by_cases heq : h = h'
    · subst heq
      rw [Function.update_self] at hd
      obtain rfl := Option.some.inj hd
      exact ⟨c', hc', fun _ => hdmarked (.inl rfl)⟩
    · rw [Function.update_of_ne heq] at hd
      refine ⟨d, hd, fun hor => hdmarked (hor.imp id fun hin => ?_)⟩
      exact (List.mem_cons.1 hin).resolve_left heq

/-! ### One step -/

/-- What holds of the map and of the phase. -/
structure MapInv (w : ChildWatcher) : Prop where
  mapped : w.phase = .running → Mapped w
  marked : w.phase ≠ .running → ∀ h c, w.heap h = some c → c.removed = true
  frames : w.phase ≠ .running → w.frames = []
  inFlight : w.phase = .draining ∨ w.phase = .closed → w.inFlight = []
  ready : w.phase = .closed → w.ready = []

/-- No `add_child_handler` after `deinit`, and a `remove_child_handler` after it finds nothing in the
freed map. -/
def Open (w : ChildWatcher) : Event → Prop
  | .addChildHandler _ _ _ _ => w.phase = .running
  | .removeChildHandler _ stale => w.phase = .running ∨ stale = none
  | _ => True

instance : DecidablePred (Open w) := fun e => by cases e <;> unfold Open <;> infer_instance

theorem MapInv.alive (hmap : MapInv w) (hphase : w.phase = .running) {pid : ℤ} :
    ∀ old, w.handlers.lookup pid = some old → w.heap old ≠ none := by
  intro old hlookup
  obtain ⟨c, hc, -⟩ := (hmap.mapped hphase pid old).1 hlookup
  rw [hc]
  exact nofun

theorem MapInv.of_running (hphase : w.phase = .running) (hm : Mapped w) : MapInv w where
  mapped := fun _ => hm
  marked := fun hnot => absurd hphase hnot
  frames := fun hnot => absurd hphase hnot
  inFlight := by
    rintro (h | h) <;> exact nomatch hphase.symm.trans h
  ready := fun h => nomatch hphase.symm.trans h

/-- User code only runs in a loop that runs. -/
theorem MapInv.running (hmap : MapInv w) {frame : Frame} {frames : List Frame}
    (hframes : w.frames = frame :: frames) : w.phase = .running := by
  by_contra hnot
  exact nomatch hframes.symm.trans (hmap.frames hnot)

/-- The frame on top finishes its handler. -/
theorem HandlerInv.finishFrame (hinv : ∀ h, HandlerInv w h) {frame : Frame} {frames : List Frame}
    (hframes : w.frames = frame :: frames) :
    ∀ h, HandlerInv ({ w with frames := frames }.finalize frame.child) h := by
  intro h
  have hrunning : w.running = frame.child :: frames.map Frame.child := by simp [running, hframes]
  have hin : frame.child ∈ w.running := by
    rw [hrunning]
    exact List.mem_cons_self
  obtain ⟨c, hc⟩ := Option.ne_none_iff_exists'.1 ((hinv frame.child).alive.2 (.inr hin))
  rw [finalize_eq (w := { w with frames := frames }) hc]
  by_cases hh : h = frame.child
  · subst hh
    refine (hinv frame.child).tornDown hc rfl rfl ?_
    show w.waiting.count _ + (frames.map Frame.child).count _ + 1 = _
    rw [hrunning, List.count_cons_self]
    omega
  · refine sameFor_teardown hh hc ?_ |> (hinv h).of_same
    refine ⟨rfl, ?_, rfl, .rfl, [], (List.append_nil _).symm, nofun⟩
    rw [hrunning, List.count_cons_of_ne (Ne.symm hh)]
    rfl

theorem MapInv.finishFrame (hinv : ∀ h, HandlerInv w h) (hmap : MapInv w) {frame : Frame}
    {frames : List Frame} (hframes : w.frames = frame :: frames) :
    MapInv ({ w with frames := frames }.finalize frame.child) := by
  have hphase := hmap.running hframes
  have hin : frame.child ∈ w.running := by simp [ChildWatcher.running, hframes]
  obtain ⟨c, hc⟩ := Option.ne_none_iff_exists'.1 ((hinv frame.child).alive.2 (.inr hin))
  have hm : Mapped { w with frames := frames } := (hmap.mapped hphase).congr rfl rfl
  refine .of_running ?_ (hm.finalize hc)
  exact (finalize_phase (w := { w with frames := frames }) hc).trans hphase

/-- What holds of a whole watcher. -/
structure WatcherInv (w : ChildWatcher) : Prop where
  handler : ∀ h, HandlerInv w h
  map : MapInv w

theorem WatcherInv.finishFrame (hinv : WatcherInv w) {frame : Frame} {frames : List Frame}
    (hframes : w.frames = frame :: frames) :
    WatcherInv ({ w with frames := frames }.finalize frame.child) :=
  ⟨HandlerInv.finishFrame hinv.handler hframes, hinv.map.finishFrame hinv.handler hframes⟩

/-- The next ready callback. -/
theorem HandlerInv.nextReady (hinv : ∀ h, HandlerInv w h) {h' : ℕ} {ready : List ℕ}
    (hready : w.ready = h' :: ready) {cancelled : Bool} (hc : w.heap h' = some c)
    (hexpected : Expected w c cancelled) (waitid : Waitid) {task : ℕ}
    (htask : cancelled = false → task ≠ 0) (allocates : Bool) :
    ∀ h, HandlerInv ({ w with ready := ready }.onChildExit h' cancelled waitid task allocates) h := by
  intro h
  by_cases hh : h = h'
  · subst hh
    exact (hinv h).onChildExit hready hc hexpected waitid htask allocates
  · exact (hinv h).of_same (sameFor_onChildExit hready hh hc hexpected waitid task allocates)

theorem HandlerInv.of_ready (hinv : ∀ h, HandlerInv w h) {h' : ℕ} {ready : List ℕ}
    (hready : w.ready = h' :: ready) : ∃ c, w.heap h' = some c := by
  refine Option.ne_none_iff_exists'.1 ((hinv h').alive.2 (.inl ?_))
  simp [waiting, hready]

/-- Handlers that only change their place on the way to `on_child_exit`. -/
theorem HandlerInv.requeued (hinv : ∀ h, HandlerInv w h) (hwaiting : v.waiting.Perm w.waiting)
    (hrunning : v.running = w.running) (hheap : v.heap = w.heap) (hnext : v.next = w.next)
    (htrace : v.trace = w.trace) : ∀ h, HandlerInv v h := by
  intro h
  refine (hinv h).of_same ⟨hwaiting.count_eq h, by rw [hrunning], by rw [hheap], by rw [hnext], [], ?_, nofun⟩
  rw [htrace, List.append_nil]

theorem WatcherInv.addChildHandler (hinv : WatcherInv w) (hphase : w.phase = .running) (pid : ℤ)
    (pidfd : ℕ) {task : ℕ} (htask : task ≠ 0) (stale : Option ℕ) :
    WatcherInv (w.addChildHandler pid pidfd task stale) := by
  have hm := hinv.map.mapped hphase
  have hreg : ∀ h, HandlerInv (w.register pid pidfd task) h :=
    fun h => (hinv.handler h).register pid pidfd htask
  have hnext := (hinv.handler w.next).heap_next
  have halive : ∀ old, (w.register pid pidfd task).handlers.lookup pid = some old →
      (w.register pid pidfd task).heap old ≠ none := by
    intro old hlookup
    have hold := hinv.map.alive hphase old hlookup
    have hne : old ≠ w.next := by
      rintro rfl
      exact hold hnext
    rw [show (w.register pid pidfd task).heap old = w.heap old from Function.update_of_ne hne _ _]
    exact hold
  have hun := unmapped_fetchRemove hreg hphase halive stale
  refine ⟨fun h => ((hun.handlerInv (hreg h)).of_same
    ⟨rfl, rfl, rfl, .rfl, [], (List.append_nil _).symm, nofun⟩), .of_running ?_ ?_⟩
  · exact hun.frame.1.trans hphase
  · exact hun.mapped_insert hm hnext

theorem removeChildHandler_eq (pid : ℤ) (stale : Option ℕ) :
    (w.removeChildHandler pid stale).2 =
      match w.fetchRemove pid stale with
      | (none, w) => w
      | (some old, w) => w.retire old := by
  rw [ChildWatcher.removeChildHandler]
  cases w.fetchRemove pid stale with
  | mk found v => cases found <;> rfl

/-- After `deinit` the map is freed, so nothing may be found in it. -/
theorem WatcherInv.removeChildHandler (hinv : WatcherInv w) (pid : ℤ) {stale : Option ℕ}
    (hok : w.phase = .running ∨ stale = none) : WatcherInv (w.removeChildHandler pid stale).2 := by
  rw [removeChildHandler_eq]
  by_cases hphase : w.phase = .running
  · have halive : ∀ old, w.handlers.lookup pid = some old → w.heap old ≠ none := hinv.map.alive hphase
    have hun := unmapped_fetchRemove hinv.handler hphase halive stale
    refine ⟨fun h => hun.handlerInv (hinv.handler h), .of_running (hun.frame.1.trans hphase) ?_⟩
    exact hun.mapped (hinv.map.mapped hphase)
  · obtain rfl : stale = none := hok.resolve_left hphase
    rw [fetchRemove, if_neg hphase]
    exact hinv

theorem WatcherInv.harvest (hinv : WatcherInv w) (hphase : w.phase = .running) {index h' : ℕ}
    (hpoll : w.inFlight[index]? = some h') :
    WatcherInv { w with inFlight := w.inFlight.eraseIdx index, ready := w.ready ++ [h'] } := by
  obtain ⟨hlt, hget⟩ := List.getElem?_eq_some_iff.1 hpoll
  have hperm : (h' :: w.inFlight.eraseIdx index).Perm w.inFlight := by
    rw [← hget]
    exact List.getElem_cons_eraseIdx_perm hlt
  refine ⟨HandlerInv.requeued hinv.handler ?_ rfl rfl rfl rfl,
    .of_running hphase ((hinv.map.mapped hphase).congr rfl rfl)⟩
  show ((w.inFlight.eraseIdx index) ++ (w.ready ++ [h'])).Perm (w.inFlight ++ w.ready)
  rw [← List.append_assoc]
  exact (List.perm_append_singleton _ _).trans (hperm.append_right w.ready)

theorem WatcherInv.execute (hinv : WatcherInv w) (hphase : w.phase = .running) {h' : ℕ} {ready : List ℕ}
    (hready : w.ready = h' :: ready) (waitid : Waitid) {task : ℕ} (htask : task ≠ 0) (allocates : Bool) :
    WatcherInv ({ w with ready := ready }.onChildExit h' false waitid task allocates) := by
  obtain ⟨c, hc⟩ := HandlerInv.of_ready hinv.handler hready
  have hexpected : Expected w c false := ⟨nofun, fun _ => hphase⟩
  have hm : Mapped { w with ready := ready } := (hinv.map.mapped hphase).congr rfl rfl
  have hexpected' : Expected { w with ready := ready } c false := ⟨nofun, fun _ => hphase⟩
  refine ⟨HandlerInv.nextReady hinv.handler hready hc hexpected waitid (fun _ => htask) allocates,
    .of_running ?_ (hm.onChildExit hc hexpected' waitid task allocates)⟩
  exact (onChildExit_phase (w := { w with ready := ready }) hc hexpected' waitid task
    allocates).trans hphase

theorem WatcherInv.reported (hinv : WatcherInv w) {h' : ℕ} {frames : List Frame}
    (hframes : w.frames = .callback h' :: frames) :
    WatcherInv ({ w with frames := .handler h' :: frames }.emit .callExceptionHandler) := by
  have hphase := hinv.map.running hframes
  refine ⟨fun h => (hinv.handler h).of_same ⟨rfl, ?_, rfl, .rfl, _, rfl, fun e he => ?_⟩,
    .of_running hphase ((hinv.map.mapped hphase).congr rfl rfl)⟩
  · simp [ChildWatcher.running, hframes, Frame.child, emit]
  · rw [List.mem_singleton.1 he]
    exact nofun

/-- `deinit` retires the handlers that are in the map, and those are all that are not marked. -/
theorem WatcherInv.deinit (hinv : WatcherInv w) (hphase : w.phase = .running) (hidle : w.frames = []) :
    WatcherInv { w.deinit with phase := .releasing } := by
  have hmem : ∀ {h'}, h' ∈ w.handlers.entries.map Sigma.snd → ∃ pid, w.handlers.lookup pid = some h' := by
    intro h' hin
    obtain ⟨⟨pid, h'⟩, hentry, rfl⟩ := List.mem_map.1 hin
    exact ⟨pid, AList.mem_lookup_iff.2 hentry⟩
  obtain ⟨hinv', hframes, hmarked⟩ := foldl_retire hinv.handler fun h' hin => by
    obtain ⟨pid, hlookup⟩ := hmem hin
    exact hinv.map.alive hphase h' hlookup
  refine ⟨fun h => (hinv' h).of_same ⟨rfl, rfl, rfl, .rfl, [], (List.append_nil _).symm, nofun⟩,
    ⟨nofun, fun _ h c hc => ?_, fun _ => hframes.trans hidle, ?_, nofun⟩⟩
  · obtain ⟨c', hc', himp⟩ := hmarked h c hc
    refine himp ?_
    cases hremoved : c'.removed with
    | true => exact .inl rfl
    | false =>
      have hlookup := (hinv.map.mapped hphase c'.pid h).2 ⟨c', hc', rfl, hremoved⟩
      exact .inr (List.mem_map.2 ⟨⟨c'.pid, h⟩, AList.mem_lookup_iff.1 hlookup, rfl⟩)
  · rintro (hnow | hnow) <;> exact nomatch hnow

/-- A callback of the ready queue that is released frees its handler: outside of a loop that runs
every handler is marked. -/
theorem WatcherInv.release (hinv : WatcherInv w) (hphase : w.phase = .releasing ∨ w.phase = .draining)
    {h' : ℕ} {ready : List ℕ} (hready : w.ready = h' :: ready) :
    WatcherInv ({ w with ready := ready }.onChildExit h' true (.errno 0) 0 false) := by
  obtain ⟨c, hc⟩ := HandlerInv.of_ready hinv.handler hready
  have hnot : w.phase ≠ .running := by
    obtain hp | hp := hphase <;> rw [hp] <;> exact nofun
  have hremoved := hinv.map.marked hnot _ c hc
  have hexpected : Expected w c true := ⟨fun _ => hremoved, nofun⟩
  have hexpected' : Expected { w with ready := ready } c true := ⟨fun _ => hremoved, nofun⟩
  refine ⟨HandlerInv.nextReady hinv.handler hready hc hexpected _ nofun _, ?_⟩
  obtain ⟨-, heq⟩ | ⟨hunmarked, -⟩ :=
    onChildExit_cases (w := { w with ready := ready }) hc hexpected' (.errno 0) 0 false
  · have hself : ({ w with ready := ready }.setHandler h'
        { c with taskId := 0, completed := true }).heap h' = some _ := Function.update_self _ _ _
    rw [heq, teardown_eq hself]
    refine ⟨fun hp => absurd hp hnot, fun _ h d hd => ?_, fun _ => hinv.map.frames hnot,
      fun hp => hinv.map.inFlight hp, fun hclosed => ?_⟩
    · by_cases hh : h = h'
      · subst hh
        dsimp only at hd
        rw [Function.update_self] at hd
        exact nomatch hd
      · refine hinv.map.marked hnot h d (Eq.trans ?_ hd)
        exact ((Function.update_of_ne hh _ _).trans (Function.update_of_ne hh _ _)).symm
    · have hclosed' : w.phase = .closed := hclosed
      rw [hclosed'] at hphase
      exact absurd hphase (by decide)
  · exact nomatch hremoved.symm.trans hunmarked

theorem WatcherInv.cancelAll (hinv : WatcherInv w) (hphase : w.phase = .releasing) (hready : w.ready = []) :
    WatcherInv { w with ready := w.inFlight, inFlight := [], phase := .draining } := by
  have hnot : w.phase ≠ .running := by
    rw [hphase]
    exact nofun
  refine ⟨HandlerInv.requeued hinv.handler ?_ rfl rfl rfl rfl, ⟨nofun, fun _ => hinv.map.marked hnot,
    fun _ => hinv.map.frames hnot, fun _ => rfl, nofun⟩⟩
  simp [waiting, hready]

theorem WatcherInv.closed (hinv : WatcherInv w) (hphase : w.phase = .draining) (hready : w.ready = []) :
    WatcherInv { w with phase := .closed } := by
  have hnot : w.phase ≠ .running := by
    rw [hphase]
    exact nofun
  exact ⟨HandlerInv.requeued hinv.handler .rfl rfl rfl rfl rfl, ⟨nofun, fun _ => hinv.map.marked hnot,
    fun _ => hinv.map.frames hnot, fun _ => hinv.map.inFlight (.inl hphase), fun _ => hready⟩⟩

/-- One step that meets the condition keeps what holds of the watcher. -/
theorem WatcherInv.step {e : Event} (hinv : WatcherInv w) (hok : Open w e) (hs : w.step e = some w') :
    WatcherInv w' := by
  cases e with
  | addChildHandler pid pidfd task stale =>
    obtain ⟨hcond, hs⟩ := Option.ite_none_right_eq_some.1 hs
    obtain rfl := Option.some.inj hs
    exact hinv.addChildHandler hok pid pidfd hcond.2 stale
  | removeChildHandler pid stale =>
    obtain rfl := Option.some.inj hs
    exact hinv.removeChildHandler pid hok
  | harvest index =>
    obtain ⟨hcond, hs⟩ := Option.ite_none_right_eq_some.1 hs
    obtain ⟨h', hget, rfl⟩ := Option.map_eq_some_iff.1 hs
    exact hinv.harvest hcond.1 hget
  | execute waitid task allocates =>
    obtain ⟨hcond, hs⟩ := Option.ite_none_right_eq_some.1 hs
    split at hs
    · exact nomatch hs
    · rename_i hready
      obtain rfl := Option.some.inj hs
      exact hinv.execute hcond.1 hready waitid hcond.2.2 allocates
  | returned =>
    simp only [ChildWatcher.step] at hs
    split at hs
    · rename_i hframes
      obtain rfl := Option.some.inj hs
      exact hinv.finishFrame hframes
    · exact nomatch hs
  | raised reported =>
    simp only [ChildWatcher.step] at hs
    split at hs
    · rename_i h' frames hframes
      split at hs
      · obtain rfl := Option.some.inj hs
        exact hinv.reported hframes
      · obtain rfl := Option.some.inj hs
        exact hinv.finishFrame hframes
    · exact nomatch hs
  | handled =>
    simp only [ChildWatcher.step] at hs
    split at hs
    · rename_i hframes
      obtain rfl := Option.some.inj hs
      exact hinv.finishFrame hframes
    · exact nomatch hs
  | deinit =>
    obtain ⟨hcond, hs⟩ := Option.ite_none_right_eq_some.1 hs
    obtain rfl := Option.some.inj hs
    exact hinv.deinit hcond.1 hcond.2
  | release =>
    obtain ⟨hphase, hs⟩ := Option.ite_none_right_eq_some.1 hs
    split at hs
    · exact nomatch hs
    · rename_i hready
      obtain rfl := Option.some.inj hs
      exact hinv.release hphase hready
  | cancelAll =>
    obtain ⟨hcond, hs⟩ := Option.ite_none_right_eq_some.1 hs
    obtain rfl := Option.some.inj hs
    exact hinv.cancelAll hcond.1 hcond.2
  | closed =>
    obtain ⟨hcond, hs⟩ := Option.ite_none_right_eq_some.1 hs
    obtain rfl := Option.some.inj hs
    exact hinv.closed hcond.1 hcond.2

/-! ### Whole runs -/

/-- What is promised about a handler that was registered. -/
structure Sound (w : ChildWatcher) (h : ℕ) : Prop where
  /-- its memory is freed once, after its poll has completed and `on_child_exit` is through -/
  tornDown : w.trace.count (.destroy h) + (w.waiting ++ w.running).count h = 1
  /-- its pidfd is closed and its reference dropped with it -/
  released : w.trace.count (.closePidfd h) = w.trace.count (.destroy h) ∧
    w.trace.count (.decref h) = w.trace.count (.destroy h)
  /-- in a closed loop all of this has happened -/
  closed : w.phase = .closed → w.trace.count (.destroy h) = 1
  /-- its memory is not used afterwards -/
  valid : .invalidAccess h ∉ w.trace
  /-- its callback is called at most once -/
  atMostOnce : w.calls h ≤ 1
  /-- and not after the handler was removed or replaced -/
  notAfterRemoved : NotAfterRemoved w.trace h
  /-- while it exists and was not removed or replaced, it has the entry of its pid -/
  entry : ∀ c, w.heap h = some c → .removed h ∉ w.trace → w.handlers.lookup c.pid = some h

/-- What is promised holds in `w`. -/
def AllSound (w : ChildWatcher) : Prop := ∀ h < w.next, Sound w h

theorem watcherInv_init : WatcherInv init := by
  refine ⟨fun h => ⟨rfl, iff_of_false (not_not_intro rfl) nofun, ⟨rfl, rfl⟩, nofun, nofun, nofun,
    fun _ => ⟨nofun, rfl⟩, Nat.zero_le _, ?_, nofun⟩, .of_running rfl fun pid h => ?_⟩
  · intro pre post pid returncode heq
    exact absurd heq.symm (by simp [init])
  · refine iff_of_false ?_ nofun
    rw [init, AList.lookup_empty]
    exact nofun

theorem WatcherInv.allSound (hinv : WatcherInv w) : AllSound w := by
  intro h hlt
  have honce := (hinv.handler h).once
  rw [if_pos hlt] at honce
  refine ⟨?_, (hinv.handler h).freed, fun hclosed => ?_, (hinv.handler h).valid, (hinv.handler h).calls,
    (hinv.handler h).order, fun c hc hin => ?_⟩
  · rw [List.count_append]
    omega
  · have hwaiting : w.waiting = [] := by
      simp [waiting, hinv.map.inFlight (.inr hclosed), hinv.map.ready hclosed]
    have hrunning : w.running = [] := by
      simp [running, hinv.map.frames (by rw [hclosed]; exact nofun)]
    rw [hwaiting, hrunning] at honce
    simpa using honce
  · rw [← (hinv.handler h).marked c hc, Bool.not_eq_true] at hin
    have hphase : w.phase = .running := by
      by_contra hnot
      exact nomatch hin.symm.trans (hinv.map.marked hnot h c hc)
    exact (hinv.map.mapped hphase c.pid h).2 ⟨c, hc, rfl, hin⟩

/-- **Child handlers.** In every run that adds no handler after `deinit` and whose removals after it
find nothing in the freed map, every handler that was registered is torn down exactly once and after its
last completion, is called at most once and not after it was removed or replaced, and keeps the entry of
its pid until it is removed, replaced or done. -/
theorem child_watcher_sound (hrun : Runs.Reaches step Open init w) : AllSound w :=
  (hrun.invariant watcherInv_init fun _ _ _ hinv hok hs => hinv.step hok hs).allSound

/-- A handler for the process 5 is replaced after its poll was harvested, and the loop is closed. -/
theorem child_watcher_sound_replaced :
    ∃ w, Runs.Reaches step Open init w ∧ w.phase = .closed ∧ w.next = 2 ∧ AllSound w := by
  have hd : (Runs.execWhile step Open init
      [.addChildHandler 5 7 1 none, .harvest 0, .addChildHandler 5 8 2 none, .execute (.errno 0) 1 true,
        .deinit, .cancelAll, .release, .closed]).map (fun w => (w.phase, w.next)) =
      some (.closed, 2) := by
    decide +kernel
  obtain ⟨w, hw, hpair⟩ := Option.map_eq_some_iff.1 hd
  obtain ⟨hphase, hnext⟩ := Prod.mk.inj hpair
  have hreach := Runs.Reaches.of_execWhile hw
  exact ⟨w, hreach, hphase, hnext, child_watcher_sound hreach⟩

/-- The destructor of a callback that the first drain releases adds a child handler: the map is freed
memory, the poll is queued, and nothing ever tears the handler down. -/
theorem child_watcher_sound_fails :
    ¬∀ w, Runs.Reaches step (fun _ _ => True) init w → AllSound w := by
  have hd : (Runs.execWhile step (fun _ _ => True) init
      [.deinit, .addChildHandler 5 7 1 none, .cancelAll, .release, .closed]).map
        (fun w => (w.phase, w.next, w.trace.count (.destroy 0))) = some (.closed, 1, 0) := by
    decide +kernel
  obtain ⟨w, hw, htriple⟩ := Option.map_eq_some_iff.1 hd
  obtain ⟨hphase, hpair⟩ := Prod.mk.inj htriple
  obtain ⟨hnext, hdestroy⟩ := Prod.mk.inj hpair
  intro hall
  have hsound := hall w (.of_execWhile hw) 0 (by omega)
  exact absurd (hsound.closed hphase) (by omega)

end ChildWatcher

end Talyn
