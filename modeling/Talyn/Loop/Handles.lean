import Talyn.Lib.Runs
import Talyn.Loop.IoUring

/-!
# Handles and timer handles

`PythonHandleObject` of `handle.zig` with the three carriers of a scheduled handle: the timer in
flight of `call_later` and `call_at`, the callback in the ready queue, and the call of
`callback_for_python_generic_callbacks` that waits for user code. The reference the scheduled callback
holds goes from one to the next; `decref` in the trace is where it is dropped.

A handle is known by the order in which handles are made. The two ready queues are one queue here, in
the order they are executed. A timer can be harvested at any time, because it expired, because its
handle was cancelled, or because a `CancelTimer` for an earlier task at its address reached it. When
`queue_unlocked` fails in its flush the timer of a `call_later` is in the ring, and the callback has no
reference: its handle has been freed. Closing the loop drains the ready queue, then puts the callbacks of all tasks in it and drains it again, with
the `cancelled` flag set (`release_claimed`).
-/

namespace Talyn

/-- `STATE_PENDING`, `STATE_EXECUTED` and `STATE_CANCELLED`. -/
inductive HandleState
  | pending
  | executed
  | cancelled
  deriving DecidableEq, Repr

/-- `PythonHandleObject`. -/
structure PythonHandle where
  /-- `contextvars` is not null -/
  contextvars : Bool
  /-- `py_callback` is not null -/
  pyCallback : Bool
  blockingTaskId : ℕ
  state : HandleState
  threadSafe : Bool
  deriving DecidableEq, Repr

/-- `fast_new_handle`, and `fast_new_timer_handle` once the timer is queued. -/
def PythonHandle.new (threadSafe : Bool) (blockingTaskId : ℕ) : PythonHandle where
  contextvars := true
  pyCallback := true
  blockingTaskId := blockingTaskId
  state := .pending
  threadSafe := threadSafe

/-- `handle_clear`. -/
def PythonHandle.clear (handle : PythonHandle) : PythonHandle :=
  { handle with state := .cancelled, contextvars := false, pyCallback := false }

/-- `z_handle_init`: `Handle.__init__` called again. -/
def PythonHandle.init (handle : PythonHandle) : PythonHandle :=
  let handle := if handle.contextvars then handle.clear else handle
  { handle with contextvars := true, state := .pending, threadSafe := false }

namespace HandleLoop

/-- What happens to handles. -/
inductive Effect
  /-- the user's callback is called -/
  | called (h : ℕ)
  /-- the reference of the scheduled callback is dropped -/
  | decref (h : ℕ)
  | cancelTimer (task : ℕ)
  /-- `cancel()` returned -/
  | cancelReturned (h : ℕ)
  | callExceptionHandler (h : ℕ)
  deriving DecidableEq, Repr

/-- A ready callback waiting for user code: its own callback, or the exception handler. -/
inductive Frame
  | callback (h : ℕ)
  | handler (h : ℕ)
  deriving DecidableEq, Repr

/-- The handle of a frame. -/
def Frame.handle : Frame → ℕ
  | .callback h | .handler h => h

/-- `release_claimed`: `releasing` is the first drain of the ready queues, `draining` the second. -/
inductive Phase
  | running
  | releasing
  | draining
  | closed
  deriving DecidableEq, Repr

/-- A Python error before the user's callback is called. -/
inductive CallFailure
  | contextEnter
  | argsTuple
  deriving DecidableEq, Repr

end HandleLoop

/-- The handles of a loop and where they are scheduled. -/
structure HandleLoop where
  handles : ℕ → PythonHandle
  /-- the number of handles made -/
  next : ℕ
  /-- the timers in flight, by task address, with their handles -/
  timers : List (ℕ × ℕ)
  /-- the ready queue -/
  ready : List ℕ
  frames : List HandleLoop.Frame
  phase : HandleLoop.Phase
  trace : List HandleLoop.Effect

namespace HandleLoop

/-- A new loop. -/
def new : HandleLoop where
  handles := fun _ => .new false 0
  next := 0
  timers := []
  ready := []
  frames := []
  phase := .running
  trace := []

/-- Record an effect. -/
def emit (w : HandleLoop) (e : Effect) : HandleLoop := { w with trace := w.trace ++ [e] }

/-- Overwrite a handle. -/
def setHandle (w : HandleLoop) (h : ℕ) (handle : PythonHandle) : HandleLoop :=
  { w with handles := Function.update w.handles h handle }

/-- The first part of `callback_for_python_generic_callbacks`: the handle, and whether it goes on to
the user's callback. The compare-and-swaps of a thread-safe handle are plain here. -/
def claim (handle : PythonHandle) (cancelled : Bool) : PythonHandle × Bool :=
  if handle.threadSafe then
    if cancelled then
      ({ handle with
          state := if handle.state = .pending then .cancelled else handle.state
          blockingTaskId := 0 }, false)
    else if handle.state = .pending then
      ({ handle with state := .executed, blockingTaskId := 0 }, true)
    else ({ handle with blockingTaskId := 0 }, false)
  else if cancelled || handle.state = .cancelled then ({ handle with blockingTaskId := 0 }, false)
  else ({ handle with state := .executed, blockingTaskId := 0 }, true)

/-- `callback_for_python_generic_callbacks`, up to the call of the user's callback, with what
`execute_dynamic_ring_buffer` does on an error: the exception handler is called and the cleanup
callback drops the reference after it. -/
def callbackForPythonGenericCallbacks (w : HandleLoop) (h : ℕ) (cancelled : Bool)
    (failure : Option CallFailure) : HandleLoop :=
  let (handle, goesOn) := claim (w.handles h) cancelled
  let w := w.setHandle h handle
  if !goesOn then w.emit (.decref h)
  else if !handle.contextvars then w.emit (.decref h)
  else if failure = some .contextEnter then
    { w with frames := .handler h :: w.frames }.emit (.callExceptionHandler h)
  else if !handle.pyCallback then w.emit (.decref h)
  else if failure = some .argsTuple then
    { w with frames := .handler h :: w.frames }.emit (.callExceptionHandler h)
  else { w with frames := .callback h :: w.frames }.emit (.called h)

/-- `fast_handle_cancel`, and `handle_cancel` around it; `fails` tells whether `queue_unlocked` fails,
and then `cancel()` raises. -/
def fastHandleCancel (w : HandleLoop) (h : ℕ) (fails : Bool) : HandleLoop :=
  let handle := w.handles h
  if handle.state ≠ .pending then w.emit (.cancelReturned h)
  else
    let w := w.setHandle h { handle with state := .cancelled }
    if handle.blockingTaskId > 0 then
      if fails then w else (w.emit (.cancelTimer handle.blockingTaskId)).emit (.cancelReturned h)
    else w.emit (.cancelReturned h)

/-- `z_loop_delayed_call`, with the task of the timer. When `queue_unlocked` fails the errdefer drops the
reference of the scheduled callback, also when the timer is in the ring. -/
def delayedCall (w : HandleLoop) (task : ℕ) : Enqueue → HandleLoop
  | .queued =>
    { w.setHandle w.next (.new false task) with
      next := w.next + 1, timers := w.timers ++ [(task, w.next)] }
  | .refused => { w.setHandle w.next (.new false 0) with next := w.next + 1 }.emit (.decref w.next)
  | .left =>
    { w.setHandle w.next (.new false 0) with
      next := w.next + 1, timers := w.timers ++ [(task, w.next)] }.emit (.decref w.next)

/-- What can happen to the handles of a loop. -/
inductive Event
  | callSoon (threadSafe : Bool)
  /-- `call_later` or `call_at` -/
  | delayedCall (task : ℕ) (queue : Enqueue)
  | cancel (h : ℕ) (fails : Bool)
  /-- the garbage collector clears a handle -/
  | clear (h : ℕ)
  | init (h : ℕ)
  /-- the completion of a timer is harvested -/
  | harvest (index : ℕ)
  /-- the next ready callback -/
  | execute (failure : Option CallFailure)
  | returned
  /-- the user's callback raised; `exits` for `KeyboardInterrupt` and `SystemExit` -/
  | raised (exits : Bool)
  /-- the exception handler returned or raised -/
  | handled
  | close
  /-- the next callback of the ready queue is released -/
  | release
  /-- `cancel_all` on all sets of tasks -/
  | cancelAll
  | closed
  deriving DecidableEq, Repr

/-- One event; `none` when it cannot happen. The loop itself only runs outside of user code. -/
def step (w : HandleLoop) (e : Event) : Option HandleLoop :=
  match e with
  | .callSoon threadSafe =>
    if w.phase ≠ .running then none
    else
      some { w.setHandle w.next (.new threadSafe 0) with
        next := w.next + 1, ready := w.ready ++ [w.next] }
  | .delayedCall task queue =>
    if w.phase ≠ .running ∨ task = 0 ∨ task ∈ w.timers.map Prod.fst then none
    else some (w.delayedCall task queue)
  | .cancel h fails => if h < w.next then some (w.fastHandleCancel h fails) else none
  | .clear h => if h < w.next then some (w.setHandle h (w.handles h).clear) else none
  | .init h => if h < w.next then some (w.setHandle h (w.handles h).init) else none
  | .harvest index =>
    if w.phase ≠ .running ∨ w.frames ≠ [] then none
    else
      (w.timers[index]?).map fun timer =>
        { w with timers := w.timers.eraseIdx index, ready := w.ready ++ [timer.2] }
  | .execute failure =>
    if w.phase ≠ .running ∨ w.frames ≠ [] then none
    else
      match w.ready with
      | [] => none
      | h :: ready =>
        some ({ w with ready := ready }.callbackForPythonGenericCallbacks h false failure)
  | .returned =>
    match w.frames with
    | .callback h :: frames => some ({ w with frames := frames }.emit (.decref h))
    | _ => none
  | .raised exits =>
    match w.frames with
    | .callback h :: frames =>
      if exits then some ({ w with frames := frames }.emit (.decref h))
      else some ({ w with frames := .handler h :: frames }.emit (.callExceptionHandler h))
    | _ => none
  | .handled =>
    match w.frames with
    | .handler h :: frames => some ({ w with frames := frames }.emit (.decref h))
    | _ => none
  | .close =>
    if w.phase = .running ∧ w.frames = [] then some { w with phase := .releasing } else none
  | .release =>
    if w.phase = .releasing ∨ w.phase = .draining then
      match w.ready with
      | [] => none
      | h :: ready => some ({ w with ready := ready }.callbackForPythonGenericCallbacks h true none)
    else none
  | .cancelAll =>
    if w.phase = .releasing ∧ w.ready = [] then
      some { w with ready := w.timers.map Prod.snd, timers := [], phase := .draining }
    else none
  | .closed =>
    if w.phase = .draining ∧ w.ready = [] then some { w with phase := .closed } else none

/-- What one event does and when it can happen. -/
inductive Step (w : HandleLoop) : Event → HandleLoop → Prop
  | callSoon (threadSafe : Bool) (hrunning : w.phase = .running) :
      Step w (.callSoon threadSafe)
        { w.setHandle w.next (.new threadSafe 0) with next := w.next + 1, ready := w.ready ++ [w.next] }
  | delayedCall (task : ℕ) (queue : Enqueue) (hrunning : w.phase = .running) (hpos : task ≠ 0)
      (hfresh : task ∉ w.timers.map Prod.fst) :
      Step w (.delayedCall task queue) (w.delayedCall task queue)
  | cancel (h : ℕ) (fails : Bool) (hmade : h < w.next) : Step w (.cancel h fails) (w.fastHandleCancel h fails)
  | clear (h : ℕ) (hmade : h < w.next) : Step w (.clear h) (w.setHandle h (w.handles h).clear)
  | init (h : ℕ) (hmade : h < w.next) : Step w (.init h) (w.setHandle h (w.handles h).init)
  | harvest (index : ℕ) (timer : ℕ × ℕ) (hrunning : w.phase = .running) (hframes : w.frames = [])
      (htimer : w.timers[index]? = some timer) :
      Step w (.harvest index) { w with timers := w.timers.eraseIdx index, ready := w.ready ++ [timer.2] }
  | execute (failure : Option CallFailure) (h : ℕ) (ready : List ℕ) (hrunning : w.phase = .running)
      (hframes : w.frames = []) (hready : w.ready = h :: ready) :
      Step w (.execute failure) ({ w with ready := ready }.callbackForPythonGenericCallbacks h false failure)
  | returned (h : ℕ) (frames : List Frame) (hframes : w.frames = .callback h :: frames) :
      Step w .returned ({ w with frames := frames }.emit (.decref h))
  | exits (h : ℕ) (frames : List Frame) (hframes : w.frames = .callback h :: frames) :
      Step w (.raised true) ({ w with frames := frames }.emit (.decref h))
  | raised (h : ℕ) (frames : List Frame) (hframes : w.frames = .callback h :: frames) :
      Step w (.raised false) ({ w with frames := .handler h :: frames }.emit (.callExceptionHandler h))
  | handled (h : ℕ) (frames : List Frame) (hframes : w.frames = .handler h :: frames) :
      Step w .handled ({ w with frames := frames }.emit (.decref h))
  | close (hrunning : w.phase = .running) (hframes : w.frames = []) :
      Step w .close { w with phase := .releasing }
  | release (h : ℕ) (ready : List ℕ) (hphase : w.phase = .releasing ∨ w.phase = .draining)
      (hready : w.ready = h :: ready) :
      Step w .release ({ w with ready := ready }.callbackForPythonGenericCallbacks h true none)
  | cancelAll (hphase : w.phase = .releasing) (hready : w.ready = []) :
      Step w .cancelAll { w with ready := w.timers.map Prod.snd, timers := [], phase := .draining }
  | closed (hphase : w.phase = .draining) (hready : w.ready = []) :
      Step w .closed { w with phase := .closed }

/-- **Inversion of `step`.** -/
theorem step_cases {w w' : HandleLoop} {e : Event} (hs : w.step e = some w') : Step w e w' := by
  cases e with
  | callSoon threadSafe =>
    obtain ⟨hopen, hs⟩ := Option.ite_none_left_eq_some.1 hs
    obtain rfl := Option.some.inj hs
    exact .callSoon threadSafe (not_not.1 hopen)
  | delayedCall task queue =>
    obtain ⟨hopen, hs⟩ := Option.ite_none_left_eq_some.1 hs
    obtain rfl := Option.some.inj hs
    simp only [not_or, not_not] at hopen
    exact .delayedCall task queue hopen.1 hopen.2.1 hopen.2.2
  | cancel h fails =>
    obtain ⟨hmade, hs⟩ := Option.ite_none_right_eq_some.1 hs
    obtain rfl := Option.some.inj hs
    exact .cancel h fails hmade
  | clear h =>
    obtain ⟨hmade, hs⟩ := Option.ite_none_right_eq_some.1 hs
    obtain rfl := Option.some.inj hs
    exact .clear h hmade
  | init h =>
    obtain ⟨hmade, hs⟩ := Option.ite_none_right_eq_some.1 hs
    obtain rfl := Option.some.inj hs
    exact .init h hmade
  | harvest index =>
    obtain ⟨hopen, hs⟩ := Option.ite_none_left_eq_some.1 hs
    obtain ⟨timer, htimer, rfl⟩ := Option.map_eq_some_iff.1 hs
    simp only [not_or, not_not] at hopen
    exact .harvest index timer hopen.1 hopen.2 htimer
  | execute failure =>
    obtain ⟨hopen, hs⟩ := Option.ite_none_left_eq_some.1 hs
    simp only [not_or, not_not] at hopen
    split at hs
    · exact nomatch hs
    · rename_i h ready hready
      obtain rfl := Option.some.inj hs
      exact .execute failure h ready hopen.1 hopen.2 hready
  | returned =>
    simp only [step] at hs
    split at hs
    · rename_i h frames hframes
      obtain rfl := Option.some.inj hs
      exact .returned h frames hframes
    · exact nomatch hs
  | raised exits =>
    simp only [step] at hs
    split at hs
    · rename_i h frames hframes
      cases exits with
      | true =>
        obtain rfl := Option.some.inj hs
        exact .exits h frames hframes
      | false =>
        obtain rfl := Option.some.inj hs
        exact .raised h frames hframes
    · exact nomatch hs
  | handled =>
    simp only [step] at hs
    split at hs
    · rename_i h frames hframes
      obtain rfl := Option.some.inj hs
      exact .handled h frames hframes
    · exact nomatch hs
  | close =>
    obtain ⟨⟨hrunning, hframes⟩, hs⟩ := Option.ite_none_right_eq_some.1 hs
    obtain rfl := Option.some.inj hs
    exact .close hrunning hframes
  | release =>
    obtain ⟨hphase, hs⟩ := Option.ite_none_right_eq_some.1 hs
    split at hs
    · exact nomatch hs
    · rename_i h ready hready
      obtain rfl := Option.some.inj hs
      exact .release h ready hphase hready
  | cancelAll =>
    obtain ⟨⟨hphase, hready⟩, hs⟩ := Option.ite_none_right_eq_some.1 hs
    obtain rfl := Option.some.inj hs
    exact .cancelAll hphase hready
  | closed =>
    obtain ⟨⟨hphase, hready⟩, hs⟩ := Option.ite_none_right_eq_some.1 hs
    obtain rfl := Option.some.inj hs
    exact .closed hphase hready

/-! ### One handle -/

/-- The handles whose callback has not been entered. -/
def waiting (w : HandleLoop) : List ℕ := w.timers.map Prod.snd ++ w.ready

/-- The handles whose callback waits for user code. -/
def running (w : HandleLoop) : List ℕ := w.frames.map Frame.handle

/-- The handle an effect is about; what the kernel and the exception handler are told does not count. -/
def Effect.handle : Effect → Option ℕ
  | .called h | .decref h | .cancelReturned h => some h
  | .cancelTimer _ | .callExceptionHandler _ => none

/-- No call of the user's callback comes after a `cancel()` that returned. -/
def NotAfterCancel (trace : List Effect) (h : ℕ) : Prop :=
  ∀ pre post, trace = pre ++ .called h :: post → .cancelReturned h ∉ pre

/-- What holds of the handle `h`. -/
structure HandleInv (w : HandleLoop) (h : ℕ) : Prop where
  once : w.trace.count (.decref h) + w.waiting.count h + w.running.count h =
    if h < w.next then 1 else 0
  unmade : w.next ≤ h → .called h ∉ w.trace ∧ .cancelReturned h ∉ w.trace
  nulls : (w.handles h).contextvars = false → (w.handles h).pyCallback = false
  waits : h ∈ w.waiting → .called h ∉ w.trace ∧ (w.handles h).state ≠ .executed ∧
    (.cancelReturned h ∈ w.trace →
      (w.handles h).state = .cancelled ∨ (w.handles h).pyCallback = false)
  calls : w.trace.count (.called h) ≤ 1
  order : NotAfterCancel w.trace h

variable {w w' : HandleLoop} {h : ℕ}

theorem NotAfterCancel.append {trace : List Effect} (ho : NotAfterCancel trace h) {e : Effect}
    (he : e = .called h → .cancelReturned h ∉ trace) : NotAfterCancel (trace ++ [e]) h := by
  intro pre post heq
  rcases post.eq_nil_or_concat with rfl | ⟨post, last, rfl⟩
  · obtain ⟨rfl, hlast⟩ := List.append_inj' heq rfl
    exact he (List.singleton_inj.1 hlast)
  · rw [List.concat_eq_append, ← List.cons_append, ← List.append_assoc] at heq
    exact ho pre post (List.append_inj' heq rfl).1

/-- `w'` comes from `w` by something that is not about the handle `h`. -/
structure SameFor (h : ℕ) (w w' : HandleLoop) : Prop where
  waiting : w'.waiting.count h = w.waiting.count h
  running : w'.running.count h = w.running.count h
  handle : w'.handles h = w.handles h
  next : h < w'.next ↔ h < w.next
  trace : ∃ es, w'.trace = w.trace ++ es ∧ ∀ e ∈ es, e.handle ≠ some h

theorem NotAfterCancel.append_all {trace : List Effect} (ho : NotAfterCancel trace h)
    {es : List Effect} (hes : ∀ e ∈ es, e.handle ≠ some h) : NotAfterCancel (trace ++ es) h := by
  induction es generalizing trace with
  | nil => rwa [List.append_nil]
  | cons e es ih =>
    have he : NotAfterCancel (trace ++ [e]) h := by
      refine ho.append ?_
      rintro rfl
      exact absurd rfl (hes _ List.mem_cons_self)
    have := ih he fun e' he' => hes e' (List.mem_cons_of_mem e he')
    rwa [List.append_assoc, List.singleton_append] at this

theorem HandleInv.of_same (hinv : HandleInv w h) (hsame : SameFor h w w') : HandleInv w' h := by
  obtain ⟨hwaiting, hrunning, hhandle, hnext, es, htrace, hes⟩ := hsame
  have hnone : ∀ e ∈ es, e ≠ .called h ∧ e ≠ .decref h ∧ e ≠ .cancelReturned h := by
    intro e he
    refine ⟨?_, ?_, ?_⟩ <;> rintro rfl <;> exact hes _ he rfl
  have hcalled : (.called h) ∉ es := fun hin => (hnone _ hin).1 rfl
  have hdecref : (.decref h) ∉ es := fun hin => (hnone _ hin).2.1 rfl
  have hcancel : (.cancelReturned h) ∉ es := fun hin => (hnone _ hin).2.2 rfl
  have hmem : h ∈ w'.waiting ↔ h ∈ w.waiting := by
    rw [← List.count_pos_iff, hwaiting, List.count_pos_iff]
  refine ⟨?_, ?_, ?_, ?_, ?_, ?_⟩
  · rw [htrace, List.count_append, List.count_eq_zero_of_not_mem hdecref, Nat.add_zero, hwaiting,
      hrunning, hinv.once]
    simp only [hnext]
  · intro hle
    have hle' : w.next ≤ h := by
      rw [← not_lt, ← hnext, not_lt]
      exact hle
    simpa [htrace, hcalled, hcancel] using hinv.unmade hle'
  · rw [hhandle]
    exact hinv.nulls
  · intro hin
    simpa [htrace, hcalled, hcancel, hhandle] using hinv.waits (hmem.1 hin)
  · rw [htrace, List.count_append, List.count_eq_zero_of_not_mem hcalled]
    exact hinv.calls
  · rw [htrace]
    exact hinv.order.append_all hes

/-! ### The ready callback -/

theorem claim_frame (handle : PythonHandle) (cancelled : Bool) :
    (claim handle cancelled).1.contextvars = handle.contextvars ∧
      (claim handle cancelled).1.pyCallback = handle.pyCallback := by
  unfold claim
  split
  · split
    · exact ⟨rfl, rfl⟩
    · split <;> exact ⟨rfl, rfl⟩
  · split <;> exact ⟨rfl, rfl⟩

/-- The callback is claimed only for a handle that was not cancelled, in a loop that is not closed. -/
theorem claim_goesOn {handle : PythonHandle} {cancelled : Bool} (h : (claim handle cancelled).2 = true) :
    cancelled = false ∧ handle.state ≠ .cancelled := by
  unfold claim at h
  split at h
  · split at h
    · exact nomatch h
    · rename_i hcancelled
      split at h
      · rename_i hpending
        exact ⟨by simpa using hcancelled, by rw [hpending]; exact nofun⟩
      · exact nomatch h
  · split at h
    · exact nomatch h
    · rename_i hnot
      simpa using hnot

/-- What the ready callback does, with the handle as `claim` leaves it. -/
theorem callback_cases (w : HandleLoop) (h : ℕ) (cancelled : Bool) (failure : Option CallFailure) :
    w.callbackForPythonGenericCallbacks h cancelled failure =
        (w.setHandle h (claim (w.handles h) cancelled).1).emit (.decref h) ∨
      ((claim (w.handles h) cancelled).2 = true ∧
        w.callbackForPythonGenericCallbacks h cancelled failure =
          { w.setHandle h (claim (w.handles h) cancelled).1 with
            frames := .handler h :: w.frames }.emit (.callExceptionHandler h)) ∨
      ((claim (w.handles h) cancelled).2 = true ∧ (w.handles h).pyCallback = true ∧
        w.callbackForPythonGenericCallbacks h cancelled failure =
          { w.setHandle h (claim (w.handles h) cancelled).1 with
            frames := .callback h :: w.frames }.emit (.called h)) := by
  obtain ⟨-, hcallback⟩ := claim_frame (w.handles h) cancelled
  unfold callbackForPythonGenericCallbacks
  generalize claim (w.handles h) cancelled = claimed at hcallback ⊢
  obtain ⟨handle, goesOn⟩ := claimed
  dsimp only at hcallback ⊢
  cases goesOn with
  | false => exact .inl rfl
  | true =>
    rw [Bool.not_true, if_neg Bool.false_ne_true]
    split
    · exact .inl rfl
    split
    · exact .inr (.inl ⟨rfl, rfl⟩)
    split
    · exact .inl rfl
    rename_i hsome
    split
    · exact .inr (.inl ⟨rfl, rfl⟩)
    · exact .inr (.inr ⟨rfl, hcallback.symm.trans (by simpa using hsome), rfl⟩)

/-- A ready callback is about its own handle only. -/
theorem sameFor_callback {ready : List ℕ} {h' : ℕ} (hready : w.ready = h' :: ready) (hne : h ≠ h')
    (cancelled : Bool) (failure : Option CallFailure) :
    SameFor h w
      ({ w with ready := ready }.callbackForPythonGenericCallbacks h' cancelled failure) := by
  have hcount : (w.timers.map Prod.snd ++ ready).count h = w.waiting.count h := by
    rw [waiting, hready, List.count_append, List.count_append, List.count_cons_of_ne hne.symm]
  have hframe : ∀ frames : List ℕ, (h' :: frames).count h = frames.count h :=
    fun frames => List.count_cons_of_ne hne.symm
  have hhandle : ∀ handle, Function.update w.handles h' handle h = w.handles h :=
    fun handle => Function.update_of_ne hne _ _
  have hother : ∀ {e : Effect}, e.handle ≠ some h → ∀ e' ∈ [e], e'.handle ≠ some h := by
    intro e he e' hin
    rw [List.mem_singleton.1 hin]
    exact he
  obtain heq | ⟨-, heq⟩ | ⟨-, -, heq⟩ :=
    callback_cases { w with ready := ready } h' cancelled failure
  · rw [heq]
    exact ⟨hcount, rfl, hhandle _, .rfl, _, rfl, hother fun heq => hne (Option.some.inj heq).symm⟩
  · rw [heq]
    exact ⟨hcount, hframe _, hhandle _, .rfl, _, rfl, hother nofun⟩
  · rw [heq]
    exact ⟨hcount, hframe _, hhandle _, .rfl, _, rfl,
      hother fun heq => hne (Option.some.inj heq).symm⟩

/-- A handle that waits is in one place, and its reference was not dropped. -/
theorem HandleInv.of_waiting (hinv : HandleInv w h) (hin : h ∈ w.waiting) :
    h < w.next ∧ w.trace.count (.decref h) = 0 ∧ w.waiting.count h = 1 ∧ w.running.count h = 0 := by
  have honce := hinv.once
  have hpos := List.count_pos_iff.2 hin
  split at honce
  · rename_i hlt
    exact ⟨hlt, by omega, by omega, by omega⟩
  · omega

/-- The ready callback of the handle itself. -/
theorem HandleInv.callback {ready : List ℕ} (hinv : HandleInv w h) (hready : w.ready = h :: ready)
    (cancelled : Bool) (failure : Option CallFailure) :
    HandleInv ({ w with ready := ready }.callbackForPythonGenericCallbacks h cancelled failure) h := by
  have hin : h ∈ w.waiting := by simp [waiting, hready]
  obtain ⟨hlt, hdrops, hone, hnone⟩ := hinv.of_waiting hin
  obtain ⟨huncalled, -, hcancelled⟩ := hinv.waits hin
  obtain ⟨hcontext, hcallback⟩ := claim_frame (w.handles h) cancelled
  have hcount : (w.timers.map Prod.snd ++ ready).count h = 0 := by
    rw [waiting, hready, List.count_append, List.count_cons_self] at hone
    rw [List.count_append]
    omega
  have hgone : h ∉ w.timers.map Prod.snd ++ ready := List.count_eq_zero.1 hcount
  have hnulls : (claim (w.handles h) cancelled).1.contextvars = false →
      (claim (w.handles h) cancelled).1.pyCallback = false := by
    rw [hcontext, hcallback]
    exact hinv.nulls
  have hself : ∀ handle, Function.update w.handles h handle h = handle :=
    fun handle => Function.update_self _ _ _
  obtain heq | ⟨-, heq⟩ | ⟨hgoes, hsome, heq⟩ :=
    callback_cases { w with ready := ready } h cancelled failure
  · rw [heq]
    refine ⟨?_, fun hle => absurd hlt (not_lt.2 hle), ?_, fun hin' => absurd hin' hgone, ?_, ?_⟩
    · show (w.trace ++ [Effect.decref h]).count (Effect.decref h) + (w.timers.map Prod.snd ++ ready).count h +
        w.running.count h = _
      rw [List.count_append, hdrops, hcount, hnone]
      simp [emit, setHandle, hlt]
    · simpa [emit, setHandle] using hnulls
    · simpa [emit, setHandle, List.count_append] using hinv.calls
    · exact hinv.order.append nofun
  · rw [heq]
    refine ⟨?_, fun hle => absurd hlt (not_lt.2 hle), ?_, fun hin' => absurd hin' hgone, ?_, ?_⟩
    · show (w.trace ++ [Effect.callExceptionHandler h]).count (Effect.decref h) +
        (w.timers.map Prod.snd ++ ready).count h + (h :: w.running).count h = _
      rw [List.count_append, hdrops, hcount, List.count_cons_self, hnone]
      simp [emit, setHandle, hlt]
    · simpa [emit, setHandle] using hnulls
    · simpa [emit, setHandle, List.count_append] using hinv.calls
    · exact hinv.order.append nofun
  · rw [heq]
    have hnot : .cancelReturned h ∉ w.trace := by
      intro hreturned
      obtain hstate | hfalse := hcancelled hreturned
      · exact (claim_goesOn hgoes).2 hstate
      · exact nomatch hfalse.symm.trans hsome
    refine ⟨?_, fun hle => absurd hlt (not_lt.2 hle), ?_, fun hin' => absurd hin' hgone, ?_, ?_⟩
    · show (w.trace ++ [Effect.called h]).count (Effect.decref h) +
        (w.timers.map Prod.snd ++ ready).count h + (h :: w.running).count h = _
      rw [List.count_append, hdrops, hcount, List.count_cons_self, hnone]
      simp [emit, setHandle, hlt]
    · simpa [emit, setHandle] using hnulls
    · show (w.trace ++ [Effect.called h]).count (Effect.called h) ≤ 1
      rw [List.count_append, List.count_eq_zero_of_not_mem huncalled]
      simp
    · exact hinv.order.append fun _ => hnot

/-! ### One step -/

/-- A new handle is scheduled, with the next number. -/
theorem HandleInv.made (hinv : HandleInv w h) {threadSafe : Bool} {task : ℕ}
    (hhandles : w'.handles = Function.update w.handles w.next (.new threadSafe task))
    (hnext : w'.next = w.next + 1) (hframes : w'.frames = w.frames) (htrace : w'.trace = w.trace)
    (hcount : w'.waiting.count h = w.waiting.count h + if w.next = h then 1 else 0) :
    HandleInv w' h := by
  have hrunning : w'.running = w.running := congrArg (List.map Frame.handle) hframes
  by_cases hh : h = w.next
  · subst hh
    rw [if_pos rfl] at hcount
    have honce := hinv.once
    rw [if_neg (lt_irrefl _)] at honce
    obtain ⟨hcalled, hcancel⟩ := hinv.unmade le_rfl
    refine ⟨?_, fun hle => absurd hle (by omega), ?_, fun _ => ?_, ?_, ?_⟩
    · rw [htrace, hcount, hrunning, hnext, if_pos (Nat.lt_succ_self _)]
      omega
    · rw [hhandles, Function.update_self]
      exact nofun
    · rw [htrace, hhandles, Function.update_self]
      exact ⟨hcalled, nofun, fun hin => absurd hin hcancel⟩
    · rw [htrace]
      exact hinv.calls
    · rw [htrace]
      exact hinv.order
  · rw [if_neg (Ne.symm hh)] at hcount
    refine hinv.of_same ⟨hcount, by rw [hrunning], ?_, ?_, [], ?_, nofun⟩
    · rw [hhandles, Function.update_of_ne hh]
    · rw [hnext]
      omega
    · rw [htrace, List.append_nil]

/-- The timer of a new handle is not in the ring, and the handle is dropped. -/
theorem HandleInv.refused (hinv : HandleInv w h) (task : ℕ) :
    HandleInv (w.delayedCall task .refused) h := by
  by_cases hh : h = w.next
  · subst hh
    have honce := hinv.once
    rw [if_neg (lt_irrefl _)] at honce
    obtain ⟨hcalled, hcancel⟩ := hinv.unmade le_rfl
    refine ⟨?_, fun hle => absurd hle (Nat.not_succ_le_self _), ?_, fun hin => ?_, ?_, ?_⟩
    · show (w.trace ++ [Effect.decref w.next]).count _ + w.waiting.count w.next +
        w.running.count w.next = if w.next < w.next + 1 then 1 else 0
      rw [if_pos (Nat.lt_succ_self _), List.count_append, List.count_singleton_self]
      omega
    · have hhandle : (w.delayedCall task .refused).handles w.next = .new false 0 :=
        Function.update_self ..
      rw [hhandle]
      exact nofun
    · have hpos : 0 < w.waiting.count w.next := List.count_pos_iff.2 hin
      omega
    · show (w.trace ++ [Effect.decref w.next]).count (Effect.called w.next) ≤ 1
      rw [List.count_append]
      simpa using hinv.calls
    · exact hinv.order.append nofun
  · refine hinv.of_same ⟨rfl, rfl, Function.update_of_ne hh _ _, ?_, _, rfl, fun e he => ?_⟩
    · show h < w.next + 1 ↔ h < w.next
      omega
    · rw [List.mem_singleton.1 he]
      exact fun heq => hh (Option.some.inj heq).symm

/-- `cancel()` of a handle. -/
theorem HandleInv.fastHandleCancel (hinv : HandleInv w h) (h' : ℕ) (fails : Bool)
    (hmade : h' < w.next) : HandleInv (w.fastHandleCancel h' fails) h := by
  have hreturn : ∀ {v : HandleLoop}, v.waiting = w.waiting → v.running = w.running →
      v.next = w.next → HandleInv v h →
      (h = h' → h ∈ v.waiting → (v.handles h).state = .cancelled) →
      HandleInv (v.emit (.cancelReturned h')) h := by
    intro v hwaiting hrunning hnext hv hstate
    by_cases hh : h = h'
    · subst hh
      refine ⟨?_, fun hle => absurd hmade (not_lt.2 (hnext ▸ hle)), hv.nulls, fun hin => ?_, ?_, ?_⟩
      · refine Eq.trans ?_ hv.once
        show (v.trace ++ [_]).count _ + v.waiting.count h + v.running.count h = _
        rw [List.count_append]
        simp
      · obtain ⟨hcalled, hexecuted, -⟩ := hv.waits hin
        refine ⟨?_, hexecuted, fun _ => .inl (hstate rfl hin)⟩
        simpa [emit] using hcalled
      · show (v.trace ++ [_]).count _ ≤ 1
        rw [List.count_append]
        simpa using hv.calls
      · exact hv.order.append nofun
    · refine hv.of_same ⟨rfl, rfl, rfl, .rfl, _, rfl, fun e he => ?_⟩
      rw [List.mem_singleton.1 he]
      exact fun heq => hh (Option.some.inj heq).symm
  unfold HandleLoop.fastHandleCancel
  dsimp only
  split
  · rename_i hstate
    refine hreturn rfl rfl rfl hinv fun hh hin => ?_
    subst hh
    have hexecuted := (hinv.waits hin).2.1
    cases hs : (w.handles h).state with
    | pending => exact absurd hs hstate
    | executed => exact absurd hs hexecuted
    | cancelled => rfl
  · have hset : HandleInv (w.setHandle h' { w.handles h' with state := .cancelled }) h := by
      by_cases hh : h = h'
      · subst hh
        refine ⟨hinv.once, hinv.unmade, ?_, fun hin => ?_, hinv.calls, hinv.order⟩
        · simpa [setHandle] using hinv.nulls
        · obtain ⟨hcalled, -, -⟩ := hinv.waits hin
          exact ⟨hcalled, by simp [setHandle], fun _ => .inl (by simp [setHandle])⟩
      · refine hinv.of_same ⟨rfl, rfl, Function.update_of_ne hh _ _, .rfl, [], ?_, nofun⟩
        exact (List.append_nil _).symm
    have hcancelled : ∀ {e : Effect}, h = h' →
        (((w.setHandle h' { w.handles h' with state := .cancelled }).emit e).handles h).state =
          .cancelled := by
      intro e hh
      subst hh
      simp [emit, setHandle]
    split
    · split
      · exact hset
      · refine hreturn rfl rfl rfl ?_ fun hh _ => hcancelled hh
        refine hset.of_same ⟨rfl, rfl, rfl, .rfl, _, rfl, fun e he => ?_⟩
        rw [List.mem_singleton.1 he]
        exact nofun
    · refine hreturn rfl rfl rfl hset fun hh _ => ?_
      subst hh
      simp [setHandle]

/-- A handle loses its callback, and is not marked executed. -/
theorem HandleInv.setHandle (hinv : HandleInv w h) {h' : ℕ} {handle : PythonHandle}
    (hcallback : h = h' → handle.pyCallback = false) (hstate : handle.state ≠ .executed) :
    HandleInv (w.setHandle h' handle) h := by
  by_cases hh : h = h'
  · subst hh
    replace hcallback := hcallback rfl
    refine ⟨hinv.once, hinv.unmade, ?_, fun hin => ?_, hinv.calls, hinv.order⟩
    · simp [HandleLoop.setHandle, hcallback]
    · obtain ⟨hcalled, -, -⟩ := hinv.waits hin
      exact ⟨hcalled, by simpa [HandleLoop.setHandle] using hstate,
        fun _ => .inr (by simpa [HandleLoop.setHandle] using hcallback)⟩
  · refine hinv.of_same ⟨rfl, rfl, Function.update_of_ne hh _ _, .rfl, [], ?_, nofun⟩
    exact (List.append_nil _).symm

/-- The frame on top is done, and its reference is dropped. -/
theorem HandleInv.dropFrame (hinv : HandleInv w h) {frame : Frame} {frames : List Frame}
    (hframes : w.frames = frame :: frames) :
    HandleInv ({ w with frames := frames }.emit (.decref frame.handle)) h := by
  have hrunning : w.running = frame.handle :: frames.map Frame.handle := by simp [running, hframes]
  by_cases hh : h = frame.handle
  · have honce := hinv.once
    rw [hrunning, hh, List.count_cons_self] at honce
    have hlt : h < w.next := by
      by_contra hge
      rw [← hh, if_neg hge] at honce
      omega
    rw [← hh] at honce ⊢
    refine ⟨?_, fun hle => absurd hlt (not_lt.2 hle), hinv.nulls, fun hin => ?_, ?_, ?_⟩
    · show (w.trace ++ [Effect.decref h]).count (Effect.decref h) + w.waiting.count h +
        (frames.map Frame.handle).count h = _
      rw [List.count_append]
      simp only [List.count_singleton_self, emit, hlt, if_pos] at honce ⊢
      omega
    · obtain ⟨hcalled, hexecuted, hcancelled⟩ := hinv.waits hin
      refine ⟨by simpa [emit] using hcalled, hexecuted, fun hret => hcancelled ?_⟩
      simpa [emit] using hret
    · show (w.trace ++ [_]).count _ ≤ 1
      rw [List.count_append]
      simpa using hinv.calls
    · exact hinv.order.append nofun
  · refine hinv.of_same ⟨rfl, ?_, rfl, .rfl, _, rfl, fun e he => ?_⟩
    · rw [hrunning, List.count_cons_of_ne (Ne.symm hh)]
      rfl
    · rw [List.mem_singleton.1 he]
      exact fun heq => hh (Option.some.inj heq).symm

/-- No call fails with its timer in the ring. -/
def Carried (w : HandleLoop) (e : Event) : Prop :=
  ∀ task, e = .delayedCall task .left → w.step e = none

/-- One step keeps what holds of a handle. -/
theorem HandleInv.step {e : Event} (hinv : HandleInv w h) (hok : w.Carried e)
    (hs : w.step e = some w') : HandleInv w' h := by
  have hquiet : ∀ {v : HandleLoop}, v.waiting.count h = w.waiting.count h → v.running = w.running →
      v.handles = w.handles → v.next = w.next → v.trace = w.trace → HandleInv v h := by
    intro v hwaiting hrunning hhandles hnext htrace
    refine hinv.of_same ⟨hwaiting, by rw [hrunning], by rw [hhandles], by rw [hnext], [], ?_, nofun⟩
    rw [htrace, List.append_nil]
  have hcallback : ∀ {h' : ℕ} {ready : List ℕ} (cancelled failure), w.ready = h' :: ready →
      HandleInv
        ({ w with ready := ready }.callbackForPythonGenericCallbacks h' cancelled failure) h := by
    intro h' ready cancelled failure hready
    by_cases hh : h = h'
    · subst hh
      exact hinv.callback hready cancelled failure
    · exact hinv.of_same (sameFor_callback hready hh cancelled failure)
  cases step_cases hs with
  | callSoon threadSafe hrunning =>
    refine hinv.made rfl rfl rfl rfl ?_
    show (w.timers.map Prod.snd ++ (w.ready ++ [w.next])).count h = _
    rw [← List.append_assoc, List.count_append, List.count_singleton, waiting]
    simp
  | delayedCall task queue hrunning hpos hfresh =>
    cases queue with
    | queued =>
      refine hinv.made rfl rfl rfl rfl ?_
      show ((w.timers ++ [(task, w.next)]).map Prod.snd ++ w.ready).count h = _
      rw [List.map_append, waiting, List.count_append, List.count_append, List.count_append]
      simp only [List.map_cons, List.map_nil, List.count_singleton, beq_iff_eq]
      omega
    | refused => exact hinv.refused task
    | left => exact absurd ((hok task rfl).symm.trans hs) (Option.some_ne_none _).symm
  | cancel h' fails hmade => exact hinv.fastHandleCancel h' fails hmade
  | clear h' hmade => exact hinv.setHandle (fun _ => rfl) nofun
  | init h' hmade =>
    refine hinv.setHandle (fun heq => ?_) ?_
    · subst heq
      cases hcontext : (w.handles h).contextvars with
      | true => simp [PythonHandle.init, PythonHandle.clear, hcontext]
      | false => simp [PythonHandle.init, hcontext, hinv.nulls hcontext]
    · simp [PythonHandle.init]
  | harvest index timer hrunning hframes htimer =>
    refine hquiet ?_ rfl rfl rfl rfl
    obtain ⟨hlt, hget⟩ := List.getElem?_eq_some_iff.1 htimer
    have hperm : (timer.2 :: (w.timers.eraseIdx index).map Prod.snd).Perm (w.timers.map Prod.snd) := by
      rw [← hget]
      exact (List.getElem_cons_eraseIdx_perm hlt).map Prod.snd
    show ((w.timers.eraseIdx index).map Prod.snd ++ (w.ready ++ [timer.2])).count h = _
    rw [waiting, List.count_append, List.count_append, List.count_append, ← hperm.count_eq,
      List.count_cons, List.count_cons, List.count_nil]
    omega
  | execute failure h' ready hrunning hframes hready => exact hcallback false failure hready
  | returned h' frames hframes => exact hinv.dropFrame hframes
  | exits h' frames hframes => exact hinv.dropFrame hframes
  | raised h' frames hframes =>
    refine hinv.of_same ⟨rfl, ?_, rfl, .rfl, _, rfl, fun e he => ?_⟩
    · simp [running, emit, hframes, Frame.handle]
    · rw [List.mem_singleton.1 he]
      exact nofun
  | handled h' frames hframes => exact hinv.dropFrame hframes
  | close hrunning hframes => exact hquiet rfl rfl rfl rfl rfl
  | release h' ready hphase hready => exact hcallback true none hready
  | cancelAll hphase hready =>
    refine hquiet ?_ rfl rfl rfl rfl
    simp [waiting, hready]
  | closed hphase hready => exact hquiet rfl rfl rfl rfl rfl

/-- When the loop is closed nothing is scheduled any more. -/
structure PhaseInv (w : HandleLoop) : Prop where
  frames : w.phase ≠ .running → w.frames = []
  timers : w.phase = .draining ∨ w.phase = .closed → w.timers = []
  ready : w.phase = .closed → w.ready = []

theorem callback_frame (w : HandleLoop) (h : ℕ) (cancelled : Bool) (failure : Option CallFailure) :
    (w.callbackForPythonGenericCallbacks h cancelled failure).phase = w.phase ∧
      (w.callbackForPythonGenericCallbacks h cancelled failure).timers = w.timers ∧
      (w.callbackForPythonGenericCallbacks h cancelled failure).ready = w.ready ∧
      (cancelled = true →
        (w.callbackForPythonGenericCallbacks h cancelled failure).frames = w.frames) := by
  obtain heq | ⟨hgoes, heq⟩ | ⟨hgoes, -, heq⟩ := callback_cases w h cancelled failure
  · rw [heq]
    exact ⟨rfl, rfl, rfl, fun _ => rfl⟩
  · rw [heq]
    exact ⟨rfl, rfl, rfl, fun hc => absurd hc (by simp [(claim_goesOn hgoes).1])⟩
  · rw [heq]
    exact ⟨rfl, rfl, rfl, fun hc => absurd hc (by simp [(claim_goesOn hgoes).1])⟩

theorem fastHandleCancel_frame (w : HandleLoop) (h : ℕ) (fails : Bool) :
    (w.fastHandleCancel h fails).phase = w.phase ∧ (w.fastHandleCancel h fails).timers = w.timers ∧
      (w.fastHandleCancel h fails).ready = w.ready ∧
      (w.fastHandleCancel h fails).frames = w.frames := by
  unfold fastHandleCancel
  dsimp only
  split
  · exact ⟨rfl, rfl, rfl, rfl⟩
  split
  · split
    · exact ⟨rfl, rfl, rfl, rfl⟩
    · exact ⟨rfl, rfl, rfl, rfl⟩
  · exact ⟨rfl, rfl, rfl, rfl⟩

theorem PhaseInv.step {e : Event} (hinv : PhaseInv w) (hs : w.step e = some w') : PhaseInv w' := by
  have hsame : ∀ {v : HandleLoop}, v.phase = w.phase → v.timers = w.timers → v.ready = w.ready →
      v.frames = w.frames → PhaseInv v := by
    intro v hphase htimers hready hframes
    refine ⟨?_, ?_, ?_⟩
    · rw [hphase, hframes]
      exact hinv.frames
    · rw [hphase, htimers]
      exact hinv.timers
    · rw [hphase, hready]
      exact hinv.ready
  have hrunning : ∀ {v : HandleLoop}, v.phase = .running → PhaseInv v := by
    intro v hphase
    refine ⟨fun hne => absurd hphase hne, fun hor => ?_, fun hclosed => ?_⟩
    · obtain hc | hc := hor <;> rw [hphase] at hc <;> exact nomatch hc
    · rw [hphase] at hclosed
      exact nomatch hclosed
  have hphase : w.frames ≠ [] → w.phase = .running := fun hne => by_contra fun h => hne (hinv.frames h)
  cases step_cases hs with
  | callSoon threadSafe hopen => exact hrunning hopen
  | delayedCall task queue hopen hpos hfresh => cases queue <;> exact hrunning hopen
  | cancel h fails hmade =>
    obtain ⟨h₁, h₂, h₃, h₄⟩ := w.fastHandleCancel_frame h fails
    exact hsame h₁ h₂ h₃ h₄
  | clear h hmade => exact hsame rfl rfl rfl rfl
  | init h hmade => exact hsame rfl rfl rfl rfl
  | harvest index timer hopen hframes htimer => exact hrunning hopen
  | execute failure h ready hopen hframes hready =>
    exact hrunning ((callback_frame _ _ _ _).1.trans hopen)
  | returned h frames hframes => exact hrunning (hphase (by simp [hframes]))
  | exits h frames hframes => exact hrunning (hphase (by simp [hframes]))
  | raised h frames hframes => exact hrunning (hphase (by simp [hframes]))
  | handled h frames hframes => exact hrunning (hphase (by simp [hframes]))
  | close hopen hframes => exact ⟨fun _ => hframes, fun hor => hor.elim nofun nofun, nofun⟩
  | release h ready hclosing hready =>
    obtain ⟨h₁, h₂, -, h₄⟩ := callback_frame { w with ready := ready } h true none
    refine ⟨fun _ => ?_, fun hor => ?_, fun hclosed => ?_⟩
    · rw [h₄ rfl]
      refine hinv.frames fun hrun => ?_
      obtain hc | hc := hclosing <;> rw [hrun] at hc <;> exact nomatch hc
    · rw [h₁] at hor
      rw [h₂]
      exact hinv.timers hor
    · rw [h₁] at hclosed
      obtain hc | hc := hclosing <;> exact nomatch hc.symm.trans hclosed
  | cancelAll hclosing hready =>
    refine ⟨fun _ => hinv.frames ?_, fun _ => rfl, nofun⟩
    rw [hclosing]
    exact nofun
  | closed hclosing hready =>
    refine ⟨fun _ => hinv.frames ?_, fun _ => hinv.timers (.inl hclosing), fun _ => hready⟩
    rw [hclosing]
    exact nofun

/-! ### Whole runs -/

/-- What is promised about a handle that was scheduled. -/
structure Sound (w : HandleLoop) (h : ℕ) : Prop where
  /-- the user's callback is called at most once -/
  atMostOnce : w.trace.count (.called h) ≤ 1
  /-- it is not called after a `cancel()` that returned -/
  notAfterCancel : NotAfterCancel w.trace h
  /-- the reference was dropped once, or one carrier still has it -/
  reference : w.trace.count (.decref h) + (w.waiting ++ w.running).count h = 1
  /-- when the loop is closed it was dropped once -/
  dropped : w.phase = .closed → w.trace.count (.decref h) = 1

theorem sound_of_inv (hinv : ∀ h, HandleInv w h) (hphase : PhaseInv w) : ∀ h < w.next, Sound w h := by
  intro h hlt
  have honce := (hinv h).once
  rw [if_pos hlt] at honce
  refine ⟨(hinv h).calls, (hinv h).order, ?_, fun hclosed => ?_⟩
  · rw [List.count_append]
    omega
  · have hwaiting : w.waiting = [] := by
      simp [waiting, hphase.timers (.inr hclosed), hphase.ready hclosed]
    have hrunning : w.running = [] := by
      simp [running, hphase.frames (by rw [hclosed]; exact nofun)]
    rw [hwaiting, hrunning] at honce
    simpa using honce

/-- A timer in the ring whose handle was dropped. -/
theorem not_sound_of_left (w : HandleLoop) (task : ℕ) :
    ¬∀ h < (w.delayedCall task .left).next, Sound (w.delayedCall task .left) h := by
  intro hsound
  have href := (hsound w.next (Nat.lt_succ_self _)).reference
  have hdropped : 1 ≤ (w.delayedCall task .left).trace.count (.decref w.next) :=
    List.count_pos_iff.2 (by simp [delayedCall, emit])
  have hcarried : 1 ≤ ((w.delayedCall task .left).waiting ++ (w.delayedCall task .left).running).count
      w.next := List.count_pos_iff.2 (by simp [delayedCall, waiting, emit])
  omega

/-- **Handles.** In the runs in which no call fails with its timer in the ring, and in no others, each
handle that was made was called at most once and not after a `cancel()` that returned, and its reference
was dropped exactly once or is still carried by exactly one of its timer, the ready queue and its running
callback; a closed loop has dropped it. -/
theorem handles_sound_iff (es : List Event) :
    Runs.Always step (fun w => ∀ h < w.next, Sound w h) new es ↔ Runs.Along step Carried new es := by
  have hnew : (∀ h, HandleInv new h) ∧ PhaseInv new := by
    refine ⟨fun h => ⟨rfl, fun _ => ⟨nofun, nofun⟩, nofun, nofun, Nat.zero_le _, ?_⟩,
      ⟨fun _ => rfl, fun _ => rfl, fun _ => rfl⟩⟩
    intro pre post heq
    exact absurd heq.symm (by simp [new])
  refine Runs.always_iff_along_of_break (I := fun w => (∀ h, HandleInv w h) ∧ PhaseInv w) hnew
    (fun w hw => sound_of_inv hw.1 hw.2)
    (fun u e v hu hok hs => ⟨fun h => (hu.1 h).step hok hs, hu.2.step hs⟩) ?_ fun u e hs _ _ => hs
  rintro u e v - hs hsound task rfl
  cases step_cases hs
  exact absurd hsound (not_sound_of_left u task)

/-- `call_later` raises, and its handle is freed; the timer expires all the same, the user's callback is called,
and the reference is dropped again. -/
theorem timer_without_handle :
    ((Runs.exec step new [.delayedCall 1 .left, .harvest 0, .execute none, .returned]).map trace) =
        some [.decref 0, .called 0, .decref 0] ∧
      ¬∀ es : List Event, Runs.Always step (fun w => ∀ h < w.next, Sound w h) new es := by
  refine ⟨rfl, fun hall => ?_⟩
  exact not_sound_of_left new 1 ((hall [.delayedCall 1 .left]).last rfl)

end HandleLoop

end Talyn
