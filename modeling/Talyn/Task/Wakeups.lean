import Talyn.Task.Invariant

/-!
# The wake-ups of a task

A task that is not done has exactly one wake-up, which owns one reference to it: registered, queued, or
in the step that is being executed. It loses the wake-up in three ways. `add_done_callback` ignores a
future that is not pending, while its caller takes the reference all the same. A step that fails before it
registered a wake-up leaves the task pending when the exception is fatal, or when it was begun by
`py_wake_up`. And `py_wake_up` leaves it pending when the awaited object has no `result`.
-/

namespace Talyn

namespace Tasks

/-- A step of the task is being executed. -/
def stepping (w : Tasks) (t : ℕ) : ℕ := (w.running.any fun s => decide (s.task = t)).toNat

/-- Each wake-up owns a reference, and a task that is not done has one wake-up, which will come. -/
structure Owned (w : Tasks) : Prop where
  refs : ∀ t, w.isTask t = true → (w.tasks t).refs = w.carriers t + w.stepping t
  one : ∀ t, w.isTask t = true → w.status t = .pending → w.carriers t + w.stepping t = 1
  invoked : ∀ c ∈ w.callbacks, w.status c.1 = .pending ∨ .runCallbacks c.1 ∈ w.ready

/-- The coroutine yields an object that will not wake the task up: a future that is not pending, or one
whose handling fails before a wake-up is registered, in a way that leaves the task pending. -/
def Strands (w : Tasks) (s : Step) (y : Yield) : Prop :=
  (∃ f repr, y = .talyn f repr ∧ Awaits w s.task f ∧ w.status f ≠ .pending) ∨
    ∃ e, w.failure s.task y = some e ∧ (e = .fatal ∨ ∃ l, s.carrier = .legacy l)

/-- No coroutine yields such an object, and an awaited legacy object has a `result`. -/
def KeepsWakeups (w : Tasks) (e : Event) : Prop :=
  (w.step e).isSome →
    (∀ l t enters, e = .legacyWake l t none enters → w.status t ≠ .pending) ∧
      ∀ s y, w.running = some s → e = .yielded y → ¬Strands w s y

variable {w v : Tasks} {t f u : ℕ}

/-! ### References without a wake-up -/

/-- The references to a task that no registered or queued wake-up owns. -/
def net (w : Tasks) (t : ℕ) : ℤ := (w.tasks t).refs - w.carriers t

theorem net_setTask_add {c : TaskObject → TaskObject} {d : ℤ}
    (hrefs : (c (w.tasks t)).refs = (w.tasks t).refs + d) (u : ℕ) :
    (w.setTask t c).net u = w.net u + if t = u then d else 0 := by
  unfold net
  rw [carriers_setTask]
  by_cases heq : t = u
  · subst heq
    rw [tasks_setTask, hrefs, if_pos rfl]
    omega
  · rw [tasks_setTask_of_ne w c (Ne.symm heq), if_neg heq, add_zero]

theorem net_setTask {c : TaskObject → TaskObject} (hrefs : (c (w.tasks t)).refs = (w.tasks t).refs)
    (u : ℕ) : (w.setTask t c).net u = w.net u := by
  rw [net_setTask_add (hrefs.trans (add_zero _).symm), ite_self, add_zero]

theorem net_incref (w : Tasks) (t u : ℕ) : (w.incref t).net u = w.net u + (decide (t = u)).toNat := by
  unfold incref
  rw [net_setTask_add rfl]
  by_cases heq : t = u <;> simp [heq]

theorem net_decref (w : Tasks) (t u : ℕ) : (w.decref t).net u = w.net u - (decide (t = u)).toNat := by
  unfold decref
  rw [net_setTask_add (sub_eq_add_neg _ _)]
  by_cases heq : t = u <;> simp [heq, sub_eq_add_neg]

/-- A task gets a wake-up with its reference. -/
theorem net_wakeUp (htasks : v.tasks = w.tasks)
    (hcarriers : ∀ t', v.carriers t' = w.carriers t' + (decide (t = t')).toNat) (u : ℕ) :
    (v.incref t).net u = w.net u := by
  rw [net_incref, net, net, htasks, hcarriers]
  push_cast
  omega

theorem Completes.net (hc : Completes w v f) (u : ℕ) : v.net u = w.net u := by
  rw [Tasks.net, Tasks.net, hc.tasks, hc.carriers]

theorem net_register (w : Tasks) (t l u : ℕ) : (w.register t l).net u = w.net u :=
  net_wakeUp (w := w) (v := { w with legacy := w.legacy ++ [(l, t)] }) rfl (carriers_register w t l) u

theorem net_awaitLegacy (w : Tasks) (t l u : ℕ) : (w.awaitLegacy t l).net u = w.net u :=
  (net_setTask rfl u).trans (net_register w t l u)

theorem net_await (hpending : w.status f = .pending) (t u : ℕ) : (w.await t f).net u = w.net u := by
  have hadded := net_wakeUp (addDoneCallback_frame w f t).2.1 (carriers_addDoneCallback hpending) u
  have hwaiter := net_setTask (w := (w.addDoneCallback f t).incref t) (t := t)
    (c := fun task => { task with futWaiter := some (.future f) }) rfl u
  exact hwaiter.trans hadded

/-- The reference for a future that is not pending. -/
theorem net_await_of_done (hdone : w.status f ≠ .pending) (t : ℕ) : (w.await t f).net t = w.net t + 1 := by
  have hincref := net_incref w t t
  rw [decide_eq_true rfl] at hincref
  have hwaiter := net_setTask (w := (w.addDoneCallback f t).incref t) (t := t)
    (c := fun task => { task with futWaiter := some (.future f) }) rfl t
  rw [addDoneCallback_of_done hdone] at hwaiter
  refine Eq.trans ?_ (hwaiter.trans hincref)
  rw [Tasks.await, addDoneCallback_of_done hdone]
  rfl

theorem net_cancelFutureObject (w : Tasks) (t f u : ℕ) : (w.cancelFutureObject t f).net u = w.net u := by
  have hcancel := (completes_futureFastCancel w f).net u
  unfold Tasks.cancelFutureObject
  dsimp only
  split
  · split
    · exact (net_setTask rfl u).trans ((net_setTask rfl u).trans hcancel)
    · exact (net_setTask rfl u).trans hcancel
  · exact hcancel

theorem net_stepFails (w : Tasks) (s : Step) (e : Exc) (u : ℕ) : (w.stepFails s e).net u = w.net u := by
  unfold Tasks.stepFails
  split
  · rfl
  · rfl
  · split
    · exact (net_setTask rfl u).trans ((completes_futureFastSetException w s.task).net u)
    · rfl

theorem net_stepEnds (w : Tasks) (t u : ℕ) : (w.stepEnds t).net u = w.net u - (decide (t = u)).toNat :=
  net_decref w t u

/-- The object is one that wakes the task up, if it is handled. -/
theorem net_handled {y : Yield} {e : Option Exc} (hh : Handled w t y v e)
    (hawaited : ∀ f repr, y = .talyn f repr → Awaits w t f → w.status f = .pending) (u : ℕ) :
    v.net u = w.net u := by
  cases hh with
  | fails => rfl
  | @queued y r hr =>
    refine net_wakeUp (w := w) (v := w.dispatch r) rfl (fun t' => ?_) u
    rw [carriers_dispatch, hr]
  | awaited hawaits => exact net_await (hawaited _ _ rfl hawaits) t u
  | forwarded hawaits =>
    exact (net_cancelFutureObject _ t _ u).trans (net_await (hawaited _ _ rfl hawaits) t u)
  | flagFails => exact net_register w t _ u
  | legacy => exact net_awaitLegacy w t _ u
  | legacyForwarded => exact (net_setTask rfl u).trans (net_awaitLegacy w t _ u)
  | legacyRaises => exact net_awaitLegacy w t _ u

/-! ### The wake-ups of the tasks after a step -/

theorem carriers_await (hpending : w.status f = .pending) (t u : ℕ) :
    (w.await t f).carriers u = w.carriers u + (decide (t = u)).toNat :=
  carriers_addDoneCallback hpending u

theorem carriers_cancelFutureObject (w : Tasks) (t f : ℕ) :
    (w.cancelFutureObject t f).carriers = w.carriers := by
  have hcancel := funext (completes_futureFastCancel w f).carriers
  unfold Tasks.cancelFutureObject
  dsimp only
  split
  · split <;> exact hcancel
  · exact hcancel

theorem carriers_stepFails (w : Tasks) (s : Step) (e : Exc) : (w.stepFails s e).carriers = w.carriers := by
  unfold Tasks.stepFails
  split
  · rfl
  · rfl
  · split
    · exact funext (completes_futureFastSetException w s.task).carriers
    · rfl

/-- A handled object wakes the task up, and no other. -/
theorem carriers_handled {y : Yield} {e : Option Exc} (hh : Handled w t y v e)
    (hawaited : ∀ f repr, y = .talyn f repr → Awaits w t f → w.status f = .pending)
    (hearly : e = none ∨ w.failure t y = none) (u : ℕ) :
    v.carriers u = w.carriers u + (decide (t = u)).toNat := by
  cases hh with
  | fails hfails => exact nomatch (hearly.resolve_left nofun).symm.trans hfails
  | @queued y r hr =>
    show (w.dispatch r).carriers u = _
    rw [carriers_dispatch, hr]
  | awaited hawaits => exact carriers_await (hawaited _ _ rfl hawaits) t u
  | forwarded hawaits =>
    rw [carriers_cancelFutureObject]
    exact carriers_await (hawaited _ _ rfl hawaits) t u
  | flagFails => exact carriers_register w t _ u
  | legacy => exact carriers_register w t _ u
  | legacyForwarded => exact carriers_register w t _ u
  | legacyRaises => exact carriers_register w t _ u

/-- A future that is pending was pending. -/
theorem Completes.pending (hc : Completes w v f) (hf : w.status f ≠ .pending → v.status f ≠ .pending)
    (hu : v.status u = .pending) : w.status u = .pending := by
  by_cases heq : u = f
  · by_contra hdone
    subst heq
    exact hf hdone hu
  · exact (hc.status u heq).symm.trans hu

theorem pending_of_cancelFutureObject {t : ℕ} (hu : (w.cancelFutureObject t f).status u = .pending) :
    w.status u = .pending := by
  have hcancelled : (w.futureFastCancel f).2.status u = .pending := by
    unfold Tasks.cancelFutureObject at hu
    dsimp only at hu
    split at hu
    · split at hu <;> exact hu
    · exact hu
  exact (completes_futureFastCancel w f).pending (fun _ => status_futureFastCancel w f) hcancelled

theorem pending_of_handled {y : Yield} {e : Option Exc} (hh : Handled w t y v e)
    (hu : v.status u = .pending) : w.status u = .pending := by
  cases hh with
  | awaited =>
    rwa [status_await] at hu
  | forwarded =>
    have hawaited := pending_of_cancelFutureObject hu
    rwa [status_await] at hawaited
  | _ => exact hu

theorem pending_of_stepFails {s : Step} {e : Exc} (hu : (w.stepFails s e).status u = .pending) :
    w.status u = .pending := by
  unfold Tasks.stepFails at hu
  split at hu
  · exact hu
  · exact hu
  · split at hu
    · exact (completes_futureFastSetException w s.task).pending
        (fun _ => status_futureFastSetException w s.task) hu
    · exact hu

theorem stepping_eq_one {s : Step} (h : w.running = some s) : w.stepping s.task = 1 := by
  rw [stepping, h]
  simp

theorem stepping_eq_zero {s : Step} (h : w.running = some s) (hne : s.task ≠ t) : w.stepping t = 0 := by
  rw [stepping, h]
  simp [hne]

theorem stepping_of_none (h : w.running = none) (t : ℕ) : w.stepping t = 0 := by
  rw [stepping, h]
  rfl

/-- The wake-up of `t` is in hand: its reference is still owned, and `t` has no other. -/
structure InHand (w : Tasks) (t : ℕ) : Prop where
  net : ∀ u, w.isTask u = true → w.net u = (decide (t = u)).toNat
  one : ∀ u, w.isTask u = true → w.status u = .pending → w.carriers u + (decide (t = u)).toNat = 1

/-- What is owned when no step is being executed, or one of `t`. -/
theorem Owned.inHand (h : Owned w) {s : Step} (hs : w.running = some s) : InHand w s.task where
  net u hu := by
    have hrefs := h.refs u hu
    rw [Tasks.net]
    by_cases heq : s.task = u
    · rw [decide_eq_true heq]
      rw [← heq] at hrefs ⊢
      rw [stepping_eq_one hs] at hrefs
      simp only [Bool.toNat_true]
      omega
    · rw [decide_eq_false heq]
      rw [stepping_eq_zero hs heq] at hrefs
      simp only [Bool.toNat_false]
      omega
  one u hu hpending := by
    have hone := h.one u hu hpending
    by_cases heq : s.task = u
    · rw [decide_eq_true heq]
      rw [← heq] at hone ⊢
      rwa [stepping_eq_one hs] at hone
    · rw [decide_eq_false heq]
      rwa [stepping_eq_zero hs heq] at hone

/-- No step is executed, and each reference is that of a wake-up. -/
theorem Inv.owned (hinv : Inv v) (hidle : v.running = none) (hnet : ∀ u, v.isTask u = true → v.net u = 0)
    (hone : ∀ u, v.isTask u = true → v.status u = .pending → v.carriers u = 1) : Owned v where
  refs u hu := by
    have hzero := hnet u hu
    rw [Tasks.net] at hzero
    rw [stepping_of_none hidle]
    push_cast
    omega
  one u hu hpending := by
    rw [stepping_of_none hidle]
    exact hone u hu hpending
  invoked := hinv.invoked

/-- The wake-ups and references stay, and nothing becomes pending. -/
theorem InHand.congr (h : InHand w t) (hisTask : v.isTask = w.isTask) (hnet : ∀ u, v.net u = w.net u)
    (hcarriers : v.carriers = w.carriers) (hpending : ∀ u, v.status u = .pending → w.status u = .pending) :
    InHand v t where
  net u hu := (hnet u).trans (h.net u (hisTask ▸ hu))
  one u hu hup := by
    rw [hcarriers]
    exact h.one u (hisTask ▸ hu) (hpending u hup)

/-- The task is done, and the reference of its wake-up is released. -/
theorem InHand.released (h : InHand w t) (hinv : Inv v) (hidle : v.running = none)
    (hisTask : v.isTask = w.isTask) (hstatus : v.status = w.status) (hcarriers : v.carriers = w.carriers)
    (hnet : ∀ u, v.net u = w.net u - (decide (t = u)).toNat) (hdone : w.status t ≠ .pending) : Owned v := by
  refine hinv.owned hidle (fun u hu => ?_) fun u hu hpending => ?_
  · rw [hnet, h.net u (hisTask ▸ hu), sub_self]
  · rw [hstatus] at hpending
    have hone := h.one u (hisTask ▸ hu) hpending
    have hne : t ≠ u := by
      rintro rfl
      exact hdone hpending
    rw [decide_eq_false hne] at hone
    rw [hcarriers]
    exact hone

theorem InHand.decref (h : InHand w t) (hinv : Inv (w.decref t)) (hidle : w.running = none)
    (hdone : w.status t ≠ .pending) : Owned (w.decref t) :=
  h.released hinv hidle rfl rfl rfl (net_decref w t) hdone

theorem InHand.stepEnds (h : InHand w t) (hbase : Base w) (hdone : w.status t ≠ .pending) :
    Owned (w.stepEnds t) :=
  h.released (hbase.stepEnds t) rfl rfl rfl rfl (net_stepEnds w t) hdone

/-- The step begins that the wake-up stands for. -/
theorem InHand.steps (h : InHand w t) (hinv : Inv v) {s : Step} (hs : v.running = some s) (ht : s.task = t)
    (hisTask : v.isTask = w.isTask) (hstatus : v.status = w.status) (hcarriers : v.carriers = w.carriers)
    (hnet : ∀ u, v.net u = w.net u) : Owned v := by
  have hstepping : ∀ u, v.stepping u = (decide (t = u)).toNat := by
    intro u
    by_cases heq : t = u
    · rw [decide_eq_true heq, ← heq, ← ht]
      exact stepping_eq_one hs
    · rw [decide_eq_false heq]
      exact stepping_eq_zero hs (ht ▸ heq)
  refine { refs := fun u hu => ?_, one := fun u hu hpending => ?_, invoked := hinv.invoked }
  · have hone := (hnet u).trans (h.net u (hisTask ▸ hu))
    rw [Tasks.net] at hone
    rw [hstepping]
    omega
  · rw [hstepping, hcarriers]
    exact h.one u (hisTask ▸ hu) (hstatus ▸ hpending)

/-! ### The beginning of a step -/

theorem Taken.inHand {u : Tasks} (ht : Taken w u t) (h : Owned w) (hrunning : w.running = none) : InHand u t where
  net u' hu' := by
    have hrefs := h.refs u' (ht.isTask ▸ hu')
    rw [ht.carriers u', stepping_of_none hrunning] at hrefs
    have hkept : (u.tasks u').refs = (w.tasks u').refs := by rw [ht.tasks u']
    rw [Tasks.net, hkept]
    push_cast at hrefs
    omega
  one u' hu' hpending := by
    have hone := h.one u' (ht.isTask ▸ hu') (ht.status ▸ hpending)
    rwa [ht.carriers u', stepping_of_none hrunning] at hone

/-- A task is completed and loses no wake-up. -/
theorem InHand.completes (h : InHand w t) {c : TaskObject → TaskObject} (hc : Completes w v f)
    (hdone : v.status f ≠ .pending) (hrefs : ∀ task, (c task).refs = task.refs) :
    InHand (v.setTask t c) t := by
  refine h.congr hc.isTask (fun u => ?_) (funext hc.carriers) fun u hu => hc.pending (fun _ => hdone) hu
  exact (net_setTask (hrefs _) u).trans (hc.net u)

theorem InHand.failedExecution (h : InHand w t) (e : Exc) :
    InHand (w.failedExecution t e) t ∧ (w.failedExecution t e).status t ≠ .pending := by
  have hraised : InHand ((w.futureFastSetException t).finish t) t :=
    h.completes (completes_futureFastSetException w t) (status_futureFastSetException w t) fun _ => rfl
  cases e with
  | cancelledError =>
    refine ⟨?_, status_futureFastCancel w t⟩
    exact h.completes (c := fun task => { task.consume .finished with futWaiter := none })
      (completes_futureFastCancel w t) (status_futureFastCancel w t) fun _ => rfl
  | ordinary => exact ⟨hraised, status_futureFastSetException w t⟩
  | fatal => exact ⟨hraised, status_futureFastSetException w t⟩

theorem InHand.setResult (h : InHand w t) :
    InHand (w.setResult t) t ∧ (w.setResult t).status t ≠ .pending := by
  unfold Tasks.setResult
  split
  · refine ⟨?_, status_futureFastCancel w t⟩
    exact h.completes (completes_futureFastCancel w t) (status_futureFastCancel w t) fun _ => rfl
  · have hdone : (w.futureFastSetResult t).status t ≠ .pending := status_callDoneCallbacks nofun
    exact ⟨h.completes (completes_callDoneCallbacks w t .finished) hdone fun _ => rfl, hdone⟩

/-- What is done with the wake-up of a task that is in hand. -/
theorem InHand.execute {s : Step} (h : InHand w s.task) (hidle : w.running = none) {enters : Bool}
    (hinv : Inv (w.execute s enters)) : Owned (w.execute s enters) := by
  have hflag : InHand (w.setTask s.task fun task => { task with mustCancel := false }) s.task :=
    h.congr rfl (net_setTask rfl) rfl fun _ hu => hu
  revert hinv
  unfold Tasks.execute
  dsimp only
  split
  · rename_i hdone
    exact fun hinv => hflag.decref hinv hidle hdone
  split
  · intro hinv
    refine hflag.steps hinv rfl rfl rfl rfl rfl ?_
    exact net_setTask (c := fun task => { task.consume .thrown with coro := .running }) rfl
  · intro hinv
    obtain ⟨hfailed, hdone⟩ := hflag.failedExecution .ordinary
    exact hfailed.decref hinv ((running_failedExecution _ _ _).trans hidle) hdone

/-! ### The end of a step -/

theorem net_yielding (w : Tasks) (t u : ℕ) : (w.yielding t).net u = w.net u := net_setTask rfl u

/-- What the handling of an object leaves that does not wake the task up. -/
theorem handled_of_failure {y : Yield} {e : Exc} {e' : Option Exc} (hfails : w.failure t y = some e)
    (hh : Handled w t y v e') : v = w ∧ e' = some e := by
  cases hh with
  | fails hfails' => exact ⟨rfl, hfails'.symm.trans hfails⟩
  | queued hr hr' hnone => cases hnone.symm.trans hfails
  | awaited hawaits =>
    rw [failure, if_pos ((awaits_iff w t _).1 hawaits)] at hfails
    cases hfails
  | forwarded hawaits =>
    rw [failure, if_pos ((awaits_iff w t _).1 hawaits)] at hfails
    cases hfails
  | _ => cases hfails

theorem isTask_handled {y : Yield} {e : Option Exc} (hh : Handled w t y v e) : v.isTask = w.isTask := by
  cases hh with
  | awaited => exact isTask_await w t _
  | forwarded => exact (isTask_cancelFutureObject _ t _).trans (isTask_await w t _)
  | _ => rfl

theorem isTask_stepFails (w : Tasks) (s : Step) (e : Exc) : (w.stepFails s e).isTask = w.isTask := by
  unfold Tasks.stepFails
  split
  · rfl
  · rfl
  · split
    · exact (completes_futureFastSetException w s.task).isTask
    · rfl

/-- A step that fails and is not spared completes its task. -/
theorem status_stepFails {s : Step} {e : Exc} (hfatal : e ≠ .fatal) (hlegacy : ∀ l, s.carrier ≠ .legacy l) :
    (w.stepFails s e).status s.task ≠ .pending := by
  unfold Tasks.stepFails
  split
  · exact absurd ‹_› (hlegacy _)
  · exact absurd rfl hfatal
  · split
    · exact status_futureFastSetException w s.task
    · assumption

/-- The step is over, and the task has its next wake-up. -/
theorem InHand.awaits (h : InHand w t) (hbase : Base v)
    (hisTask : v.isTask = w.isTask) (hnet : ∀ u, v.net u = w.net u)
    (hcarriers : ∀ u, v.carriers u = w.carriers u + (decide (t = u)).toNat)
    (hpending : ∀ u, v.status u = .pending → w.status u = .pending) : Owned (v.stepEnds t) := by
  refine (hbase.stepEnds t).owned rfl (fun u hu => ?_) fun u hu hup => ?_
  · rw [net_stepEnds, hnet, h.net u (hisTask ▸ hu), sub_self]
  · show v.carriers u = 1
    have hone := h.one u (hisTask ▸ hu) (hpending u hup)
    rw [hcarriers]
    exact hone

theorem Owned.coroYields (h : Owned w) (hinv : Inv w) {s : Step} (hs : w.running = some s) {y : Yield}
    (hwakes : ¬Strands w s y) : Owned (w.coroYields s y) := by
  have hactive := hinv.active s hs
  have hhand : InHand (w.yielding s.task) s.task :=
    (h.inHand hs).congr rfl (net_yielding w s.task) rfl fun _ hu => hu
  have hbase : Base (w.yielding s.task) := hinv.toBase.setTask rfl
  have hwaiter : ((w.yielding s.task).tasks s.task).futWaiter = none := by
    rw [yielding, tasks_setTask]
    exact hactive.waiter
  have hawaited : ∀ f repr, y = .talyn f repr → Awaits (w.yielding s.task) s.task f →
      (w.yielding s.task).status f = .pending := by
    intro f repr hy hawaits
    by_contra hdone
    exact hwakes (.inl ⟨f, repr, hy, hawaits, hdone⟩)
  rcases coroYields_cases hactive y with ⟨u, hh, heq⟩ | ⟨u, e, hh, heq⟩
  · rw [heq]
    exact hhand.awaits (hbase.handled hactive.isTask hactive.alone hwaiter hh)
      (isTask_handled hh) (net_handled hh hawaited) (carriers_handled hh hawaited (.inl rfl))
      fun _ => pending_of_handled hh
  rw [heq]
  have hfailed : Base (u.stepFails s e) :=
    (hbase.handled hactive.isTask hactive.alone hwaiter hh).stepFails s e
  cases hearly : (w.yielding s.task).failure s.task y with
  | some e' =>
    -- the task got no wake-up and is done
    obtain ⟨rfl, hexc⟩ := handled_of_failure hearly hh
    obtain rfl := Option.some.inj hexc
    have hdone : ((w.yielding s.task).stepFails s e).status s.task ≠ .pending := by
      refine status_stepFails ?_ fun l hl => hwakes (.inr ⟨e, hearly, .inr ⟨l, hl⟩⟩)
      rintro rfl
      exact hwakes (.inr ⟨_, hearly, .inl rfl⟩)
    have hkept : InHand ((w.yielding s.task).stepFails s e) s.task :=
      hhand.congr (isTask_stepFails _ s e) (net_stepFails _ s e) (carriers_stepFails _ s e)
        fun _ => pending_of_stepFails
    exact hkept.stepEnds hfailed hdone
  | none =>
    -- the failure came after the wake-up was registered
    refine hhand.awaits hfailed ((isTask_stepFails u s e).trans (isTask_handled hh)) ?_ ?_ ?_
    · exact fun x => (net_stepFails u s e x).trans (net_handled hh hawaited x)
    · intro x
      rw [carriers_stepFails]
      exact carriers_handled hh hawaited (.inr hearly) x
    · exact fun x hx => pending_of_handled hh (pending_of_stepFails hx)

/-! ### The other events -/

/-- The wake-ups and references of the tasks stay, and none becomes pending. -/
theorem Owned.frame (h : Owned w) (hinv : Inv v) (hisTask : v.isTask = w.isTask)
    (hrefs : ∀ u, (v.tasks u).refs = (w.tasks u).refs) (hcarriers : v.carriers = w.carriers)
    (hrunning : v.running = w.running)
    (hpending : ∀ u, w.isTask u = true → v.status u = .pending → w.status u = .pending) : Owned v := by
  have hstepping : v.stepping = w.stepping := by
    funext u
    rw [stepping, stepping, hrunning]
  refine { refs := fun u hu => ?_, one := fun u hu hup => ?_, invoked := hinv.invoked }
  · rw [hrefs, hcarriers, hstepping]
    exact h.refs u (hisTask ▸ hu)
  · rw [hcarriers, hstepping]
    exact h.one u (hisTask ▸ hu) (hpending u (hisTask ▸ hu) hup)

/-- A plain future is completed. -/
theorem Owned.completes (h : Owned w) (hinv : Inv v) (hc : Completes w v f) (hf : w.isTask f = false) :
    Owned v := by
  refine h.frame hinv hc.isTask (fun u => by rw [hc.tasks]) (funext hc.carriers) hc.running ?_
  intro u hu hpending
  have hne : u ≠ f := by
    rintro rfl
    exact absurd (hu.symm.trans hf) nofun
  exact (hc.status u hne).symm.trans hpending

theorem Owned.setTask (h : Owned w) {c : TaskObject → TaskObject} (hinv : Inv (w.setTask t c))
    (hrefs : (c (w.tasks t)).refs = (w.tasks t).refs) : Owned (w.setTask t c) := by
  refine h.frame hinv rfl (fun u => ?_) rfl rfl fun _ _ hu => hu
  by_cases heq : u = t
  · rw [heq, tasks_setTask, hrefs]
  · rw [tasks_setTask_of_ne w c heq]

theorem Owned.newFuture (h : Owned w) (hinv : Inv w) {ours : Bool} (hv : w.act (.newFuture ours) = some v) :
    Owned v := by
  have hinv' := hinv.newFuture hv
  obtain rfl := Option.some.inj hv
  refine h.frame hinv' rfl (fun _ => rfl) rfl rfl fun u hu hpending => ?_
  have hne : u ≠ w.next := by
    rintro rfl
    exact absurd (hu.symm.trans (hinv.fresh _ le_rfl)) nofun
  have hold : (Function.update w.futures w.next (.new ours) u).status = w.status u := by
    rw [Function.update_of_ne hne]
    rfl
  exact hold.symm.trans hpending

/-- A new task has its first wake-up. -/
theorem Owned.newTask (h : Owned w) (hinv : Inv w) (hv : w.act .newTask = some v) : Owned v := by
  have hinv' := hinv.newTask hv
  obtain rfl := Option.some.inj hv
  generalize hw : ({ w with
    next := w.next + 1, isTask := Function.update w.isTask w.next true
    futures := Function.update w.futures w.next (.new true)
    tasks := Function.update w.tasks w.next .new, ready := w.ready ++ [.send w.next] } : Tasks) = v
    at hinv' ⊢
  have hcarriers : ∀ u, v.carriers u = w.carriers u + (decide (w.next = u)).toNat := by
    rw [← hw]
    exact carriers_dispatch w (.send w.next)
  have hrunning : v.running = w.running := by rw [← hw]
  have hnext := hinv.fresh w.next le_rfl
  have hidle : v.stepping w.next = 0 := by
    cases hs : w.running with
    | none => exact stepping_of_none (hrunning.trans hs) _
    | some s =>
      refine stepping_eq_zero (hrunning.trans hs) ?_
      intro heq
      exact nomatch (heq ▸ (hinv.active s hs).isTask).symm.trans hnext
  have hstepping : v.stepping = w.stepping := by
    funext u
    rw [stepping, stepping, hrunning]
  have hfirst : v.carriers w.next = 1 := by
    rw [hcarriers, hinv.tasks w.next hnext, decide_eq_true rfl]
    rfl
  have hold : ∀ {u}, u ≠ w.next → v.carriers u = w.carriers u := by
    intro u hne
    rw [hcarriers, decide_eq_false hne.symm]
    rfl
  refine { refs := fun u hu => ?_, one := fun u hu hpending => ?_, invoked := hinv'.invoked }
  · by_cases heq : u = w.next
    · rw [heq, hfirst, hidle, ← hw]
      show (Function.update w.tasks w.next .new w.next).refs = _
      rw [Function.update_self]
      rfl
    · rw [hold heq, hstepping]
      rw [← hw] at hu ⊢
      show (Function.update w.tasks w.next .new u).refs = _
      rw [Function.update_of_ne heq]
      exact h.refs u ((Function.update_of_ne heq ..).symm.trans hu)
  · by_cases heq : u = w.next
    · rw [heq, hfirst, hidle]
    · rw [hold heq, hstepping]
      rw [← hw] at hu hpending
      refine h.one u ((Function.update_of_ne heq ..).symm.trans hu) (Eq.trans ?_ hpending)
      show w.status u = (Function.update w.futures w.next (.new true) u).status
      rw [Function.update_of_ne heq]
      rfl

theorem Owned.taskCancel (h : Owned w) (hinv : Inv w) (ht : w.isTask t = true) (answer : Answer) :
    Owned (w.taskCancel t answer) := by
  have hoverflowed : Inv { w with overflowed := true } :=
    { hinv with active := fun s hs => { hinv.active s hs with } }
  refine (taskCancel_rule (P := fun u => Inv u ∧ Owned u) ?_ ?_ ht ⟨hinv, h⟩ ⟨hoverflowed, ?_⟩).2
  · rintro u g ⟨hu, howned⟩ hg
    have hc := completes_futureFastCancel u g
    have hdone := hu.completes hc (hu.not_running hg)
    exact ⟨hdone, howned.completes hdone hc hg⟩
  · rintro u g ⟨hu, howned⟩ - -
    have hset : ∀ {c : TaskObject → TaskObject}, (c (u.tasks g)).futWaiter = (u.tasks g).futWaiter →
        (c (u.tasks g)).coro = (u.tasks g).coro → (c (u.tasks g)).refs = (u.tasks g).refs →
        Inv (u.setTask g c) ∧ Owned (u.setTask g c) := by
      intro c hwaiter hcoro hrefs
      exact ⟨hu.setTask hwaiter hcoro, howned.setTask (hu.setTask hwaiter hcoro) hrefs⟩
    exact ⟨hset rfl rfl rfl, hset rfl rfl rfl, hset rfl rfl rfl⟩
  · exact h.frame hoverflowed rfl (fun _ => rfl) rfl rfl fun _ _ hu => hu

theorem Owned.taskUncancel (h : Owned w) (hinv : Inv w) (t : ℕ) : Owned (w.taskUncancel t) := by
  refine h.setTask hinv.taskUncancel ?_
  dsimp only
  split <;> rfl

/-- A wake-up is taken. -/
theorem Owned.begins (h : Owned w) (hinv : Inv w) {e : Event}
    (he : ∃ enters, e = .tick enters ∨ e = .wake enters ∨ ∃ l t result, e = .legacyWake l t result enters)
    (hresult : ∀ l t enters, e = .legacyWake l t none enters → w.status t ≠ .pending)
    (hv : w.act e = some v) : Owned v := by
  have hinv' := hinv.act hv
  obtain ⟨hidle, ⟨u, s, enters, htaken, -, rfl⟩ | ⟨u, l, t, enters, htaken, hevent, rfl⟩ |
    ⟨-, -, hisTask, hstatus, htasks, hrunning, hcarriers⟩⟩ := hinv.toBase.begins he hv
  · exact (htaken.inHand h hidle).execute (htaken.running.trans hidle) hinv'
  · refine (htaken.inHand h hidle).decref hinv' (htaken.running.trans hidle) ?_
    rw [htaken.status]
    exact hresult l t enters hevent
  · refine h.frame hinv' hisTask (fun u => by rw [htasks]) hcarriers hrunning fun u _ hu => ?_
    rwa [hstatus] at hu

/-- An event that meets the condition. -/
theorem Owned.act (h : Owned w) (hinv : Inv w) {e : Event}
    (hresult : ∀ l t enters, e = .legacyWake l t none enters → w.status t ≠ .pending)
    (hyields : ∀ s y, w.running = some s → e = .yielded y → ¬Strands w s y) (hv : w.act e = some v) :
    Owned v := by
  have hinv' := hinv.act hv
  cases e with
  | newFuture ours => exact h.newFuture hinv hv
  | newTask => exact h.newTask hinv hv
  | setBlocking f blocking =>
    obtain rfl := setBlocking_eq hv
    refine h.frame hinv' rfl (fun _ => rfl) rfl rfl fun u _ hu => ?_
    rwa [status_setFuture rfl] at hu
  | setResult f =>
    obtain ⟨hplain, hc⟩ := completes_of_act (.inl rfl) hv
    exact h.completes hinv' hc hplain
  | setException f =>
    obtain ⟨hplain, hc⟩ := completes_of_act (.inr (.inl rfl)) hv
    exact h.completes hinv' hc hplain
  | cancelFuture f =>
    obtain ⟨hplain, hc⟩ := completes_of_act (.inr (.inr rfl)) hv
    exact h.completes hinv' hc hplain
  | cancel t answer =>
    obtain ⟨htask, rfl⟩ := cancel_eq hv
    exact h.taskCancel hinv htask answer
  | uncancel t =>
    obtain rfl := uncancel_eq hv
    exact h.taskUncancel hinv t
  | tick enters => exact h.begins hinv ⟨enters, .inl rfl⟩ hresult hv
  | wake enters => exact h.begins hinv ⟨enters, .inr (.inl rfl)⟩ hresult hv
  | legacyWake l t result enters =>
    exact h.begins hinv ⟨enters, .inr (.inr ⟨l, t, result, rfl⟩)⟩ hresult hv
  | returned =>
    obtain ⟨s, hs, rfl⟩ := Option.map_eq_some_iff.1 hv
    have hended : Base (w.coroEnds s.task) := hinv.toBase.setTask rfl
    have hhand : InHand (w.coroEnds s.task) s.task :=
      (h.inHand hs).congr rfl (net_setTask rfl) rfl fun _ hu => hu
    exact hhand.setResult.1.stepEnds hended.setResult hhand.setResult.2
  | raised e =>
    obtain ⟨s, hs, rfl⟩ := Option.map_eq_some_iff.1 hv
    have hended : Base (w.coroEnds s.task) := hinv.toBase.setTask rfl
    have hhand : InHand (w.coroEnds s.task) s.task :=
      (h.inHand hs).congr rfl (net_setTask rfl) rfl fun _ hu => hu
    exact (hhand.failedExecution e).1.stepEnds (hended.failedExecution e) (hhand.failedExecution e).2
  | yielded y =>
    obtain ⟨s, hs, rfl⟩ := yielded_eq hv
    exact h.coroYields hinv hs (hyields s y hs rfl)

/-! ### What loses a wake-up -/

/-- A task that is not done and has no wake-up. -/
theorem not_owned_of_stranded (htask : v.isTask t = true) (hpending : v.status t = .pending)
    (hnone : v.carriers t = 0) (hidle : v.running = none) : ¬Owned v := by
  intro h
  have hone := h.one t htask hpending
  rw [hnone, stepping_of_none hidle] at hone
  exact nomatch hone

theorem not_strands_of_owned (h : Owned w) (hinv : Inv w) {s : Step} (hs : w.running = some s) {y : Yield}
    (hv : Owned (w.coroYields s y)) : ¬Strands w s y := by
  have hactive := hinv.active s hs
  rintro (⟨f, repr, rfl, hawaits, hdone⟩ | ⟨e, hearly, hspared⟩)
  · -- the reference for the callback that was ignored is never released
    have hnet := (net_await_of_done (w := w.yielding s.task) hdone s.task).trans
      (congrArg (· + 1) (net_yielding w s.task s.task))
    have hleaks : ∀ {u : Tasks}, u.isTask s.task = true → u.net s.task = w.net s.task + 1 →
        ¬Owned (u.stepEnds s.task) := by
      intro u htask hu howned
      have hrefs := howned.refs s.task htask
      have hone := (h.inHand hs).net s.task hactive.isTask
      have hends := net_stepEnds u s.task s.task
      rw [hu, hone, decide_eq_true rfl, Tasks.net, hrefs, stepping_of_none rfl] at hends
      simp at hends
    rcases coroYields_cases hactive (.talyn f repr) with ⟨u, hh, heq⟩ | ⟨u, e, hh, heq⟩
    · rw [heq] at hv
      cases hh with
      | queued hr hr' hfails hlate hy => exact hy f repr rfl hawaits
      | awaited =>
        refine hleaks ?_ hnet hv
        rw [isTask_await]
        exact hactive.isTask
      | forwarded =>
        refine hleaks ?_ ((net_cancelFutureObject _ _ _ _).trans hnet) hv
        rw [isTask_cancelFutureObject, isTask_await]
        exact hactive.isTask
    · have hnone : (w.yielding s.task).failure s.task (.talyn f repr) = none :=
        if_pos ((awaits_iff w s.task f).1 hawaits)
      cases hh with
      | fails hfails => exact nomatch hnone.symm.trans hfails
  · -- the task is suspended, and no wake-up registered
    have hearly : (w.yielding s.task).failure s.task y = some e := hearly
    have hyielded : w.coroYields s y = (w.yielding s.task).stepEnds s.task := by
      rcases coroYields_cases hactive y with ⟨u, hh, heq⟩ | ⟨u, e', hh, heq⟩
      · exact nomatch (handled_of_failure hearly hh).2
      · obtain ⟨rfl, hexc⟩ := handled_of_failure hearly hh
        obtain rfl := Option.some.inj hexc
        rw [heq, stepFails_of_spared hspared]
    rw [hyielded] at hv
    exact not_owned_of_stranded (v := (w.yielding s.task).stepEnds s.task) hactive.isTask hactive.pending
      hactive.alone rfl hv

/-- A step after which the wake-ups are owned meets the condition. -/
theorem Owned.keeps (h : Owned w) (hinv : Inv w) {e : Event} (hv : w.step e = some v) (howned : Owned v) :
    KeepsWakeups w e := by
  replace hv := (act_of_step hv).2
  refine fun _ => ⟨?_, ?_⟩
  · rintro l t enters rfl hpending
    simp only [Tasks.act] at hv
    split at hv
    · rename_i hmem
      obtain rfl := Option.some.inj hv
      have htaken : Taken w _ t := hinv.toBase.takeCallback (u := { w with legacy := w.legacy.erase (l, t) })
        rfl rfl rfl rfl rfl rfl rfl (carriers_popLegacy hmem.2)
      exact not_owned_of_stranded (v := ({ w with legacy := w.legacy.erase (l, t) } : Tasks).pyWakeUp l t none
        enters) (htaken.task hinv.toBase) hpending (htaken.alone hinv.toBase) hmem.1 howned
    · cases hv
  · rintro s y hs rfl
    obtain ⟨s', hs', rfl⟩ := yielded_eq hv
    obtain rfl := Option.some.inj (hs.symm.trans hs')
    exact not_strands_of_owned h hinv hs howned

/-- **Wake-ups.** A task that is not done has one wake-up, and each owns one reference, exactly in the runs
in which no task awaits a future that is done, no step that fails early leaves its task pending, and no
awaited legacy object lacks a `result`. -/
theorem wakeups_owned_iff (es : List Event) :
    Runs.Always step Owned init es ↔ Runs.Along step KeepsWakeups init es := by
  refine Runs.always_iff_along_of_break (I := fun w => Inv w ∧ Owned w) ⟨inv_init, nofun, nofun, nofun⟩
    ?_ ?_ ?_ ?_
  · exact fun w h => h.2
  · rintro w e v ⟨hinv, howned⟩ hok hv
    have hact := (act_of_step hv).2
    obtain ⟨hresult, hyields⟩ := hok (Option.isSome_of_eq_some hv)
    exact ⟨hinv.act hact, howned.act hinv hresult hyields hact⟩
  · exact fun w e v h hv howned => h.2.keeps h.1 hv howned
  · intro w e hs hsome
    rw [hs] at hsome
    exact nomatch hsome

/-- A task awaits a future that is done: it stays suspended, with a reference that nobody releases. -/
theorem done_future_awaited :
    ¬Runs.Always step Owned init
      [.newTask, .newFuture true, .tick true, .setBlocking 1 true, .setResult 1,
        .yielded (.talyn 1 none)] := by
  intro h
  have hrun : ∃ w, Runs.exec step init
      [.newTask, .newFuture true, .tick true, .setBlocking 1 true, .setResult 1,
        .yielded (.talyn 1 none)] = some w ∧
      w.isTask 0 = true ∧ w.status 0 = .pending ∧ w.carriers 0 = 0 ∧ w.running = none :=
    ⟨_, rfl, rfl, rfl, rfl, rfl⟩
  obtain ⟨w, hexec, htask, hpending, hnone, hidle⟩ := hrun
  exact not_owned_of_stranded htask hpending hnone hidle (h.last hexec)

end Tasks

end Talyn
