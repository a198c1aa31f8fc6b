import Talyn.Task.Invariant

/-!
# When a task is done

A task is done when its coroutine returned or raised, and not before: whoever cancels it, the effect is
that of its own `cancel()`. Two things go past that. `cancel_future_object` treats an awaited task as a
plain future and cancels it behind its coroutine's back, unlike `cancel_future_waiter`. And when a yielded
object cannot be handled, or the context not be entered, the task gets the exception while its coroutine is
suspended. A `cancel()` of tasks that await each other in a circle does not return.
-/

namespace Talyn

namespace Tasks

/-- A task is done exactly when its coroutine is, and was never cancelled as a plain future. -/
structure Proper (pending : Prop) (task : TaskObject) : Prop where
  done : ¬pending ↔ task.coro = .finished
  own : task.bypassed = false

/-- All tasks are proper. -/
def AllProper (w : Tasks) : Prop := Each Proper w

/-- A pending task is yielded to a task whose `must_cancel` is set. -/
def Bypasses (w : Tasks) (t : ℕ) (y : Yield) : Prop :=
  (w.tasks t).mustCancel = true ∧
    ∃ f repr, y = .talyn f repr ∧ Awaits w t f ∧ w.isTask f = true ∧ w.status f = .pending

/-- The handling of a yielded object fails with an exception that becomes that of the task. -/
def FailsTask (w : Tasks) (s : Step) (y : Yield) : Prop :=
  ∃ e, (w.failure s.task y = some e ∨ w.lateFailure s.task y = some e) ∧ e ≠ .fatal ∧
    ∀ l, s.carrier ≠ .legacy l

/-- The task that a pending task awaits. -/
def awaitedTask (w : Tasks) (t : ℕ) : Option ℕ :=
  if w.status t = .pending then
    match (w.tasks t).futWaiter with
    | some (.future f) => if w.isTask f then some f else none
    | _ => none
  else none

/-- The `n`-th task on the way from a task to the task it awaits. -/
def chain (w : Tasks) : ℕ → ℕ → Option ℕ
  | 0, t => some t
  | n + 1, t => (w.awaitedTask t).bind (w.chain n)

/-- The way does not end. -/
def Circular (w : Tasks) (t : ℕ) : Prop := ∀ n, (w.chain n t).isSome

/-- The context of a pending task can be entered when a step begins; no pending task is yielded to a task
whose `must_cancel` is set; the handling of a yielded object does not fail, unless fatally or after
`py_wake_up`; and no task is cancelled that awaits itself by way of others. -/
def KeepsCompletion (w : Tasks) (e : Event) : Prop :=
  (w.step e).isSome →
    (∀ t, w.beginning e = some (t, false) → w.status t ≠ .pending) ∧
      (∀ s y, w.running = some s → e = .yielded y → ¬Bypasses w s.task y ∧ ¬FailsTask w s y) ∧
        ∀ t answer, e = .cancel t answer → ¬Circular w t

/-- The tasks are proper, and the process is alive. -/
structure Sound (w : Tasks) : Prop where
  proper : w.AllProper
  alive : w.overflowed = false

variable {w v : Tasks} {t f : ℕ} {task : TaskObject} {pending : Prop}

/-! ### One step at a time -/

theorem Proper.congr {task' : TaskObject} (h : Proper pending task) (hcoro : task'.coro = task.coro)
    (hown : task'.bypassed = task.bypassed) : Proper pending task' where
  done := by
    rw [hcoro]
    exact h.done
  own := by
    rw [hown]
    exact h.own

theorem proper_new : Proper True .new := ⟨iff_of_false (not_not.2 trivial) nofun, rfl⟩

/-- A pending task gets or loses its turn. -/
theorem Proper.resumed {task' : TaskObject} (h : Proper pending task) (hpending : pending)
    (hcoro : task'.coro ≠ .finished) (hown : task'.bypassed = task.bypassed) : Proper pending task' where
  done := iff_of_false (not_not.2 hpending) hcoro
  own := hown.trans h.own

theorem AllProper.setOther (h : AllProper w) {change : TaskObject → TaskObject}
    (hcoro : (change (w.tasks t)).coro = (w.tasks t).coro)
    (hown : (change (w.tasks t)).bypassed = (w.tasks t).bypassed) : AllProper (w.setTask t change) :=
  Each.setTask h fun ht => (h t ht).congr hcoro hown

theorem AllProper.decref (h : AllProper w) (t : ℕ) : AllProper (w.decref t) := h.setOther rfl rfl

theorem AllProper.incref (h : AllProper w) (t : ℕ) : AllProper (w.incref t) := h.setOther rfl rfl

theorem AllProper.stepEnds (h : AllProper w) (t : ℕ) : AllProper (w.stepEnds t) :=
  Each.frame (h.decref t) rfl rfl fun _ _ => rfl

/-- The coroutine of a task is done, and the task with it. -/
theorem AllProper.ends (h : AllProper w) (hc : Completes (w.coroEnds t) v t) (hdone : v.status t ≠ .pending)
    {change : TaskObject → TaskObject} (hcoro : ∀ task, (change task).coro = task.coro)
    (hown : ∀ task, (change task).bypassed = task.bypassed) : AllProper (v.setTask t change) := by
  intro u hu
  have hu' : w.isTask u = true := by
    rw [setTask, hc.isTask] at hu
    exact hu
  by_cases heq : u = t
  · subst heq
    rw [tasks_setTask, hc.tasks, coroEnds, tasks_setTask]
    exact ⟨iff_of_true hdone (hcoro _), (hown _).trans (h u hu').own⟩
  · rw [tasks_setTask_of_ne v change heq, hc.tasks, coroEnds, tasks_setTask_of_ne w _ heq, status_setTask,
      hc.status u heq]
    exact h u hu'

theorem AllProper.setResult (h : AllProper w) (t : ℕ) : AllProper ((w.coroEnds t).setResult t) := by
  unfold Tasks.setResult
  split
  · exact h.ends (completes_futureFastCancel _ t) (status_futureFastCancel _ t) (fun _ => rfl) fun _ => rfl
  · exact h.ends (completes_callDoneCallbacks _ t .finished) (status_callDoneCallbacks nofun)
      (fun _ => rfl) fun _ => rfl

theorem AllProper.failedExecution (h : AllProper w) (t : ℕ) (e : Exc) :
    AllProper ((w.coroEnds t).failedExecution t e) := by
  have hraised : AllProper (((w.coroEnds t).futureFastSetException t).finish t) :=
    h.ends (completes_futureFastSetException _ t) (status_futureFastSetException _ t) (fun _ => rfl)
      fun _ => rfl
  have hcancelled : AllProper (((w.coroEnds t).futureFastCancel t).2.finish t) :=
    h.ends (completes_futureFastCancel _ t) (status_futureFastCancel _ t) (fun _ => rfl) fun _ => rfl
  cases e with
  | ordinary => exact hraised
  | cancelledError => exact hcancelled
  | fatal => exact hraised

/-- A step begins whose context can be entered. -/
theorem AllProper.execute (h : AllProper w) {s : Step} {enters : Bool}
    (henters : enters = false → w.status s.task ≠ .pending) : AllProper (w.execute s enters) := by
  have hflag : AllProper (w.setTask s.task fun task => { task with mustCancel := false }) := h.setOther rfl rfl
  unfold Tasks.execute
  dsimp only
  rw [status_setTask]
  split
  · exact hflag.decref s.task
  rename_i hpending
  have hpending : w.status s.task = .pending := not_not.1 hpending
  split
  · have hrunning : AllProper ((w.setTask s.task fun task => { task with mustCancel := false }).setTask
        s.task fun task => { task.consume .thrown with coro := .running }) :=
      Each.setTask hflag fun ht => (hflag s.task ht).resumed hpending nofun rfl
    exact Each.frame hrunning rfl rfl fun _ _ => rfl
  · rename_i hnot
    exact absurd hpending (henters (Bool.eq_false_iff.2 hnot))

theorem AllProper.begins (h : AllProper w) (hinv : Inv w) {e : Event}
    (he : ∃ enters, e = .tick enters ∨ e = .wake enters ∨ ∃ l t result, e = .legacyWake l t result enters)
    (henters : ∀ t, w.beginning e = some (t, false) → w.status t ≠ .pending)
    (hv : w.act e = some v) : AllProper v := by
  obtain ⟨-, ⟨u, s, enters, htaken, hbeginning, rfl⟩ | ⟨u, l, t, enters, htaken, -, rfl⟩ |
    ⟨-, -, hisTask, hstatus, htasks, -, -⟩⟩ := hinv.toBase.begins he hv
  · have hu : AllProper u := Each.taken h htaken fun _ _ _ hq => hq.congr rfl rfl
    refine hu.execute ?_
    rintro rfl
    rw [htaken.status]
    exact henters s.task hbeginning
  · have hu : AllProper u := Each.taken h htaken fun _ _ _ hq => hq.congr rfl rfl
    exact hu.decref t
  · exact Each.frame h hisTask htasks fun _ _ => congrFun hstatus _

theorem AllProper.taskCancel (h : AllProper w) (ht : w.isTask t = true) (answer : Answer) :
    AllProper (w.taskCancel t answer) := by
  have hoverflowed : AllProper { w with overflowed := true } := Each.frame h rfl rfl fun _ _ => rfl
  refine taskCancel_rule (P := AllProper) ?_ ?_ ht h hoverflowed
  · exact fun u g hu hg => Each.completes hu (completes_futureFastCancel u g) hg
  · exact fun u g hu _ _ => ⟨hu.setOther rfl rfl, hu.setOther rfl rfl, hu.setOther rfl rfl⟩

theorem AllProper.taskUncancel (h : AllProper w) (t : ℕ) : AllProper (w.taskUncancel t) := by
  refine h.setOther ?_ ?_
  · dsimp only
    split <;> rfl
  · dsimp only
    split <;> rfl

/-! ### Yielding -/

theorem AllProper.register (h : AllProper w) (t l : ℕ) : AllProper (w.register t l) := by
  have hlegacy : AllProper { w with legacy := w.legacy ++ [(l, t)] } := Each.frame h rfl rfl fun _ _ => rfl
  exact hlegacy.incref t

theorem AllProper.awaitLegacy (h : AllProper w) (t l : ℕ) : AllProper (w.awaitLegacy t l) :=
  (h.register t l).setOther rfl rfl

theorem AllProper.dispatch (h : AllProper w) (r : Ready) : AllProper (w.dispatch r) :=
  Each.frame h rfl rfl fun _ _ => rfl

theorem AllProper.await (h : AllProper w) (t f : ℕ) : AllProper (w.await t f) := by
  intro u hu
  rw [isTask_await] at hu
  rw [status_await]
  by_cases heq : u = t
  · subst heq
    rw [tasks_await]
    exact (h u hu).congr rfl rfl
  · rw [tasks_await_of_ne w t f heq]
    exact h u hu

/-- A plain future is cancelled, or one that is done. -/
theorem AllProper.cancelFutureObject (h : AllProper w) (t : ℕ)
    (hplain : w.isTask f = false ∨ w.status f ≠ .pending) : AllProper (w.cancelFutureObject t f) := by
  rcases hplain with hplain | hdone
  · have hc := completes_futureFastCancel w f
    have hcancelled : AllProper (w.futureFastCancel f).2 := Each.completes h hc hplain
    unfold Tasks.cancelFutureObject
    dsimp only
    split
    · rw [if_neg (by rw [setTask, hc.isTask, hplain]; exact Bool.false_ne_true)]
      exact hcancelled.setOther rfl rfl
    · exact hcancelled
  · rwa [cancelFutureObject_of_done hdone]

theorem AllProper.handled (h : AllProper w) {y : Yield} {e : Option Exc} (hh : Handled w t y v e)
    (hbypass : ¬Bypasses w t y) : AllProper v := by
  cases hh with
  | fails => exact h
  | queued => exact (h.dispatch _).incref t
  | awaited => exact h.await t _
  | @forwarded f repr hawaits hflag =>
    refine (h.await t f).cancelFutureObject t ?_
    rw [isTask_await, status_await]
    by_cases htask : w.isTask f = true
    · exact .inr fun hpending => hbypass ⟨hflag, f, repr, rfl, hawaits, htask, hpending⟩
    · exact .inl (Bool.eq_false_iff.2 htask)
  | flagFails => exact h.register t _
  | legacy => exact h.awaitLegacy t _
  | legacyForwarded => exact (h.awaitLegacy t _).setOther rfl rfl
  | legacyRaises => exact h.awaitLegacy t _

/-- The exception of a step that fails. -/
theorem failure_of_handled {y : Yield} {e : Exc} (hh : Handled w t y v (some e)) :
    w.failure t y = some e ∨ w.lateFailure t y = some e := by
  cases hh with
  | fails hfails => exact .inl hfails
  | flagFails => exact .inr rfl
  | legacyRaises hflag => exact .inr (if_pos hflag)

theorem lateFailure_of_failure {y : Yield} {e : Exc} (h : w.failure t y = some e) :
    w.lateFailure t y = none := by
  cases y with
  | none => rfl
  | talyn f repr => rfl
  | legacy l object =>
    cases object with
    | setFlagRaises e' => exact nomatch h
    | waits answer => exact nomatch h
    | _ => rfl

theorem failure_yielding (w : Tasks) (t : ℕ) (y : Yield) :
    (w.yielding t).failure t y = w.failure t y ∧ (w.yielding t).lateFailure t y = w.lateFailure t y := by
  refine ⟨rfl, ?_⟩
  have hflag : ((w.yielding t).tasks t).mustCancel = (w.tasks t).mustCancel := by
    rw [yielding, tasks_setTask]
  unfold lateFailure
  split
  · rfl
  · rw [hflag]
  · rfl

theorem AllProper.yielding (h : AllProper w) (hactive : Active w t) : AllProper (w.yielding t) :=
  Each.setTask h fun ht => (h t ht).resumed hactive.pending nofun rfl

theorem AllProper.coroYields (h : AllProper w) {s : Step} (hactive : Active w s.task) {y : Yield}
    (hbypass : ¬Bypasses w s.task y) (hfails : ¬FailsTask w s y) : AllProper (w.coroYields s y) := by
  have hflag : ((w.yielding s.task).tasks s.task).mustCancel = (w.tasks s.task).mustCancel := by
    rw [Tasks.yielding, tasks_setTask]
  have hbypass' : ¬Bypasses (w.yielding s.task) s.task y := by
    rintro ⟨hcancel, hawaited⟩
    exact hbypass ⟨hflag ▸ hcancel, hawaited⟩
  rcases coroYields_cases hactive y with ⟨u, hh, heq⟩ | ⟨u, e, hh, heq⟩
  · rw [heq]
    exact ((h.yielding hactive).handled hh hbypass').stepEnds s.task
  · rw [heq, stepFails_of_spared]
    · exact ((h.yielding hactive).handled hh hbypass').stepEnds s.task
    · have hfailure := failure_of_handled hh
      rw [(failure_yielding w s.task y).1, (failure_yielding w s.task y).2] at hfailure
      by_contra hspared
      rw [not_or, not_exists] at hspared
      exact hfails ⟨e, hfailure, hspared.1, hspared.2⟩

/-! ### What breaks it -/

/-- A step that begins in a context that cannot be entered. -/
theorem AllProper.enters (h : AllProper w) {s : Step} (htask : w.isTask s.task = true)
    (hpending : w.status s.task = .pending) : ¬AllProper ((w.execute s false)) := by
  intro hv
  have hc := completes_futureFastSetException
    (w.setTask s.task fun task => { task with mustCancel := false }) s.task
  have heq : w.execute s false =
      (((w.setTask s.task fun task => { task with mustCancel := false }).futureFastSetException
        s.task).finish s.task).decref s.task := by
    unfold Tasks.execute
    dsimp only
    rw [status_setTask, if_neg (not_not.2 hpending), if_neg Bool.false_ne_true]
    rfl
  rw [heq] at hv
  have hisTask : ((((w.setTask s.task fun task => { task with mustCancel := false }).futureFastSetException
      s.task).finish s.task).decref s.task).isTask s.task = true := by
    rw [Tasks.decref, Tasks.finish, Tasks.setTask, Tasks.setTask, hc.isTask]
    exact htask
  have hafter := (hv s.task hisTask).done.1 (status_futureFastSetException _ s.task)
  rw [Tasks.decref, tasks_setTask, Tasks.finish, tasks_setTask, hc.tasks, tasks_setTask] at hafter
  exact (h s.task htask).done.2 hafter hpending

/-- A pending task that is cancelled as a plain future. -/
theorem not_bypasses_of_proper {s : Step} (hactive : Active w s.task) {y : Yield}
    (hv : AllProper (w.coroYields s y)) : ¬Bypasses w s.task y := by
  rintro ⟨hcancel, f, repr, rfl, hawaits, htask, hpending⟩
  have hflag : ((w.yielding s.task).tasks s.task).mustCancel = true := by
    rw [yielding, tasks_setTask]
    exact hcancel
  have hfailure : (w.yielding s.task).failure s.task (.talyn f repr) = none :=
    if_pos ((awaits_iff w s.task f).1 hawaits)
  rcases coroYields_cases hactive (.talyn f repr) with ⟨u, hh, heq⟩ | ⟨u, e, hh, heq⟩
  · cases hh with
    | queued hr hr' hfails hlate hy hy' => exact hy f repr rfl hawaits
    | awaited hawaits' hnot => cases hflag.symm.trans hnot
    | forwarded hawaits' hflag' =>
      have hc := completes_futureFastCancel ((w.yielding s.task).await s.task f) f
      have haccepts : (((w.yielding s.task).await s.task f).futureFastCancel f).1 = true := by
        rw [futureFastCancel, if_neg]
        rw [status_await]
        exact not_not.2 hpending
      have hisTask : (((w.yielding s.task).await s.task f).futureFastCancel f).2.isTask f = true := by
        rw [hc.isTask, isTask_await]
        exact htask
      have hbypassed : ((((w.yielding s.task).await s.task f).cancelFutureObject s.task f).tasks f).bypassed =
          true := by
        unfold Tasks.cancelFutureObject
        dsimp only
        rw [if_pos haccepts, isTask_setTask, if_pos hisTask, tasks_setTask]
      rw [heq] at hv
      have hafter := (hv f ?_).own
      · rw [tasks_stepEnds_of_ne _ hawaits.2.2, hbypassed] at hafter
        cases hafter
      · show (((w.yielding s.task).await s.task f).cancelFutureObject s.task f).isTask f = true
        rw [isTask_cancelFutureObject, isTask_await]
        exact htask
  · cases hh with
    | fails hfails => cases hfailure.symm.trans hfails

/-- What a handled object leaves of the task that yielded it. -/
theorem handled_frame {y : Yield} {e : Exc} (hh : Handled w t y v (some e)) :
    v.isTask = w.isTask ∧ v.status = w.status ∧ (v.tasks t).coro = (w.tasks t).coro := by
  have hregister : ∀ l, (w.register t l).isTask = w.isTask ∧ (w.register t l).status = w.status ∧
      ((w.register t l).tasks t).coro = (w.tasks t).coro := by
    intro l
    refine ⟨rfl, rfl, ?_⟩
    rw [register, incref, tasks_setTask]
  cases hh with
  | fails => exact ⟨rfl, rfl, rfl⟩
  | flagFails => exact hregister _
  | legacyRaises =>
    refine ⟨rfl, rfl, ?_⟩
    rw [awaitLegacy, tasks_setTask]
    exact (hregister _).2.2

/-- A task whose exception is that of its step is done, and its coroutine is not. -/
theorem not_failsTask_of_proper {s : Step} (hactive : Active w s.task) {y : Yield}
    (hv : AllProper (w.coroYields s y)) : ¬FailsTask w s y := by
  rintro ⟨e, hfailure, hfatal, hlegacy⟩
  have hcoro : ((w.yielding s.task).tasks s.task).coro = .suspended := by
    rw [yielding, tasks_setTask]
  rw [← (failure_yielding w s.task y).1, ← (failure_yielding w s.task y).2] at hfailure
  rcases coroYields_cases hactive y with ⟨u, hh, heq⟩ | ⟨u, e', hh, heq⟩
  · -- the object that fails is handled with that exception
    have hnone : ∀ {u}, Handled (w.yielding s.task) s.task y u none →
        (w.yielding s.task).failure s.task y ≠ some e ∧ (w.yielding s.task).lateFailure s.task y ≠ some e := by
      intro u hh
      have hne : (none : Option Exc) ≠ some e := (Option.some_ne_none e).symm
      cases hh with
      | queued hr hr' hfails hlate => rw [hfails, hlate]; exact ⟨hne, hne⟩
      | awaited hawaits =>
        refine ⟨?_, hne⟩
        rw [failure, if_pos ((awaits_iff _ _ _).1 hawaits)]
        exact hne
      | forwarded hawaits =>
        refine ⟨?_, hne⟩
        rw [failure, if_pos ((awaits_iff _ _ _).1 hawaits)]
        exact hne
      | @legacy l answer hflag =>
        refine ⟨hne, ?_⟩
        cases answer with
        | raised x =>
          have hnot := hflag.resolve_right (by simp)
          rw [lateFailure, hnot]
          exact hne
        | accepted => exact hne
        | refused => exact hne
      | legacyForwarded => exact ⟨hne, hne⟩
    exact hfailure.elim (hnone hh).1 (hnone hh).2
  · have he : e' = e := by
      rcases failure_of_handled hh with hearly | hlate
      · rcases hfailure with hfailure | hfailure
        · exact Option.some.inj (hearly.symm.trans hfailure)
        · exact absurd hfailure (by simp [lateFailure_of_failure hearly])
      · rcases hfailure with hfailure | hfailure
        · exact absurd hlate (by simp [lateFailure_of_failure hfailure])
        · exact Option.some.inj (hlate.symm.trans hfailure)
    subst he
    obtain ⟨hisTask, hstatus, hkept⟩ := handled_frame hh
    have hpending : u.status s.task = .pending := by
      rw [hstatus]
      exact hactive.pending
    have hfails : u.stepFails s e' = (u.futureFastSetException s.task).setTask s.task (.consume .finished) := by
      unfold Tasks.stepFails
      split
      · exact absurd ‹_› (hlegacy _)
      · exact absurd rfl hfatal
      · exact if_pos hpending
    have hc := completes_futureFastSetException u s.task
    rw [heq, hfails] at hv
    have hafter := (hv s.task ?_).done.1 (status_futureFastSetException u s.task)
    · rw [tasks_stepEnds, tasks_setTask, hc.tasks] at hafter
      cases (hkept.trans hcoro).symm.trans hafter
    · show (u.futureFastSetException s.task).isTask s.task = true
      rw [hc.isTask, hisTask]
      exact hactive.isTask

/-! ### All runs -/

theorem AllProper.step (h : AllProper w) (hinv : Inv w) {e : Event} (hkeeps : KeepsCompletion w e)
    (hv : w.step e = some v) : AllProper v := by
  obtain ⟨henters, hyields, -⟩ := hkeeps (Option.isSome_of_eq_some hv)
  replace hv := (act_of_step hv).2
  cases e with
  | newFuture _ | setBlocking _ _ | setResult _ | setException _ | cancelFuture _ =>
    exact Each.ofPlain h hinv rfl hv
  | newTask => exact Each.newTask h proper_new hv
  | cancel t answer =>
    obtain ⟨htask, rfl⟩ := cancel_eq hv
    exact h.taskCancel htask answer
  | uncancel t =>
    obtain rfl := uncancel_eq hv
    exact h.taskUncancel t
  | tick enters => exact h.begins hinv ⟨enters, .inl rfl⟩ henters hv
  | wake enters => exact h.begins hinv ⟨enters, .inr (.inl rfl)⟩ henters hv
  | legacyWake l t result enters =>
    exact h.begins hinv ⟨enters, .inr (.inr ⟨l, t, result, rfl⟩)⟩ henters hv
  | returned =>
    obtain ⟨s, hs, rfl⟩ := Option.map_eq_some_iff.1 hv
    exact (h.setResult s.task).stepEnds s.task
  | raised e =>
    obtain ⟨s, hs, rfl⟩ := Option.map_eq_some_iff.1 hv
    exact (h.failedExecution s.task e).stepEnds s.task
  | yielded y =>
    obtain ⟨s, hs, rfl⟩ := yielded_eq hv
    obtain ⟨hbypass, hfails⟩ := hyields s y hs rfl
    exact h.coroYields (hinv.active s hs) hbypass hfails

theorem begins_of_beginning {e : Event} {t : ℕ} {enters : Bool} (h : w.beginning e = some (t, enters)) :
    ∃ enters, e = .tick enters ∨ e = .wake enters ∨ ∃ l t result, e = .legacyWake l t result enters := by
  cases e with
  | tick enters => exact ⟨enters, .inl rfl⟩
  | wake enters => exact ⟨enters, .inr (.inl rfl)⟩
  | legacyWake l t result enters => exact ⟨enters, .inr (.inr ⟨l, t, result, rfl⟩)⟩
  | _ => exact nomatch h

/-! ### Circles -/

theorem chain_add (w : Tasks) (m n t : ℕ) : w.chain (m + n) t = (w.chain m t).bind (w.chain n) := by
  induction m generalizing t with
  | zero => rw [Nat.zero_add]; rfl
  | succ m ih =>
    rw [Nat.succ_add, chain, chain, Option.bind_assoc]
    exact congrArg _ (funext ih)

theorem awaitedTask_setTask {c : TaskObject → TaskObject}
    (hwaiter : (c (w.tasks t)).futWaiter = (w.tasks t).futWaiter) :
    (w.setTask t c).awaitedTask = w.awaitedTask := by
  funext u
  unfold awaitedTask
  rw [status_setTask, isTask_setTask]
  by_cases heq : u = t
  · rw [heq, tasks_setTask, hwaiter]
  · rw [tasks_setTask_of_ne w c heq]

theorem chain_congr {u : Tasks} (h : u.awaitedTask = w.awaitedTask) (n t : ℕ) : u.chain n t = w.chain n t := by
  induction n generalizing t with
  | zero => rfl
  | succ n ih =>
    rw [chain, chain, h]
    exact congrArg _ (funext ih)

/-- The recursion of `fast_task_cancel` follows the tasks that await each other. -/
theorem fastTaskCancel_eq_none_iff {answer : Answer} {fuel : ℕ} {w : Tasks} {t : ℕ} :
    fastTaskCancel answer fuel w t = none ↔ (w.chain fuel t).isSome := by
  induction fuel generalizing w t with
  | zero => exact iff_of_true rfl rfl
  | succ fuel ih =>
    rw [fastTaskCancel, chain]
    by_cases hpending : w.status t = .pending
    · rw [if_neg (not_not.2 hpending)]
      dsimp only
      have hwaiter : ((w.setTask t .request).tasks t).futWaiter = (w.tasks t).futWaiter := by
        rw [tasks_setTask]
        rfl
      rw [hwaiter, awaitedTask, if_pos hpending]
      cases hw : (w.tasks t).futWaiter with
      | none => exact iff_of_false (Option.some_ne_none _) Bool.false_ne_true
      | some waiter =>
        cases waiter with
        | legacy l => cases answer <;> exact iff_of_false (Option.some_ne_none _) Bool.false_ne_true
        | future f =>
          dsimp only
          rw [cancelFutureWaiter, isTask_setTask]
          by_cases htask : w.isTask f = true
          · rw [if_pos htask, if_pos htask, Option.bind_some,
              ← chain_congr (awaitedTask_setTask (c := TaskObject.request) (t := t) rfl)]
            rw [← ih]
            split
            · rename_i hnone
              exact iff_of_true rfl hnone
            all_goals
              rename_i hsome
              refine iff_of_false (Option.some_ne_none _) ?_
              rw [hsome]
              exact Option.some_ne_none _
          · rw [if_neg htask, if_neg htask]
            refine iff_of_false ?_ Bool.false_ne_true
            by_cases haccepts : ((w.setTask t .request).futureFastCancel f).1 = true
            · simp only [if_pos haccepts, reduceCtorEq, not_false_eq_true]
            · simp only [if_neg haccepts, reduceCtorEq, not_false_eq_true]
    · rw [if_pos hpending, awaitedTask, if_neg hpending]
      exact iff_of_false (Option.some_ne_none _) Bool.false_ne_true

theorem isTask_awaitedTask {u : ℕ} (h : w.awaitedTask t = some u) : w.isTask u = true := by
  unfold awaitedTask at h
  split at h
  · split at h
    · split at h
      · obtain rfl := Option.some.inj h
        assumption
      · exact nomatch h
    · exact nomatch h
  · exact nomatch h

theorem isTask_chain {n u : ℕ} (ht : w.isTask t = true) (h : w.chain n t = some u) : w.isTask u = true := by
  induction n generalizing t with
  | zero => exact Option.some.inj h ▸ ht
  | succ n ih =>
    obtain ⟨x, hx, hrest⟩ := Option.bind_eq_some_iff.1 h
    exact ih (isTask_awaitedTask hx) hrest

theorem chain_isSome_of_le {m n : ℕ} (h : (w.chain n t).isSome) (hle : m ≤ n) : (w.chain m t).isSome := by
  obtain ⟨k, rfl⟩ := Nat.exists_eq_add_of_le hle
  rw [chain_add] at h
  cases hm : w.chain m t with
  | none =>
    rw [hm] at h
    exact nomatch h
  | some u => rfl

/-- A way longer than there are tasks does not end. -/
theorem Inv.circular_iff (h : Inv w) (ht : w.isTask t = true) :
    Circular w t ↔ (w.chain (w.next + 1) t).isSome := by
  refine ⟨fun hcircular => hcircular _, fun hlong n => ?_⟩
  by_contra hends
  -- the first place where the way ends
  obtain ⟨N, hN, hfirst⟩ : ∃ N, ¬(w.chain N t).isSome ∧ ∀ m, m < N → (w.chain m t).isSome := by
    have hex : ∃ N, ¬(w.chain N t).isSome := ⟨n, hends⟩
    exact ⟨Nat.find hex, Nat.find_spec hex, fun m hm => not_not.1 (Nat.find_min hex hm)⟩
  have hfar : w.next + 1 < N := by
    by_contra hnear
    exact hN (chain_isSome_of_le hlong (not_lt.1 hnear))
  have hlt : ∀ {m u}, w.chain m t = some u → u < w.next := by
    intro m u hu
    by_contra hle
    exact nomatch (h.fresh u (not_lt.1 hle)).symm.trans (isTask_chain ht hu)
  -- two of the tasks on the way are the same, which makes it longer
  obtain ⟨i, hi, j, hj, hne, heq⟩ := Finset.exists_ne_map_eq_of_card_lt_of_maps_to
    (s := Finset.range N) (t := Finset.range w.next) (f := fun m => (w.chain m t).getD 0)
    (by rw [Finset.card_range, Finset.card_range]; omega)
    (by
      intro m hm
      obtain ⟨u, hu⟩ := Option.isSome_iff_exists.1 (hfirst m (Finset.mem_range.1 hm))
      simp only [hu, Option.getD_some]
      exact Finset.mem_coe.2 (Finset.mem_range.2 (hlt hu)))
  wlog hij : i < j generalizing i j
  · exact this j hj i hi hne.symm heq.symm (lt_of_le_of_ne (not_lt.1 hij) hne.symm)
  obtain ⟨x, hx⟩ := Option.isSome_iff_exists.1 (hfirst i (Finset.mem_range.1 hi))
  obtain ⟨y, hy⟩ := Option.isSome_iff_exists.1 (hfirst j (Finset.mem_range.1 hj))
  rw [hx, hy] at heq
  obtain rfl : x = y := heq
  have hjN := Finset.mem_range.1 hj
  refine hN ?_
  have hshort := hfirst (i + (N - j)) (by omega)
  rw [chain_add, hx] at hshort
  obtain ⟨k, rfl⟩ := Nat.exists_eq_add_of_le hjN.le
  rw [chain_add, hy]
  rwa [Nat.add_sub_cancel_left] at hshort

theorem Inv.overflowed_taskCancel (h : Inv w) (halive : w.overflowed = false) (ht : w.isTask t = true)
    (answer : Answer) : (w.taskCancel t answer).overflowed = true ↔ Circular w t := by
  rw [h.circular_iff ht, ← @fastTaskCancel_eq_none_iff answer]
  unfold Tasks.taskCancel
  split
  · rename_i hnone
    exact iff_of_true rfl hnone
  · rename_i a x hx
    have hkept : x.overflowed = w.overflowed := by
      refine (fastTaskCancel_rule (P := fun u => u.overflowed = w.overflowed) ?_ ?_ ht rfl hx).1
      · exact fun u g hu _ => (completes_futureFastCancel u g).overflowed.trans hu
      · exact fun u g hu _ _ => ⟨hu, hu, hu⟩
    refine iff_of_false ?_ ?_
    · rw [hkept, halive]
      exact Bool.false_ne_true
    · rw [hx]
      exact nofun

/-! ### The native stack -/

theorem overflowed_failedExecution (w : Tasks) (t : ℕ) (e : Exc) :
    (w.failedExecution t e).overflowed = w.overflowed := by
  cases e with
  | cancelledError => exact (completes_futureFastCancel w t).overflowed
  | ordinary => exact (completes_futureFastSetException w t).overflowed
  | fatal => exact (completes_futureFastSetException w t).overflowed

theorem overflowed_setResult (w : Tasks) (t : ℕ) : (w.setResult t).overflowed = w.overflowed := by
  unfold Tasks.setResult
  split
  · exact (completes_futureFastCancel w t).overflowed
  · exact (completes_callDoneCallbacks w t .finished).overflowed

theorem overflowed_execute (w : Tasks) (s : Step) (enters : Bool) :
    (w.execute s enters).overflowed = w.overflowed := by
  unfold Tasks.execute
  dsimp only
  split
  · rfl
  split
  · rfl
  · exact overflowed_failedExecution (w.setTask s.task fun task => { task with mustCancel := false })
      s.task .ordinary

theorem overflowed_addDoneCallback (w : Tasks) (f t : ℕ) :
    (w.addDoneCallback f t).overflowed = w.overflowed := by
  unfold Tasks.addDoneCallback
  split <;> rfl

theorem overflowed_cancelFutureObject (w : Tasks) (t f : ℕ) :
    (w.cancelFutureObject t f).overflowed = w.overflowed := by
  have hcancel := (completes_futureFastCancel w f).overflowed
  unfold Tasks.cancelFutureObject
  dsimp only
  split
  · split <;> exact hcancel
  · exact hcancel

theorem overflowed_handled {y : Yield} {e : Option Exc} (hh : Handled w t y v e) :
    v.overflowed = w.overflowed := by
  cases hh with
  | awaited => exact overflowed_addDoneCallback w _ t
  | forwarded => exact (overflowed_cancelFutureObject _ t _).trans (overflowed_addDoneCallback w _ t)
  | _ => rfl

theorem overflowed_stepFails (w : Tasks) (s : Step) (e : Exc) :
    (w.stepFails s e).overflowed = w.overflowed := by
  unfold Tasks.stepFails
  split
  · rfl
  · rfl
  · split
    · exact (completes_futureFastSetException w s.task).overflowed
    · rfl

theorem overflowed_coroYields {s : Step} (hactive : Active w s.task) (y : Yield) :
    (w.coroYields s y).overflowed = w.overflowed := by
  rcases coroYields_cases hactive y with ⟨u, hh, heq⟩ | ⟨u, e, hh, heq⟩
  · rw [heq]
    have hhandled : u.overflowed = (w.yielding s.task).overflowed := overflowed_handled hh
    exact hhandled
  · rw [heq]
    have hhandled : u.overflowed = (w.yielding s.task).overflowed := overflowed_handled hh
    exact (overflowed_stepFails u s e).trans hhandled

theorem overflowed_tick {enters : Bool} (hv : w.tick enters = some v) : v.overflowed = w.overflowed := by
  unfold Tasks.tick at hv
  split at hv
  · exact nomatch hv
  · obtain rfl := Option.some.inj hv
    exact overflowed_execute _ _ _
  · obtain rfl := Option.some.inj hv
    exact overflowed_execute _ _ _
  · obtain rfl := Option.some.inj hv
    rfl

/-- No other event exhausts the native stack. -/
theorem Inv.overflowed_other (h : Inv w) {e : Event} (hother : ∀ t answer, e ≠ .cancel t answer)
    (hv : w.act e = some v) : v.overflowed = w.overflowed := by
  cases e with
  | newFuture ours =>
    obtain rfl := Option.some.inj hv
    rfl
  | newTask =>
    obtain rfl := Option.some.inj hv
    rfl
  | setBlocking f blocking =>
    obtain rfl := setBlocking_eq hv
    rfl
  | setResult f => exact (completes_of_act (.inl rfl) hv).2.overflowed
  | setException f => exact (completes_of_act (.inr (.inl rfl)) hv).2.overflowed
  | cancelFuture f => exact (completes_of_act (.inr (.inr rfl)) hv).2.overflowed
  | cancel t answer => exact absurd rfl (hother t answer)
  | uncancel t =>
    obtain rfl := uncancel_eq hv
    rfl
  | tick enters =>
    obtain ⟨-, hv⟩ := Option.ite_none_right_eq_some.1 hv
    exact overflowed_tick hv
  | wake enters =>
    simp only [Tasks.act] at hv
    split at hv
    · obtain rfl := Option.some.inj hv
      exact overflowed_execute _ _ _
    · cases hv
  | legacyWake l t result enters =>
    obtain ⟨-, hv⟩ := Option.ite_none_right_eq_some.1 hv
    obtain rfl := Option.some.inj hv
    cases result with
    | none => rfl
    | some raised => exact overflowed_execute _ _ _
  | returned =>
    obtain ⟨s, hs, rfl⟩ := Option.map_eq_some_iff.1 hv
    exact overflowed_setResult (w.coroEnds s.task) s.task
  | raised e =>
    obtain ⟨s, hs, rfl⟩ := Option.map_eq_some_iff.1 hv
    exact overflowed_failedExecution (w.coroEnds s.task) s.task e
  | yielded y =>
    obtain ⟨s, hs, rfl⟩ := yielded_eq hv
    exact overflowed_coroYields (h.active s hs) y

/-- Only the cancellation of a circle of tasks exhausts the native stack. -/
theorem Inv.overflowed_act (h : Inv w) (halive : w.overflowed = false) {e : Event} (hv : w.act e = some v) :
    v.overflowed = false ↔ ∀ t answer, e = .cancel t answer → ¬Circular w t := by
  by_cases hcancel : ∃ t answer, e = .cancel t answer
  · obtain ⟨t, answer, rfl⟩ := hcancel
    obtain ⟨htask, rfl⟩ := cancel_eq hv
    have hiff := h.overflowed_taskCancel halive htask answer
    constructor
    · rintro hfalse t' answer' heq
      obtain ⟨rfl, rfl⟩ := Event.cancel.inj heq
      exact fun hcircular => nomatch hfalse.symm.trans (hiff.2 hcircular)
    · exact fun hnot => Bool.eq_false_iff.2 fun htrue => hnot t answer rfl (hiff.1 htrue)
  · have hother : ∀ t answer, e ≠ .cancel t answer := fun t answer he => hcancel ⟨t, answer, he⟩
    exact iff_of_true ((h.overflowed_other hother hv).trans halive) fun t answer he =>
      absurd he (hother t answer)

/-- A step after which all tasks are proper meets the condition. -/
theorem AllProper.keeps (h : AllProper w) (hinv : Inv w) {e : Event} (hv : w.step e = some v)
    (hsound : Sound v) : KeepsCompletion w e := by
  obtain ⟨halive, hv⟩ := act_of_step hv
  refine fun _ => ⟨?_, ?_, (hinv.overflowed_act halive hv).1 hsound.alive⟩
  · intro t hbeginning hpending
    obtain ⟨-, ⟨u, s, enters, htaken, hbeginning', rfl⟩ | ⟨u, l, t, enters, htaken, rfl, rfl⟩ |
      ⟨hnone, -⟩⟩ := hinv.toBase.begins (begins_of_beginning hbeginning) hv
    · obtain ⟨rfl, rfl⟩ := Prod.mk.inj (Option.some.inj (hbeginning.symm.trans hbeginning'))
      have hu : AllProper u := Each.taken h htaken fun _ _ _ hq => hq.congr rfl rfl
      refine hu.enters ?_ ?_ hsound.proper
      · rw [htaken.isTask]
        exact htaken.task hinv.toBase
      · rw [htaken.status]
        exact hpending
    · exact nomatch hbeginning
    · exact nomatch hnone.symm.trans hbeginning
  · rintro s y hs rfl
    obtain ⟨s', hs', rfl⟩ := yielded_eq hv
    obtain rfl := Option.some.inj (hs.symm.trans hs')
    have hactive := hinv.active s hs
    exact ⟨not_bypasses_of_proper hactive hsound.proper, not_failsTask_of_proper hactive hsound.proper⟩

/-- **When a task is done.** A task is done exactly when its coroutine is, and cancelling it is its own
`cancel()`, exactly in the runs in which no pending task is yielded to a task whose `must_cancel` is set,
no step begins in a context that cannot be entered, no yielded object fails to be handled, and no circle of
tasks is cancelled. -/
theorem tasks_complete_iff (es : List Event) :
    Runs.Always step Sound init es ↔ Runs.Along step KeepsCompletion init es := by
  refine Runs.always_iff_along_of_break (I := fun w => Inv w ∧ Sound w) ⟨inv_init, nofun, rfl⟩ ?_ ?_ ?_ ?_
  · exact fun w h => h.2
  · rintro w e v ⟨hinv, hsound⟩ hok hv
    have hact := (act_of_step hv).2
    have hcircles := (hok (Option.isSome_of_eq_some hv)).2.2
    exact ⟨hinv.act hact, hsound.proper.step hinv hok hv, (hinv.overflowed_act hsound.alive hact).2 hcircles⟩
  · exact fun w e v h hv hsound => h.2.proper.keeps h.1 hv hsound
  · intro w e hs hsome
    rw [hs] at hsome
    exact nomatch hsome

/-- A task cancels itself and awaits another: that one is cancelled while its coroutine waits for its
first step. -/
theorem awaited_task_cancelled :
    ¬Runs.Always step Sound init
      [.newTask, .newTask, .tick true, .cancel 0 .refused, .setBlocking 1 true,
        .yielded (.talyn 1 none)] := by
  intro h
  have hrun : ∃ w, Runs.exec step init
      [.newTask, .newTask, .tick true, .cancel 0 .refused, .setBlocking 1 true,
        .yielded (.talyn 1 none)] = some w ∧
      w.isTask 1 = true ∧ w.status 1 = .canceled ∧ (w.tasks 1).coro = .suspended :=
    ⟨_, rfl, rfl, rfl, rfl⟩
  obtain ⟨w, hexec, htask, hstatus, hcoro⟩ := hrun
  have hdone := ((h.last hexec).proper 1 htask).done.1 (by rw [hstatus]; exact nofun)
  exact nomatch hcoro.symm.trans hdone

end Tasks

end Talyn
