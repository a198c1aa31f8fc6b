import Talyn.Task.Invariant

/-!
# What becomes of a cancel request

Each `cancel()` that a task accepted is kept in `must_cancel`, or it has come to one end: the awaited
object accepted it, a `CancelledError` was thrown into the coroutine, the task finished, or `uncancel()`
took it back. `TaskObject.held` and `TaskObject.log` say which.

The two handlers of a yielded object forward a request that is kept in `must_cancel`, and leave the flag
set when the object accepts it.
-/

namespace Talyn

namespace Tasks

/-- The requests of a task: each is kept in `must_cancel` or has one fate, and a task that is done keeps
none. -/
structure Accounted (pending : Prop) (task : TaskObject) : Prop where
  once : (task.held ++ task.log.map Prod.fst).Perm (List.range task.accepted)
  flag : pending → (task.mustCancel = true ↔ task.held ≠ [])
  settled : ¬pending → task.held = []

/-- The requests of all tasks. -/
def AllAccounted (w : Tasks) : Prop := Each Accounted w

/-- Each request of each task is accounted for, and `must_cancel` makes the next step throw. -/
structure Consumed (w : Tasks) : Prop where
  accounted : w.AllAccounted
  thrown : ∀ e v s, w.running = none → w.step e = some v → v.running = some s →
    (v.tasks s.task).held = [] ∧ ((w.tasks s.task).mustCancel = true → s.thrown = true)

/-- A yielded object that would not accept a request that is kept. -/
def Spares (w : Tasks) (t : ℕ) (y : Yield) : Prop :=
  (w.tasks t).mustCancel = true →
    match y with
    | .talyn f _ => ¬(Awaits w t f ∧ w.status f = .pending)
    | .legacy _ (.waits answer) => answer ≠ .accepted
    | _ => True

/-- No object that would accept the request is yielded while a request is kept in `must_cancel`. -/
def KeepsRequests (w : Tasks) (e : Event) : Prop :=
  (w.step e).isSome →
    match e with
    | .yielded y => ∀ s, w.running = some s → w.Spares s.task y
    | _ => True

variable {w v : Tasks} {t f : ℕ} {task : TaskObject} {pending : Prop}

/-! ### The requests of one task -/

theorem Accounted.congr {task' : TaskObject} (h : Accounted pending task) (hheld : task'.held = task.held)
    (hlog : task'.log = task.log) (haccepted : task'.accepted = task.accepted)
    (hflag : task'.mustCancel = task.mustCancel) : Accounted pending task' where
  once := by
    rw [hheld, hlog, haccepted]
    exact h.once
  flag := by
    rw [hheld, hflag]
    exact h.flag
  settled := by
    rw [hheld]
    exact h.settled

theorem Accounted.hold (h : Accounted pending task) (hpending : pending) : Accounted pending task.hold where
  once := by
    have hmoved : (task.held ++ [task.accepted] ++ task.log.map Prod.fst).Perm
        (task.held ++ task.log.map Prod.fst ++ [task.accepted]) := by
      rw [List.append_assoc, List.append_assoc]
      exact List.perm_append_comm.append_left _
    show (task.held ++ [task.accepted] ++ task.log.map Prod.fst).Perm (List.range (task.accepted + 1))
    rw [List.range_succ]
    exact hmoved.trans (h.once.append_right _)
  flag _ := iff_of_true rfl (List.append_ne_nil_of_right_ne_nil _ (List.cons_ne_nil _ _))
  settled hnot := absurd hpending hnot

theorem Accounted.forward (h : Accounted pending task) : Accounted pending task.forward where
  once := by
    show (task.held ++ (task.log ++ [(task.accepted, Fate.forwarded)]).map Prod.fst).Perm
      (List.range (task.accepted + 1))
    rw [List.range_succ, List.map_append, ← List.append_assoc]
    exact h.once.append_right _
  flag := h.flag
  settled := h.settled

/-- All requests that were kept come to the same end. -/
theorem Accounted.consume (h : Accounted pending task) (fate : Fate) {task' : TaskObject}
    (hheld : task'.held = []) (hlog : task'.log = (task.consume fate).log)
    (haccepted : task'.accepted = task.accepted) {pending' : Prop}
    (hflag : pending' → task'.mustCancel = false) : Accounted pending' task' where
  once := by
    have hids : (task.held.map fun id => (id, fate)).map Prod.fst = task.held := by
      rw [List.map_map]
      exact List.map_id _
    rw [hheld, hlog, haccepted, List.nil_append]
    show ((task.log ++ task.held.map fun id => (id, fate)).map Prod.fst).Perm _
    rw [List.map_append, hids]
    exact List.perm_append_comm.trans h.once
  flag hpending := iff_of_false (by rw [hflag hpending]; exact Bool.false_ne_true) (not_not.2 hheld)
  settled _ := hheld

theorem accounted_new : Accounted True .new where
  once := .refl _
  flag _ := iff_of_false Bool.false_ne_true (not_not.2 rfl)
  settled h := absurd trivial h

/-! ### The requests of all tasks -/

/-- A task is changed in what does not concern its requests. -/
theorem AllAccounted.setOther (h : AllAccounted w) {change : TaskObject → TaskObject}
    (hheld : (change (w.tasks t)).held = (w.tasks t).held) (hlog : (change (w.tasks t)).log = (w.tasks t).log)
    (haccepted : (change (w.tasks t)).accepted = (w.tasks t).accepted)
    (hflag : (change (w.tasks t)).mustCancel = (w.tasks t).mustCancel) : AllAccounted (w.setTask t change) :=
  Each.setTask h fun ht => (h t ht).congr hheld hlog haccepted hflag

/-- A task is completed, and its requests are settled. -/
theorem AllAccounted.ends (h : AllAccounted w) (hc : Completes w v t) (hdone : v.status t ≠ .pending)
    {change : TaskObject → TaskObject} (hheld : (change (w.tasks t)).held = [])
    (hlog : (change (w.tasks t)).log = ((w.tasks t).consume .finished).log)
    (haccepted : (change (w.tasks t)).accepted = (w.tasks t).accepted) :
    AllAccounted (v.setTask t change) :=
  Each.ends h hc fun ht =>
    (h t ht).consume .finished hheld hlog haccepted fun hpending => absurd hpending hdone

/-- A wake-up that is taken changes nothing about the requests. -/
theorem AllAccounted.taken {u : Tasks} (h : AllAccounted w) (ht : Taken w u t) : AllAccounted u :=
  Each.taken h ht fun _ _ _ hq => hq.congr rfl rfl rfl rfl

theorem AllAccounted.setResult (h : AllAccounted w) (t : ℕ) : AllAccounted (w.setResult t) := by
  unfold Tasks.setResult
  split
  · exact h.ends (completes_futureFastCancel w t) (status_futureFastCancel w t) rfl rfl rfl
  · exact h.ends (completes_callDoneCallbacks w t .finished) (status_callDoneCallbacks nofun) rfl rfl rfl

theorem AllAccounted.failedExecution (h : AllAccounted w) (t : ℕ) (e : Exc) :
    AllAccounted (w.failedExecution t e) := by
  have hraised : AllAccounted ((w.futureFastSetException t).finish t) :=
    h.ends (completes_futureFastSetException w t) (status_futureFastSetException w t) rfl rfl rfl
  have hcancelled : AllAccounted ((w.futureFastCancel t).2.finish t) :=
    h.ends (completes_futureFastCancel w t) (status_futureFastCancel w t) rfl rfl rfl
  cases e with
  | ordinary => exact hraised
  | cancelledError => exact hcancelled
  | fatal => exact hraised

theorem AllAccounted.stepFails (h : AllAccounted w) (s : Step) (e : Exc) : AllAccounted (w.stepFails s e) := by
  unfold Tasks.stepFails
  split
  · exact h
  · exact h
  · split
    · exact h.ends (completes_futureFastSetException w s.task) (status_futureFastSetException w s.task) rfl
        rfl rfl
    · exact h

theorem AllAccounted.decref (h : AllAccounted w) (t : ℕ) : AllAccounted (w.decref t) :=
  h.setOther rfl rfl rfl rfl

theorem AllAccounted.incref (h : AllAccounted w) (t : ℕ) : AllAccounted (w.incref t) :=
  h.setOther rfl rfl rfl rfl

theorem AllAccounted.stepEnds (h : AllAccounted w) (t : ℕ) : AllAccounted (w.stepEnds t) :=
  Each.frame (h.decref t) rfl rfl fun _ _ => rfl

/-! ### The beginning of a step -/

/-- A step that begins uses up the request that `must_cancel` stands for. -/
theorem AllAccounted.execute (h : AllAccounted w) (s : Step) (enters : Bool) :
    AllAccounted (w.execute s enters) := by
  unfold Tasks.execute
  dsimp only
  rw [status_setTask]
  split
  · rename_i hdone
    rw [Tasks.decref, setTask_setTask]
    refine Each.setTask h fun ht => ?_
    obtain ⟨honce, -, hsettled⟩ := h s.task ht
    exact ⟨honce, fun hpending => absurd hpending hdone, hsettled⟩
  split
  · rw [setTask_setTask]
    have hthrown : AllAccounted (w.setTask s.task fun task =>
        { ({ task with mustCancel := false } : TaskObject).consume .thrown with coro := .running }) := by
      refine Each.setTask h fun ht => ?_
      refine (h s.task ht).consume .thrown ?_ ?_ ?_ fun _ => ?_
      · rfl
      · rfl
      · rfl
      · rfl
    exact Each.frame hthrown rfl rfl fun _ _ => rfl
  · unfold Tasks.failedExecution Tasks.finish
    dsimp only
    rw [futureFastSetException_setTask, setTask_setTask]
    refine AllAccounted.decref ?_ s.task
    exact h.ends (completes_futureFastSetException w s.task) (status_futureFastSetException w s.task) rfl rfl
      rfl

theorem AllAccounted.begins (h : AllAccounted w) (hinv : Inv w) {e : Event}
    (he : ∃ enters, e = .tick enters ∨ e = .wake enters ∨ ∃ l t result, e = .legacyWake l t result enters)
    (hv : w.act e = some v) : AllAccounted v := by
  obtain ⟨-, ⟨u, s, enters, htaken, -, rfl⟩ | ⟨u, l, t, enters, htaken, -, rfl⟩ |
    ⟨-, -, hisTask, hstatus, htasks, -, -⟩⟩ := hinv.toBase.begins he hv
  · exact (AllAccounted.taken h htaken).execute s enters
  · exact (AllAccounted.taken h htaken).decref t
  · exact Each.frame h hisTask htasks fun _ _ => congrFun hstatus _

/-! ### Cancelling -/

theorem AllAccounted.taskCancel (h : AllAccounted w) (ht : w.isTask t = true) (answer : Answer) :
    AllAccounted (w.taskCancel t answer) := by
  have hoverflowed : AllAccounted { w with overflowed := true } := Each.frame h rfl rfl fun _ _ => rfl
  refine taskCancel_rule (P := AllAccounted) ?_ ?_ ht h hoverflowed
  · exact fun u g hu hg => Each.completes hu (completes_futureFastCancel u g) hg
  · intro u g hu _ hpending
    refine ⟨hu.setOther rfl rfl rfl rfl, ?_, ?_⟩
    · exact Each.setTask hu fun hg => (hu g hg).hold hpending
    · exact Each.setTask hu fun hg => (hu g hg).forward

theorem AllAccounted.taskUncancel (h : AllAccounted w) (t : ℕ) : AllAccounted (w.taskUncancel t) := by
  refine Each.setTask h fun ht => ?_
  dsimp only
  split
  · refine (h t ht).consume .withdrawn ?_ ?_ ?_ fun _ => ?_
    · rfl
    · rfl
    · rfl
    · rfl
  · exact (h t ht).congr rfl rfl rfl rfl

/-! ### Yielding -/

theorem AllAccounted.register (h : AllAccounted w) (t l : ℕ) : AllAccounted (w.register t l) := by
  have hlegacy : AllAccounted { w with legacy := w.legacy ++ [(l, t)] } := Each.frame h rfl rfl fun _ _ => rfl
  exact hlegacy.incref t

theorem AllAccounted.dispatch (h : AllAccounted w) (r : Ready) : AllAccounted (w.dispatch r) :=
  Each.frame h rfl rfl fun _ _ => rfl

theorem AllAccounted.awaitLegacy (h : AllAccounted w) (t l : ℕ) : AllAccounted (w.awaitLegacy t l) :=
  (h.register t l).setOther rfl rfl rfl rfl

theorem AllAccounted.await (h : AllAccounted w) (t f : ℕ) : AllAccounted (w.await t f) := by
  intro u hu
  rw [isTask_await] at hu
  rw [status_await]
  by_cases heq : u = t
  · subst heq
    rw [tasks_await]
    exact (h u hu).congr rfl rfl rfl rfl
  · rw [tasks_await_of_ne w t f heq]
    exact h u hu

theorem AllAccounted.handled (h : AllAccounted w) {y : Yield} {e : Option Exc} (hh : Handled w t y v e)
    (hspares : Spares w t y) : AllAccounted v := by
  cases hh with
  | fails => exact h
  | queued => exact (h.dispatch _).incref t
  | awaited => exact h.await t _
  | @forwarded f repr hawaits hflag =>
    rw [cancelFutureObject_of_done]
    · exact h.await t f
    · rw [status_await]
      exact fun hpending => hspares hflag ⟨hawaits, hpending⟩
  | flagFails => exact h.register t _
  | legacy => exact h.awaitLegacy t _
  | legacyForwarded hflag => exact absurd rfl (hspares hflag)
  | legacyRaises => exact h.awaitLegacy t _

theorem AllAccounted.coroYields (h : AllAccounted w) {s : Step} (hactive : Active w s.task) {y : Yield}
    (hspares : Spares w s.task y) : AllAccounted (w.coroYields s y) := by
  have hyielding : AllAccounted (w.yielding s.task) := h.setOther rfl rfl rfl rfl
  have hflag : ((w.yielding s.task).tasks s.task).mustCancel = (w.tasks s.task).mustCancel := by
    rw [yielding, tasks_setTask]
  have hspares' : Spares (w.yielding s.task) s.task y := by
    intro hcancel
    exact hspares (hflag ▸ hcancel)
  rcases coroYields_cases hactive y with ⟨u, hh, heq⟩ | ⟨u, e, hh, heq⟩
  · rw [heq]
    exact (hyielding.handled hh hspares').stepEnds s.task
  · rw [heq]
    exact ((hyielding.handled hh hspares').stepFails s e).stepEnds s.task

/-! ### All runs -/

theorem AllAccounted.step (h : AllAccounted w) (hinv : Inv w) {e : Event} (hkeeps : KeepsRequests w e)
    (hv : w.step e = some v) : AllAccounted v := by
  have hkeeps := hkeeps (Option.isSome_of_eq_some hv)
  replace hv := (act_of_step hv).2
  cases e with
  | newFuture _ | setBlocking _ _ | setResult _ | setException _ | cancelFuture _ =>
    exact Each.ofPlain h hinv rfl hv
  | newTask => exact Each.newTask h accounted_new hv
  | cancel t answer =>
    obtain ⟨htask, rfl⟩ := cancel_eq hv
    exact h.taskCancel htask answer
  | uncancel t =>
    obtain rfl := uncancel_eq hv
    exact h.taskUncancel t
  | tick enters => exact h.begins hinv ⟨enters, .inl rfl⟩ hv
  | wake enters => exact h.begins hinv ⟨enters, .inr (.inl rfl)⟩ hv
  | legacyWake l t result enters => exact h.begins hinv ⟨enters, .inr (.inr ⟨l, t, result, rfl⟩)⟩ hv
  | returned =>
    obtain ⟨s, hs, rfl⟩ := Option.map_eq_some_iff.1 hv
    have hended : AllAccounted (w.coroEnds s.task) := h.setOther rfl rfl rfl rfl
    exact (hended.setResult s.task).stepEnds s.task
  | raised e =>
    obtain ⟨s, hs, rfl⟩ := Option.map_eq_some_iff.1 hv
    have hended : AllAccounted (w.coroEnds s.task) := h.setOther rfl rfl rfl rfl
    exact (hended.failedExecution s.task e).stepEnds s.task
  | yielded y =>
    obtain ⟨s, hs, rfl⟩ := yielded_eq hv
    exact h.coroYields (hinv.active s hs) (hkeeps s hs)

/-- A request that was forwarded and is kept nevertheless. -/
theorem Accounted.not_forwarded {task' : TaskObject} (h : Accounted pending task) (hheld : task.held ≠ [])
    (hheld' : task'.held = task.held) (hlog : task'.log = task.forwardHeld.log)
    (haccepted : task'.accepted = task.accepted) {pending' : Prop} : ¬Accounted pending' task' := by
  intro h'
  have hbefore := h.once.length_eq
  have hafter := h'.once.length_eq
  rw [hheld', hlog, haccepted] at hafter
  have hpos : 0 < task.held.length := List.length_pos_iff.2 hheld
  simp only [TaskObject.forwardHeld, List.length_append, List.length_map, List.length_range] at hbefore hafter
  omega

/-- Where a request was forwarded as the coroutine yielded, it is kept too. -/
theorem spares_of_accounted (h : AllAccounted w) {s : Step} (hactive : Active w s.task) {y : Yield}
    (hv : AllAccounted (w.coroYields s y)) : Spares w s.task y := by
  intro hcancel
  have hbefore := h s.task hactive.isTask
  have hheld := (hbefore.flag hactive.pending).1 hcancel
  have hyielding : ((w.yielding s.task).tasks s.task) = { w.tasks s.task with coro := .suspended } := by
    rw [yielding, tasks_setTask]
  have hflag : ((w.yielding s.task).tasks s.task).mustCancel = true := by
    rw [hyielding]
    exact hcancel
  have hcases := coroYields_cases hactive y
  cases y with
  | none => trivial
  | talyn f repr =>
    rintro ⟨hawaits, hpending⟩
    have hfailure : (w.yielding s.task).failure s.task (.talyn f repr) = none :=
      if_pos ((awaits_iff w s.task f).1 hawaits)
    rcases hcases with ⟨u, hh, heq⟩ | ⟨u, e, hh, heq⟩
    · rw [heq] at hv
      cases hh with
      | queued hr hr' hfails hlate hy hy' => exact hy f repr rfl hawaits
      | awaited hawaits' hnot => cases hflag.symm.trans hnot
      | forwarded hawaits' hflag' =>
        have htask : (((w.yielding s.task).await s.task f).cancelFutureObject s.task f).isTask s.task = true := by
          rw [isTask_cancelFutureObject, isTask_await]
          exact hactive.isTask
        have hafter := hv s.task htask
        rw [tasks_stepEnds, tasks_cancelFutureObject (by rw [status_await]; exact hpending) hawaits.2.2,
          tasks_await, hyielding] at hafter
        refine hbefore.not_forwarded hheld ?_ ?_ ?_ hafter
        · rfl
        · rfl
        · rfl
    · cases hh with
      | fails hfails => cases hfailure.symm.trans hfails
  | legacy l object =>
    cases object with
    | waits answer =>
      rintro rfl
      rcases hcases with ⟨u, hh, heq⟩ | ⟨u, e, hh, heq⟩
      · rw [heq] at hv
        cases hh with
        | queued hr hr' hfails hlate hy hy' => exact hy' l _ rfl
        | legacy hnot =>
          rcases hnot with hnot | hnot
          · cases hflag.symm.trans hnot
          · cases hnot
        | legacyForwarded hflag' =>
          have hafter := hv s.task hactive.isTask
          rw [tasks_stepEnds, tasks_setTask, awaitLegacy, tasks_setTask, register, incref, tasks_setTask,
            hyielding] at hafter
          refine hbefore.not_forwarded hheld ?_ ?_ ?_ hafter
          · rfl
          · rfl
          · rfl
      · cases hh with
        | fails hfails => cases hfails
    | _ => trivial

/-- Outside a step only a wake-up begins one. -/
theorem begins_of_running (hidle : w.running = none) {e : Event} {s : Step}
    (hv : w.act e = some v) (hs : v.running = some s) :
    ∃ enters, e = .tick enters ∨ e = .wake enters ∨ ∃ l t result, e = .legacyWake l t result enters := by
  have hsame : v.running = w.running → False := fun heq => Option.some_ne_none _ (hs.symm.trans (heq.trans hidle))
  cases e with
  | tick enters => exact ⟨enters, .inl rfl⟩
  | wake enters => exact ⟨enters, .inr (.inl rfl)⟩
  | legacyWake l t result enters => exact ⟨enters, .inr (.inr ⟨l, t, result, rfl⟩)⟩
  | newFuture ours =>
    obtain rfl := Option.some.inj hv
    exact (hsame rfl).elim
  | newTask =>
    obtain rfl := Option.some.inj hv
    exact (hsame rfl).elim
  | setBlocking f blocking =>
    simp only [Tasks.act] at hv
    split at hv
    · obtain rfl := Option.some.inj hv
      exact (hsame rfl).elim
    · cases hv
  | setResult f =>
    simp only [Tasks.act] at hv
    split at hv
    · obtain rfl := Option.some.inj hv
      exact (hsame (completes_callDoneCallbacks w f .finished).running).elim
    · cases hv
  | setException f =>
    simp only [Tasks.act] at hv
    split at hv
    · obtain rfl := Option.some.inj hv
      exact (hsame (completes_futureFastSetException w f).running).elim
    · cases hv
  | cancelFuture f =>
    simp only [Tasks.act] at hv
    split at hv
    · obtain rfl := Option.some.inj hv
      exact (hsame (completes_futureFastCancel w f).running).elim
    · cases hv
  | cancel t answer =>
    simp only [Tasks.act] at hv
    split at hv
    · rename_i ht
      obtain rfl := Option.some.inj hv
      refine (hsame ?_).elim
      refine taskCancel_rule (P := fun u => u.running = w.running) ?_ ?_ ht rfl rfl
      · exact fun u g hu _ => (completes_futureFastCancel u g).running.trans hu
      · exact fun u g hu _ _ => ⟨hu, hu, hu⟩
    · cases hv
  | uncancel t =>
    simp only [Tasks.act] at hv
    split at hv
    · obtain rfl := Option.some.inj hv
      exact (hsame rfl).elim
    · cases hv
  | returned =>
    obtain ⟨s', hs', -⟩ := Option.map_eq_some_iff.1 hv
    cases hidle.symm.trans hs'
  | raised e =>
    obtain ⟨s', hs', -⟩ := Option.map_eq_some_iff.1 hv
    cases hidle.symm.trans hs'
  | yielded y =>
    obtain ⟨s', hs', -⟩ := yielded_eq hv
    cases hidle.symm.trans hs'

/-- A request that is kept is thrown at the next step. -/
theorem execute_throws {s s' : Step} {enters : Bool} (hidle : w.running = none)
    (hs : (w.execute s enters).running = some s') :
    s'.task = s.task ∧ ((w.execute s enters).tasks s'.task).held = [] ∧
      ((w.tasks s'.task).mustCancel = true → s'.thrown = true) := by
  unfold Tasks.execute at hs ⊢
  dsimp only at hs ⊢
  split
  · rename_i hdone
    rw [if_pos hdone] at hs
    exact nomatch hs.symm.trans hidle
  rename_i hpending
  rw [if_neg hpending] at hs
  split
  · rename_i henters
    rw [if_pos henters] at hs
    obtain rfl := Option.some.inj hs
    refine ⟨rfl, ?_, ?_⟩
    · have hresumed := tasks_setTask (w.setTask s.task fun task => { task with mustCancel := false }) s.task
        fun task => { task.consume .thrown with coro := .running }
      exact congrArg TaskObject.held hresumed
    · intro hcancel
      exact Bool.or_eq_true_iff.2 (.inr hcancel)
  · rename_i henters
    rw [if_neg henters] at hs
    have hnone := running_failedExecution (w.setTask s.task fun task => { task with mustCancel := false })
      s.task .ordinary
    exact nomatch hs.symm.trans (hnone.trans hidle)

theorem Inv.consumed (hinv : Inv w) (h : AllAccounted w) : Consumed w where
  accounted := h
  thrown e v s hidle hv hs := by
    replace hv := (act_of_step hv).2
    obtain ⟨-, ⟨u, s', enters, htaken, -, rfl⟩ | ⟨u, l, t, enters, htaken, -, rfl⟩ |
      ⟨-, -, -, -, -, hrunning, -⟩⟩ := hinv.toBase.begins (begins_of_running hidle hv hs) hv
    · obtain ⟨-, hheld, hthrown⟩ := execute_throws (htaken.running.trans hidle) hs
      refine ⟨hheld, fun hcancel => hthrown ?_⟩
      rw [htaken.tasks]
      exact hcancel
    · exact nomatch hs.symm.trans (htaken.running.trans hidle)
    · exact nomatch hs.symm.trans (hrunning.trans hidle)

/-- **What becomes of a cancel request.** Each request is kept until the next step or has one fate exactly
in the runs in which no object is yielded that accepts a request kept in `must_cancel`. -/
theorem requests_consumed_iff (es : List Event) :
    Runs.Always step Consumed init es ↔ Runs.Along step KeepsRequests init es := by
  refine Runs.always_iff_along_of_break (I := fun w => Inv w ∧ AllAccounted w) ⟨inv_init, nofun⟩ ?_ ?_ ?_ ?_
  · exact fun w h => h.1.consumed h.2
  · exact fun w e v h hok hv => ⟨h.1.act (act_of_step hv).2, h.2.step h.1 hok hv⟩
  · intro w e v h hv hconsumed _
    cases e with
    | yielded y =>
      intro s hs
      obtain ⟨s', hs', rfl⟩ := yielded_eq (act_of_step hv).2
      obtain rfl := Option.some.inj (hs.symm.trans hs')
      exact spares_of_accounted h.2 (h.1.active s hs) hconsumed.accounted
    | _ => trivial
  · intro w e hs hsome
    rw [hs] at hsome
    exact nomatch hsome

/-- A task cancels itself and awaits a task of `asyncio`, which accepts the request as the coroutine
yields, suppresses it and returns. -/
def suppressed : List Event :=
  [.newTask, .tick true, .cancel 0 .refused, .yielded (.legacy 7 (.waits .accepted)),
    .legacyWake 7 0 (some false) true]

/-- The one request is forwarded, and thrown when the awaited task is done. -/
theorem request_consumed_twice :
    (∃ w, Runs.exec step init suppressed = some w ∧
      (w.tasks 0).log = [(0, .forwarded), (0, .thrown)] ∧ (w.tasks 0).accepted = 1) ∧
        ¬Runs.Always step Consumed init suppressed := by
  have hrun : ∃ w, Runs.exec step init suppressed = some w ∧
      ((w.tasks 0).log = [(0, .forwarded), (0, .thrown)] ∧ (w.tasks 0).accepted = 1) ∧
        w.isTask 0 = true := ⟨_, rfl, ⟨rfl, rfl⟩, rfl⟩
  obtain ⟨w, hexec, hlog, htask⟩ := hrun
  refine ⟨⟨w, hexec, hlog⟩, fun h => ?_⟩
  have hlength := ((h.last hexec).accounted 0 htask).once.length_eq
  rw [hlog.1, hlog.2, List.length_append] at hlength
  simp at hlength

end Tasks

end Talyn
