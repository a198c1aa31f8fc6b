import Talyn.Task.Basic

/-!
# What holds between the steps of tasks

`carriers` counts the wake-ups of a task that are registered or queued. A task never has two of them, the
task whose step is being executed has none, and a queued callback of a future belongs to a future that
is pending or about to call its callbacks. The claims about requests, completion and wake-ups build on
this.
-/

namespace Talyn

namespace Tasks

/-- A queued `execute_task_send` or `execute_task_throw` of a task. -/
def Ready.carries (t : ℕ) : Ready → Bool
  | .send t' => decide (t' = t)
  | .throw t' => decide (t' = t)
  | .runCallbacks _ => false

/-- The wake-ups of a task that are registered or queued. -/
def carriers (w : Tasks) (t : ℕ) : ℕ :=
  w.ready.countP (Ready.carries t) + w.calling.countP (fun c => c.2 = t) +
    w.callbacks.countP (fun c => c.2 = t) + w.legacy.countP (fun c => c.2 = t)

/-- What holds of the registered and queued wake-ups. -/
structure Base (w : Tasks) : Prop where
  fresh : ∀ t, w.next ≤ t → w.isTask t = false
  tasks : ∀ t, w.isTask t = false → w.carriers t = 0
  one : ∀ t, w.carriers t ≤ 1
  idle : ∀ t, (∃ r ∈ w.ready, r.carries t = true) → (w.tasks t).futWaiter = none
  invoked : ∀ c ∈ w.callbacks, w.status c.1 = .pending ∨ .runCallbacks c.1 ∈ w.ready

/-- What holds of the task whose step is being executed. -/
structure Active (w : Tasks) (t : ℕ) : Prop where
  isTask : w.isTask t = true
  pending : w.status t = .pending
  coro : (w.tasks t).coro = .running
  waiter : (w.tasks t).futWaiter = none
  alone : w.carriers t = 0

/-- The invariant of all runs. -/
structure Inv (w : Tasks) : Prop extends Base w where
  active : ∀ s, w.running = some s → w.Active s.task

theorem inv_init : Inv init where
  fresh _ _ := rfl
  tasks _ _ := rfl
  one _ := Nat.zero_le 1
  idle := nofun
  invoked := nofun
  active := nofun

variable {w v : Tasks} {t f : ℕ}

/-! ### The primitive updates -/

@[simp] theorem status_setTask (w : Tasks) (t : ℕ) (change : TaskObject → TaskObject) :
    (w.setTask t change).status = w.status := rfl

@[simp] theorem carriers_setTask (w : Tasks) (t : ℕ) (change : TaskObject → TaskObject) :
    (w.setTask t change).carriers = w.carriers := rfl

@[simp] theorem isTask_setTask (w : Tasks) (t : ℕ) (change : TaskObject → TaskObject) :
    (w.setTask t change).isTask = w.isTask := rfl

@[simp] theorem tasks_setTask (w : Tasks) (t : ℕ) (change : TaskObject → TaskObject) :
    (w.setTask t change).tasks t = change (w.tasks t) := Function.update_self ..

theorem tasks_setTask_of_ne (w : Tasks) {t u : ℕ} (change : TaskObject → TaskObject) (h : u ≠ t) :
    (w.setTask t change).tasks u = w.tasks u := Function.update_of_ne h ..

theorem setTask_setTask (w : Tasks) (t : ℕ) (a b : TaskObject → TaskObject) :
    (w.setTask t a).setTask t b = w.setTask t fun task => b (a task) := by
  have hself : (w.setTask t a).tasks t = a (w.tasks t) := tasks_setTask w t a
  unfold Tasks.setTask at hself ⊢
  dsimp only at hself ⊢
  rw [hself, Function.update_idem]

@[simp] theorem tasks_setFuture (w : Tasks) (f : ℕ) (change : FutureObject → FutureObject) :
    (w.setFuture f change).tasks = w.tasks := rfl

theorem status_setFuture {change : FutureObject → FutureObject}
    (h : (change (w.futures f)).status = (w.futures f).status) : (w.setFuture f change).status = w.status := by
  funext g
  show (Function.update w.futures f (change (w.futures f)) g).status = w.status g
  by_cases hg : g = f
  · rw [hg, Function.update_self, h]
    rfl
  · rw [Function.update_of_ne hg]
    rfl

theorem carriers_dispatch (w : Tasks) (r : Ready) (t : ℕ) :
    (w.dispatch r).carriers t = w.carriers t + (r.carries t).toNat := by
  rw [carriers, carriers, dispatch, List.countP_append, List.countP_singleton]
  cases r.carries t <;> simp
  omega

theorem not_carries (h : w.carriers t = 0) : ¬∃ r ∈ w.ready, r.carries t = true := by
  rintro ⟨r, hr, hcarries⟩
  have hpos : 0 < w.ready.countP (Ready.carries t) := List.countP_pos_iff.2 ⟨r, hr, hcarries⟩
  rw [carriers] at h
  omega

/-- A task changes and keeps its waiter. -/
theorem Base.setTask (h : Base w) {change : TaskObject → TaskObject}
    (hwaiter : (change (w.tasks t)).futWaiter = (w.tasks t).futWaiter) : Base (w.setTask t change) :=
  { h with
    idle := fun u hu => by
      have hnone := h.idle u hu
      by_cases heq : u = t
      · subst heq
        rwa [tasks_setTask, hwaiter]
      · rwa [tasks_setTask_of_ne w change heq] }

/-- A task that waits for nothing in the ready queue gets or loses its waiter. -/
theorem Base.setWaiter (h : Base w) {change : TaskObject → TaskObject}
    (hidle : (change (w.tasks t)).futWaiter = none ∨ ¬∃ r ∈ w.ready, r.carries t = true) :
    Base (w.setTask t change) :=
  { h with
    idle := fun u hu => by
      by_cases heq : u = t
      · subst heq
        rw [tasks_setTask]
        exact hidle.resolve_right (not_not.2 hu)
      · rw [tasks_setTask_of_ne w change heq]
        exact h.idle u hu }

/-! ### Futures are completed -/

/-- The future `f` is completed, unless it was before, and its callbacks are dispatched. -/
structure Completes (w v : Tasks) (f : ℕ) : Prop where
  next : v.next = w.next
  isTask : v.isTask = w.isTask
  tasks : v.tasks = w.tasks
  callbacks : v.callbacks = w.callbacks
  legacy : v.legacy = w.legacy
  calling : v.calling = w.calling
  running : v.running = w.running
  overflowed : v.overflowed = w.overflowed
  status : ∀ g, g ≠ f → v.status g = w.status g
  ready : ∃ es, v.ready = w.ready ++ es ∧ ∀ r ∈ es, r = .runCallbacks f
  invoked : w.status f = .pending → v.status f ≠ .pending →
    (∃ c ∈ w.callbacks, c.1 = f) → .runCallbacks f ∈ v.ready

theorem completes_refl (w : Tasks) (f : ℕ) : Completes w w f :=
  { next := rfl, isTask := rfl, tasks := rfl, callbacks := rfl, legacy := rfl, calling := rfl
    running := rfl, overflowed := rfl, status := fun _ _ => rfl
    ready := ⟨[], (List.append_nil _).symm, nofun⟩
    invoked := fun hpending hdone => absurd hpending hdone }

theorem Completes.carriers (h : Completes w v f) (t : ℕ) : v.carriers t = w.carriers t := by
  obtain ⟨es, hready, hes⟩ := h.ready
  have hnone : es.countP (Ready.carries t) = 0 := by
    refine List.countP_eq_zero.2 fun r hr => ?_
    rw [hes r hr]
    exact Bool.false_ne_true
  rw [Tasks.carriers, Tasks.carriers, h.callbacks, h.legacy, h.calling, hready, List.countP_append, hnone]
  rfl

theorem Completes.carries (h : Completes w v f) (hr : ∃ r ∈ v.ready, r.carries t = true) :
    ∃ r ∈ w.ready, r.carries t = true := by
  obtain ⟨es, hready, hes⟩ := h.ready
  obtain ⟨r, hmem, hcarries⟩ := hr
  rw [hready] at hmem
  rcases List.mem_append.1 hmem with hold | hnew
  · exact ⟨r, hold, hcarries⟩
  · rw [hes r hnew] at hcarries
    exact nomatch hcarries

theorem Base.completes (h : Base w) (hc : Completes w v f) : Base v where
  fresh t ht := by
    rw [hc.isTask]
    exact h.fresh t (hc.next ▸ ht)
  tasks t ht := by
    rw [hc.carriers]
    exact h.tasks t (hc.isTask ▸ ht)
  one t := by
    rw [hc.carriers]
    exact h.one t
  idle t hr := by
    rw [hc.tasks]
    exact h.idle t (hc.carries hr)
  invoked c hmem := by
    rw [hc.callbacks] at hmem
    obtain ⟨es, hready, -⟩ := hc.ready
    have hkept : ∀ r ∈ w.ready, r ∈ v.ready := by
      intro r hr
      rw [hready]
      exact List.mem_append_left _ hr
    by_cases hf : c.1 = f
    · by_cases hdone : v.status f = .pending
      · exact .inl (hf ▸ hdone)
      · rcases h.invoked c hmem with hpending | hqueued
        · rw [hf] at hpending ⊢
          exact .inr (hc.invoked hpending hdone ⟨c, hmem, hf⟩)
        · exact .inr (hkept _ hqueued)
    · rw [hc.status c.1 hf]
      exact (h.invoked c hmem).imp_right (hkept _)

theorem Inv.completes (h : Inv w) (hc : Completes w v f)
    (hf : ∀ s, w.running = some s → s.task ≠ f) : Inv v :=
  { h.toBase.completes hc with
    active := fun s hs => by
      rw [hc.running] at hs
      obtain ⟨htask, hpending, hcoro, hwaiter, halone⟩ := h.active s hs
      refine ⟨?_, ?_, ?_, ?_, ?_⟩
      · rwa [hc.isTask]
      · rwa [hc.status _ (hf s hs)]
      · rwa [hc.tasks]
      · rwa [hc.tasks]
      · rwa [hc.carriers] }

theorem completes_callDoneCallbacks (w : Tasks) (f : ℕ) (newStatus : FutureStatus) :
    Completes w (w.callDoneCallbacks f newStatus) f := by
  unfold callDoneCallbacks
  split
  · exact completes_refl w f
  dsimp only
  have hset : ∀ g, g ≠ f →
      (w.setFuture f fun future => { future with status := newStatus }).status g = w.status g := by
    intro g hg
    show (Function.update w.futures f _ g).status = w.status g
    rw [Function.update_of_ne hg]
    rfl
  split
  · exact
      { next := rfl, isTask := rfl, tasks := rfl, callbacks := rfl, legacy := rfl, calling := rfl
        running := rfl, overflowed := rfl, status := hset
        ready := ⟨_, rfl, fun r hr => List.mem_singleton.1 hr⟩
        invoked := fun _ _ _ => List.mem_append_right _ (List.mem_singleton.2 rfl) }
  · rename_i hnone
    refine
      { next := rfl, isTask := rfl, tasks := rfl, callbacks := rfl, legacy := rfl, calling := rfl
        running := rfl, overflowed := rfl, status := hset
        ready := ⟨[], (List.append_nil _).symm, nofun⟩
        invoked := fun _ _ hsome => absurd ?_ hnone }
    obtain ⟨c, hc, hf⟩ := hsome
    exact List.any_eq_true.2 ⟨c, hc, decide_eq_true hf⟩

theorem completes_futureFastCancel (w : Tasks) (f : ℕ) : Completes w (w.futureFastCancel f).2 f := by
  unfold futureFastCancel
  split
  · exact completes_refl w f
  · exact completes_callDoneCallbacks w f .canceled

theorem completes_futureFastSetException (w : Tasks) (f : ℕ) :
    Completes w (w.futureFastSetException f) f := by
  unfold futureFastSetException
  split
  · exact completes_refl w f
  · generalize hu : (w.setFuture f fun future => { future with exception := true }) = u
    have hstatus : u.status = w.status := by
      rw [← hu]
      exact status_setFuture rfl
    have hc := completes_callDoneCallbacks u f .finished
    rw [← hu] at hc
    rw [← hu] at hstatus
    subst hu
    exact
      { hc with
        status := fun g hg => (hc.status g hg).trans (congrFun hstatus g)
        invoked := fun hpending => hc.invoked ((congrFun hstatus f).trans hpending) }

/-! ### Requests -/

/-- What `cancel()` of a task keeps, provided that cancelling a plain future and the changes of the tasks
on the way keep it. The statuses of the tasks stay as they are. -/
theorem fastTaskCancel_rule {P : Tasks → Prop} {answer : Answer}
    (hfuture : ∀ u g, P u → u.isTask g = false → P (u.futureFastCancel g).2)
    (htask : ∀ u g, P u → u.isTask g = true → u.status g = .pending →
      P (u.setTask g .request) ∧ P (u.setTask g .hold) ∧ P (u.setTask g .forward))
    {fuel : ℕ} {u : Tasks} {g : ℕ} {a : Answer} {v : Tasks} (hg : u.isTask g = true) (hP : P u)
    (hv : fastTaskCancel answer fuel u g = some (a, v)) :
    P v ∧ v.isTask = u.isTask ∧ ∀ t, u.isTask t = true → v.status t = u.status t := by
  induction fuel generalizing u g a v with
  | zero => exact nomatch hv
  | succ fuel ih =>
    rw [fastTaskCancel] at hv
    split at hv
    · obtain rfl := congrArg Prod.snd (Option.some.inj hv)
      exact ⟨hP, rfl, fun _ _ => rfl⟩
    rename_i hpending
    have hpending : u.status g = .pending := not_not.1 hpending
    have hrequest := (htask u g hP hg hpending).1
    dsimp only at hv
    split at hv
    · obtain rfl := congrArg Prod.snd (Option.some.inj hv)
      exact ⟨(htask _ g hrequest hg hpending).2.1, rfl, fun _ _ => rfl⟩
    rename_i waiter hwaiter
    -- what the awaited object does
    have hwaits : ∀ {b : Answer} {x : Tasks},
        cancelFutureWaiter (fastTaskCancel answer fuel) answer (u.setTask g .request) waiter =
          some (b, x) →
        P x ∧ x.isTask = u.isTask ∧ ∀ t, u.isTask t = true → x.status t = u.status t := by
      intro b x hx
      cases waiter with
      | legacy l =>
        obtain rfl := congrArg Prod.snd (Option.some.inj hx)
        exact ⟨hrequest, rfl, fun _ _ => rfl⟩
      | future f =>
        rw [cancelFutureWaiter] at hx
        split at hx
        · rename_i hf
          exact ih (u := u.setTask g .request) hf hrequest hx
        · rename_i hf
          have hf : u.isTask f = false := Bool.eq_false_iff.2 hf
          obtain rfl := congrArg Prod.snd (Option.some.inj hx)
          have hc := completes_futureFastCancel (u.setTask g .request) f
          refine ⟨hfuture _ f hrequest hf, hc.isTask, fun t ht => ?_⟩
          refine hc.status t ?_
          rintro rfl
          exact absurd (ht.symm.trans hf) nofun
    split at hv
    · exact nomatch hv
    · rename_i e x hx
      obtain rfl := congrArg Prod.snd (Option.some.inj hv)
      exact hwaits hx
    · rename_i x hx
      obtain rfl := congrArg Prod.snd (Option.some.inj hv)
      obtain ⟨hPx, hisTask, hstatus⟩ := hwaits hx
      exact ⟨(htask x g hPx (hisTask ▸ hg) ((hstatus g hg).trans hpending)).2.2, hisTask, hstatus⟩
    · rename_i x hx
      obtain rfl := congrArg Prod.snd (Option.some.inj hv)
      obtain ⟨hPx, hisTask, hstatus⟩ := hwaits hx
      exact ⟨(htask x g hPx (hisTask ▸ hg) ((hstatus g hg).trans hpending)).2.1, hisTask, hstatus⟩

theorem Inv.setTask (h : Inv w) {change : TaskObject → TaskObject}
    (hwaiter : (change (w.tasks t)).futWaiter = (w.tasks t).futWaiter)
    (hcoro : (change (w.tasks t)).coro = (w.tasks t).coro) : Inv (w.setTask t change) :=
  { h.toBase.setTask hwaiter with
    active := fun s hs => by
      have hactive := h.active s hs
      by_cases heq : s.task = t
      · obtain rfl := heq
        exact
          { hactive with
            coro := by rw [tasks_setTask, hcoro, hactive.coro]
            waiter := by rw [tasks_setTask, hwaiter, hactive.waiter] }
      · exact
          { hactive with
            coro := by rw [tasks_setTask_of_ne w change heq, hactive.coro]
            waiter := by rw [tasks_setTask_of_ne w change heq, hactive.waiter] } }

theorem Inv.not_running (h : Inv w) (hf : w.isTask f = false) (s : Step) (hs : w.running = some s) :
    s.task ≠ f := by
  rintro rfl
  exact absurd ((h.active s hs).isTask.symm.trans hf) nofun

/-- What `task_cancel` keeps. -/
theorem taskCancel_rule {P : Tasks → Prop} {answer : Answer}
    (hfuture : ∀ u g, P u → u.isTask g = false → P (u.futureFastCancel g).2)
    (htask : ∀ u g, P u → u.isTask g = true → u.status g = .pending →
      P (u.setTask g .request) ∧ P (u.setTask g .hold) ∧ P (u.setTask g .forward))
    (ht : w.isTask t = true) (hP : P w) (hoverflowed : P { w with overflowed := true }) :
    P (w.taskCancel t answer) := by
  unfold Tasks.taskCancel
  split
  · exact hoverflowed
  · rename_i a x hx
    exact (fastTaskCancel_rule hfuture htask ht hP hx).1

theorem Inv.taskCancel (h : Inv w) (ht : w.isTask t = true) (answer : Answer) :
    Inv (w.taskCancel t answer) := by
  have hoverflowed : Inv { w with overflowed := true } :=
    { h with active := fun s hs => { h.active s hs with } }
  refine taskCancel_rule (P := Inv) ?_ ?_ ht h hoverflowed
  · exact fun u g hu hg => hu.completes (completes_futureFastCancel u g) (hu.not_running hg)
  · exact fun u g hu _ _ => ⟨hu.setTask rfl rfl, hu.setTask rfl rfl, hu.setTask rfl rfl⟩

theorem Inv.taskUncancel (h : Inv w) : Inv (w.taskUncancel t) := by
  refine h.setTask ?_ ?_
  · dsimp only
    split <;> rfl
  · dsimp only
    split <;> rfl

/-! ### The beginning of a step -/

/-- Some wake-ups are gone. -/
theorem Base.fewer (h : Base w) (hnext : v.next = w.next) (hisTask : v.isTask = w.isTask)
    (htasks : v.tasks = w.tasks) (hcarriers : ∀ t, v.carriers t ≤ w.carriers t)
    (hready : ∀ r ∈ v.ready, r ∈ w.ready)
    (hinvoked : ∀ c ∈ v.callbacks, v.status c.1 = .pending ∨ .runCallbacks c.1 ∈ v.ready) : Base v where
  fresh t ht := by
    rw [hisTask]
    exact h.fresh t (hnext ▸ ht)
  tasks t ht := by
    rw [hisTask] at ht
    exact Nat.le_zero.1 ((hcarriers t).trans (h.tasks t ht).le)
  one t := (hcarriers t).trans (h.one t)
  idle t hr := by
    obtain ⟨r, hmem, hcarries⟩ := hr
    rw [htasks]
    exact h.idle t ⟨r, hready r hmem, hcarries⟩
  invoked := hinvoked

theorem carriers_popReady {r : Ready} {ready : List Ready} (hr : w.ready = r :: ready) (t : ℕ) :
    w.carriers t = { w with ready := ready }.carriers t + (r.carries t).toNat := by
  rw [carriers, carriers, hr, List.countP_cons]
  cases r.carries t <;> simp
  omega

theorem carriers_popCalling {c : ℕ × ℕ} {calling : List (ℕ × ℕ)} (hc : w.calling = c :: calling) (t : ℕ) :
    w.carriers t = { w with calling := calling }.carriers t + (decide (c.2 = t)).toNat := by
  rw [carriers, carriers, hc, List.countP_cons]
  by_cases heq : c.2 = t
  · simp [heq]
    omega
  · simp [heq]

theorem carriers_popLegacy {l t : ℕ} (hl : (l, t) ∈ w.legacy) (u : ℕ) :
    w.carriers u = { w with legacy := w.legacy.erase (l, t) }.carriers u + (decide (t = u)).toNat := by
  have hcount := (List.perm_cons_erase hl).countP_eq fun c => decide (c.2 = u)
  rw [List.countP_cons] at hcount
  rw [carriers, carriers, hcount]
  by_cases heq : t = u
  · simp [heq]
    omega
  · simp [heq]

/-- The callbacks of a future are about to be called. -/
theorem carriers_runCallbacks {ready : List Ready} (hr : w.ready = .runCallbacks f :: ready)
    (hcalling : w.calling = []) (t : ℕ) :
    { w with
      ready := ready
      calling := w.callbacks.filter fun c => c.1 = f
      callbacks := w.callbacks.filter fun c => c.1 ≠ f }.carriers t = w.carriers t := by
  have hsplit : w.callbacks.countP (fun c => c.2 = t) =
      (w.callbacks.filter fun c => c.1 = f).countP (fun c => c.2 = t) +
        (w.callbacks.filter fun c => c.1 ≠ f).countP (fun c => c.2 = t) := by
    have hperm := List.filter_append_perm (fun c : ℕ × ℕ => decide (c.1 = f)) w.callbacks
    rw [← hperm.countP_eq, List.countP_append]
    simp only [decide_not]
  rw [carriers, carriers, hcalling, hsplit, hr, List.countP_cons]
  simp [Ready.carries]
  omega

theorem Base.finish (h : Base w) : Base (w.finish t) := by
  unfold Tasks.finish
  exact h.setWaiter (.inl rfl)

theorem Base.failedExecution (h : Base w) (e : Exc) : Base (w.failedExecution t e) := by
  have hcancel := h.completes (completes_futureFastCancel w t)
  have hexception := h.completes (completes_futureFastSetException w t)
  cases e with
  | cancelledError => exact hcancel.finish
  | ordinary => exact hexception.finish
  | fatal => exact hexception.finish

theorem Base.setResult (h : Base w) : Base (w.setResult t) := by
  have hdone : Base (if (w.tasks t).mustCancel then (w.futureFastCancel t).2
      else w.futureFastSetResult t) := by
    split
    · exact h.completes (completes_futureFastCancel w t)
    · exact h.completes (completes_callDoneCallbacks w t .finished)
  exact hdone.finish

theorem running_failedExecution (w : Tasks) (t : ℕ) (e : Exc) :
    (w.failedExecution t e).running = w.running := by
  cases e with
  | cancelledError => exact (completes_futureFastCancel w t).running
  | ordinary => exact (completes_futureFastSetException w t).running
  | fatal => exact (completes_futureFastSetException w t).running

theorem Base.inv (h : Base w) (hrunning : w.running = none) : Inv w :=
  { h with active := fun _ hs => nomatch hrunning.symm.trans hs }

/-- The step of a task begins with the wake-up that has been taken. -/
theorem Base.execute (h : Base w) (hrunning : w.running = none) {s : Step}
    (htask : w.isTask s.task = true) (hwaiter : (w.tasks s.task).futWaiter = none)
    (halone : w.carriers s.task = 0) (enters : Bool) : Inv (w.execute s enters) := by
  unfold Tasks.execute
  dsimp only
  generalize hu : (w.setTask s.task fun task => { task with mustCancel := false }) = u
  have hflag : Base u := by
    rw [← hu]
    exact h.setTask rfl
  have hidle : u.running = none := by
    rw [← hu]
    exact hrunning
  split
  · exact (hflag.setTask rfl).inv hidle
  rename_i hpending
  split
  · have hthrown : Base (u.setTask s.task fun task => { task.consume .thrown with coro := .running }) :=
      hflag.setTask rfl
    have hresumed := tasks_setTask u s.task fun task => { task.consume .thrown with coro := .running }
    refine { hthrown with active := fun s' hs' => ?_ }
    obtain rfl := Option.some.inj hs'
    subst hu
    exact
      { isTask := htask, pending := not_not.1 hpending
        coro := congrArg TaskObject.coro hresumed
        waiter := (congrArg TaskObject.futWaiter hresumed).trans
          ((congrArg TaskObject.futWaiter (tasks_setTask w s.task _)).trans hwaiter)
        alone := halone }
  · refine ((hflag.failedExecution .ordinary).setTask rfl).inv ?_
    exact (running_failedExecution u s.task .ordinary).trans hidle

/-- `u` is `w` after a wake-up of `t` was taken. -/
structure Taken (w u : Tasks) (t : ℕ) : Prop where
  base : Base u
  isTask : u.isTask = w.isTask
  status : u.status = w.status
  running : u.running = w.running
  tasks : ∀ t', u.tasks t' = { w.tasks t' with futWaiter := (u.tasks t').futWaiter }
  waiter : (u.tasks t).futWaiter = none
  carriers : ∀ t', w.carriers t' = u.carriers t' + (decide (t = t')).toNat

theorem Taken.alone {u : Tasks} (ht : Taken w u t) (h : Base w) : u.carriers t = 0 := by
  have hone := h.one t
  rw [ht.carriers t, decide_eq_true rfl, Bool.toNat_true] at hone
  omega

theorem Taken.task {u : Tasks} (ht : Taken w u t) (h : Base w) : w.isTask t = true := by
  by_contra hnot
  have hnone := h.tasks t (Bool.eq_false_iff.2 hnot)
  rw [ht.carriers t, decide_eq_true rfl, Bool.toNat_true] at hnone
  exact nomatch hnone

theorem Taken.execute {u : Tasks} {s : Step} (ht : Taken w u s.task) (h : Base w)
    (hrunning : w.running = none) (enters : Bool) : Inv (u.execute s enters) :=
  ht.base.execute (ht.running.trans hrunning) (ht.isTask ▸ ht.task h) ht.waiter (ht.alone h) enters

/-- A wake-up in the ready queue is taken. -/
theorem Base.takeReady (h : Base w) {r : Ready} {ready : List Ready} (hr : w.ready = r :: ready)
    (ht : ∀ t', r.carries t' = decide (t = t')) : Taken w { w with ready := ready } t where
  base := by
    refine h.fewer rfl rfl rfl ?_ ?_ ?_
    · intro t'
      rw [carriers_popReady hr t']
      exact Nat.le_add_right _ _
    · intro r' hr'
      rw [hr]
      exact List.mem_cons_of_mem _ hr'
    · intro c hc
      refine (h.invoked c hc).imp_right fun hmem => ?_
      rw [hr] at hmem
      rcases List.mem_cons.1 hmem with rfl | hmem
      · exact absurd (ht t) (by simp [Ready.carries])
      · exact hmem
  isTask := rfl
  status := rfl
  running := rfl
  tasks _ := rfl
  waiter := h.idle t ⟨r, hr ▸ List.mem_cons_self, (ht t).trans (decide_eq_true rfl)⟩
  carriers t' := by rw [carriers_popReady hr t', ht t']

/-- Another wake-up is taken, and the waiter dropped. -/
theorem Base.takeCallback (h : Base w) {u : Tasks} (hnext : u.next = w.next) (hisTask : u.isTask = w.isTask)
    (htasks : u.tasks = w.tasks) (hfutures : u.futures = w.futures) (hrunning : u.running = w.running)
    (hready : u.ready = w.ready) (hcallbacks : u.callbacks = w.callbacks)
    (hcarriers : ∀ t', w.carriers t' = u.carriers t' + (decide (t = t')).toNat) :
    Taken w (u.setTask t fun task => { task with futWaiter := none }) t where
  base := by
    have hstatus : u.status = w.status := congrArg (fun futures f => (futures f).status) hfutures
    have hfewer : Base u := by
      refine h.fewer hnext hisTask htasks ?_ ?_ ?_
      · intro t'
        rw [hcarriers t']
        exact Nat.le_add_right _ _
      · intro r hr
        rwa [hready] at hr
      · intro c hc
        rw [hstatus, hready]
        exact h.invoked c (hcallbacks ▸ hc)
    exact hfewer.setWaiter (.inl rfl)
  isTask := hisTask
  status := congrArg (fun futures f => (futures f).status) hfutures
  running := hrunning
  tasks t' := by
    by_cases heq : t' = t
    · rw [heq, tasks_setTask, htasks]
    · rw [tasks_setTask_of_ne u _ heq, htasks]
  waiter := by rw [tasks_setTask]
  carriers := hcarriers

/-- What an event does that takes a wake-up: a step begins, or the object that was awaited has no
`result`, or the callbacks of a future are about to be called. -/
theorem Base.begins (h : Base w) {e : Event}
    (he : ∃ enters, e = .tick enters ∨ e = .wake enters ∨ ∃ l t result, e = .legacyWake l t result enters)
    (hv : w.act e = some v) :
    w.running = none ∧
      ((∃ u s enters, Taken w u s.task ∧ w.beginning e = some (s.task, enters) ∧ v = u.execute s enters) ∨
        (∃ u l t enters, Taken w u t ∧ e = .legacyWake l t none enters ∧ v = u.decref t) ∨
        w.beginning e = none ∧ Base v ∧ v.isTask = w.isTask ∧ v.status = w.status ∧ v.tasks = w.tasks ∧
          v.running = w.running ∧ v.carriers = w.carriers) := by
  obtain ⟨enters, rfl | rfl | ⟨l, t, result, rfl⟩⟩ := he
  · simp only [Tasks.act] at hv
    split at hv
    · rename_i hfree
      refine ⟨hfree.1, ?_⟩
      unfold Tasks.tick at hv
      split at hv
      · exact nomatch hv
      · rename_i t ready hready
        obtain rfl := Option.some.inj hv
        refine .inl ⟨_, ⟨t, .send, false⟩, enters, h.takeReady hready fun _ => rfl, ?_, rfl⟩
        simp only [beginning, hready]
      · rename_i t ready hready
        obtain rfl := Option.some.inj hv
        refine .inl ⟨_, ⟨t, .throw, true⟩, enters, h.takeReady hready fun _ => rfl, ?_, rfl⟩
        simp only [beginning, hready]
      · rename_i f ready hready
        obtain rfl := Option.some.inj hv
        have hcarriers := carriers_runCallbacks hready hfree.2
        refine .inr (.inr ⟨?_, ?_, rfl, rfl, rfl, rfl, funext hcarriers⟩)
        · simp only [beginning, hready]
        · refine h.fewer rfl rfl rfl (fun t => (hcarriers t).le) ?_ ?_
          · intro r hr
            rw [hready]
            exact List.mem_cons_of_mem _ hr
          · intro c hc
            obtain ⟨hmem, hne⟩ := List.mem_filter.1 hc
            refine (h.invoked c hmem).imp_right fun hqueued => ?_
            rw [hready] at hqueued
            rcases List.mem_cons.1 hqueued with heq | hqueued
            · exact absurd (Ready.runCallbacks.inj heq) (of_decide_eq_true hne)
            · exact hqueued
    · exact nomatch hv
  · simp only [Tasks.act] at hv
    split at hv
    · rename_i f t calling hrunning hcalling
      obtain rfl := Option.some.inj hv
      refine ⟨hrunning, .inl ⟨_, ⟨t, .future f, (w.futures f).exception⟩, enters, ?_, ?_, rfl⟩⟩
      · exact h.takeCallback rfl rfl rfl rfl rfl rfl rfl (carriers_popCalling hcalling)
      · simp only [beginning, hcalling]
        rfl
    · exact nomatch hv
  · simp only [Tasks.act] at hv
    split at hv
    · rename_i hmem
      obtain rfl := Option.some.inj hv
      refine ⟨hmem.1, ?_⟩
      have htaken := h.takeCallback (u := { w with legacy := w.legacy.erase (l, t) }) rfl rfl rfl rfl rfl rfl
        rfl (carriers_popLegacy hmem.2)
      cases result with
      | none => exact .inr (.inl ⟨_, l, t, enters, htaken, rfl, rfl⟩)
      | some raised => exact .inl ⟨_, ⟨t, .legacy l, raised⟩, enters, htaken, rfl, rfl⟩
    · exact nomatch hv

/-! ### The end of a step -/

/-- The yielded future is awaited. -/
def Awaits (w : Tasks) (t f : ℕ) : Prop :=
  (w.futures f).ours = true ∧ (w.futures f).blocking = true ∧ f ≠ t

/-- The exception with which the handling of a yielded object fails before a wake-up is registered. -/
def failure (w : Tasks) (t : ℕ) : Yield → Option Exc
  | .none => none
  | .talyn f repr =>
    if (w.futures f).ours && (w.futures f).blocking && decide (f ≠ t) then none else repr
  | .legacy _ object =>
    match object with
    | .noFlag e | .addRaises e => some e
    | .badFlag repr | .notBlocking repr => repr
    | .setFlagRaises _ | .waits _ => none

/-- The exception with which it fails after that. -/
def lateFailure (w : Tasks) (t : ℕ) : Yield → Option Exc
  | .legacy _ (.setFlagRaises e) => some e
  | .legacy _ (.waits (.raised e)) => if (w.tasks t).mustCancel then some e else none
  | _ => none

/-- A future is awaited from now on. -/
def await (w : Tasks) (t f : ℕ) : Tasks :=
  (((w.addDoneCallback f t).incref t).setTask t fun task =>
    { task with futWaiter := some (.future f) }).setFuture f fun future => { future with blocking := false }

/-- A legacy future has the callback of the task. -/
def register (w : Tasks) (t l : ℕ) : Tasks := { w with legacy := w.legacy ++ [(l, t)] }.incref t

/-- A legacy future is awaited from now on. -/
def awaitLegacy (w : Tasks) (t l : ℕ) : Tasks :=
  (w.register t l).setTask t fun task => { task with futWaiter := some (.legacy l) }

/-- How a yielded object is handled, and the exception with which that fails. -/
inductive Handled (w : Tasks) (t : ℕ) : Yield → Tasks → Option Exc → Prop
  | fails {y : Yield} {e : Exc} (hfails : w.failure t y = some e) : Handled w t y w (some e)
  | queued {y : Yield} {r : Ready} (hr : ∀ t', r.carries t' = decide (t = t')) (hr' : ∀ f, r ≠ .runCallbacks f)
      (hfails : w.failure t y = none) (hlate : w.lateFailure t y = none)
      (hy : ∀ f repr, y = .talyn f repr → ¬Awaits w t f) (hy' : ∀ l answer, y ≠ .legacy l (.waits answer)) :
      Handled w t y ((w.dispatch r).incref t) none
  | awaited {f : ℕ} {repr : Option Exc} (hawaits : Awaits w t f)
      (hflag : (w.tasks t).mustCancel = false) : Handled w t (.talyn f repr) (w.await t f) none
  | forwarded {f : ℕ} {repr : Option Exc} (hawaits : Awaits w t f)
      (hflag : (w.tasks t).mustCancel = true) :
      Handled w t (.talyn f repr) ((w.await t f).cancelFutureObject t f) none
  | flagFails {l : ℕ} {e : Exc} : Handled w t (.legacy l (.setFlagRaises e)) (w.register t l) (some e)
  | legacy {l : ℕ} {answer : Answer} (hflag : (w.tasks t).mustCancel = false ∨ answer = .refused) :
      Handled w t (.legacy l (.waits answer)) (w.awaitLegacy t l) none
  | legacyForwarded {l : ℕ} (hflag : (w.tasks t).mustCancel = true) :
      Handled w t (.legacy l (.waits .accepted)) ((w.awaitLegacy t l).setTask t .forwardHeld) none
  | legacyRaises {l : ℕ} {e : Exc} (hflag : (w.tasks t).mustCancel = true) :
      Handled w t (.legacy l (.waits (.raised e))) (w.awaitLegacy t l) (some e)

theorem awaits_iff (w : Tasks) (t f : ℕ) : Awaits w t f ↔
    ((w.futures f).ours && (w.futures f).blocking && decide (f ≠ t)) = true := by
  simp [Awaits, and_assoc]

theorem setFutWaiter_eq {waiter : Waiter} (h : (w.tasks t).futWaiter = none) :
    w.setFutWaiter t waiter = (w.setTask t fun task => { task with futWaiter := some waiter }, none) := by
  rw [setFutWaiter, h]
  rfl

theorem handled_createNew {y : Yield} {repr : Option Exc} (hfailure : w.failure t y = repr)
    (hlate : w.lateFailure t y = none) (hy : ∀ f repr, y = .talyn f repr → ¬Awaits w t f)
    (hy' : ∀ l answer, y ≠ .legacy l (.waits answer)) :
    Handled w t y (w.createNewPyExceptionAndAddEvent t repr).1 (w.createNewPyExceptionAndAddEvent t repr).2 := by
  cases repr with
  | none => exact .queued (r := .throw t) (fun _ => rfl) nofun hfailure hlate hy hy'
  | some e => exact .fails hfailure

theorem handled_talyn (hwaiter : (w.tasks t).futWaiter = none) (f : ℕ) (repr : Option Exc) :
    Handled w t (.talyn f repr) (w.handleTalynFutureObject t f repr).1
      (w.handleTalynFutureObject t f repr).2 := by
  by_cases hawaits : Awaits w t f
  · obtain ⟨hours, hblocking, hne⟩ := hawaits
    have hnone : (((w.addDoneCallback f t).incref t).tasks t).futWaiter = none := by
      rw [incref, tasks_setTask]
      unfold addDoneCallback
      split
      · exact hwaiter
      · exact hwaiter
    have hflag : ((w.await t f).tasks t).mustCancel = (w.tasks t).mustCancel := by
      rw [await, tasks_setFuture, tasks_setTask, incref, tasks_setTask]
      unfold addDoneCallback
      split <;> rfl
    rw [handleTalynFutureObject, hours, hblocking]
    simp only [Bool.not_true, Bool.false_eq_true, if_false, if_true, if_neg hne]
    rw [setFutWaiter_eq hnone]
    dsimp only
    show Handled w t _ (if ((w.await t f).tasks t).mustCancel = true then
      (w.await t f).cancelFutureObject t f else w.await t f) none
    rw [hflag]
    split
    · rename_i hcancel
      exact .forwarded ⟨hours, hblocking, hne⟩ hcancel
    · rename_i hcancel
      exact .awaited ⟨hours, hblocking, hne⟩ (Bool.eq_false_iff.2 hcancel)
  · have hcreate : Handled w t (.talyn f repr) (w.createNewPyExceptionAndAddEvent t repr).1
        (w.createNewPyExceptionAndAddEvent t repr).2 := by
      refine handled_createNew ?_ rfl ?_ nofun
      · rw [failure, if_neg (mt (awaits_iff w t f).2 hawaits)]
      · intro g repr' heq
        obtain ⟨rfl, -⟩ := Yield.talyn.inj heq
        exact hawaits
    rw [handleTalynFutureObject]
    split
    · exact hcreate
    split
    · split
      · exact hcreate
      · rename_i hours hblocking hne
        exact absurd ⟨by simpa using hours, hblocking, hne⟩ hawaits
    · exact hcreate

theorem handled_legacy (hwaiter : (w.tasks t).futWaiter = none) (l : ℕ) (object : LegacyObject) :
    Handled w t (.legacy l object) (w.handleLegacyFutureObject t l object).1
      (w.handleLegacyFutureObject t l object).2 := by
  have hnone : ((w.register t l).tasks t).futWaiter = none := by
    rw [register, incref, tasks_setTask]
    exact hwaiter
  have hflag : ((w.awaitLegacy t l).tasks t).mustCancel = (w.tasks t).mustCancel := by
    rw [awaitLegacy, tasks_setTask, register, incref, tasks_setTask]
  cases object with
  | noFlag e => exact .fails rfl
  | badFlag repr => exact handled_createNew rfl rfl nofun nofun
  | notBlocking repr => exact handled_createNew rfl rfl nofun nofun
  | addRaises e => exact .fails rfl
  | setFlagRaises e => exact .flagFails
  | waits answer =>
    rw [handleLegacyFutureObject, ← register, setFutWaiter_eq hnone]
    dsimp only
    rw [← awaitLegacy, hflag]
    split
    · rename_i hcancel
      cases answer with
      | raised e => exact .legacyRaises hcancel
      | accepted => exact .legacyForwarded hcancel
      | refused => exact .legacy (.inr rfl)
    · rename_i hcancel
      exact .legacy (.inl (Bool.eq_false_iff.2 hcancel))

/-- What becomes of a yielded object when the task has no waiter. -/
theorem handled (hwaiter : (w.tasks t).futWaiter = none) (y : Yield) :
    Handled w t y (w.successfullyExecution t y).1 (w.successfullyExecution t y).2 := by
  cases y with
  | none => exact .queued (r := .send t) (fun _ => rfl) nofun rfl rfl nofun nofun
  | talyn f repr => exact handled_talyn hwaiter f repr
  | legacy l object => exact handled_legacy hwaiter l object

/-- A task without wake-ups gets one. -/
theorem Base.wakeUp (h : Base w) (htask : w.isTask t = true) (halone : w.carriers t = 0)
    (hnext : v.next = w.next) (hisTask : v.isTask = w.isTask)
    (hcarriers : ∀ t', v.carriers t' = w.carriers t' + (decide (t = t')).toNat)
    (hidle : ∀ t', (∃ r ∈ v.ready, r.carries t' = true) → (v.tasks t').futWaiter = none)
    (hinvoked : ∀ c ∈ v.callbacks, v.status c.1 = .pending ∨ .runCallbacks c.1 ∈ v.ready) : Base v where
  fresh t' ht' := by
    rw [hisTask]
    exact h.fresh t' (hnext ▸ ht')
  tasks t' ht' := by
    rw [hisTask] at ht'
    have hne : t ≠ t' := by
      rintro rfl
      exact absurd (htask.symm.trans ht') nofun
    rw [hcarriers, h.tasks t' ht', decide_eq_false hne]
    rfl
  one t' := by
    rw [hcarriers]
    by_cases heq : t = t'
    · subst heq
      rw [halone, decide_eq_true rfl]
      exact le_rfl
    · rw [decide_eq_false heq]
      exact h.one t'
  idle := hidle
  invoked := hinvoked

theorem Base.queue (h : Base w) (htask : w.isTask t = true) (halone : w.carriers t = 0)
    (hwaiter : (w.tasks t).futWaiter = none) {r : Ready} (hr : ∀ t', r.carries t' = decide (t = t')) :
    Base (w.dispatch r) := by
  refine h.wakeUp htask halone rfl rfl ?_ ?_ ?_
  · intro t'
    rw [carriers_dispatch, hr]
  · rintro t' ⟨r', hr', hcarries⟩
    rcases List.mem_append.1 hr' with hold | hnew
    · exact h.idle t' ⟨r', hold, hcarries⟩
    · obtain rfl := List.mem_singleton.1 hnew
      rw [hr] at hcarries
      obtain rfl := of_decide_eq_true hcarries
      exact hwaiter
  · exact fun c hc => (h.invoked c hc).imp_right (List.mem_append_left _)

theorem carriers_register (w : Tasks) (t l t' : ℕ) :
    (w.register t l).carriers t' = w.carriers t' + (decide (t = t')).toNat := by
  show ({ w with legacy := w.legacy ++ [(l, t)] } : Tasks).carriers t' = _
  rw [carriers, carriers, List.countP_append, List.countP_singleton]
  by_cases heq : t = t' <;> simp [heq, Nat.add_assoc]

theorem Base.register (h : Base w) (htask : w.isTask t = true) (halone : w.carriers t = 0) (l : ℕ) :
    Base (w.register t l) := by
  refine h.wakeUp htask halone rfl rfl (carriers_register w t l) ?_ h.invoked
  intro t' hr
  by_cases heq : t' = t
  · subst heq
    have hnone : ¬∃ r ∈ w.ready, r.carries t' = true := not_carries halone
    exact absurd hr hnone
  · rw [Tasks.register, incref, tasks_setTask_of_ne _ _ heq]
    exact h.idle t' hr

theorem Base.awaitLegacy (h : Base w) (htask : w.isTask t = true) (halone : w.carriers t = 0) (l : ℕ) :
    Base (w.awaitLegacy t l) := by
  have hnone : ¬∃ r ∈ w.ready, r.carries t = true := not_carries halone
  exact (h.register htask halone l).setWaiter (.inr hnone)

theorem carriers_addDoneCallback (hpending : w.status f = .pending) (t' : ℕ) :
    (w.addDoneCallback f t).carriers t' = w.carriers t' + (decide (t = t')).toNat := by
  rw [addDoneCallback, if_neg (not_not.2 hpending), carriers, carriers, List.countP_append,
    List.countP_singleton]
  by_cases heq : t = t' <;> simp [heq]
  omega

theorem addDoneCallback_of_done (hdone : w.status f ≠ .pending) : w.addDoneCallback f t = w := if_pos hdone

theorem Base.addDoneCallback (h : Base w) (htask : w.isTask t = true) (halone : w.carriers t = 0) (f : ℕ) :
    Base (w.addDoneCallback f t) := by
  by_cases hpending : w.status f = .pending
  · refine h.wakeUp htask halone ?_ ?_ (carriers_addDoneCallback hpending) ?_ ?_
    · rw [Tasks.addDoneCallback, if_neg (not_not.2 hpending)]
    · rw [Tasks.addDoneCallback, if_neg (not_not.2 hpending)]
    · rw [Tasks.addDoneCallback, if_neg (not_not.2 hpending)]
      exact h.idle
    · rw [Tasks.addDoneCallback, if_neg (not_not.2 hpending)]
      intro c hc
      rcases List.mem_append.1 hc with hold | hnew
      · exact h.invoked c hold
      · obtain rfl := List.mem_singleton.1 hnew
        exact .inl hpending
  · rwa [addDoneCallback_of_done hpending]

theorem ready_addDoneCallback (w : Tasks) (f t : ℕ) : (w.addDoneCallback f t).ready = w.ready := by
  unfold Tasks.addDoneCallback
  split <;> rfl

theorem Base.setFuture (h : Base w) {change : FutureObject → FutureObject}
    (hstatus : (change (w.futures f)).status = (w.futures f).status) : Base (w.setFuture f change) :=
  { h with
    invoked := fun c hc => by
      rw [status_setFuture hstatus]
      exact h.invoked c hc }

theorem Base.await (h : Base w) (htask : w.isTask t = true) (halone : w.carriers t = 0) (f : ℕ) :
    Base (w.await t f) := by
  have hadded : Base ((w.addDoneCallback f t).incref t) := (h.addDoneCallback htask halone f).setTask rfl
  have hwaits : Base (((w.addDoneCallback f t).incref t).setTask t fun task =>
      { task with futWaiter := some (.future f) }) := by
    refine hadded.setWaiter (.inr ?_)
    have hnone := not_carries halone
    rw [← ready_addDoneCallback w f t] at hnone
    exact hnone
  exact hwaits.setFuture rfl

theorem Base.cancelFutureObject (h : Base w) (t f : ℕ) : Base (w.cancelFutureObject t f) := by
  have hdone : Base (w.futureFastCancel f).2 := h.completes (completes_futureFastCancel w f)
  unfold Tasks.cancelFutureObject
  dsimp only
  split
  · split
    · exact (hdone.setTask rfl).setTask rfl
    · exact hdone.setTask rfl
  · exact hdone

theorem Base.handled (h : Base w) (htask : w.isTask t = true) (halone : w.carriers t = 0)
    (hwaiter : (w.tasks t).futWaiter = none) {y : Yield} {e : Option Exc} (hh : Handled w t y v e) :
    Base v := by
  cases hh with
  | fails => exact h
  | queued hr => exact (h.queue htask halone hwaiter hr).setTask rfl
  | awaited => exact h.await htask halone _
  | forwarded => exact (h.await htask halone _).cancelFutureObject _ _
  | flagFails => exact h.register htask halone _
  | legacy => exact h.awaitLegacy htask halone _
  | legacyForwarded => exact (h.awaitLegacy htask halone _).setTask rfl
  | legacyRaises => exact h.awaitLegacy htask halone _

theorem Base.stepFails (h : Base w) (s : Step) (e : Exc) : Base (w.stepFails s e) := by
  unfold Tasks.stepFails
  split
  · exact h
  · exact h
  · split
    · exact (h.completes (completes_futureFastSetException w s.task)).setTask rfl
    · exact h

/-- The step fails in a way that leaves the task as it is. -/
theorem stepFails_of_spared {s : Step} {e : Exc} (h : e = .fatal ∨ ∃ l, s.carrier = .legacy l) :
    w.stepFails s e = w := by
  unfold Tasks.stepFails
  split
  · rfl
  · rfl
  · rename_i hfatal hlegacy
    rcases h with rfl | ⟨l, hl⟩
    · exact absurd rfl hfatal
    · exact absurd hl (hlegacy l)

theorem Base.stepEnds (h : Base w) (t : ℕ) : Inv (w.stepEnds t) := by
  have hdecref : Base (w.decref t) := h.setTask rfl
  exact Base.inv { hdecref with } rfl

theorem yielded_eq {y : Yield} (hv : w.act (.yielded y) = some v) :
    ∃ s, w.running = some s ∧ v = w.coroYields s y := by
  simp only [Tasks.act] at hv
  split at hv
  · exact nomatch hv
  rename_i s hs
  split at hv
  · split at hv
    · exact ⟨s, hs, (Option.some.inj hv).symm⟩
    · exact nomatch hv
  · exact ⟨s, hs, (Option.some.inj hv).symm⟩

/-- The state in which the yielded object is handled. -/
def yielding (w : Tasks) (t : ℕ) : Tasks := w.setTask t fun task => { task with coro := .suspended }

/-- What a step that yields does. -/
theorem coroYields_cases {s : Step} (hactive : Active w s.task) (y : Yield) :
    (∃ u, Handled (w.yielding s.task) s.task y u none ∧ w.coroYields s y = u.stepEnds s.task) ∨
      ∃ u e, Handled (w.yielding s.task) s.task y u (some e) ∧
        w.coroYields s y = (u.stepFails s e).stepEnds s.task := by
  have hwaiter : ((w.yielding s.task).tasks s.task).futWaiter = none := by
    rw [yielding, tasks_setTask]
    exact hactive.waiter
  have hh := handled hwaiter y
  unfold coroYields
  dsimp only
  rw [← yielding]
  generalize (w.yielding s.task).successfullyExecution s.task y = r at hh
  obtain ⟨u, e⟩ := r
  cases e with
  | none => exact .inl ⟨u, hh, rfl⟩
  | some e => exact .inr ⟨u, e, hh, rfl⟩

theorem Base.coroYields (h : Base w) {s : Step} (hactive : Active w s.task) (y : Yield) :
    Inv (w.coroYields s y) := by
  have hyielding : Base (w.yielding s.task) := h.setTask rfl
  have hwaiter : ((w.yielding s.task).tasks s.task).futWaiter = none := by
    rw [yielding, tasks_setTask]
    exact hactive.waiter
  rcases coroYields_cases hactive y with ⟨u, hh, heq⟩ | ⟨u, e, hh, heq⟩
  · rw [heq]
    exact (hyielding.handled hactive.isTask hactive.alone hwaiter hh).stepEnds _
  · rw [heq]
    exact ((hyielding.handled hactive.isTask hactive.alone hwaiter hh).stepFails s e).stepEnds _

/-! ### All runs -/

theorem Inv.newFuture (h : Inv w) {ours : Bool} (hv : w.act (.newFuture ours) = some v) : Inv v := by
  obtain rfl := Option.some.inj hv
  have hold : ∀ {g}, g ≠ w.next → (Function.update w.futures w.next (.new ours) g).status = w.status g := by
    intro g hg
    rw [Function.update_of_ne hg]
    rfl
  refine
    { h with
      fresh := fun t ht => h.fresh t (Nat.le_of_succ_le ht)
      invoked := fun c hc => ?_
      active := fun s hs => ?_ }
  · by_cases heq : c.1 = w.next
    · refine .inl ?_
      show (Function.update w.futures w.next (.new ours) c.1).status = _
      rw [heq, Function.update_self]
      rfl
    · exact (h.invoked c hc).imp_left (hold heq).trans
  · have hactive := h.active s hs
    refine { hactive with pending := (hold ?_).trans hactive.pending }
    intro heq
    exact absurd (hactive.isTask.symm.trans (h.fresh _ heq.ge)) nofun

theorem Inv.newTask (h : Inv w) (hv : w.act .newTask = some v) : Inv v := by
  obtain rfl := Option.some.inj hv
  have hnew := h.fresh w.next le_rfl
  have hstatus : ∀ {g}, g ≠ w.next →
      (Function.update w.futures w.next (.new true) g).status = w.status g := by
    intro g hg
    rw [Function.update_of_ne hg]
    rfl
  have hcarriers : ∀ t, carriers
      { w with
        next := w.next + 1, isTask := Function.update w.isTask w.next true
        futures := Function.update w.futures w.next (.new true)
        tasks := Function.update w.tasks w.next .new, ready := w.ready ++ [.send w.next] } t =
      w.carriers t + (decide (w.next = t)).toNat := carriers_dispatch w (.send w.next)
  refine
    { fresh := fun t ht => ?_, tasks := fun t ht => ?_, one := fun t => ?_, idle := fun t hr => ?_
      invoked := fun c hc => ?_, active := fun s hs => ?_ }
  · have hne : t ≠ w.next := (Nat.lt_of_succ_le ht).ne'
    exact (Function.update_of_ne hne ..).trans (h.fresh t (Nat.le_of_succ_le ht))
  · have hne : t ≠ w.next := by
      rintro rfl
      exact absurd ((Function.update_self ..).symm.trans ht) nofun
    rw [hcarriers, decide_eq_false hne.symm]
    exact h.tasks t ((Function.update_of_ne hne ..).symm.trans ht)
  · rw [hcarriers]
    by_cases heq : w.next = t
    · rw [← heq, h.tasks w.next hnew, decide_eq_true rfl]
      exact le_rfl
    · rw [decide_eq_false heq]
      exact h.one t
  · by_cases heq : t = w.next
    · show (Function.update w.tasks w.next .new t).futWaiter = none
      rw [heq, Function.update_self]
      rfl
    · refine (congrArg TaskObject.futWaiter (Function.update_of_ne heq ..)).trans (h.idle t ?_)
      obtain ⟨r, hmem, hcarries⟩ := hr
      rcases List.mem_append.1 hmem with hold | hlast
      · exact ⟨r, hold, hcarries⟩
      · rw [List.mem_singleton.1 hlast] at hcarries
        exact absurd (of_decide_eq_true hcarries).symm heq
  · by_cases heq : c.1 = w.next
    · refine .inl ?_
      show (Function.update w.futures w.next (.new true) c.1).status = _
      rw [heq, Function.update_self]
      rfl
    · exact (h.invoked c hc).imp (hstatus heq).trans (List.mem_append_left _)
  · obtain ⟨htask, hpending, hcoro, hwaiter, halone⟩ := h.active s hs
    have hne : s.task ≠ w.next := by
      intro heq
      rw [heq, hnew] at htask
      exact nomatch htask
    refine ⟨?_, ?_, ?_, ?_, ?_⟩
    · exact (Function.update_of_ne hne ..).trans htask
    · exact (hstatus hne).trans hpending
    · exact (congrArg TaskObject.coro (Function.update_of_ne hne ..)).trans hcoro
    · exact (congrArg TaskObject.futWaiter (Function.update_of_ne hne ..)).trans hwaiter
    · rw [hcarriers, decide_eq_false hne.symm]
      exact halone

theorem Inv.setFuture (h : Inv w) {change : FutureObject → FutureObject}
    (hstatus : (change (w.futures f)).status = (w.futures f).status) : Inv (w.setFuture f change) :=
  { h.toBase.setFuture hstatus with
    active := fun s hs =>
      { h.active s hs with
        pending := by
          rw [status_setFuture hstatus]
          exact (h.active s hs).pending } }

/-- What a wake-up does, in runs. -/
theorem Inv.begins (h : Inv w) {e : Event}
    (he : ∃ enters, e = .tick enters ∨ e = .wake enters ∨ ∃ l t result, e = .legacyWake l t result enters)
    (hv : w.act e = some v) : Inv v := by
  obtain ⟨hrunning, ⟨u, s, enters, htaken, -, rfl⟩ | ⟨u, l, t, enters, htaken, -, rfl⟩ |
    ⟨-, hbase, -, -, -, hv, -⟩⟩ := h.toBase.begins he hv
  · exact htaken.execute h.toBase hrunning enters
  · exact (htaken.base.setTask rfl).inv (htaken.running.trans hrunning)
  · exact hbase.inv (hv.trans hrunning)

theorem setBlocking_eq {blocking : Bool} (hv : w.act (.setBlocking f blocking) = some v) :
    v = w.setFuture f fun future => { future with blocking := blocking } := by
  obtain ⟨-, hv⟩ := Option.ite_none_right_eq_some.1 hv
  exact (Option.some.inj hv).symm

theorem cancel_eq {answer : Answer} (hv : w.act (.cancel t answer) = some v) :
    w.isTask t = true ∧ v = w.taskCancel t answer := by
  obtain ⟨htask, hv⟩ := Option.ite_none_right_eq_some.1 hv
  exact ⟨htask, (Option.some.inj hv).symm⟩

theorem uncancel_eq (hv : w.act (.uncancel t) = some v) : v = w.taskUncancel t := by
  obtain ⟨-, hv⟩ := Option.ite_none_right_eq_some.1 hv
  exact (Option.some.inj hv).symm

/-- The methods that complete a future do so for plain futures. -/
theorem completes_of_act {e : Event} (he : e = .setResult f ∨ e = .setException f ∨ e = .cancelFuture f)
    (hv : w.act e = some v) : w.isTask f = false ∧ Completes w v f := by
  rcases he with rfl | rfl | rfl
  · obtain ⟨hplain, hv⟩ := Option.ite_none_right_eq_some.1 hv
    obtain rfl := Option.some.inj hv
    exact ⟨by simpa using hplain.2, completes_callDoneCallbacks w f .finished⟩
  · obtain ⟨hplain, hv⟩ := Option.ite_none_right_eq_some.1 hv
    obtain rfl := Option.some.inj hv
    exact ⟨by simpa using hplain.2, completes_futureFastSetException w f⟩
  · obtain ⟨hplain, hv⟩ := Option.ite_none_right_eq_some.1 hv
    obtain rfl := Option.some.inj hv
    exact ⟨by simpa using hplain.2, completes_futureFastCancel w f⟩

/-- Every event keeps the invariant. -/
theorem Inv.act (h : Inv w) {e : Event} (hv : w.act e = some v) : Inv v := by
  cases e with
  | newFuture ours => exact h.newFuture hv
  | newTask => exact h.newTask hv
  | setBlocking f blocking =>
    obtain rfl := setBlocking_eq hv
    exact h.setFuture rfl
  | setResult f =>
    obtain ⟨hplain, hc⟩ := completes_of_act (.inl rfl) hv
    exact h.completes hc (h.not_running hplain)
  | setException f =>
    obtain ⟨hplain, hc⟩ := completes_of_act (.inr (.inl rfl)) hv
    exact h.completes hc (h.not_running hplain)
  | cancelFuture f =>
    obtain ⟨hplain, hc⟩ := completes_of_act (.inr (.inr rfl)) hv
    exact h.completes hc (h.not_running hplain)
  | cancel t answer =>
    obtain ⟨htask, rfl⟩ := cancel_eq hv
    exact h.taskCancel htask answer
  | uncancel t =>
    obtain rfl := uncancel_eq hv
    exact h.taskUncancel
  | tick enters => exact h.begins ⟨enters, .inl rfl⟩ hv
  | wake enters => exact h.begins ⟨enters, .inr (.inl rfl)⟩ hv
  | legacyWake l t result enters => exact h.begins ⟨enters, .inr (.inr ⟨l, t, result, rfl⟩)⟩ hv
  | returned =>
    obtain ⟨s, hs, rfl⟩ := Option.map_eq_some_iff.1 hv
    have hended : Base (w.coroEnds s.task) := h.toBase.setTask rfl
    exact hended.setResult.stepEnds _
  | raised e =>
    obtain ⟨s, hs, rfl⟩ := Option.map_eq_some_iff.1 hv
    have hended : Base (w.coroEnds s.task) := h.toBase.setTask rfl
    exact (hended.failedExecution e).stepEnds _
  | yielded y =>
    obtain ⟨s, hs, rfl⟩ := yielded_eq hv
    exact h.toBase.coroYields (h.active s hs) y

/-! ### Statuses -/

theorem status_callDoneCallbacks {newStatus : FutureStatus} (hnew : newStatus ≠ .pending) :
    (w.callDoneCallbacks f newStatus).status f ≠ .pending := by
  unfold callDoneCallbacks
  split
  · assumption
  · have hset : (w.setFuture f fun future => { future with status := newStatus }).status f = newStatus := by
      show (Function.update w.futures f _ f).status = _
      rw [Function.update_self]
    dsimp only
    split
    · exact fun heq => hnew (hset.symm.trans heq)
    · exact fun heq => hnew (hset.symm.trans heq)

theorem status_futureFastCancel (w : Tasks) (f : ℕ) : (w.futureFastCancel f).2.status f ≠ .pending := by
  unfold futureFastCancel
  split
  · assumption
  · exact status_callDoneCallbacks nofun

theorem status_futureFastSetException (w : Tasks) (f : ℕ) :
    (w.futureFastSetException f).status f ≠ .pending := by
  unfold futureFastSetException
  split
  · assumption
  · exact status_callDoneCallbacks nofun

theorem callDoneCallbacks_setTask (w : Tasks) (t f : ℕ) (change : TaskObject → TaskObject)
    (newStatus : FutureStatus) : (w.setTask t change).callDoneCallbacks f newStatus =
      (w.callDoneCallbacks f newStatus).setTask t change := by
  unfold callDoneCallbacks
  rw [status_setTask]
  by_cases hpending : w.status f ≠ .pending
  · rw [if_pos hpending, if_pos hpending]
  · rw [if_neg hpending, if_neg hpending]
    dsimp only
    symm
    exact apply_ite (fun u : Tasks => u.setTask t change)
      ((w.callbacks.any fun c => decide (c.1 = f)) = true) _ _

theorem futureFastSetException_setTask (w : Tasks) (t f : ℕ) (change : TaskObject → TaskObject) :
    (w.setTask t change).futureFastSetException f = (w.futureFastSetException f).setTask t change := by
  unfold futureFastSetException
  rw [status_setTask]
  by_cases hpending : w.status f ≠ .pending
  · rw [if_pos hpending, if_pos hpending]
  · rw [if_neg hpending, if_neg hpending]
    exact callDoneCallbacks_setTask (w.setFuture f fun future => { future with exception := true }) t f
      change .finished

/-! ### Awaiting -/

theorem addDoneCallback_frame (w : Tasks) (f t : ℕ) : (w.addDoneCallback f t).isTask = w.isTask ∧
    (w.addDoneCallback f t).tasks = w.tasks ∧ (w.addDoneCallback f t).status = w.status := by
  unfold Tasks.addDoneCallback
  split <;> exact ⟨rfl, rfl, rfl⟩

theorem status_await (w : Tasks) (t f : ℕ) : (w.await t f).status = w.status :=
  (status_setFuture rfl).trans (addDoneCallback_frame w f t).2.2

theorem isTask_await (w : Tasks) (t f : ℕ) : (w.await t f).isTask = w.isTask :=
  (addDoneCallback_frame w f t).1

theorem tasks_await (w : Tasks) (t f : ℕ) :
    (w.await t f).tasks t =
      { w.tasks t with refs := (w.tasks t).refs + 1, futWaiter := some (.future f) } := by
  rw [Tasks.await, tasks_setFuture, incref, setTask_setTask, tasks_setTask,
    (addDoneCallback_frame w f t).2.1]

theorem tasks_await_of_ne (w : Tasks) (t f : ℕ) {u : ℕ} (hu : u ≠ t) :
    (w.await t f).tasks u = w.tasks u := by
  rw [Tasks.await, tasks_setFuture, tasks_setTask_of_ne _ _ hu, incref, tasks_setTask_of_ne _ _ hu,
    (addDoneCallback_frame w f t).2.1]

/-- A future that is not pending does not accept a request. -/
theorem cancelFutureObject_of_done (hdone : w.status f ≠ .pending) : w.cancelFutureObject t f = w := by
  rw [Tasks.cancelFutureObject, futureFastCancel, if_pos hdone]
  rfl

theorem isTask_cancelFutureObject (w : Tasks) (t f : ℕ) :
    (w.cancelFutureObject t f).isTask = w.isTask := by
  have hisTask := (completes_futureFastCancel w f).isTask
  unfold Tasks.cancelFutureObject
  dsimp only
  split
  · split <;> exact hisTask
  · exact hisTask

theorem tasks_cancelFutureObject (hpending : w.status f = .pending) (hne : f ≠ t) :
    (w.cancelFutureObject t f).tasks t = (w.tasks t).forwardHeld := by
  have htasks : ((w.futureFastCancel f).2.setTask t .forwardHeld).tasks t = (w.tasks t).forwardHeld := by
    rw [tasks_setTask, (completes_futureFastCancel w f).tasks]
  have haccepts : (w.futureFastCancel f).1 = true := by
    rw [futureFastCancel, if_neg (not_not.2 hpending)]
  unfold Tasks.cancelFutureObject
  dsimp only
  rw [if_pos haccepts]
  split
  · rw [tasks_setTask_of_ne _ _ hne.symm, htasks]
  · exact htasks

theorem tasks_stepEnds (w : Tasks) (t : ℕ) :
    (w.stepEnds t).tasks t = { w.tasks t with refs := (w.tasks t).refs - 1 } := by
  show (w.decref t).tasks t = _
  rw [Tasks.decref, tasks_setTask]

theorem tasks_stepEnds_of_ne (w : Tasks) {t u : ℕ} (hu : u ≠ t) :
    (w.stepEnds t).tasks u = w.tasks u := by
  show (w.decref t).tasks u = _
  rw [Tasks.decref, tasks_setTask_of_ne w _ hu]

/-! ### What holds of each task -/

/-- The event makes or changes a plain future. -/
def Event.plain : Event → Bool
  | .newFuture _ | .setBlocking _ _ | .setResult _ | .setException _ | .cancelFuture _ => true
  | _ => false

/-- A predicate on the status of a task and the task holds of all of them. -/
def Each (Q : Prop → TaskObject → Prop) (w : Tasks) : Prop :=
  ∀ t, w.isTask t = true → Q (w.status t = .pending) (w.tasks t)

section
variable {Q : Prop → TaskObject → Prop}

theorem Each.setTask (h : Each Q w) {change : TaskObject → TaskObject}
    (ht : w.isTask t = true → Q (w.status t = .pending) (change (w.tasks t))) : Each Q (w.setTask t change) := by
  intro u hu
  by_cases heq : u = t
  · subst heq
    rw [tasks_setTask]
    exact ht hu
  · rw [tasks_setTask_of_ne w change heq]
    exact h u hu

/-- The tasks stay as they are. -/
theorem Each.frame (h : Each Q w) (hisTask : v.isTask = w.isTask) (htasks : v.tasks = w.tasks)
    (hstatus : ∀ u, w.isTask u = true → v.status u = w.status u) : Each Q v := by
  intro u hu
  rw [hisTask] at hu
  rw [htasks, hstatus u hu]
  exact h u hu

/-- A plain future is completed. -/
theorem Each.completes (h : Each Q w) (hc : Completes w v f) (hf : w.isTask f = false) : Each Q v := by
  refine h.frame hc.isTask hc.tasks fun u hu => hc.status u ?_
  rintro rfl
  exact absurd (hu.symm.trans hf) nofun

/-- A task is completed and changed. -/
theorem Each.ends (h : Each Q w) (hc : Completes w v t) {change : TaskObject → TaskObject}
    (ht : w.isTask t = true → Q (v.status t = .pending) (change (w.tasks t))) :
    Each Q (v.setTask t change) := by
  intro u hu
  have hu' : w.isTask u = true := hc.isTask ▸ hu
  by_cases heq : u = t
  · subst heq
    rw [tasks_setTask, hc.tasks]
    exact ht hu'
  · rw [tasks_setTask_of_ne v change heq, hc.tasks, status_setTask, hc.status u heq]
    exact h u hu'

/-- A wake-up is taken. -/
theorem Each.taken {u : Tasks} (h : Each Q w) (ht : Taken w u t)
    (hQ : ∀ pending task waiter, Q pending task → Q pending { task with futWaiter := waiter }) : Each Q u := by
  intro t' ht'
  rw [ht.isTask] at ht'
  rw [ht.status, ht.tasks]
  exact hQ _ _ _ (h t' ht')

/-- An event that does not concern the tasks, or makes a new one. -/
theorem Each.newFuture (h : Each Q w) (hinv : Inv w) {ours : Bool}
    (hv : w.act (.newFuture ours) = some v) : Each Q v := by
  obtain rfl := Option.some.inj hv
  refine h.frame rfl rfl fun u hu => ?_
  have hne : u ≠ w.next := by
    rintro rfl
    exact absurd (hu.symm.trans (hinv.fresh _ le_rfl)) nofun
  show (Function.update w.futures w.next (.new ours) u).status = w.status u
  rw [Function.update_of_ne hne]
  rfl

/-- The events that make or change plain futures. -/
theorem Each.ofPlain (h : Each Q w) (hinv : Inv w) {e : Event} (he : e.plain = true)
    (hv : w.act e = some v) : Each Q v := by
  cases e with
  | newFuture ours => exact h.newFuture hinv hv
  | setBlocking f blocking =>
    obtain rfl := setBlocking_eq hv
    exact h.frame rfl rfl fun u _ => congrFun (status_setFuture rfl) u
  | setResult f =>
    obtain ⟨hplain, hc⟩ := completes_of_act (.inl rfl) hv
    exact h.completes hc hplain
  | setException f =>
    obtain ⟨hplain, hc⟩ := completes_of_act (.inr (.inl rfl)) hv
    exact h.completes hc hplain
  | cancelFuture f =>
    obtain ⟨hplain, hc⟩ := completes_of_act (.inr (.inr rfl)) hv
    exact h.completes hc hplain
  | _ => exact nomatch he

theorem Each.newTask (h : Each Q w) (hnew : Q True .new) (hv : w.act .newTask = some v) : Each Q v := by
  obtain rfl := Option.some.inj hv
  intro u hu
  show Q ((Function.update w.futures w.next (.new true) u).status = .pending)
    (Function.update w.tasks w.next .new u)
  by_cases heq : u = w.next
  · rw [heq, Function.update_self, Function.update_self]
    have hpending : ((FutureObject.new true).status = .pending) = True := eq_true rfl
    rw [hpending]
    exact hnew
  · rw [Function.update_of_ne heq, Function.update_of_ne heq]
    exact h u ((Function.update_of_ne heq ..).symm.trans hu)

end

end Tasks

end Talyn
