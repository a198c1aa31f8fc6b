import Talyn.Loop.Ready

/-!
# The order in which ready callbacks run

Two results about whole runs of the runner. As long as no exception leaves a tick, the two buffers are
one first-in first-out queue: each callback is executed once, in the order of the pushes, and never in
the tick it was pushed in. An exception that leaves a tick in the middle leaves callbacks in both
buffers, and the index names the younger one; the second part says when this does not show.
-/

namespace Talyn

namespace Ready

variable {α : Type*}

/-! ### Runs that no exception leaves -/

/-- No exception leaves a tick. -/
def Uninterrupted (_ : Ready α) : ReadyEvent α → Prop
  | .interrupt _ => False
  | _ => True

instance (s : Ready α) (e : ReadyEvent α) : Decidable (s.Uninterrupted e) :=
  match e with
  | .interrupt _ => inferInstanceAs (Decidable False)
  | .start | .dispatch _ _ | .complete _ _ | .pollFailed | .forked | .polled | .call | .tickDone
  | .stop => inferInstanceAs (Decidable True)

/-- Outside of a tick one buffer is empty and what was queued at the last flip has been executed;
during a tick the buffer that runs holds the rest of it. -/
structure Drained (s : Ready α) : Prop where
  other : ¬ s.Executing → (s.queues (!s.index)).contents = []
  ran : ¬ s.Executing → s.flipped ≤ s.executed.length
  running : ∀ i k, s.phase = .executing i k →
    s.flipped = s.executed.length + (s.queues i).contents.length

namespace Drained

variable {s t : Ready α}

theorem keepsOrder (h : s.Drained) {e : ReadyEvent α} (hok : s.Uninterrupted e) :
    s.KeepsOrder e := by
  cases e with
  | dispatch c fresh | complete c fresh =>
    by_cases hex : s.Executing
    · exact .inl hex
    · exact .inr (h.other hex)
  | interrupt _ => exact hok.elim
  | _ => trivial

theorem setPhase (h : s.Drained) {p : RunnerPhase} {b : Bool} (hs : ¬ s.Executing)
    (hp : ∀ i k, p ≠ .executing i k) :
    ({ s with phase := p, stopping := b } : Ready α).Drained where
  other := fun _ => h.other hs
  ran := fun _ => h.ran hs
  running := fun i k hk => absurd hk (hp i k)

/-- A push into the buffer of the index touches neither the other buffer nor the one that runs. -/
theorem push_index (h : s.Drained) (hinv : s.Invariant) {c : α} {fresh : Option (ℕ → α)}
    (hpush : s.push s.index c fresh = some t) : t.Drained := by
  obtain ⟨b, -, rfl⟩ := push_spec hpush
  have hne : (!s.index) ≠ s.index := by cases s.index <;> decide
  refine ⟨fun hex => ?_, h.ran, fun i k hp => ?_⟩
  · show (Function.update s.queues s.index b (!s.index)).contents = []
    rw [Function.update_of_ne hne]
    exact h.other hex
  · replace hp : s.phase = .executing i k := hp
    have hi : i = !s.index := by rw [hinv.executing i k hp, Bool.not_not]
    show s.flipped = s.executed.length + (Function.update s.queues s.index b i).contents.length
    rw [hi, Function.update_of_ne hne, ← hi]
    exact h.running i k hp

/-- The end of a tick. -/
theorem leaveTick (h : s.Drained) (hinv : s.Invariant) {i : Bool} {k : ℕ}
    {q : Bool → RingBuffer α} {p : RunnerPhase} {b : Bool} (hs : s.phase = .executing i k)
    (hempty : (s.queues i).contents = []) (hq : ∀ j, (q j).contents = (s.queues j).contents)
    (hp : ∀ i k, p ≠ .executing i k) :
    ({ s with queues := q, phase := p, stopping := b } : Ready α).Drained where
  other := by
    intro _
    show (q (!s.index)).contents = []
    rw [hq, hinv.executing i k hs, Bool.not_not]
    exact hempty
  ran := by
    intro _
    have hrunning := h.running i k hs
    rw [hempty, List.length_nil] at hrunning
    exact hrunning.le
  running := fun i k hk => absurd hk (hp i k)

theorem not_executing_of_polling {i : Bool} (hs : s.phase = .polling i) : ¬ s.Executing := by
  rintro ⟨_, _, hk⟩
  cases hs.symm.trans hk

/-- At the flip everything that is queued is in the buffer that is going to run. -/
theorem polled (h : s.Drained) (hinv : s.Invariant) {i : Bool} (hs : s.phase = .polling i) :
    ({ s with phase := .executing i 0, index := !i, tick := s.tick + 1, flipped := s.pushed.length }
      : Ready α).Drained where
  other := fun hex => absurd ⟨i, 0, rfl⟩ hex
  ran := fun hex => absurd ⟨i, 0, rfl⟩ hex
  running := by
    intro j k hj
    cases hj
    have hex := not_executing_of_polling hs
    have hlen := hinv.length_pushed
    rw [pending, front_of_not_executing hex, h.other hex, ← hinv.polling i hs] at hlen
    simpa using hlen

theorem call (h : s.Drained) {i : Bool} {k : ℕ} {c : α} {b : RingBuffer α}
    (hs : s.phase = .executing i k) (hpop : (s.queues i).pop = some (c, b)) :
    ({ s with
       queues := Function.update s.queues i b
       phase := .executing i (k + 1)
       executed := s.executed ++ [(c, s.tick)] } : Ready α).Drained where
  other := fun hex => absurd ⟨i, k + 1, rfl⟩ hex
  ran := fun hex => absurd ⟨i, k + 1, rfl⟩ hex
  running := by
    intro j k' hj
    cases hj
    have hrunning := h.running i k hs
    rw [RingBuffer.pop_spec hpop, List.length_cons] at hrunning
    show s.flipped = (s.executed ++ [(c, s.tick)]).length +
      (Function.update s.queues i b i).contents.length
    rw [Function.update_self, List.length_append, List.length_singleton]
    omega

theorem step (h : s.Drained) (hinv : s.Invariant) {e : ReadyEvent α} (hok : s.Uninterrupted e)
    (hstep : s.step e = some t) : t.Drained := by
  cases step_move hinv.polling hstep with
  | skip => exact ⟨h.other, h.ran, h.running⟩
  | outside hs hp _ => exact h.setPhase hs hp
  | push _ hpush => exact h.push_index hinv hpush
  | polled hs => exact h.polled hinv hs
  | call hs hpop => exact h.call hs hpop
  | leaveTick hs hempty hq hp _ =>
    rcases hempty with hempty | ⟨_, rfl⟩
    · exact h.leaveTick hinv hs hempty hq hp
    · exact hok.elim

end Drained

theorem drained_init {fresh : ℕ → α} {capacity : ℕ} {s : Ready α}
    (h : init fresh capacity = some s) : s.Drained := by
  obtain ⟨hphase, -, -, hflipped, hqueues⟩ := init_spec h
  refine ⟨fun _ => hqueues _, fun _ => ?_, ?_⟩
  · rw [hflipped]
    exact Nat.zero_le _
  · intro i k hp
    cases hphase.symm.trans hp

/-- The loop over one buffer calls every callback of it, in order. -/
theorem exec_calls {s : Ready α} {i : Bool} {k : ℕ} {cs : List α} (hs : s.phase = .executing i k)
    (hcs : (s.queues i).contents = cs) :
    ∃ t, Runs.exec step s (List.replicate cs.length .call) = some t ∧
      t.executed.map Prod.fst = s.executed.map Prod.fst ++ cs ∧
      t.phase = .executing i (k + cs.length) ∧ (t.queues i).contents = [] := by
  induction cs generalizing s k with
  | nil => exact ⟨s, rfl, by simp, hs, hcs⟩
  | cons c cs ih =>
    cases hpop : (s.queues i).pop with
    | none => exact nomatch hcs.symm.trans (RingBuffer.pop_eq_none.1 hpop)
    | some p =>
      obtain ⟨d, b⟩ := p
      obtain ⟨rfl, hb⟩ := List.cons.inj ((RingBuffer.pop_spec hpop).symm.trans hcs)
      let u : Ready α :=
        { s with
          queues := Function.update s.queues i b
          phase := .executing i (k + 1)
          executed := s.executed ++ [(d, s.tick)] }
      have hu : s.step .call = some u := by simp only [step, hs, hpop, Option.map_some, u]
      have hui : (u.queues i).contents = cs := by simp only [u, Function.update_self, hb]
      obtain ⟨t, ht, hexec, hphase, hempty⟩ := ih (s := u) rfl hui
      refine ⟨t, ?_, ?_, ?_, hempty⟩
      · rw [List.length_cons, List.replicate_succ, Runs.exec_cons, hu]
        exact ht
      · rw [hexec]
        simp [u]
      · rw [hphase, List.length_cons]
        congr 1
        omega

/-- What the ready queues promise as long as no exception leaves a tick. -/
structure SingleQueue (s : Ready α) : Prop where
  /-- the callbacks executed are the ones pushed first, each once and in order; the others are still
  queued, in order -/
  order : s.pushed.map Prod.fst = s.executed.map Prod.fst ++ s.pending
  /-- a callback pushed during a tick is executed in a later tick -/
  later : ∀ (j : ℕ) c n d m,
    s.pushed[j]? = some (c, some n) → s.executed[j]? = some (d, m) → n < m
  /-- when a tick is over, what was pushed before its flip has been executed -/
  ran : ¬ s.Executing → s.flipped ≤ s.executed.length
  /-- the next tick executes everything that is queued -/
  runs : ∀ i, s.phase = .polling i → ∃ t,
    Runs.exec step s (.polled :: List.replicate s.pending.length .call ++ [.tickDone]) = some t ∧
      t.executed.map Prod.fst = s.pushed.map Prod.fst

theorem again_executed (s : Ready α) (i : Bool) : (s.again i).executed = s.executed := by
  unfold again
  split <;> rfl

theorem exec_tick {s : Ready α} (hinv : s.Invariant) (hdrained : s.Drained) {i : Bool}
    (hs : s.phase = .polling i) :
    ∃ t, Runs.exec step s (.polled :: List.replicate s.pending.length .call ++ [.tickDone]) = some t ∧
      t.executed.map Prod.fst = s.pushed.map Prod.fst := by
  have hex := Drained.not_executing_of_polling hs
  have hpending : s.pending = (s.queues i).contents := by
    rw [pending, front_of_not_executing hex, hdrained.other hex, ← hinv.polling i hs,
      List.append_nil]
  let u : Ready α :=
    { s with
      phase := .executing i 0
      index := !i
      tick := s.tick + 1
      flipped := s.pushed.length }
  have hu : s.step .polled = some u := by simp only [step, hs, u]
  obtain ⟨t, ht, hexec, hphase, hempty⟩ := exec_calls (s := u) (k := 0) rfl hpending.symm
  have hdone : ∃ v, t.step .tickDone = some v ∧ v.executed = t.executed := by
    have hpop := RingBuffer.pop_eq_none.2 hempty
    simp only [step, hphase, hpop]
    refine ⟨_, rfl, ?_⟩
    rw [again_executed]
    split <;> rfl
  obtain ⟨v, hv, hvt⟩ := hdone
  refine ⟨v, ?_, ?_⟩
  · rw [List.cons_append, Runs.exec_cons, hu, Option.bind_some, Runs.exec_append, ht]
    simp [hv]
  · rw [hvt, hexec, hinv.order]

/-- The invariants of a run that no exception leaves. -/
theorem drained_of_run {fresh : ℕ → α} {capacity : ℕ} {s₀ s : Ready α} (hinit : init fresh capacity = some s₀)
    (hrun : Runs.Reaches step Uninterrupted s₀ s) : s.Invariant ∧ s.Drained := by
  refine hrun.invariant (I := fun s => s.Invariant ∧ s.Drained)
    ⟨invariant_init hinit, drained_init hinit⟩ ?_
  rintro u e v ⟨hinv, hdrained⟩ hok hstep
  exact ⟨hinv.step (hdrained.keepsOrder hok) hstep, hdrained.step hinv hok hstep⟩

/-- The invariant of a run that keeps the callbacks in order. -/
theorem invariant_of_run {fresh : ℕ → α} {capacity : ℕ} {s₀ s : Ready α} (hinit : init fresh capacity = some s₀)
    (hrun : Runs.Reaches step KeepsOrder s₀ s) : s.Invariant :=
  hrun.invariant (invariant_init hinit) fun _ _ _ hinv hok hstep => hinv.step hok hstep

/-- **One queue.** As long as no exception leaves a tick, the two buffers behave as a single first-in first-out
queue that is executed tick by tick. An exception that leaves a tick does not show in the order, and a callback
pushed during a tick still runs in a later one, when every step keeps the callbacks in order. -/
theorem ready_queues_fifo {fresh : ℕ → α} {capacity : ℕ} {s₀ s : Ready α} (hinit : init fresh capacity = some s₀) :
    (Runs.Reaches step Uninterrupted s₀ s → s.SingleQueue) ∧
      (Runs.Reaches step KeepsOrder s₀ s →
        s.pushed.map Prod.fst = s.executed.map Prod.fst ++ s.pending ∧
          ∀ (j : ℕ) c n d m, s.pushed[j]? = some (c, some n) → s.executed[j]? = some (d, m) → n < m) := by
  refine ⟨fun hrun => ?_, fun hrun => ?_⟩
  · obtain ⟨hinv, hdrained⟩ := drained_of_run hinit hrun
    exact ⟨hinv.order, hinv.later, hdrained.ran, fun i hs => exec_tick hinv hdrained hs⟩
  · have hinv := invariant_of_run hinit hrun
    exact ⟨hinv.order, hinv.later⟩

/-- A run of two ticks, on buffers of one slot: the second push doubles the buffer, and the callback
pushed in the first tick runs in the second. -/
theorem ready_queues_fifo_two_ticks : ∃ s₀ s : Ready ℕ, init (fun _ => 0) 1 = some s₀ ∧
    Runs.Reaches step Uninterrupted s₀ s ∧ s.executed = [(1, 1), (2, 1), (3, 2)] ∧
      s.SingleQueue := by
  have hrun : (((init (fun _ => 0) 1).bind fun s₀ => Runs.execWhile step Uninterrupted s₀
      [.dispatch 1 none, .dispatch 2 (some fun _ => 0), .start, .polled, .call, .dispatch 3 none,
        .call, .tickDone, .polled, .call]).map fun s => s.executed) =
      some [(1, 1), (2, 1), (3, 2)] := by
    decide +kernel
  obtain ⟨s, hs, hexecuted⟩ := Option.map_eq_some_iff.1 hrun
  obtain ⟨s₀, hinit, hs⟩ := Option.bind_eq_some_iff.1 hs
  have hreach := Runs.Reaches.of_execWhile hs
  exact ⟨s₀, s, hinit, hreach, hexecuted, (ready_queues_fifo hinit).1 hreach⟩

/-! ### Runs that an exception leaves -/

instance (s : Ready α) (e : ReadyEvent α) : Decidable (s.KeepsOrder e) :=
  match e with
  | .dispatch _ _ | .complete _ _ =>
    inferInstanceAs (Decidable (s.Executing ∨ (s.queues (!s.index)).contents = []))
  | .interrupt _ => inferInstanceAs
      (Decidable ((s.queues s.index).contents = [] ∨ (s.queues (!s.index)).contents = []))
  | .start | .pollFailed | .forked | .polled | .call | .tickDone | .stop =>
    inferInstanceAs (Decidable True)

/-- The interruptions so far did not reorder the callbacks: the ones executed are the ones pushed
first, in order, and the others are queued in the order they were pushed. -/
def InOrder (s : Ready α) : Prop :=
  s.pushed.map Prod.fst = s.executed.map Prod.fst ++ s.pending

/-- **Interruptions.** A run keeps the callbacks in order if every exception leaves its tick when one
of the two buffers is empty, and nothing is pushed outside of a tick while the buffer that the index
does not name still holds callbacks of an interrupted tick. -/
theorem interrupted_in_order {fresh : ℕ → α} {capacity : ℕ} {s₀ s : Ready α}
    (hinit : init fresh capacity = some s₀) (hrun : Runs.Reaches step KeepsOrder s₀ s) :
    s.InOrder :=
  (invariant_of_run hinit hrun).order

/-- The callback that raises has pushed nothing, and nothing is pushed before the restart. -/
theorem interrupted_in_order_restart : ∃ s₀ s : Ready ℕ, init (fun _ => 0) 4 = some s₀ ∧
    Runs.Reaches step KeepsOrder s₀ s ∧ s.executed = [(1, 1), (2, 3), (3, 4)] ∧ s.InOrder := by
  have hrun : (((init (fun _ => 0) 4).bind fun s₀ => Runs.execWhile step KeepsOrder s₀
      [.dispatch 1 none, .dispatch 2 none, .start, .polled, .call, .interrupt false, .start, .polled,
        .tickDone, .polled, .call, .dispatch 3 none, .tickDone, .polled, .call]).map
          fun s => s.executed) = some [(1, 1), (2, 3), (3, 4)] := by
    decide +kernel
  obtain ⟨s, hs, hexecuted⟩ := Option.map_eq_some_iff.1 hrun
  obtain ⟨s₀, hinit, hs⟩ := Option.bind_eq_some_iff.1 hs
  have hreach := Runs.Reaches.of_execWhile hs
  exact ⟨s₀, s, hinit, hreach, hexecuted, interrupted_in_order hinit hreach⟩

/-- An exception leaves the tick behind callback `1` while `2` is queued behind it, `3` is pushed before the
restart, and `3` runs first. -/
def reordered (byHandler : Bool) : List (ReadyEvent ℕ) :=
  [.dispatch 1 none, .dispatch 2 none, .start, .polled, .call, .interrupt byHandler, .dispatch 3 none, .start,
    .polled, .call]

theorem reordered_runs (byHandler : Bool) : ∃ s₀ s : Ready ℕ, init (fun _ => 0) 4 = some s₀ ∧
    Runs.exec step s₀ (reordered byHandler) = some s ∧
    s.pushed.map Prod.fst = [1, 2, 3] ∧ s.executed.map Prod.fst = [1, 3] ∧ ¬ s.InOrder := by
  have hrun : (((init (fun _ => 0) 4).bind fun s₀ => Runs.exec step s₀ (reordered byHandler)).map
      fun s => (s.pushed.map Prod.fst, s.executed.map Prod.fst)) = some ([1, 2, 3], [1, 3]) := by
    cases byHandler <;> decide +kernel
  obtain ⟨s, hs, hlists⟩ := Option.map_eq_some_iff.1 hrun
  obtain ⟨s₀, hinit, hs⟩ := Option.bind_eq_some_iff.1 hs
  obtain ⟨hpushed, hexecuted⟩ := Prod.mk.inj hlists
  refine ⟨s₀, s, hinit, hs, hpushed, hexecuted, ?_⟩
  intro horder
  rw [InOrder, hpushed, hexecuted] at horder
  simp at horder

/-- Callback `1` raises `KeyboardInterrupt`. -/
theorem interruption_reorders : ∃ s₀ s : Ready ℕ, init (fun _ => 0) 4 = some s₀ ∧
    Runs.exec step s₀ (reordered false) = some s ∧
    s.pushed.map Prod.fst = [1, 2, 3] ∧ s.executed.map Prod.fst = [1, 3] ∧ ¬ s.InOrder :=
  reordered_runs false

/-- Callback `1` raises `ValueError`, and `call_exception_handler` raises `SystemExit` for it: no callback raises
`KeyboardInterrupt` or `SystemExit` in the run. -/
theorem handler_reorders : (∀ e ∈ reordered true, e ≠ .interrupt false) ∧
    ∃ s₀ s : Ready ℕ, init (fun _ => 0) 4 = some s₀ ∧ Runs.exec step s₀ (reordered true) = some s ∧
      s.pushed.map Prod.fst ≠ s.executed.map Prod.fst ++ s.pending := by
  obtain ⟨s₀, s, hinit, hrun, -, -, hreordered⟩ := reordered_runs true
  exact ⟨by simp [reordered], s₀, s, hinit, hrun, hreordered⟩

end Ready

end Talyn
