import Talyn.Lib.Runs
import Talyn.Lib.RingBuffer

/-!
# The ready queues

`Runner.start` of `loop/runner.zig` with `Soon.dispatch` and `fetch_completed_tasks`: two ring buffers
hold the callbacks that are ready to run. Everything is pushed into the buffer that
`ready_tasks_queue_index` names. A tick polls for completions, which go into the same buffer, flips
the index, and then executes the buffer that was filled so far, so that what is pushed meanwhile goes
into the other one.

A state is what the loop keeps between two steps of the runner, with the phase the runner is in. The
index is in the state twice, as in the source: in the loop, and in the local variable of `start`, which
is part of the phase. The last four fields are not in the source. They record the pushes and the
executions, each with the tick it happened in.
-/

namespace Talyn

/-- Where `Runner.start` is. -/
inductive RunnerPhase where
  /-- not running -/
  | idle
  /-- in `poll_blocking_events`, with the value of the local `ready_tasks_queue_index` -/
  | polling (localIndex : Bool)
  /-- past the flip: executing the buffer `oldIndex`, after `callbacks_executed` callbacks -/
  | executing (oldIndex : Bool) (callbacksExecuted : ℕ)
  deriving DecidableEq

/-- The ready queues of a loop. -/
structure Ready (α : Type*) where
  queues : Bool → RingBuffer α
  index : Bool
  stopping : Bool
  phase : RunnerPhase
  /-- the callbacks pushed so far, with the tick that was executing, if any -/
  pushed : List (α × Option ℕ)
  /-- the callbacks executed so far, with their tick -/
  executed : List (α × ℕ)
  /-- the number of flips -/
  tick : ℕ
  /-- the number of pushes before the last flip -/
  flipped : ℕ

/-- What happens to the queues. `fresh` is the outcome of the allocation that a full buffer asks for. -/
inductive ReadyEvent (α : Type*) where
  /-- `run_forever` calls `Runner.start` -/
  | start
  /-- `dispatch` or `dispatch_guaranteed`, by a callback or by another thread -/
  | dispatch (c : α) (fresh : Option (ℕ → α))
  /-- `fetch_completed_tasks` pushes the callback of a harvested completion -/
  | complete (c : α) (fresh : Option (ℕ → α))
  /-- `poll_blocking_events` returns an error -/
  | pollFailed
  /-- the process is a fork of the owner of the loop -/
  | forked
  /-- `poll_blocking_events` returns, and the index is flipped -/
  | polled
  /-- `execute_dynamic_ring_buffer` takes out the next callback and calls it -/
  | call
  /-- an exception leaves the tick: a `KeyboardInterrupt` or `SystemExit` of the callback that was called, or
  what the exception handler raises when it reports another exception of it -/
  | interrupt (byHandler : Bool)
  /-- the buffer is empty, and the tick ends -/
  | tickDone
  /-- `loop.stop()` -/
  | stop

namespace Ready

variable {α : Type*}

/-- `Loop.init`: two empty buffers. -/
def init (fresh : ℕ → α) (capacity : ℕ) : Option (Ready α) :=
  (RingBuffer.init fresh capacity).map fun b =>
    { queues := fun _ => b
      index := false
      stopping := false
      phase := .idle
      pushed := []
      executed := []
      tick := 0
      flipped := 0 }

/-- The tick that is executing, if any. -/
def executingTick (s : Ready α) : Option ℕ :=
  match s.phase with
  | .executing _ _ => some s.tick
  | _ => none

/-- `push_or_grow` on one of the buffers. -/
def push (s : Ready α) (i : Bool) (c : α) (fresh : Option (ℕ → α)) : Option (Ready α) :=
  ((s.queues i).pushOrGrow c fresh).map fun b =>
    { s with
      queues := Function.update s.queues i b
      pushed := s.pushed ++ [(c, s.executingTick)] }

/-- The `defer` of `start`: it runs on every way out. -/
def leave (s : Ready α) : Ready α := { s with phase := .idle, stopping := false }

/-- The head of the `while` of `start`. -/
def again (s : Ready α) (localIndex : Bool) : Ready α :=
  if s.stopping then s.leave else { s with phase := .polling localIndex }

/-- One step; `none` when the event cannot happen in the phase. -/
def step (s : Ready α) : ReadyEvent α → Option (Ready α)
  | .start =>
    match s.phase with
    | .idle =>
      -- "Loop is stopping" is raised, and nothing changes
      if s.stopping then some s else some (s.again s.index)
    -- "Loop is already running"
    | _ => some s
  | .dispatch c fresh =>
    -- a push that fails for lack of memory raises in the caller
    some ((s.push s.index c fresh).getD s)
  | .complete c fresh =>
    match s.phase with
    | .polling i => some ((s.push i c fresh).getD s.leave)
    | _ => none
  | .pollFailed | .forked =>
    match s.phase with
    | .polling _ => some s.leave
    | _ => none
  | .polled =>
    match s.phase with
    | .polling i => some
      { s with
        phase := .executing i 0
        index := !i
        tick := s.tick + 1
        flipped := s.pushed.length }
    | _ => none
  | .call =>
    match s.phase with
    | .executing i k => (s.queues i).pop.map fun p =>
      { s with
        queues := Function.update s.queues i p.2
        phase := .executing i (k + 1)
        executed := s.executed ++ [(p.1, s.tick)] }
    | _ => none
  | .interrupt _ =>
    match s.phase with
    | .executing _ _ => some s.leave
    | _ => none
  | .tickDone =>
    match s.phase with
    | .executing i k =>
      match (s.queues i).pop with
      | some _ => none
      | none =>
        let t := if k = 0 then { s with queues := Function.update s.queues i (s.queues i).reset } else s
        some (t.again (!i))
    | _ => none
  | .stop => some { s with stopping := true }

/-! ### The order of the queued callbacks -/

/-- The buffer that runs first. -/
def front (s : Ready α) : Bool :=
  match s.phase with
  | .executing i _ => i
  | _ => s.index

/-- The callbacks that are queued, in the order the loop is going to execute them. -/
def pending (s : Ready α) : List α :=
  (s.queues s.front).contents ++ (s.queues (!s.front)).contents

/-- The runner is past the flip. -/
def Executing (s : Ready α) : Prop := ∃ i k, s.phase = .executing i k

instance (s : Ready α) : Decidable s.Executing :=
  match h : s.phase with
  | .idle => .isFalse fun ⟨_, _, hp⟩ => nomatch h.symm.trans hp
  | .polling _ => .isFalse fun ⟨_, _, hp⟩ => nomatch h.symm.trans hp
  | .executing i k => .isTrue ⟨i, k, h⟩

theorem not_executing {s : Ready α} (h : ¬ s.Executing) (i : Bool) (k : ℕ) :
    s.phase ≠ .executing i k :=
  fun hp => h ⟨i, k, hp⟩

theorem front_of_not_executing {s : Ready α} (h : ¬ s.Executing) : s.front = s.index := by
  unfold front
  split
  · rename_i i k hp
    exact absurd hp (not_executing h i k)
  · rfl

theorem front_of_executing {s : Ready α} {i : Bool} {k : ℕ} (h : s.phase = .executing i k) :
    s.front = i := by
  simp only [front, h]

theorem push_spec {s t : Ready α} {i : Bool} {c : α} {fresh : Option (ℕ → α)}
    (h : s.push i c fresh = some t) :
    ∃ b : RingBuffer α, b.contents = (s.queues i).contents ++ [c] ∧
      t = { s with
            queues := Function.update s.queues i b
            pushed := s.pushed ++ [(c, s.executingTick)] } := by
  obtain ⟨b, hb, rfl⟩ := Option.map_eq_some_iff.1 h
  exact ⟨b, RingBuffer.pushOrGrow_spec hb, rfl⟩

/-! ### What a step does -/

/-- The effect of a step, when the two copies of the index agree. -/
inductive Move (s : Ready α) : ReadyEvent α → Ready α → Prop
  /-- nothing but `stopping` changes -/
  | skip {e b} : Move s e { s with stopping := b }
  /-- the phase changes, but no tick begins or ends -/
  | outside {e p b} (hs : ¬ s.Executing) (hp : ∀ i k, p ≠ .executing i k)
      (hl : ∀ i, p = .polling i → i = s.index) : Move s e { s with phase := p, stopping := b }
  | push {e c fresh t} (he : e = .dispatch c fresh ∨ e = .complete c fresh)
      (hpush : s.push s.index c fresh = some t) : Move s e t
  | polled {i} (hs : s.phase = .polling i) : Move s .polled
      { s with
        phase := .executing i 0
        index := !i
        tick := s.tick + 1
        flipped := s.pushed.length }
  | call {i k c b} (hs : s.phase = .executing i k) (hpop : (s.queues i).pop = some (c, b)) :
      Move s .call
        { s with
          queues := Function.update s.queues i b
          phase := .executing i (k + 1)
          executed := s.executed ++ [(c, s.tick)] }
  /-- the tick ends, with the buffer empty or by an exception -/
  | leaveTick {e i k q p b} (hs : s.phase = .executing i k)
      (hempty : (s.queues i).contents = [] ∨ ∃ b, e = .interrupt b)
      (hq : ∀ j, (q j).contents = (s.queues j).contents) (hp : ∀ i k, p ≠ .executing i k)
      (hl : ∀ j, p = .polling j → j = !i) :
      Move s e { s with queues := q, phase := p, stopping := b }

theorem contents_resetQueue {s : Ready α} {i : Bool} (h : (s.queues i).contents = []) (j : Bool) :
    (Function.update s.queues i (s.queues i).reset j).contents = (s.queues j).contents := by
  by_cases hj : j = i
  · subst hj
    rw [Function.update_self, RingBuffer.contents_reset, h]
  · rw [Function.update_of_ne hj]

theorem again_outside {s : Ready α} {e : ReadyEvent α} (hs : ¬ s.Executing) :
    s.Move e (s.again s.index) := by
  unfold again
  split
  · exact .outside hs (fun _ _ hp => nomatch hp) (fun _ hp => nomatch hp)
  · refine .outside hs (fun _ _ hp => nomatch hp) ?_
    intro j hj
    cases hj
    rfl

/-- The head of the `while`, reached at the end of a tick. -/
theorem again_leaveTick {s : Ready α} {e : ReadyEvent α} {i : Bool} {k : ℕ}
    {q : Bool → RingBuffer α} (hs : s.phase = .executing i k)
    (hempty : (s.queues i).contents = []) (hq : ∀ j, (q j).contents = (s.queues j).contents) :
    s.Move e (({ s with queues := q } : Ready α).again (!i)) := by
  unfold again
  split
  · exact .leaveTick hs (.inl hempty) hq (fun _ _ hp => nomatch hp) (fun _ hp => nomatch hp)
  · refine .leaveTick hs (.inl hempty) hq (fun _ _ hp => nomatch hp) ?_
    intro j hj
    cases hj
    rfl

theorem step_move {s t : Ready α} {e : ReadyEvent α} (hl : ∀ i, s.phase = .polling i → i = s.index)
    (hstep : s.step e = some t) : s.Move e t := by
  cases e with
  | start =>
    simp only [step] at hstep
    split at hstep
    · rename_i hp
      have hs : ¬ s.Executing := fun ⟨_, _, hk⟩ => nomatch hp.symm.trans hk
      split at hstep
      · obtain rfl := Option.some.inj hstep
        exact .skip
      · obtain rfl := Option.some.inj hstep
        exact again_outside hs
    · obtain rfl := Option.some.inj hstep
      exact .skip
  | dispatch c fresh =>
    obtain rfl := Option.some.inj hstep
    cases hpush : s.push s.index c fresh with
    | none => exact .skip
    | some u => exact .push (.inl rfl) hpush
  | complete c fresh =>
    simp only [step] at hstep
    split at hstep
    · rename_i i hp
      obtain rfl := Option.some.inj hstep
      have hs : ¬ s.Executing := fun ⟨_, _, hk⟩ => nomatch hp.symm.trans hk
      cases hpush : s.push i c fresh with
      | none => exact .outside hs (fun _ _ hp => nomatch hp) (fun _ hp => nomatch hp)
      | some u =>
        rw [hl i hp] at hpush
        exact .push (.inr rfl) hpush
    · exact nomatch hstep
  | pollFailed | forked =>
    simp only [step] at hstep
    split at hstep
    · rename_i hp
      obtain rfl := Option.some.inj hstep
      have hs : ¬ s.Executing := fun ⟨_, _, hk⟩ => nomatch hp.symm.trans hk
      exact .outside hs (fun _ _ hp => nomatch hp) (fun _ hp => nomatch hp)
    · exact nomatch hstep
  | polled =>
    simp only [step] at hstep
    split at hstep
    · rename_i i hp
      obtain rfl := Option.some.inj hstep
      exact .polled hp
    · exact nomatch hstep
  | call =>
    simp only [step] at hstep
    split at hstep
    · rename_i i k hp
      obtain ⟨⟨c, b⟩, hpop, rfl⟩ := Option.map_eq_some_iff.1 hstep
      exact .call hp hpop
    · exact nomatch hstep
  | interrupt byHandler =>
    simp only [step] at hstep
    split at hstep
    · rename_i i k hp
      obtain rfl := Option.some.inj hstep
      exact .leaveTick hp (.inr ⟨byHandler, rfl⟩) (fun _ => rfl) (fun _ _ hp => nomatch hp)
        (fun _ hp => nomatch hp)
    · exact nomatch hstep
  | tickDone =>
    simp only [step] at hstep
    split at hstep
    · rename_i i k hp
      split at hstep
      · exact nomatch hstep
      · rename_i hpop
        obtain rfl := Option.some.inj hstep
        have hempty := RingBuffer.pop_eq_none.1 hpop
        split
        · exact again_leaveTick hp hempty (contents_resetQueue hempty)
        · exact again_leaveTick hp hempty fun _ => rfl
    · exact nomatch hstep
  | stop =>
    obtain rfl := Option.some.inj hstep
    exact .skip

/-! ### The invariant -/

/-- What holds between two steps: the two copies of the index agree, the callbacks executed and the
ones queued are those pushed, in that order, and a callback that was pushed during a tick is executed
in a later one. -/
structure Invariant (s : Ready α) : Prop where
  polling : ∀ i, s.phase = .polling i → i = s.index
  executing : ∀ i k, s.phase = .executing i k → s.index = !i
  order : s.pushed.map Prod.fst = s.executed.map Prod.fst ++ s.pending
  stamps : ∀ c n, (c, some n) ∈ s.pushed → n ≤ s.tick
  current : ∀ i k, s.phase = .executing i k → ∀ (j : ℕ) c n,
    j < s.executed.length + (s.queues i).contents.length →
      s.pushed[j]? = some (c, some n) → n < s.tick
  later : ∀ (j : ℕ) c n d m, s.pushed[j]? = some (c, some n) → s.executed[j]? = some (d, m) → n < m

namespace Invariant

variable {s t : Ready α}

theorem length_pushed (h : s.Invariant) :
    s.pushed.length = s.executed.length + s.pending.length := by
  simpa using congrArg List.length h.order

/-- Two states that differ in the phase and in `stopping` only, both outside of a tick. -/
theorem setPhase (h : s.Invariant) {p : RunnerPhase} {b : Bool} (hs : ¬ s.Executing)
    (hp : ∀ i k, p ≠ .executing i k) (hl : ∀ i, p = .polling i → i = s.index) :
    ({ s with phase := p, stopping := b } : Ready α).Invariant where
  polling := hl
  executing := fun i k hk => absurd hk (hp i k)
  order := by
    have hfront : ({ s with phase := p, stopping := b } : Ready α).front = s.front := by
      rw [front_of_not_executing hs]
      exact front_of_not_executing fun ⟨i, k, hk⟩ => hp i k hk
    have horder := h.order
    simp only [pending] at horder ⊢
    rw [hfront]
    exact horder
  stamps := h.stamps
  current := fun i k hk => absurd hk (hp i k)
  later := h.later

/-- Leaving a tick swaps the order of the two buffers, which is no change when one is empty. -/
theorem leaveTick (h : s.Invariant) {i : Bool} {k : ℕ} {q : Bool → RingBuffer α} {p : RunnerPhase}
    {b : Bool} (hs : s.phase = .executing i k)
    (hempty : (s.queues i).contents = [] ∨ (s.queues (!i)).contents = [])
    (hq : ∀ j, (q j).contents = (s.queues j).contents) (hp : ∀ i k, p ≠ .executing i k)
    (hl : ∀ j, p = .polling j → j = !i) :
    ({ s with queues := q, phase := p, stopping := b } : Ready α).Invariant where
  polling := fun j hj => (hl j hj).trans (h.executing i k hs).symm
  executing := fun i k hk => absurd hk (hp i k)
  order := by
    have hfront : ({ s with queues := q, phase := p, stopping := b } : Ready α).front = !i := by
      rw [← h.executing i k hs]
      exact front_of_not_executing fun ⟨i, k, hk⟩ => hp i k hk
    have horder := h.order
    simp only [pending] at horder ⊢
    rw [hfront, Bool.not_not, hq, hq]
    rw [front_of_executing hs] at horder
    rcases hempty with hempty | hempty
    · simpa [hempty] using horder
    · simpa [hempty] using horder
  stamps := h.stamps
  current := fun i k hk => absurd hk (hp i k)
  later := h.later

/-- The flip: the buffer filled so far is the one that runs. -/
theorem polled (h : s.Invariant) {i : Bool} (hs : s.phase = .polling i) (n : ℕ) :
    ({ s with phase := .executing i 0, index := !i, tick := s.tick + 1, flipped := n }
      : Ready α).Invariant where
  polling := fun _ hj => nomatch hj
  executing := by
    intro j k hj
    cases hj
    rfl
  order := by
    have hfront : s.front = i := by
      rw [h.polling i hs]
      exact front_of_not_executing fun ⟨_, _, hk⟩ => nomatch hs.symm.trans hk
    have horder := h.order
    simp only [pending] at horder ⊢
    rw [hfront] at horder
    exact horder
  stamps := fun c n hc => (h.stamps c n hc).trans (Nat.le_succ _)
  current := fun _ _ _ j c n _ hj =>
    Nat.lt_succ_of_le (h.stamps c n (List.mem_of_getElem? hj))
  later := h.later

/-- A call takes the oldest callback out of the buffer that runs. -/
theorem call (h : s.Invariant) {i : Bool} {k : ℕ} {c : α} {b : RingBuffer α}
    (hs : s.phase = .executing i k) (hpop : (s.queues i).pop = some (c, b)) :
    ({ s with
       queues := Function.update s.queues i b
       phase := .executing i (k + 1)
       executed := s.executed ++ [(c, s.tick)] } : Ready α).Invariant where
  polling := fun _ hj => nomatch hj
  executing := by
    intro j k' hj
    cases hj
    exact h.executing i k hs
  order := by
    have hcons := RingBuffer.pop_spec hpop
    have horder := h.order
    simp only [pending] at horder ⊢
    rw [front_of_executing hs, hcons] at horder
    rw [horder]
    simp [front]
  stamps := h.stamps
  current := by
    intro j k' hj l d n hl
    cases hj
    have hcons := RingBuffer.pop_spec hpop
    refine h.current i k hs l d n ?_
    simp only [Function.update_self, List.length_append, List.length_singleton] at hl
    rw [hcons, List.length_cons]
    omega
  later := by
    intro j d n e m hj he
    rcases Nat.lt_or_ge j s.executed.length with hlt | hge
    · rw [List.getElem?_append_left hlt] at he
      exact h.later j d n e m hj he
    · -- the callback that is called was in the buffer when the tick began
      have hcons := RingBuffer.pop_spec hpop
      rw [List.getElem?_append_right hge, List.getElem?_singleton] at he
      split at he
      · obtain ⟨rfl, rfl⟩ := Prod.mk.inj (Option.some.inj he)
        refine h.current i k hs j d n ?_ hj
        rw [hcons, List.length_cons]
        omega
      · exact nomatch he

/-- A push behind everything that is queued. -/
theorem push (h : s.Invariant) {i : Bool} {c : α} {fresh : Option (ℕ → α)}
    (hpush : s.push i c fresh = some t)
    (hi : i = (!s.front) ∨ i = s.front ∧ ¬ s.Executing ∧ (s.queues (!s.front)).contents = []) :
    t.Invariant := by
  obtain ⟨b, hb, rfl⟩ := push_spec hpush
  have hlen := h.length_pushed
  refine ⟨h.polling, h.executing, ?_, ?_, ?_, ?_⟩
  · have hpending : ({ s with
        queues := Function.update s.queues i b
        pushed := s.pushed ++ [(c, s.executingTick)] } : Ready α).pending = s.pending ++ [c] := by
      show (Function.update s.queues i b s.front).contents ++
        (Function.update s.queues i b (!s.front)).contents = s.pending ++ [c]
      rcases hi with rfl | ⟨rfl, -, hempty⟩
      · simp [pending, hb]
      · simp [pending, hb, hempty]
    rw [hpending, ← List.append_assoc, ← h.order]
    simp
  · intro d n hd
    rcases List.mem_append.1 hd with hd | hd
    · exact h.stamps d n hd
    · have hstamp : s.executingTick = some n := by
        have := List.mem_singleton.1 hd
        exact (Prod.mk.inj this).2.symm
      unfold executingTick at hstamp
      split at hstamp
      · exact (Option.some.inj hstamp).ge
      · exact nomatch hstamp
  · intro j k hj l d n hl hld
    -- the pushed callback is in the other buffer
    replace hj : s.phase = .executing j k := hj
    have hfront := front_of_executing hj
    obtain rfl : i = !j := by
      rcases hi with hi | ⟨-, hne, -⟩
      · rw [hi, hfront]
      · exact absurd ⟨j, k, hj⟩ hne
    replace hl : l < s.executed.length + (Function.update s.queues (!j) b j).contents.length := hl
    rw [Function.update_of_ne (by cases j <;> decide)] at hl
    have hlt : l < s.pushed.length := by
      rw [hlen]
      simp only [pending, hfront, List.length_append]
      omega
    refine h.current j k hj l d n hl ?_
    exact (List.getElem?_append_left hlt).symm.trans hld
  · intro j d n e m hj he
    have hlt : j < s.pushed.length := by
      have hex : j < s.executed.length := (List.getElem?_eq_some_iff.1 he).1
      omega
    exact h.later j d n e m ((List.getElem?_append_left hlt).symm.trans hj) he

end Invariant

/-- The condition on a step under which it keeps the queued callbacks in order: a callback is pushed
outside of a tick only when the other buffer is empty, and an exception leaves a tick only when one of
the buffers is. -/
def KeepsOrder (s : Ready α) : ReadyEvent α → Prop
  | .dispatch _ _ | .complete _ _ => s.Executing ∨ (s.queues (!s.index)).contents = []
  | .interrupt _ => (s.queues s.index).contents = [] ∨ (s.queues (!s.index)).contents = []
  | _ => True

namespace Invariant

variable {s t : Ready α}

/-- A push into the buffer of the index is a push behind everything that is queued. -/
theorem push_index (h : s.Invariant) {c : α} {fresh : Option (ℕ → α)}
    (hok : s.Executing ∨ (s.queues (!s.index)).contents = [])
    (hpush : s.push s.index c fresh = some t) : t.Invariant := by
  refine h.push hpush ?_
  by_cases hex : s.Executing
  · obtain ⟨i, k, hp⟩ := hex
    left
    rw [front_of_executing hp, h.executing i k hp]
  · right
    have hfront := front_of_not_executing hex
    refine ⟨hfront.symm, hex, ?_⟩
    rw [hfront]
    exact hok.resolve_left hex

theorem step (h : s.Invariant) {e : ReadyEvent α} (hok : s.KeepsOrder e)
    (hstep : s.step e = some t) : t.Invariant := by
  cases step_move h.polling hstep with
  | skip => exact ⟨h.polling, h.executing, h.order, h.stamps, h.current, h.later⟩
  | outside hs hp hl => exact h.setPhase hs hp hl
  | push he hpush =>
    rcases he with rfl | rfl
    · exact h.push_index hok hpush
    · exact h.push_index hok hpush
  | polled hs => exact h.polled hs _
  | call hs hpop => exact h.call hs hpop
  | leaveTick hs hempty hq hp hl =>
    refine h.leaveTick hs ?_ hq hp hl
    rcases hempty with hempty | ⟨_, rfl⟩
    · exact .inl hempty
    · have hok' : (s.queues s.index).contents = [] ∨ (s.queues (!s.index)).contents = [] := hok
      rw [h.executing _ _ hs, Bool.not_not] at hok'
      exact hok'.symm

end Invariant

theorem init_spec {fresh : ℕ → α} {capacity : ℕ} {s : Ready α} (h : init fresh capacity = some s) :
    s.phase = .idle ∧ s.pushed = [] ∧ s.executed = [] ∧ s.flipped = 0 ∧
      ∀ i, (s.queues i).contents = [] := by
  obtain ⟨b, hb, rfl⟩ := Option.map_eq_some_iff.1 h
  exact ⟨rfl, rfl, rfl, rfl, fun _ => RingBuffer.contents_init hb⟩

theorem invariant_init {fresh : ℕ → α} {capacity : ℕ} {s : Ready α}
    (h : init fresh capacity = some s) : s.Invariant := by
  obtain ⟨hphase, hpushed, hexecuted, -, hqueues⟩ := init_spec h
  refine ⟨?_, ?_, ?_, ?_, ?_, ?_⟩
  · intro i hp
    exact nomatch hphase.symm.trans hp
  · intro i k hp
    exact nomatch hphase.symm.trans hp
  · simp [pending, hpushed, hexecuted, hqueues]
  · intro c n hc
    simp [hpushed] at hc
  · intro i k hp
    exact nomatch hphase.symm.trans hp
  · intro j c n d m hj
    simp [hpushed] at hj

end Ready

end Talyn
