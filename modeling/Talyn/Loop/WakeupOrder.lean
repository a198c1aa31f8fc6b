import Talyn.Loop.ReadyOrder
import Talyn.Loop.NoLostWakeup

/-!
# The order in which the callbacks of all threads run

The loop with its mutex, its ring and the threads around it refines the ready queues: a step of it is a step of
`Ready`, or leaves the queues as they are. So what holds of the queues holds for all interleavings of the threads.
-/

namespace Talyn

namespace Wakeup

variable {α : Type*}

/-- No exception leaves a tick. -/
def Uninterrupted (_ : Wakeup α) (e : Event α) : Prop := ∀ b, e ≠ .interrupt b

theorem interrupt_of_queueEvent {s : Wakeup α} {e : Event α} {b : Bool}
    (h : s.queueEvent e = some (.interrupt b)) : e = .interrupt b := by
  cases e with
  | interrupt byHandler =>
    cases h
    rfl
  | advance =>
    simp only [queueEvent] at h
    split at h <;> simp at h
  | relock raised failed =>
    simp only [queueEvent] at h
    split at h <;> simp at h
  | handOver full fresh =>
    obtain ⟨c, -, hc⟩ := Option.map_eq_some_iff.1 h
    cases hc
  | _ => simp [queueEvent] at h

/-- **The loop refines its ready queues.** An exception leaves their tick only when one leaves a tick of the
loop. -/
theorem ready_reaches {s t : Wakeup α} (hrun : Runs.Reaches step Uninterrupted s t) :
    Runs.Reaches Ready.step Ready.Uninterrupted s.ready t.ready := by
  obtain ⟨es, hes, hal⟩ := hrun
  induction es generalizing s with
  | nil =>
    obtain rfl : s = t := by simpa using hes
    exact .refl _
  | cons e es ih =>
    obtain ⟨u, hu, hrest⟩ := Option.bind_eq_some_iff.1 hes
    have hreach := ih hrest (hal.2 u hu)
    obtain ⟨-, ready, hm, rfl⟩ := step_spec hu
    unfold moved at hm
    split at hm
    · rename_i e' hqueue
      refine .head hm ?_ hreach
      cases e' with
      | interrupt b => exact absurd (interrupt_of_queueEvent hqueue) (hal.1 b)
      | _ => trivial
    · obtain rfl := Option.some.inj hm
      exact hreach

/-- The callbacks that threads push one after the other under the mutex are executed in this order, each once:
in every run that no exception leaves, the callbacks executed so far are the first of those pushed, and the
others are queued behind them in order. A callback that was pushed while a tick ran runs in a later one. -/
theorem threads_in_order {fresh : ℕ → Callback α} {capacity : ℕ} {s t : Wakeup α}
    (hinit : init fresh capacity = some s) (hrun : Runs.Reaches step Uninterrupted s t) :
    t.ready.pushed.map Prod.fst = t.ready.executed.map Prod.fst ++ t.ready.pending ∧
      (∀ (j : ℕ) c n d m,
        t.ready.pushed[j]? = some (c, some n) → t.ready.executed[j]? = some (d, m) → n < m) ∧
      (t.poll = .waiting → t.ready.executed.map Prod.fst ++ (t.ready.queues t.ready.index).contents =
        t.ready.pushed.map Prod.fst) := by
  have hsound : t.Sound := hrun.invariant (sound_init hinit) fun _ _ _ hu _ hstep => hu.step hstep
  obtain ⟨ready, hready, hs⟩ := Option.map_eq_some_iff.1 hinit
  have hreach := ready_reaches hrun
  rw [show s.ready = ready by rw [← hs]] at hreach
  have hinv := Ready.drained_of_run hready hreach
  refine ⟨hinv.1.order, hinv.1.later, fun hwait => ?_⟩
  -- a loop that waits has executed everything but what was pushed since
  have hex : ¬ t.ready.Executing := by
    intro hex
    have hp := hsound.control.outside (by simp [hwait])
    rw [Control.not_polls_of_executing hex] at hp
    cases hp
  have horder := hinv.1.order
  rw [Ready.pending, Ready.front_of_not_executing hex, hinv.2.other hex, List.append_nil] at horder
  exact horder.symm

theorem along_uninterrupted {s : Wakeup α} {es : List (Event α)} (h : ∀ e ∈ es, ∀ b, e ≠ .interrupt b) :
    Runs.Along step Uninterrupted s es := by
  induction es generalizing s with
  | nil => trivial
  | cons e es ih =>
    exact ⟨h e List.mem_cons_self, fun _ _ => ih fun f hf => h f (List.mem_cons_of_mem _ hf)⟩

/-- The read ends the wait, the callback of the thread runs in the next tick, and the loop waits again. -/
def wokenUp : List (Event ℕ) :=
  dispatchWhileParked ++ [.complete 0, .waited true, .disarm true true false, .relock false false, .handOver false none,
    .polled, .call, .call, .rearm .queued, .tickDone false, .flush, .peek, .polled, .tickDone false, .park,
    .drain false, .arm true true]

theorem threads_in_order_wokenUp : ∃ s t : Wakeup ℕ, init (fun _ => .user 0) 4 = some s ∧
    Runs.Reaches step Uninterrupted s t ∧ t.poll = .waiting ∧ t.ready.executed = [(.user 7, 2), (.wakeRead, 2)] ∧
      t.ready.pushed.map Prod.fst = t.ready.executed.map Prod.fst ++ t.ready.pending := by
  have hrun : ((init (fun _ => .user 0) 4).bind fun s => Runs.exec step s wokenUp).map
      (fun t => (t.poll, t.ready.executed)) = some (.waiting, [(.user 7, 2), (.wakeRead, 2)]) := by
    decide +kernel
  obtain ⟨t, ht, hstate⟩ := Option.map_eq_some_iff.1 hrun
  obtain ⟨s, hinit, hrun⟩ := Option.bind_eq_some_iff.1 ht
  obtain ⟨hwait, hexecuted⟩ := Prod.mk.inj hstate
  have hreach : Runs.Reaches step Uninterrupted s t :=
    ⟨wokenUp, hrun, along_uninterrupted (by simp [wokenUp, dispatchWhileParked])⟩
  exact ⟨s, t, hinit, hreach, hwait, hexecuted, (threads_in_order hinit hreach).1⟩

end Wakeup

end Talyn
