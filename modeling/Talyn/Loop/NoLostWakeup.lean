import Talyn.Loop.Wakeup

/-!
# No wake-up is lost

A thread that waits in the kernel while something is queued is woken up. The proof follows the read of the
eventfd: while the runner is parked, neither ready queue holds its callback and no one is about to queue it
again, so it is in the ring, and once everything has been submitted it is in flight or completed. What is
queued since then was queued behind `ring_blocked`, so its thread has written to the eventfd, or is about to.

The read itself is never in two places, and it is lost in four ways only. A loop that has lost it is woken
by its other operations and, after 100 ms, by the watchdog.
-/

namespace Talyn

namespace Wakeup

variable {α : Type*}

/-! ### The parked runner -/

/-- The runner has not found anything in the ring yet. -/
def Poll.searching : Poll → Bool
  | .draining false | .arming | .waiting | .sleeping => true
  | _ => false

/-- The runner goes to sleep, or sleeps, for as long as nothing completes. -/
def Poll.listening : Poll → Bool
  | .draining false | .arming | .waiting => true
  | _ => false

/-- A callback is in one of the ready queues. -/
def HasReady (s : Wakeup α) : Prop := ∃ i, (s.ready.queues i).contents ≠ []

/-- An operation is in the submission queue whose call has not failed. -/
def HasSubmission (s : Wakeup α) : Prop := ∃ e ∈ s.sq, e.failed = false

/-- Someone has rung, or is about to. -/
def Rings (s : Wakeup α) : Prop :=
  (s.holder = some .pushed ∨ s.holder = some .ringing) ∨ 0 < s.eventfd ∨ s.cq ≠ []

/-- What holds while the runner has let go of the mutex. -/
structure Parked (s : Wakeup α) : Prop where
  waits : s.wait = true
  quiet : ∀ i, Callback.wakeRead ∉ (s.ready.queues i).contents
  copied : s.poll.searching = true → s.copied = []
  submitted : s.poll = .waiting → ∀ e ∈ s.sq, e.operation ≠ .wakeRead
  rung : s.poll.listening = true → s.HasReady → s.Rings
  rungSubmission : s.poll = .waiting → s.HasSubmission → s.Rings

/-- The invariant. -/
structure Sound (s : Wakeup α) : Prop where
  agrees : Agrees s.ready
  control : s.Control
  parked : s.poll.parked = true → s.Parked

namespace Parked

variable {s t : Wakeup α}

/-- A caller that has pushed something is about to ring. -/
theorem of_pushed (h : s.Parked) (hwait : t.wait = s.wait) (hpoll : t.poll = s.poll)
    (hcopied : t.copied = s.copied) (hquiet : ∀ i, Callback.wakeRead ∉ (t.ready.queues i).contents)
    (hsq : ∀ e ∈ t.sq, e ∈ s.sq ∨ e.operation ≠ .wakeRead)
    (hholder : t.holder = some .pushed ∨ t.holder = some .ringing) : t.Parked where
  waits := hwait.trans h.waits
  quiet := hquiet
  copied hp := by rw [hcopied]; exact h.copied (hpoll ▸ hp)
  submitted hp e he := by
    rcases hsq e he with hmem | hne
    · exact h.submitted (hpoll ▸ hp) e hmem
    · exact hne
  rung _ _ := .inl hholder
  rungSubmission _ _ := .inl hholder

/-- A step that pushes nothing keeps what has rung. -/
theorem of_rings (h : s.Parked) (hwait : t.wait = s.wait) (hpoll : t.poll = s.poll)
    (hcopied : t.copied = s.copied) (hqueues : ∀ i, (t.ready.queues i).contents = (s.ready.queues i).contents)
    (hsq : ∀ e ∈ t.sq, e ∈ s.sq ∨ e.operation ≠ .wakeRead ∧ e.failed = true)
    (hrings : s.Rings → t.Rings) : t.Parked where
  waits := hwait.trans h.waits
  quiet i := by rw [hqueues]; exact h.quiet i
  copied hp := by rw [hcopied]; exact h.copied (hpoll ▸ hp)
  submitted hp e he := by
    rcases hsq e he with hmem | ⟨hne, -⟩
    · exact h.submitted (hpoll ▸ hp) e hmem
    · exact hne
  rung hp := by
    rintro ⟨i, hi⟩
    exact hrings (h.rung (hpoll ▸ hp) ⟨i, hqueues i ▸ hi⟩)
  rungSubmission hp := by
    rintro ⟨e, he, hfailed⟩
    rcases hsq e he with hmem | ⟨-, hfailed'⟩
    · exact hrings (h.rungSubmission (hpoll ▸ hp) ⟨e, hmem, hfailed⟩)
    · cases hfailed.symm.trans hfailed'

/-- The runner is awake, or sleeps for a bounded time. -/
theorem of_awake (h : s.Parked) (hready : t.ready = s.ready) (hwait : t.wait = s.wait)
    (hcopied : t.poll.searching = true → t.copied = []) (hpoll : t.poll.listening = false) : t.Parked where
  waits := hwait.trans h.waits
  quiet i := by rw [hready]; exact h.quiet i
  copied := hcopied
  submitted hp := by
    rw [hp] at hpoll
    cases hpoll
  rung hp := by cases hpoll.symm.trans hp
  rungSubmission hp := by
    rw [hp] at hpoll
    cases hpoll

/-- A step of a caller that is not about to ring, and pushes nothing. -/
theorem of_holder (h : s.Parked) (hready : t.ready = s.ready) (hwait : t.wait = s.wait) (hpoll : t.poll = s.poll)
    (hcopied : t.copied = s.copied) (heventfd : t.eventfd = s.eventfd) (hcq : t.cq = s.cq)
    (hsq : ∀ e ∈ t.sq, e ∈ s.sq ∨ e.operation ≠ .wakeRead ∧ e.failed = true)
    (hholder : s.holder ≠ some .pushed ∧ s.holder ≠ some .ringing) : t.Parked := by
  refine h.of_rings hwait hpoll hcopied (fun i => by rw [hready]) hsq ?_
  rintro (hb | hrest)
  · exact absurd hb (not_or.2 hholder)
  · right
    rw [heventfd, hcq]
    exact hrest

/-- The steps of the callers. -/
theorem advance (h : s.Parked) (hblocked : s.ringBlocked = true) {ready : Ready (Callback α)}
    (hm : s.moved .advance = some ready) : ({ s.advance with ready } : Wakeup α).Parked := by
  have hsame : ∀ e ∈ s.sq, e ∈ s.sq ∨ e.operation ≠ .wakeRead ∧ e.failed = true := fun e he => .inl he
  unfold Wakeup.advance
  simp only [moved, queueEvent, Ready.step] at hm
  cases hs : s.holder with
  | none =>
    rw [hs] at hm
    exact Option.some.inj hm ▸ h
  | some a =>
    rw [hs] at hm
    cases a with
    | entered job =>
      cases job with
      | dispatch c fresh =>
        obtain rfl := Option.some.inj hm
        cases hpush : s.ready.push s.ready.index (.user c) fresh with
        | none => exact h.of_holder rfl rfl rfl rfl rfl rfl hsame (by simp [hs])
        | some u =>
          obtain ⟨-, -, hqueues⟩ := push_frame hpush
          refine h.of_pushed rfl rfl rfl (fun i => ?_) (fun e he => .inl he) (.inl (by simp [hpush]))
          show _ ∉ (u.queues i).contents
          rw [hqueues, List.mem_append, not_or]
          refine ⟨h.quiet i, ?_⟩
          split <;> simp
      | queue callback outcome =>
        obtain rfl := Option.some.inj hm
        have hadded : ∀ failed, ∀ e ∈ (s.prepare (.other callback) failed).sq,
            e ∈ s.sq ∨ e.operation ≠ .wakeRead ∧ e.failed = failed := by
          intro failed e he
          rcases List.mem_append.1 he with hmem | hmem
          · exact .inl hmem
          · obtain rfl := List.mem_singleton.1 hmem
            exact .inr ⟨by simp, rfl⟩
        cases outcome with
        | refused => exact h.of_holder rfl rfl rfl rfl rfl rfl hsame (by simp [hs])
        | queued =>
          exact h.of_pushed rfl rfl rfl h.quiet (fun e he => (hadded false e he).imp_right And.left) (.inl rfl)
        | flushed => exact h.of_pushed rfl rfl rfl h.quiet (by simp [queueUnlocked, submit]) (.inl rfl)
        | left => exact h.of_holder rfl rfl rfl rfl rfl rfl (hadded true) (by simp [hs])
    | pushed =>
      obtain rfl := Option.some.inj hm
      exact h.of_pushed rfl rfl rfl h.quiet (fun e he => .inl he) (.inr (by simp [hblocked]))
    | ringing =>
      obtain rfl := Option.some.inj hm
      exact h.of_rings rfl rfl rfl (fun _ => rfl) hsame fun _ => .inr (.inl s.wakeupEventfd_pos)
    | leaving =>
      obtain rfl := Option.some.inj hm
      exact h.of_holder rfl rfl rfl rfl rfl rfl hsame (by simp [hs])

end Parked

/-- A copy of an empty ring. -/
theorem copied_copyCqes {s : Wakeup α} (h : s.copyCqes.copied = []) : s.cq = [] := by
  have htotal : totalTasksItems ≠ 0 := by decide
  simpa [copyCqes, htotal] using h

theorem parked_drained {s : Wakeup α} (h : s.Parked) {again : Bool} (hpoll : s.poll = .draining again) :
    ({ s.drained again with ready := s.ready } : Wakeup α).Parked := by
  simp only [drained]
  split
  · exact h.of_awake rfl rfl (by simp [Poll.searching]) rfl
  · split
    · rename_i hcopied
      split
      · exact h.of_awake rfl rfl (by simp [Poll.searching]) rfl
      · -- nothing has completed so far: whoever has pushed something has rung
        rename_i hagain
        rw [Bool.not_eq_true] at hagain
        rw [hagain] at hpoll
        refine ⟨h.waits, h.quiet, fun _ => hcopied, by simp, fun _ hr => ?_, by simp⟩
        rcases h.rung (by rw [hpoll]; rfl) hr with hholder | heventfd | hne
        · exact .inl hholder
        · exact .inr (.inl heventfd)
        · exact absurd (copied_copyCqes hcopied) hne
    · exact h.of_awake rfl rfl (by simp [Poll.searching]) rfl

theorem parked_arm {s : Wakeup α} (h : s.Parked) (hpoll : s.poll = .arming) (prepared submitted : Bool) :
    ({ s.apply s.ready (.arm prepared submitted) with ready := s.ready } : Wakeup α).Parked := by
  have hcopied : s.copied = [] := h.copied (by rw [hpoll]; rfl)
  cases prepared <;> cases submitted
  · exact h.of_awake rfl rfl (fun _ => hcopied) rfl
  · exact h.of_awake rfl rfl (fun _ => hcopied) rfl
  · exact h.of_awake rfl rfl (fun _ => hcopied) rfl
  · -- everything queued so far is in flight now
    exact
      { waits := h.waits
        quiet := h.quiet
        copied := fun _ => hcopied
        submitted := by simp [apply, ask, submit]
        rung := fun _ hr => h.rung (by rw [hpoll]; rfl) hr
        rungSubmission := by simp [apply, ask, submit, HasSubmission] }

/-- The loop parks when both buffers are empty. -/
theorem parked_park {s : Wakeup α} (h : s.Control) (he : s.Enabled .park) :
    ({ s.apply s.ready .park with ready := s.ready } : Wakeup α).Parked := by
  obtain ⟨hp, hpoll, hwait, hqueue⟩ := he
  have hempty : ∀ j, (s.ready.queues j).contents = [] := by
    intro j
    by_cases hj : j = s.ready.index
    · rw [hj]
      exact hqueue
    · rw [Bool.eq_not_of_ne hj]
      exact h.other hp hwait
  refine ⟨hwait, fun j => ?_, fun _ => h.empty (.inl hpoll), by simp [apply], fun _ hr => ?_, by simp [apply]⟩
  · simp [hempty]
  · obtain ⟨j, hj⟩ := hr
    exact absurd (hempty j) hj

/-! ### Every run -/

theorem advance_poll (s : Wakeup α) : s.advance.poll = s.poll := by
  unfold advance
  split
  · rfl
  · rename_i outcome _
    cases outcome <;> rfl
  all_goals rfl

theorem parked_of_step {s t : Wakeup α} (h : s.Sound) {e : Event α} (hstep : s.step e = some t)
    (hp : t.poll.parked = true) : t.Parked := by
  obtain ⟨he, ready, hm, rfl⟩ := step_spec hstep
  have hkept : s.queueEvent e = none → s.ready = ready := by
    intro hq
    rw [moved, hq] at hm
    exact Option.some.inj hm
  -- in a tick the runner is not parked
  have htick : s.ready.Executing → s.poll.parked = true → ∀ u : Wakeup α, u.Parked := by
    intro hex hparked
    rw [(h.control.idle (Control.not_polls_of_executing hex)).1] at hparked
    cases hparked
  cases e with
  | lock job =>
    obtain rfl := hkept rfl
    exact (h.parked hp).of_holder rfl rfl rfl rfl rfl rfl (fun e he => .inl he) (by simp [he.1])
  | advance =>
    have hparked : s.poll.parked = true := s.advance_poll ▸ hp
    exact (h.parked hparked).advance (h.control.blocked.trans hparked) hm
  | complete i =>
    obtain rfl := hkept rfl
    simp only [apply, complete] at hp ⊢
    split at hp
    · exact (h.parked hp).of_rings rfl rfl rfl (fun _ => rfl) (fun e he => .inl he) fun _ => .inr (.inr (by simp))
    · exact h.parked hp
  | park =>
    obtain rfl := hkept rfl
    exact parked_park h.control he
  | drain again =>
    obtain rfl := hkept rfl
    exact parked_drained (h.parked (by rw [he]; rfl)) he
  | waited armed =>
    obtain rfl := hkept rfl
    exact (h.parked (by rw [he.1]; cases armed <;> rfl)).of_awake rfl rfl (by simp [apply, Poll.searching]) rfl
  | copyFails armed =>
    obtain rfl := hkept rfl
    have hparked : s.poll.parked = true := by
      replace he : s.poll.copies = some armed := he
      cases hpoll : s.poll <;> simp_all [Poll.copies, Poll.parked]
    exact (h.parked hparked).of_awake rfl rfl (by simp [apply, Poll.searching]) rfl
  | arm prepared submitted =>
    obtain rfl := hkept rfl
    exact parked_arm (h.parked (by rw [he]; rfl)) he prepared submitted
  | disarm prepared submitted failed =>
    obtain rfl := hkept rfl
    have hparked := h.parked (by rw [he]; rfl)
    cases prepared <;> cases submitted <;> exact hparked.of_awake rfl rfl (by simp [apply, Poll.searching]) rfl
  | relock raised failed =>
    simp only [apply] at hp
    split at hp <;> cases hp
  | handOver full fresh =>
    simp only [apply] at hp
    split at hp
    · cases hp
    · simp [he.1, Poll.parked] at hp
  | call =>
    refine htick (executing_of_step (.inl rfl) hm) ?_ _
    simp only [apply] at hp
    split at hp <;> exact hp
  | rearm outcome =>
    refine htick (h.control.rearming he.1) ?_ _
    simp only [apply] at hp
    split at hp <;> cases outcome <;> exact hp
  | interrupt byHandler => exact htick (executing_of_step (.inr (.inl ⟨byHandler, rfl⟩)) hm) hp _
  | tickDone idleHooks => exact htick (executing_of_step (.inr (.inr rfl)) hm) hp _
  | stop =>
    obtain rfl := Option.some.inj hm
    exact (h.parked hp).of_rings rfl rfl rfl (fun _ => rfl) (fun e he => .inl he) id
  | start | flush | fails | peek | peekAgain | polled => cases hp

theorem Sound.step {s t : Wakeup α} (h : s.Sound) {e : Event α} (hstep : s.step e = some t) : t.Sound := by
  refine ⟨?_, h.control.step h.agrees hstep, parked_of_step h hstep⟩
  obtain ⟨-, ready, hm, rfl⟩ := step_spec hstep
  exact agrees_moved h.agrees hm

theorem sound_init {fresh : ℕ → Callback α} {capacity : ℕ} {s : Wakeup α}
    (h : init fresh capacity = some s) : s.Sound := by
  obtain ⟨hagrees, hcontrol⟩ := control_init h
  refine ⟨hagrees, hcontrol, fun hp => ?_⟩
  obtain ⟨ready, -, rfl⟩ := Option.map_eq_some_iff.1 h
  cases hp

theorem sound_of_run {fresh : ℕ → Callback α} {capacity : ℕ} {s t : Wakeup α} {es : List (Event α)}
    (h : init fresh capacity = some s) (hrun : Runs.exec step s es = some t) : t.Sound :=
  (Runs.always_of_step (sound_init h) fun _ _ _ hu hstep => hu.step hstep).last hrun

/-! ### Where the read is -/

/-- The operation is the read of the eventfd. -/
def Operation.isRead : Operation α → Bool
  | .wakeRead => true
  | .watchdog | .other _ => false

/-- The callback is `eventfd_callback`. -/
def Callback.isRead : Callback α → Bool
  | .wakeRead => true
  | .user _ => false

/-- The reads in the rings and the buffer of the runner. -/
def ringReads (s : Wakeup α) : ℕ :=
  s.sq.countP (fun e => e.operation.isRead) + s.inFlight.countP Operation.isRead + s.cq.countP Operation.isRead +
    s.copied.countP Operation.isRead

/-- The reads in the ready queues. -/
def readyReads (r : Ready (Callback α)) : ℕ :=
  (r.queues false).contents.countP Callback.isRead + (r.queues true).contents.countP Callback.isRead

/-- The places the read of the eventfd is in; the last one is `eventfd_callback`, which owes it. -/
def reads (s : Wakeup α) : ℕ := s.ringReads + readyReads s.ready + s.rearming.toNat

/-- The kernel ends the wait: something has completed, or the read is in flight and the counter not 0. -/
def Wakes (s : Wakeup α) : Prop := s.cq ≠ [] ∨ 0 < s.eventfd ∧ .wakeRead ∈ s.inFlight

theorem mem_iff_countP {l : List (Operation α)} : .wakeRead ∈ l ↔ 0 < l.countP Operation.isRead := by
  rw [List.countP_pos_iff]
  constructor
  · intro h
    exact ⟨_, h, rfl⟩
  · rintro ⟨operation, h, hread⟩
    cases operation with
    | wakeRead => exact h
    | watchdog | other _ => cases hread

/-- While the runner waits, the read is in the ring. -/
theorem reads_waiting {s : Wakeup α} (h : s.Sound) (hwait : s.poll = .waiting) :
    s.reads = s.inFlight.countP Operation.isRead + s.cq.countP Operation.isRead := by
  have hparked := h.parked (by rw [hwait]; rfl)
  have hsq : s.sq.countP (fun e => e.operation.isRead) = 0 := by
    rw [List.countP_eq_zero]
    intro e he hread
    refine hparked.submitted hwait e he ?_
    cases hop : e.operation <;> simp_all [Operation.isRead]
  have hqueue : ∀ i, (s.ready.queues i).contents.countP Callback.isRead = 0 := by
    intro i
    rw [List.countP_eq_zero]
    intro c hc hread
    refine hparked.quiet i ?_
    cases c with
    | user c => cases hread
    | wakeRead => exact hc
  have hcopied : s.copied = [] := hparked.copied (by rw [hwait]; rfl)
  have hrearming := h.control.rearming_of_polls (h.control.outside (by simp [hwait]))
  simp [reads, ringReads, readyReads, hsq, hqueue, hcopied, hrearming]

/-- A thread that waits with something queued is going to be woken up. -/
theorem wakes_of_waiting {s : Wakeup α} (h : s.Sound) (hwait : s.poll = .waiting) (hfree : s.holder = none)
    (hread : 0 < s.reads) (hwork : s.HasReady ∨ s.HasSubmission) : s.Wakes := by
  have hparked := h.parked (by rw [hwait]; rfl)
  have hrings : s.Rings := by
    rcases hwork with hready | hsubmission
    · exact hparked.rung (by rw [hwait]; rfl) hready
    · exact hparked.rungSubmission hwait hsubmission
  rcases hrings with hholder | heventfd | hcq
  · simp [hfree] at hholder
  · rw [reads_waiting h hwait] at hread
    by_cases hcq : s.cq = []
    · rw [hcq, List.countP_nil, Nat.add_zero] at hread
      exact .inr ⟨heventfd, mem_iff_countP.2 hread⟩
    · exact .inl hcq
  · exact .inl hcq

/-- The steps of the kernel and of the runner that lead out of a wait. -/
def Event.awakes : Event α → Bool
  | .complete _ | .waited true | .disarm _ true false | .relock false false => true
  | _ => false

/-- The way out of the wait. -/
theorem awakes_of_wakes {s : Wakeup α} (hwait : s.poll = .waiting) (hfree : s.holder = none) (hwakes : s.Wakes) :
    ∃ es t, (∀ e ∈ es, e.awakes = true) ∧ Runs.exec step s es = some t ∧
      (∃ full, t.poll = .harvesting full) ∧ t.ready = s.ready ∧ t.sq = [] := by
  have hleave : ∀ u : Wakeup α, u.poll = .waiting → u.holder = none → u.cq ≠ [] →
      ∃ t, Runs.exec step u [.waited true, .disarm true true false, .relock false false] = some t ∧
        (∃ full, t.poll = .harvesting full) ∧ t.ready = u.ready ∧ t.sq = [] := by
    intro u hu hholder hcq
    simp [Runs.exec, step, Enabled, moved, queueEvent, apply, hu, hholder, hcq, copyCqes, ask, prepare, submit]
  rcases hwakes with hcq | ⟨-, hmem⟩
  · obtain ⟨t, ht⟩ := hleave s hwait hfree hcq
    exact ⟨_, t, by simp [Event.awakes], ht⟩
  · obtain ⟨i, hi, hread⟩ := List.getElem_of_mem hmem
    have hstep : s.step (.complete i) = some (s.complete i) := by
      simp [step, Enabled, moved, queueEvent, apply, complete, hi]
    have hcompleted : (s.complete i).poll = .waiting ∧ (s.complete i).holder = none ∧ (s.complete i).cq ≠ [] ∧
        (s.complete i).ready = s.ready := by
      simp [complete, List.getElem?_eq_getElem hi, hwait, hfree]
    obtain ⟨t, hrun, hpoll, hready, hsq⟩ := hleave _ hcompleted.1 hcompleted.2.1 hcompleted.2.2.1
    refine ⟨[.complete i, .waited true, .disarm true true false, .relock false false], t, by simp [Event.awakes], ?_,
      hpoll, hready.trans hcompleted.2.2.2, hsq⟩
    rw [Runs.exec_cons, hstep]
    exact hrun

/-- **No wake-up is lost.** In every run, with any number of threads: when the loop waits in the kernel, no
thread holds its mutex, and a callback is queued or an operation whose call has returned without an error, the
wait can end at once: a completion is in the ring, or the eventfd has been written and its read is in flight.
The kernel and the runner then get back to the mutex without any other thread, with the queued callbacks in
their buffers and the operations submitted. The read must not have been lost before. -/
theorem no_wakeup_lost {fresh : ℕ → Callback α} {capacity : ℕ} {s t : Wakeup α} {es : List (Event α)}
    (hinit : init fresh capacity = some s) (hrun : Runs.exec step s es = some t) (hwait : t.poll = .waiting)
    (hfree : t.holder = none) (hread : 0 < t.reads) (hwork : t.HasReady ∨ t.HasSubmission) :
    t.Wakes ∧ ∃ fs u, (∀ e ∈ fs, e.awakes = true) ∧ Runs.exec step t fs = some u ∧
      (∃ full, u.poll = .harvesting full) ∧ u.ready = t.ready ∧ u.sq = [] := by
  have hwakes := wakes_of_waiting (sound_of_run hinit hrun) hwait hfree hread hwork
  exact ⟨hwakes, awakes_of_wakes hwait hfree hwakes⟩

/-- A loop that has parked, and a thread that dispatches a callback then. -/
def dispatchWhileParked : List (Event ℕ) :=
  [.start, .flush, .peek, .polled, .tickDone false, .park, .drain false, .arm true true,
    .lock (.dispatch 7 none), .advance, .advance, .advance, .advance]

theorem no_wakeup_lost_dispatch : ∃ s t : Wakeup ℕ, init (fun _ => .user 0) 4 = some s ∧
    Runs.exec step s dispatchWhileParked = some t ∧ t.eventfd = 1 ∧ t.Wakes := by
  have hrun : ((init (fun _ => .user 0) 4).bind fun s => Runs.exec step s dispatchWhileParked).map
      (fun t => (t.poll, t.holder.isNone, t.reads, (t.ready.queues t.ready.index).contents, t.eventfd)) =
      some (.waiting, true, 1, [.user 7], 1) := by
    decide +kernel
  obtain ⟨t, ht, hstate⟩ := Option.map_eq_some_iff.1 hrun
  obtain ⟨s, hinit, hrun⟩ := Option.bind_eq_some_iff.1 ht
  simp only [Prod.mk.injEq, Option.isNone_iff_eq_none] at hstate
  obtain ⟨hwait, hfree, hread, hready, heventfd⟩ := hstate
  refine ⟨s, t, hinit, hrun, heventfd, (no_wakeup_lost hinit hrun hwait hfree (by omega) (.inl ?_)).1⟩
  exact ⟨t.ready.index, by simp [hready]⟩

end Wakeup

end Talyn
