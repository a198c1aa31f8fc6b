import Talyn.Loop.IoUring

/-!
# Polling the ring

`poll_blocking_events` of `loop/runner.zig`. One buffer, `blocking_ready_tasks`, is filled by every
copy and handed to `fetch_completed_tasks` slice by slice. `copied` and `handed` record, in order, the
completions copied out of the ring and the completions handed over.

The loop itself is a parameter: its state `σ`, `fetch` for `fetch_completed_tasks`, and whether its
ready queue is empty. Nothing here depends on what `fetch` does with a slice, only on whether it fails.
-/

namespace Talyn

/-- Errors `poll_blocking_events` returns. -/
inductive PollError
  | pythonError
  | copy (e : CopyError)
  | flush (code : ℕ)
  | outOfMemory
  deriving DecidableEq, Repr

/-- What the rest of the system does during one poll. -/
structure PollEnv (σ : Type*) where
  /-- `flush_pending_sqes` fails -/
  flushError : Option ℕ
  /-- the watchdog timeout could be queued -/
  watchdogQueued : Bool
  /-- `ring.submit` succeeded -/
  submitOk : Bool
  /-- a Python signal handler raises after the park -/
  signalRaises : Bool
  /-- a Python exception that a hook has left is pending then -/
  exceptionPending : Bool
  /-- what other threads do to the loop while it is parked without its mutex -/
  others : σ → σ

/-- The checks behind the park find a Python exception. -/
def PollEnv.raises {σ : Type*} (env : PollEnv σ) : Bool := env.signalRaises || env.exceptionPending

/-- The state of a poll. -/
structure Poll (σ : Type*) where
  loop : σ
  ring : Ring
  /-- `blocking_ready_tasks` -/
  buffer : List Cqe
  copied : List Cqe
  handed : List Cqe

/-- The first look at the ring finds a full buffer of completions and the second one finds more. -/
def Ring.Overrun (r : Ring) (len : ℕ) : Prop :=
  ∃ cqes r₁ cqe more r₂, r.copyUninterrupted len 0 = (.ok cqes, r₁) ∧ cqes.length = len ∧
    r₁.copyUninterrupted len 0 = (.ok (cqe :: more), r₂)

namespace Poll

variable {σ : Type*}

/-- The completions a call of `copy_cqes` returned overwrite the first entries of the buffer. -/
def store (p : Poll σ) (result : Except CopyError (List Cqe) × Ring) : Except CopyError ℕ × Poll σ :=
  match result with
  | (.error e, ring) => (.error e, { p with ring := ring })
  | (.ok cqes, ring) =>
      (.ok cqes.length,
        { p with
          ring := ring, buffer := cqes ++ p.buffer.drop cqes.length, copied := p.copied ++ cqes })

/-- Copy into `blocking_ready_tasks`; signals are retried. -/
def copyUninterrupted (p : Poll σ) (waitNr : ℕ) : Except CopyError ℕ × Poll σ :=
  p.store (p.ring.copyUninterrupted p.buffer.length waitNr)

/-- Copy into `blocking_ready_tasks` with `copy_cqes_eintr_safe`. -/
def copyEintrSafe (p : Poll σ) : Except CopyError ℕ × Poll σ :=
  p.store (p.ring.copyEintrSafe p.buffer.length)

theorem store_succ {p p' : Poll σ} {result : Except CopyError (List Cqe) × Ring} {n : ℕ}
    (h : p.store result = (.ok (n + 1), p')) :
    ∃ cqes, cqes ≠ [] ∧ result = (.ok cqes, p'.ring) := by
  unfold store at h
  split at h
  · cases h
  · rename_i cqes ring
    obtain ⟨hn, rfl⟩ := Prod.mk.inj h
    refine ⟨cqes, ?_, rfl⟩
    rintro rfl
    cases Except.ok.inj hn

theorem copyUninterrupted_fuel {p p' : Poll σ} {waitNr n : ℕ}
    (h : p.copyUninterrupted waitNr = (.ok (n + 1), p')) : p'.ring.fuel < p.ring.fuel := by
  obtain ⟨cqes, hne, heq⟩ := store_succ h
  exact Ring.copyUninterrupted_fuel heq hne

theorem copyEintrSafe_fuel {p p' : Poll σ} {n : ℕ} (h : p.copyEintrSafe = (.ok (n + 1), p')) :
    p'.ring.fuel < p.ring.fuel := by
  obtain ⟨cqes, hne, heq⟩ := store_succ h
  exact Ring.copyEintrSafe_fuel heq hne

/-- The second drain loop of the parked branch: while the last copy filled the buffer, copy again. The
result is `nevents`, `park_err` and the poll. -/
def drainFull (nevents : ℕ) (p : Poll σ) : ℕ × Option CopyError × Poll σ :=
  if nevents > 0 ∧ nevents = p.buffer.length then
    match _h : p.copyUninterrupted 0 with
    | (.error e, p') => (nevents, some e, p')
    | (.ok 0, p') => (nevents, none, p')
    | (.ok (n + 1), p') => drainFull (n + 1) p'
  else (nevents, none, p)
termination_by p.ring.fuel
decreasing_by exact copyUninterrupted_fuel _h

/-- Both drain loops of the parked branch. -/
def drain (p : Poll σ) : ℕ × Option CopyError × Poll σ :=
  match p.copyUninterrupted 0 with
  | (.error e, p) => (0, some e, p)
  | (.ok n, p) => drainFull n p

/-- The wait on an empty ring: bounded by the watchdog, or a sleep and a look at the ring. -/
def waitForEvents (env : PollEnv σ) (p : Poll σ) : ℕ × Option CopyError × Poll σ :=
  match p.copyUninterrupted (if env.watchdogQueued && env.submitOk then 1 else 0) with
  | (.error e, p) => (0, some e, p)
  | (.ok n, p) => (n, none, p)

/-- The loop waits only when the drain found the ring empty. -/
def waitIfEmpty (env : PollEnv σ) : ℕ × Option CopyError × Poll σ → ℕ × Option CopyError × Poll σ
  | (0, none, p) => waitForEvents env p
  | result => result

/-- After the park: Python signals and exceptions first, then `park_err`. -/
def checkPark (env : PollEnv σ) : ℕ × Option CopyError × Poll σ → Except PollError ℕ × Poll σ
  | (nevents, parkErr, p) =>
    if env.raises then (.error .pythonError, p)
    else
      match parkErr with
      | some e => (.error (.copy e), p)
      | none => (.ok nevents, p)

/-- The parked branch. -/
def park (env : PollEnv σ) (p : Poll σ) : Except PollError ℕ × Poll σ :=
  checkPark env (waitIfEmpty env (drain { p with loop := env.others p.loop }))

/-- The error of a copy as `poll_blocking_events` returns it: a raising signal handler is a
`PythonError`. -/
def copyError : CopyError → PollError
  | .signalInterrupt _ => .pythonError
  | .other code => .copy (.other code)

/-- The non-blocking branch. -/
def peek (env : PollEnv σ) (p : Poll σ) : Except PollError ℕ × Poll σ :=
  match env.flushError with
  | some code => (.error (.flush code), p)
  | none =>
    match p.copyEintrSafe with
    | (.error e, p) => (.error (copyError e), p)
    | (.ok n, p) => (.ok n, p)

/-- The final loop: hand the batch over, and copy again while the buffer was full. -/
def fetchBatches (fetch : σ → List Cqe → Except PollError Unit × σ) (nevents : ℕ) (p : Poll σ) :
    Except PollError Unit × Poll σ :=
  if nevents > 0 then
    match fetch p.loop (p.buffer.take nevents) with
    | (.error e, loop) =>
      (.error e, { p with loop := loop, handed := p.handed ++ p.buffer.take nevents })
    | (.ok (), loop) =>
      let q := { p with loop := loop, handed := p.handed ++ p.buffer.take nevents }
      if nevents = p.buffer.length then
        match _h : q.copyEintrSafe with
        | (.error e, q') => (.error (copyError e), q')
        | (.ok 0, q') => (.ok (), q')
        | (.ok (n + 1), q') => fetchBatches fetch (n + 1) q'
      else (.ok (), q)
  else (.ok (), p)
termination_by p.ring.fuel
decreasing_by
  have hlt := copyEintrSafe_fuel _h
  exact hlt

/-- `poll_blocking_events`. -/
def pollBlockingEvents (fetch : σ → List Cqe → Except PollError Unit × σ) (readyQueueEmpty : σ → Bool)
    (env : PollEnv σ) (wait : Bool) (p : Poll σ) : Except PollError Unit × Poll σ :=
  match (if wait && readyQueueEmpty p.loop then park env p else peek env p) with
  | (.error e, p) => (.error e, p)
  | (.ok nevents, p) => fetchBatches fetch nevents p

/-! ### What a copy does to the buffer and the records -/

/-- A copy of `n` completions: they are recorded, fill the first `n` entries of the buffer, and nothing
else changes. -/
structure Copied (p : Poll σ) (n : ℕ) (p' : Poll σ) : Prop where
  copied : p'.copied = p.copied ++ p'.buffer.take n
  length : p'.copied.length = p.copied.length + n
  buffer : p'.buffer.length = p.buffer.length
  keep : n = 0 → p'.buffer = p.buffer
  handed : p'.handed = p.handed

theorem copied_store {p p' : Poll σ} {result : Except CopyError (List Cqe) × Ring} {n : ℕ}
    (hle : ∀ cqes ring, result = (.ok cqes, ring) → cqes.length ≤ p.buffer.length)
    (h : p.store result = (.ok n, p')) : Copied p n p' := by
  unfold store at h
  split at h
  · cases h
  · rename_i cqes ring
    obtain ⟨hn, rfl⟩ := Prod.mk.inj h
    obtain rfl := Except.ok.inj hn
    have hle := hle cqes ring rfl
    refine ⟨?_, ?_, ?_, ?_, rfl⟩
    · simp only [List.take_left]
    · simp only [List.length_append]
    · simp only [List.length_append, List.length_drop]
      omega
    · intro hz
      obtain rfl := List.length_eq_zero_iff.1 hz
      rfl

theorem copied_copyUninterrupted {p p' : Poll σ} {waitNr n : ℕ}
    (h : p.copyUninterrupted waitNr = (.ok n, p')) : Copied p n p' :=
  copied_store (fun _ _ heq => Ring.copyUninterrupted_length heq) h

theorem copied_copyEintrSafe {p p' : Poll σ} {n : ℕ} (h : p.copyEintrSafe = (.ok n, p')) :
    Copied p n p' :=
  copied_store (fun _ _ heq => Ring.copyEintrSafe_length heq) h

/-! ### The final loop hands over everything it copies -/

/-- The batch of `nevents` completions in the buffer is what was copied and not handed over. -/
def Pending (p : Poll σ) (nevents : ℕ) : Prop :=
  p.copied = p.handed ++ p.buffer.take nevents

theorem Copied.pending {p p' : Poll σ} {n : ℕ} (h : Copied p n p') (hp : p.copied = p.handed) :
    Pending p' n := by
  rw [Pending, h.copied, hp, h.handed]

theorem fetchBatches_handed {fetch : σ → List Cqe → Except PollError Unit × σ} {nevents : ℕ}
    {p p' : Poll σ}
    (h : fetchBatches fetch nevents p = (.ok (), p')) (hp : Pending p nevents) :
    p'.handed = p'.copied := by
  fun_induction fetchBatches fetch nevents p with
  | case1 => cases h
  | case2 => cases h
  | case3 p loop q' hpos hfetch q heq =>
    obtain ⟨-, rfl⟩ := Prod.mk.inj h
    have hc := copied_copyEintrSafe heq
    rw [hc.handed, hc.copied, List.take_zero, List.append_nil]
    exact hp.symm
  | case4 p loop n q' hpos hfetch q heq ih =>
    exact ih h ((copied_copyEintrSafe heq).pending hp)
  | case5 nevents p hpos loop hfetch q hfull =>
    obtain ⟨-, rfl⟩ := Prod.mk.inj h
    exact hp.symm
  | case6 nevents p hpos =>
    obtain ⟨-, rfl⟩ := Prod.mk.inj h
    obtain rfl : nevents = 0 := by omega
    rw [hp, List.take_zero, List.append_nil]

/-- More was copied than was handed over or waits in the buffer: a completion is lost. -/
def Lost (p : Poll σ) (nevents : ℕ) : Prop :=
  p.handed.length + nevents < p.copied.length

/-- A completion lost before the final loop stays lost. -/
theorem fetchBatches_lost {fetch : σ → List Cqe → Except PollError Unit × σ} {nevents : ℕ}
    {p p' : Poll σ}
    (h : fetchBatches fetch nevents p = (.ok (), p')) (hp : Lost p nevents) : Lost p' 0 := by
  fun_induction fetchBatches fetch nevents p with
  | case1 => cases h
  | case2 => cases h
  | case3 p loop q' hpos hfetch q heq =>
    obtain ⟨-, rfl⟩ := Prod.mk.inj h
    have hc := copied_copyEintrSafe heq
    have hq : q.handed.length = p.handed.length + p.buffer.length := by simp [q]
    rw [Lost, hc.handed, hc.length, hq]
    exact hp
  | case4 p loop n q' hpos hfetch q heq ih =>
    have hc := copied_copyEintrSafe heq
    have hq : q.handed.length = p.handed.length + p.buffer.length := by simp [q]
    have hcopied : q.copied = p.copied := rfl
    refine ih h ?_
    rw [Lost, hc.handed, hc.length, hq, hcopied]
    unfold Lost at hp
    omega
  | case5 nevents p hpos loop hfetch q hfull =>
    obtain ⟨-, rfl⟩ := Prod.mk.inj h
    have hq : q.handed.length ≤ p.handed.length + nevents := by
      simp only [q, List.length_append, List.length_take]
      omega
    unfold Lost at hp ⊢
    exact Nat.lt_of_le_of_lt hq hp
  | case6 nevents p hpos =>
    obtain ⟨-, rfl⟩ := Prod.mk.inj h
    unfold Lost at hp ⊢
    omega

/-! ### The parked branch -/

theorem store_ok {p p' : Poll σ} {result : Except CopyError (List Cqe) × Ring} {n : ℕ}
    (h : p.store result = (.ok n, p')) : ∃ cqes, cqes.length = n ∧ result = (.ok cqes, p'.ring) := by
  unfold store at h
  split at h
  · cases h
  · rename_i cqes ring
    obtain ⟨hn, rfl⟩ := Prod.mk.inj h
    exact ⟨cqes, Except.ok.inj hn, rfl⟩

/-- In terms of the buffer: an overrun is a full copy followed by a copy that finds something. -/
theorem overrun_iff {p p₁ : Poll σ} {n : ℕ} (h : p.copyUninterrupted 0 = (.ok n, p₁)) :
    p.ring.Overrun p.buffer.length ↔
      n = p.buffer.length ∧ ∃ m p₂, p₁.copyUninterrupted 0 = (.ok (m + 1), p₂) := by
  obtain ⟨cqes, hn, heq⟩ := store_ok h
  have hbuf := (copied_copyUninterrupted h).buffer
  constructor
  · rintro ⟨cqes', r₁, cqe, more, r₂, h₁, hlen, h₂⟩
    rw [heq] at h₁
    obtain ⟨hc, rfl⟩ := Prod.mk.inj h₁
    obtain rfl := Except.ok.inj hc
    refine ⟨by omega, more.length, (p₁.store (.ok (cqe :: more), r₂)).2, ?_⟩
    rw [copyUninterrupted, hbuf, h₂]
    rfl
  · rintro ⟨rfl, m, p₂, h₂⟩
    obtain ⟨cqes', hne, heq'⟩ := store_succ h₂
    obtain ⟨cqe, more, rfl⟩ := List.exists_cons_of_ne_nil hne
    rw [hbuf] at heq'
    exact ⟨cqes, p₁.ring, cqe, more, p₂.ring, heq, hn, heq'⟩

theorem drainFull_pos {nevents n : ℕ} {p p' : Poll σ} (h : drainFull nevents p = (n, none, p'))
    (hpos : 0 < nevents) : 0 < n := by
  fun_induction drainFull nevents p with
  | case1 => cases h
  | case2 nevents p hfull q heq =>
    obtain ⟨rfl, -⟩ := Prod.mk.inj h
    exact hpos
  | case3 nevents p hfull m q heq ih => exact ih h (Nat.succ_pos m)
  | case4 nevents p hfull =>
    obtain ⟨rfl, -⟩ := Prod.mk.inj h
    exact hpos

/-- Each further copy of the drain loop overwrites the batch before it. -/
theorem drainFull_lost {nevents n : ℕ} {p p' : Poll σ} (h : drainFull nevents p = (n, none, p'))
    (hp : Lost p nevents) : Lost p' n := by
  fun_induction drainFull nevents p with
  | case1 => cases h
  | case2 nevents p hfull q heq =>
    have hc := copied_copyUninterrupted heq
    obtain ⟨rfl, h₂⟩ := Prod.mk.inj h
    obtain ⟨-, rfl⟩ := Prod.mk.inj h₂
    rw [Lost, hc.handed, hc.length]
    exact hp
  | case3 nevents p hfull m q heq ih =>
    have hc := copied_copyUninterrupted heq
    refine ih h ?_
    unfold Lost at hp ⊢
    rw [hc.handed, hc.length]
    omega
  | case4 nevents p hfull =>
    obtain ⟨rfl, h₂⟩ := Prod.mk.inj h
    obtain ⟨-, rfl⟩ := Prod.mk.inj h₂
    exact hp

/-- Without an overrun the drained batch is all that was copied. -/
theorem drain_pending {n : ℕ} {p p' : Poll σ} (h : drain p = (n, none, p'))
    (hstart : p.copied = p.handed) (hover : ¬ p.ring.Overrun p.buffer.length) : Pending p' n := by
  unfold drain at h
  split at h
  · cases h
  · rename_i k p₁ heq
    have hc := copied_copyUninterrupted heq
    have hp := hc.pending hstart
    rw [overrun_iff heq] at hover
    unfold drainFull at h
    split at h
    · rename_i hfull
      split at h
      · cases h
      · rename_i q heq₁
        obtain ⟨rfl, h₂⟩ := Prod.mk.inj h
        obtain ⟨-, rfl⟩ := Prod.mk.inj h₂
        have hc₁ := copied_copyUninterrupted heq₁
        rw [Pending, hc₁.copied, List.take_zero, List.append_nil, hc₁.handed, hc₁.keep rfl]
        exact hp
      · rename_i m q heq₁
        exact absurd ⟨hfull.2.trans hc.buffer, m, q, heq₁⟩ hover
    · obtain ⟨rfl, h₂⟩ := Prod.mk.inj h
      obtain ⟨-, rfl⟩ := Prod.mk.inj h₂
      exact hp

/-- With an overrun the full batch copied first is lost. -/
theorem drain_lost {n : ℕ} {p p' : Poll σ} (h : drain p = (n, none, p'))
    (hstart : p.copied = p.handed) (hlen : 0 < p.buffer.length)
    (hover : p.ring.Overrun p.buffer.length) : Lost p' n ∧ 0 < n := by
  unfold drain at h
  split at h
  · cases h
  · rename_i k p₁ heq
    have hc := copied_copyUninterrupted heq
    obtain ⟨hk, m, p₂, heq₂⟩ := (overrun_iff heq).1 hover
    unfold drainFull at h
    rw [if_pos ⟨by omega, by rw [hc.buffer, hk]⟩] at h
    split at h
    · rename_i heq'
      rw [heq₂] at heq'
      cases heq'
    · rename_i heq'
      rw [heq₂] at heq'
      cases heq'
    · rename_i m' p₂' heq'
      rw [heq₂] at heq'
      obtain ⟨hm, rfl⟩ := Prod.mk.inj heq'
      obtain rfl := Nat.succ.inj (Except.ok.inj hm)
      have hc₂ := copied_copyUninterrupted heq₂
      refine ⟨drainFull_lost h ?_, drainFull_pos h (Nat.succ_pos m)⟩
      rw [Lost, hc₂.handed, hc₂.length, hc.handed, hc.length, hstart]
      omega

theorem checkPark_ok {env : PollEnv σ} {result : ℕ × Option CopyError × Poll σ} {n : ℕ}
    {p' : Poll σ} (h : checkPark env result = (.ok n, p')) : result = (n, none, p') := by
  obtain ⟨k, err, p⟩ := result
  simp only [checkPark] at h
  split at h
  · cases h
  · split at h
    · cases h
    · obtain ⟨hn, rfl⟩ := Prod.mk.inj h
      obtain rfl := Except.ok.inj hn
      rfl

/-- The parked branch hands on exactly what it copied, unless the drain loop overruns. -/
theorem park_spec {env : PollEnv σ} {n : ℕ} {p p' : Poll σ} (h : park env p = (.ok n, p'))
    (hstart : p.copied = p.handed) (hlen : 0 < p.buffer.length) :
    (¬ p.ring.Overrun p.buffer.length → Pending p' n) ∧
      (p.ring.Overrun p.buffer.length → Lost p' n) := by
  have hw := checkPark_ok h
  unfold waitIfEmpty at hw
  split at hw
  · rename_i p₁ hd
    unfold waitForEvents at hw
    split at hw
    · cases hw
    · rename_i m p₂ heq
      obtain ⟨rfl, hw'⟩ := Prod.mk.inj hw
      obtain ⟨-, rfl⟩ := Prod.mk.inj hw'
      constructor
      · intro hover
        have hp := drain_pending hd hstart hover
        rw [Pending, List.take_zero, List.append_nil] at hp
        exact (copied_copyUninterrupted heq).pending hp
      · intro hover
        exact absurd (drain_lost hd hstart hlen hover).2 (Nat.lt_irrefl 0)
  · exact ⟨fun hover => drain_pending hw hstart hover,
      fun hover => (drain_lost hw hstart hlen hover).1⟩

/-- **Every completion copied is handed over once.** When a poll returns normally, the completions
handed to `fetch_completed_tasks` are those copied out of the ring, in order and each once, exactly
when it did not park with an overrun: a first look at the ring that fills the buffer, followed by a
second one that finds more. -/
theorem poll_hands_over_each_completion (fetch : σ → List Cqe → Except PollError Unit × σ)
    (readyQueueEmpty : σ → Bool) (env : PollEnv σ) (wait : Bool) {p p' : Poll σ}
    (hlen : p.buffer.length = 1024) (hcopied : p.copied = []) (hhanded : p.handed = [])
    (h : pollBlockingEvents fetch readyQueueEmpty env wait p = (.ok (), p')) :
    p'.handed = p'.copied ↔
      ¬ (wait = true ∧ readyQueueEmpty p.loop = true ∧ p.ring.Overrun 1024) := by
  have hstart : p.copied = p.handed := hcopied.trans hhanded.symm
  unfold pollBlockingEvents at h
  by_cases hpark : (wait && readyQueueEmpty p.loop) = true
  · rw [if_pos hpark] at h
    rw [Bool.and_eq_true] at hpark
    split at h
    · cases h
    · rename_i nevents p₁ heq
      obtain ⟨hpend, hlost⟩ := park_spec heq hstart (by omega)
      rw [hlen] at hpend hlost
      constructor
      · rintro heq' ⟨-, -, hover⟩
        have := fetchBatches_lost h (hlost hover)
        rw [Lost, heq'] at this
        omega
      · intro hn
        exact fetchBatches_handed h (hpend fun hover => hn ⟨hpark.1, hpark.2, hover⟩)
  · rw [if_neg hpark] at h
    rw [Bool.and_eq_true] at hpark
    refine ⟨fun _ hn => hpark ⟨hn.1, hn.2.1⟩, fun _ => ?_⟩
    unfold peek at h
    split at h
    · cases h
    · rename_i nevents p₁ heq
      split at heq
      · cases heq
      · split at heq
        · cases heq
        · rename_i m p₂ hcopy
          obtain ⟨hn, rfl⟩ := Prod.mk.inj heq
          obtain rfl := Except.ok.inj hn
          exact fetchBatches_handed h ((copied_copyEintrSafe hcopy).pending hstart)

/-- The final loop ends after a batch that does not fill the buffer. -/
theorem fetchBatches_partial {nevents : ℕ} {p : Poll σ} (hpos : 0 < nevents)
    (hlt : nevents < p.buffer.length) :
    fetchBatches (fun s _ => (.ok (), s)) nevents p =
      (.ok (), { p with handed := p.handed ++ p.buffer.take nevents }) := by
  unfold fetchBatches
  rw [if_pos hpos]
  dsimp only
  rw [if_neg (Nat.ne_of_lt hlt)]

/-- A poll that does not wait finds one completion and hands it over. -/
theorem poll_hands_over_each_completion_one :
    ∃ p', pollBlockingEvents (fun s _ => (.ok (), s)) (fun _ => true) ⟨none, true, true, false, false, id⟩ false
        ⟨(), ⟨[⟨7, 1⟩], []⟩, List.replicate 1024 ⟨0, 0⟩, [], []⟩ = (.ok (), p') ∧
      p'.handed = p'.copied := by
  obtain ⟨buffer, hbuffer, hlen⟩ : ∃ buffer : List Cqe,
      List.replicate 1024 ⟨0, 0⟩ = buffer ∧ buffer.length = 1024 :=
    ⟨_, rfl, List.length_replicate⟩
  rw [hbuffer]
  have h : pollBlockingEvents (fun s _ => (.ok (), s)) (fun _ => true) ⟨none, true, true, false, false, id⟩ false
      ⟨(), ⟨[⟨7, 1⟩], []⟩, buffer, [], []⟩ =
      (.ok (), ⟨(), ⟨[], []⟩, ⟨7, 1⟩ :: buffer.drop 1, [⟨7, 1⟩], [⟨7, 1⟩]⟩) := by
    have hcopy : (⟨(), ⟨[⟨7, 1⟩], []⟩, buffer, [], []⟩ : Poll Unit).copyEintrSafe =
        (.ok 1, ⟨(), ⟨[], []⟩, ⟨7, 1⟩ :: buffer.drop 1, [⟨7, 1⟩], []⟩) := by
      rw [copyEintrSafe, Ring.copyEintrSafe_ready (List.cons_ne_nil _ _), hlen]
      rfl
    simp only [pollBlockingEvents, Bool.false_and, Bool.false_eq_true, if_false, peek, hcopy]
    exact fetchBatches_partial Nat.one_pos (by simp [hlen])
  refine ⟨_, h, (poll_hands_over_each_completion _ _ _ _ hlen rfl rfl h).2 ?_⟩
  rintro ⟨hwait, -⟩
  cases hwait

/-- 1025 completions are ready when the loop parks: the drain loop overwrites the first 1024 of them
with the last one. -/
theorem poll_loses_full_batch :
    ¬ ∀ (env : PollEnv Unit) (p p' : Poll Unit), p.buffer.length = 1024 → p.copied = [] →
      p.handed = [] →
      pollBlockingEvents (fun s _ => (.ok (), s)) (fun _ => true) env true p = (.ok (), p') →
        p'.handed.Perm p'.copied := by
  intro hall
  obtain ⟨buffer, hbuffer⟩ : ∃ buffer : List Cqe, buffer.length = 1024 :=
    ⟨List.replicate 1024 ⟨0, 0⟩, List.length_replicate⟩
  obtain ⟨batch, hbatch⟩ : ∃ batch : List Cqe, batch.length = 1024 :=
    ⟨List.replicate 1024 ⟨7, 1⟩, List.length_replicate⟩
  have hne : batch ++ [⟨8, 1⟩] ≠ [] := List.append_ne_nil_of_right_ne_nil _ (List.cons_ne_nil _ _)
  have hcopy₁ : (⟨(), ⟨batch ++ [⟨8, 1⟩], []⟩, buffer, [], []⟩ : Poll Unit).copyUninterrupted 0 =
      (.ok 1024, ⟨(), ⟨[⟨8, 1⟩], []⟩, batch, batch, []⟩) := by
    rw [copyUninterrupted, Ring.copyUninterrupted_ready hne]
    simp only [store, hbuffer]
    rw [List.take_left' hbatch, List.drop_left' hbatch, List.drop_eq_nil_of_le (by omega), hbatch]
    simp
  have hcopy₂ : (⟨(), ⟨[⟨8, 1⟩], []⟩, batch, batch, []⟩ : Poll Unit).copyUninterrupted 0 =
      (.ok 1, ⟨(), ⟨[], []⟩, ⟨8, 1⟩ :: batch.drop 1, batch ++ [⟨8, 1⟩], []⟩) := by
    rw [copyUninterrupted, Ring.copyUninterrupted_ready (List.cons_ne_nil _ _), hbatch]
    rfl
  have hdrain : drain (⟨(), ⟨batch ++ [⟨8, 1⟩], []⟩, buffer, [], []⟩ : Poll Unit) =
      (1, none, ⟨(), ⟨[], []⟩, ⟨8, 1⟩ :: batch.drop 1, batch ++ [⟨8, 1⟩], []⟩) := by
    rw [drain, hcopy₁]
    simp only
    rw [drainFull, if_pos ⟨by decide, hbatch.symm⟩]
    split
    · rename_i heq
      rw [hcopy₂] at heq
      cases heq
    · rename_i heq
      rw [hcopy₂] at heq
      cases heq
    · rename_i n p' heq
      rw [hcopy₂] at heq
      obtain ⟨hn, rfl⟩ := Prod.mk.inj heq
      obtain rfl := Nat.succ.inj (Except.ok.inj hn)
      rw [drainFull, if_neg]
      simp only [List.length_cons, List.length_drop, hbatch]
      decide
  have h : pollBlockingEvents (fun s _ => (.ok (), s)) (fun _ => true) ⟨none, true, true, false, false, id⟩ true
      ⟨(), ⟨batch ++ [⟨8, 1⟩], []⟩, buffer, [], []⟩ =
      (.ok (), ⟨(), ⟨[], []⟩, ⟨8, 1⟩ :: batch.drop 1, batch ++ [⟨8, 1⟩], [⟨8, 1⟩]⟩) := by
    have hpark : park ⟨none, true, true, false, false, id⟩
        (⟨(), ⟨batch ++ [⟨8, 1⟩], []⟩, buffer, [], []⟩ : Poll Unit) =
        (.ok 1, ⟨(), ⟨[], []⟩, ⟨8, 1⟩ :: batch.drop 1, batch ++ [⟨8, 1⟩], []⟩) := by
      rw [park]
      simp only [id_eq, hdrain]
      rfl
    simp only [pollBlockingEvents, Bool.and_self, if_true, hpark]
    exact fetchBatches_partial Nat.one_pos (by simp [hbatch])
  have hlen := (hall _ _ _ hbuffer rfl rfl h).length_eq
  rw [List.length_append, hbatch] at hlen
  cases hlen

end Poll

end Talyn
