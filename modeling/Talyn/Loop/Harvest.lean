import Talyn.Lib.RingBuffer
import Talyn.Loop.Poll

/-!
# What a failing poll leaves behind

`fetch_completed_tasks` of `loop/runner.zig` over the ready queue, the blocking tasks and
`reserved_slots`, and `poll_blocking_events` with it. `copy_cqes` takes completions off the ring for
good, so a poll that returns an error must have queued the callback of every completion it copied. The
books of a loop are what the completions change in it, with an unbounded list for the queue; a poll has
dropped nothing when its books are those of the start with every copied completion settled.
-/

namespace Talyn

/-- The completion belongs to a `BlockingTask`: it is neither a timeout or cancellation nor the
watchdog. -/
def Cqe.IsTask (cqe : Cqe) : Prop := ¬ (cqe.userData = 0 ∨ cqe.userData = 1)

instance (cqe : Cqe) : Decidable cqe.IsTask := inferInstanceAs (Decidable (¬ _))

/-- The part of the loop that `fetch_completed_tasks` changes. A callback is a number, queued with the
result of its operation. -/
structure TaskLoop where
  queue : RingBuffer (ℕ × ℤ)
  /-- `data` of the task at an address: a callback, or `none` -/
  tasks : ℕ → Option ℕ
  reservedSlots : ℤ
  /-- the calls of `BlockingTask.deinit`, in order; not in the source -/
  released : List ℕ

namespace TaskLoop

/-- `reserved_slots -= 1` and `blocking_task.deinit()`. -/
def release (l : TaskLoop) (task : ℕ) : TaskLoop :=
  { l with
    tasks := Function.update l.tasks task none
    reservedSlots := l.reservedSlots - 1
    released := l.released ++ [task] }

/-- `fetch_completed_tasks`. `alloc` is the allocator the ready queue grows with: the memory it gives
for a capacity, or `none`. -/
def fetchCompletedTasks (alloc : ℕ → Option (ℕ → ℕ × ℤ)) (l : TaskLoop) :
    List Cqe → Except PollError Unit × TaskLoop
  | [] => (.ok (), l)
  | cqe :: cqes =>
    if cqe.userData = 0 ∨ cqe.userData = 1 then l.fetchCompletedTasks alloc cqes
    else
      match l.tasks cqe.userData with
      | some callback =>
        match l.queue.pushOrGrow (callback, cqe.res) (alloc (l.queue.capacity * 2)) with
        | some queue =>
          (TaskLoop.release { l with queue := queue } cqe.userData).fetchCompletedTasks alloc cqes
        | none => (.error .outOfMemory, l.release cqe.userData)
      | none => (l.release cqe.userData).fetchCompletedTasks alloc cqes

/-- `ready_queue.is_empty()`. -/
def readyQueueEmpty (l : TaskLoop) : Bool := l.queue.readIdx = l.queue.writeIdx

end TaskLoop

/-! ### The books -/

/-- What completions change in a loop, over an unbounded queue. -/
structure Books where
  queued : List (ℕ × ℤ)
  tasks : ℕ → Option ℕ
  reservedSlots : ℤ
  released : List ℕ

/-- The books of a loop. -/
def TaskLoop.books (l : TaskLoop) : Books := ⟨l.queue.contents, l.tasks, l.reservedSlots, l.released⟩

namespace Books

/-- A completion of a task queues the callback and releases the task and one reserved slot. -/
def settle (b : Books) (cqe : Cqe) : Books :=
  if cqe.IsTask then
    { queued := b.queued ++ ((b.tasks cqe.userData).map fun callback => (callback, cqe.res)).toList
      tasks := Function.update b.tasks cqe.userData none
      reservedSlots := b.reservedSlots - 1
      released := b.released ++ [cqe.userData] }
  else b

theorem settle_of_not_isTask (b : Books) {cqe : Cqe} (h : ¬ cqe.IsTask) : b.settle cqe = b := if_neg h

/-- Settle completions in order. -/
def settleAll (b : Books) (cqes : List Cqe) : Books := cqes.foldl settle b

@[simp] theorem settleAll_nil (b : Books) : b.settleAll [] = b := rfl

@[simp] theorem settleAll_cons (b : Books) (cqe : Cqe) (cqes : List Cqe) :
    b.settleAll (cqe :: cqes) = (b.settle cqe).settleAll cqes := rfl

theorem settleAll_append (b : Books) (xs ys : List Cqe) :
    b.settleAll (xs ++ ys) = (b.settleAll xs).settleAll ys := List.foldl_append

theorem length_released_settle (b : Books) (cqe : Cqe) :
    (b.settle cqe).released.length = b.released.length + if cqe.IsTask then 1 else 0 := by
  unfold settle
  split <;> simp

/-- Every completion of a task is released once. -/
theorem length_released_settleAll (b : Books) (cqes : List Cqe) :
    (b.settleAll cqes).released.length =
      b.released.length + cqes.countP fun cqe => decide cqe.IsTask := by
  induction cqes generalizing b with
  | nil => rfl
  | cons cqe cqes ih =>
    rw [settleAll_cons, ih, length_released_settle, List.countP_cons]
    simp only [decide_eq_true_eq]
    omega

theorem length_queued_settle (b : Books) (cqe : Cqe) :
    b.queued.length ≤ (b.settle cqe).queued.length := by
  unfold settle
  split <;> simp

theorem length_queued_settleAll (b : Books) (cqes : List Cqe) :
    b.queued.length ≤ (b.settleAll cqes).queued.length := by
  induction cqes generalizing b with
  | nil => exact le_rfl
  | cons cqe cqes ih => exact (b.length_queued_settle cqe).trans (ih _)

/-- Completions of no task change nothing. -/
theorem settleAll_of_not_isTask (b : Books) {cqes : List Cqe} (h : ∀ cqe ∈ cqes, ¬ cqe.IsTask) :
    b.settleAll cqes = b := by
  induction cqes generalizing b with
  | nil => rfl
  | cons cqe cqes ih =>
    rw [settleAll_cons, settle_of_not_isTask b (h cqe List.mem_cons_self)]
    exact ih b fun c hc => h c (List.mem_cons_of_mem _ hc)

end Books

namespace TaskLoop

variable {alloc : ℕ → Option (ℕ → ℕ × ℤ)}

theorem fetchCompletedTasks_append (l : TaskLoop) (xs ys : List Cqe) :
    l.fetchCompletedTasks alloc (xs ++ ys) =
      match l.fetchCompletedTasks alloc xs with
      | (.ok (), l') => l'.fetchCompletedTasks alloc ys
      | (.error e, l') => (.error e, l') := by
  induction xs generalizing l with
  | nil => rfl
  | cons cqe xs ih =>
    rw [List.cons_append, fetchCompletedTasks, fetchCompletedTasks]
    split
    · exact ih l
    · split
      · split
        · exact ih _
        · rfl
      · exact ih _

/-- A completion is settled and the rest of the slice is fetched, or its callback is dropped and so are
all the completions behind it. -/
theorem fetchCompletedTasks_cons (l : TaskLoop) (cqe : Cqe) (cqes : List Cqe) :
    (∃ l' : TaskLoop, l'.books = l.books.settle cqe ∧
      l.fetchCompletedTasks alloc (cqe :: cqes) = l'.fetchCompletedTasks alloc cqes) ∨
    ∃ (e : PollError) (l' : TaskLoop), l.fetchCompletedTasks alloc (cqe :: cqes) = (.error e, l') ∧
      l'.books.queued.length < (l.books.settle cqe).queued.length ∧
      l'.books.released.length = (l.books.settle cqe).released.length := by
  rw [fetchCompletedTasks]
  split
  · rename_i hskip
    exact .inl ⟨l, (Books.settle_of_not_isTask _ (not_not.2 hskip)).symm, rfl⟩
  · rename_i htask
    replace htask : cqe.IsTask := htask
    rw [Books.settle, if_pos htask]
    split
    · rename_i callback hdata
      split
      · rename_i queue hpush
        refine .inl ⟨_, ?_, rfl⟩
        simp [books, release, hdata, RingBuffer.pushOrGrow_spec hpush]
      · refine .inr ⟨_, _, rfl, ?_, ?_⟩
        · simp [books, release, hdata]
        · simp [books, release]
    · rename_i hdata
      refine .inl ⟨_, ?_, rfl⟩
      simp [books, release, hdata]

/-- A slice that is fetched without an error is settled. -/
theorem fetchCompletedTasks_ok {l l' : TaskLoop} {cqes : List Cqe}
    (h : l.fetchCompletedTasks alloc cqes = (.ok (), l')) : l'.books = l.books.settleAll cqes := by
  induction cqes generalizing l with
  | nil =>
    obtain rfl := (Prod.mk.inj h).2
    rfl
  | cons cqe cqes ih =>
    rw [Books.settleAll_cons]
    obtain ⟨m, hbooks, heq⟩ | ⟨e, m, heq, -⟩ := fetchCompletedTasks_cons l cqe cqes
    · rw [ih (heq.symm.trans h), hbooks]
    · exact nomatch (Prod.mk.inj (heq.symm.trans h)).1

/-- A slice that is not fetched to its end has fewer callbacks queued than it has completions to
settle, and no more tasks released. -/
theorem fetchCompletedTasks_error {l l' : TaskLoop} {cqes : List Cqe} {e : PollError}
    (h : l.fetchCompletedTasks alloc cqes = (.error e, l')) :
    l'.books.queued.length < (l.books.settleAll cqes).queued.length ∧
      l'.books.released.length ≤ (l.books.settleAll cqes).released.length := by
  induction cqes generalizing l with
  | nil => exact nomatch (Prod.mk.inj h).1
  | cons cqe cqes ih =>
    rw [Books.settleAll_cons]
    obtain ⟨m, hbooks, heq⟩ | ⟨e', m, heq, hqueued, hreleased⟩ :=
      fetchCompletedTasks_cons l cqe cqes
    · rw [← hbooks]
      exact ih (heq.symm.trans h)
    · obtain ⟨-, rfl⟩ := Prod.mk.inj (heq.symm.trans h)
      refine ⟨lt_of_lt_of_le hqueued (Books.length_queued_settleAll _ cqes), ?_⟩
      rw [Books.length_released_settleAll, hreleased]
      exact Nat.le_add_right _ _

/-- Completions that are dropped and completions that are fetched come out right together exactly when
none of the former belongs to a task and the latter are all fetched. -/
theorem books_fetch_iff (l : TaskLoop) (dropped cqes : List Cqe) :
    (l.fetchCompletedTasks alloc cqes).2.books = l.books.settleAll (dropped ++ cqes) ↔
      (∀ cqe ∈ dropped, ¬ cqe.IsTask) ∧ (l.fetchCompletedTasks alloc cqes).1 = .ok () := by
  have hcount := (l.books.settleAll dropped).length_released_settleAll cqes
  rw [← Books.settleAll_append] at hcount
  constructor
  · intro h
    have hdropped : ∀ cqe ∈ dropped, ¬ cqe.IsTask := by
      -- a dropped task is one that is never released
      have hle : (l.fetchCompletedTasks alloc cqes).2.books.released.length ≤
          (l.books.settleAll cqes).released.length := by
        rcases hf : l.fetchCompletedTasks alloc cqes with ⟨r, l'⟩
        cases r with
        | ok => rw [fetchCompletedTasks_ok hf]
        | error e => exact (fetchCompletedTasks_error hf).2
      have h₁ := l.books.length_released_settleAll dropped
      have h₂ := l.books.length_released_settleAll cqes
      rw [h] at hle
      have hzero : dropped.countP (fun cqe => decide cqe.IsTask) = 0 := by omega
      simpa using hzero
    refine ⟨hdropped, ?_⟩
    rcases hf : l.fetchCompletedTasks alloc cqes with ⟨r, l'⟩
    cases r with
    | ok => rfl
    | error e =>
      have hlt := (fetchCompletedTasks_error hf).1
      rw [Books.settleAll_append, Books.settleAll_of_not_isTask _ hdropped, hf] at h
      rw [← h] at hlt
      exact absurd hlt (Nat.lt_irrefl _)
  · rintro ⟨hdropped, hok⟩
    rcases hf : l.fetchCompletedTasks alloc cqes with ⟨r, l'⟩
    rw [hf] at hok
    obtain rfl : r = .ok () := hok
    rw [Books.settleAll_append, Books.settleAll_of_not_isTask _ hdropped]
    exact fetchCompletedTasks_ok hf

end TaskLoop

/-! ### What a poll copies -/

/-- What a sequence of looks at the ring takes off it: the completions that are dropped and those that
are handed on, with the ring behind. -/
structure Looks where
  dropped : List Cqe
  kept : List Cqe
  ring : Ring

/-- A Python exception behind the park throws away what was kept. -/
def Looks.dropIf (looks : Looks) (raises : Bool) : Looks :=
  if raises then ⟨looks.dropped ++ looks.kept, [], looks.ring⟩ else looks

namespace Ring

/-- The looks of a parked poll after one that found `cqes`: while they fill the buffer the next look
overwrites them, and an error throws them away. -/
def drainLooks (r : Ring) (len : ℕ) (cqes : List Cqe) : Looks :=
  if cqes ≠ [] ∧ cqes.length = len then
    match _h : r.copyUninterrupted len 0 with
    | (.error _, r') => ⟨cqes, [], r'⟩
    | (.ok [], r') => ⟨[], cqes, r'⟩
    | (.ok (cqe :: more), r') =>
      let later := r'.drainLooks len (cqe :: more)
      ⟨cqes ++ later.dropped, later.kept, later.ring⟩
  else ⟨[], cqes, r⟩
termination_by r.fuel
decreasing_by exact copyUninterrupted_fuel _h (List.cons_ne_nil _ _)

/-- One look that can fail. -/
def look : Except CopyError (List Cqe) × Ring → Looks
  | (.error _, r) => ⟨[], [], r⟩
  | (.ok cqes, r) => ⟨[], cqes, r⟩

/-- The looks of a parked poll. -/
def parkLooks (r : Ring) (len waitNr : ℕ) : Looks :=
  match r.copyUninterrupted len 0 with
  | (.error _, r') => ⟨[], [], r'⟩
  | (.ok [], r') => look (r'.copyUninterrupted len waitNr)
  | (.ok (cqe :: more), r') => r'.drainLooks len (cqe :: more)

/-- The looks of the final loop, which hands over each batch before it looks again. -/
def harvest (r : Ring) (len : ℕ) (cqes : List Cqe) : List Cqe :=
  if cqes ≠ [] ∧ cqes.length = len then
    match _h : r.copyEintrSafe len with
    | (.ok (cqe :: more), r') => cqes ++ r'.harvest len (cqe :: more)
    | _ => cqes
  else cqes
termination_by r.fuel
decreasing_by exact copyEintrSafe_fuel _h (List.cons_ne_nil _ _)

end Ring

namespace Poll

variable {σ : Type*}

theorem store_eq_ok {p p' : Poll σ} {result : Except CopyError (List Cqe) × Ring} {n : ℕ}
    (h : p.store result = (.ok n, p')) :
    ∃ cqes, result = (.ok cqes, p'.ring) ∧ n = cqes.length ∧ p'.buffer.take n = cqes ∧
      p'.loop = p.loop ∧ p'.copied = p.copied ++ cqes := by
  unfold store at h
  split at h
  · exact nomatch (Prod.mk.inj h).1
  · rename_i cqes ring
    obtain ⟨hn, rfl⟩ := Prod.mk.inj h
    obtain rfl := Except.ok.inj hn
    exact ⟨cqes, rfl, rfl, List.take_left' rfl, rfl, rfl⟩

theorem store_eq_error {p p' : Poll σ} {result : Except CopyError (List Cqe) × Ring}
    {e : CopyError} (h : p.store result = (.error e, p')) :
    result = (.error e, p'.ring) ∧ p' = { p with ring := p'.ring } := by
  unfold store at h
  split at h
  · rename_i e' ring
    obtain ⟨he, rfl⟩ := Prod.mk.inj h
    obtain rfl := Except.error.inj he
    exact ⟨rfl, rfl⟩
  · exact nomatch (Prod.mk.inj h).1

/-- The poll `p'` is past some looks of `p`, which had copied `pre` before them. -/
structure After (p : Poll σ) (pre : List Cqe) (looks : Looks) (p' : Poll σ) : Prop where
  copied : p'.copied = pre ++ looks.dropped ++ looks.kept
  loop : p'.loop = p.loop
  buffer : p'.buffer.length = p.buffer.length
  ring : p'.ring = looks.ring

/-- The buffer holds the completions kept, unless there was an error, which keeps none. -/
def Kept (looks : Looks) (n : ℕ) (failed : Prop) (p' : Poll σ) : Prop :=
  (failed ∧ looks.kept = []) ∨
    (¬ failed ∧ n = looks.kept.length ∧ p'.buffer.take n = looks.kept)

theorem after_drainFull {n m : ℕ} {err : Option CopyError} {p p' : Poll σ} {pre cqes : List Cqe}
    (h : drainFull n p = (m, err, p')) (hcopied : p.copied = pre ++ cqes) (hn : n = cqes.length)
    (htake : p.buffer.take n = cqes) (hne : cqes ≠ []) :
    After p pre (p.ring.drainLooks p.buffer.length cqes) p' ∧
      Kept (p.ring.drainLooks p.buffer.length cqes) m (err ≠ none) p' ∧ 0 < m := by
  have hpos : 0 < cqes.length := List.length_pos_iff.2 hne
  fun_induction drainFull n p generalizing pre cqes with
  | case1 n p hfull e q heq =>
    obtain ⟨rfl, h₂⟩ := Prod.mk.inj h
    obtain ⟨rfl, rfl⟩ := Prod.mk.inj h₂
    obtain ⟨hresult, hq⟩ := store_eq_error heq
    have hlooks : p.ring.drainLooks p.buffer.length cqes = ⟨cqes, [], q.ring⟩ := by
      rw [Ring.drainLooks, if_pos ⟨hne, hn.symm.trans hfull.2⟩]
      split
      all_goals
        rename_i heq'
        rw [hresult] at heq'
        cases heq'
      rfl
    rw [hlooks]
    refine ⟨⟨?_, ?_, ?_, rfl⟩, .inl ⟨Option.some_ne_none _, rfl⟩, by omega⟩
    · rw [hq, List.append_nil]
      exact hcopied
    · rw [hq]
    · rw [hq]
  | case2 n p hfull q heq =>
    obtain ⟨rfl, h₂⟩ := Prod.mk.inj h
    obtain ⟨rfl, rfl⟩ := Prod.mk.inj h₂
    have hc := copied_copyUninterrupted heq
    obtain ⟨more, hresult, hmore, -, hloop, hcop⟩ := store_eq_ok heq
    obtain rfl := List.length_eq_zero_iff.1 hmore.symm
    have hlooks : p.ring.drainLooks p.buffer.length cqes = ⟨[], cqes, q.ring⟩ := by
      rw [Ring.drainLooks, if_pos ⟨hne, hn.symm.trans hfull.2⟩]
      split
      all_goals
        rename_i heq'
        rw [hresult] at heq'
        cases heq'
      rfl
    rw [hlooks]
    refine ⟨⟨?_, hloop, hc.buffer, rfl⟩, .inr ⟨fun hn => hn rfl, hn, ?_⟩, by omega⟩
    · rw [hcop, hcopied]
      simp
    · rw [hc.keep rfl]
      exact htake
  | case3 n p hfull k q heq ih =>
    have hc := copied_copyUninterrupted heq
    obtain ⟨more, hresult, hmore, htake', hloop, hcop⟩ := store_eq_ok heq
    obtain ⟨cqe, rest, rfl⟩ : ∃ cqe rest, more = cqe :: rest := by
      refine List.exists_cons_of_ne_nil ?_
      rintro rfl
      cases hmore
    have hlooks : p.ring.drainLooks p.buffer.length cqes =
        ⟨cqes ++ (q.ring.drainLooks p.buffer.length (cqe :: rest)).dropped,
          (q.ring.drainLooks p.buffer.length (cqe :: rest)).kept,
          (q.ring.drainLooks p.buffer.length (cqe :: rest)).ring⟩ := by
      rw [Ring.drainLooks, if_pos ⟨hne, hn.symm.trans hfull.2⟩]
      split
      all_goals
        rename_i heq'
        rw [hresult] at heq'
        cases heq'
      rfl
    have hpre : q.copied = (pre ++ cqes) ++ (cqe :: rest) := by rw [hcop, hcopied]
    obtain ⟨hafter, hkept, hm⟩ :=
      ih h hpre hmore htake' (List.cons_ne_nil _ _) (Nat.succ_pos _)
    rw [hc.buffer] at hafter hkept
    rw [hlooks]
    refine ⟨⟨?_, hafter.loop.trans hloop, hafter.buffer.trans hc.buffer, hafter.ring⟩, hkept, hm⟩
    rw [hafter.copied]
    simp
  | case4 n p hfull =>
    obtain ⟨rfl, h₂⟩ := Prod.mk.inj h
    obtain ⟨rfl, rfl⟩ := Prod.mk.inj h₂
    have hlooks : p.ring.drainLooks p.buffer.length cqes = ⟨[], cqes, p.ring⟩ := by
      rw [Ring.drainLooks, if_neg]
      rintro ⟨-, hlen⟩
      exact hfull ⟨by omega, by omega⟩
    rw [hlooks]
    refine ⟨⟨?_, rfl, rfl, rfl⟩, .inr ⟨fun hn => hn rfl, hn, htake⟩, by omega⟩
    rw [List.append_nil]
    exact hcopied

theorem after_look {p p' : Poll σ} {result : Except CopyError (List Cqe) × Ring} {pre : List Cqe}
    {m : ℕ} {err : Option CopyError} (hcopied : p.copied = pre)
    (hle : ∀ cqes ring, result = (.ok cqes, ring) → cqes.length ≤ p.buffer.length)
    (h : (match p.store result with
      | (.error e, p) => (0, some e, p)
      | (.ok n, p) => (n, none, p)) = (m, err, p')) :
    After p pre (Ring.look result) p' ∧ Kept (Ring.look result) m (err ≠ none) p' := by
  split at h
  · rename_i e q heq
    obtain ⟨-, h₂⟩ := Prod.mk.inj h
    obtain ⟨rfl, rfl⟩ := Prod.mk.inj h₂
    obtain ⟨hresult, hq⟩ := store_eq_error heq
    rw [hresult]
    refine ⟨⟨?_, by rw [hq], by rw [hq], rfl⟩, .inl ⟨Option.some_ne_none _, rfl⟩⟩
    rw [hq]
    simpa [Ring.look] using hcopied
  · rename_i n q heq
    obtain ⟨rfl, h₂⟩ := Prod.mk.inj h
    obtain ⟨rfl, rfl⟩ := Prod.mk.inj h₂
    have hc := copied_store hle heq
    obtain ⟨cqes, hresult, hn, htake, hloop, hcop⟩ := store_eq_ok heq
    rw [hresult]
    refine ⟨⟨?_, hloop, hc.buffer, rfl⟩, .inr ⟨fun hn => hn rfl, hn, htake⟩⟩
    rw [hcop, hcopied]
    simp [Ring.look]

/-- The number of completions the wait of a parked poll asks for. -/
def waitNr (env : PollEnv σ) : ℕ := if env.watchdogQueued && env.submitOk then 1 else 0

theorem after_waitIfEmpty {env : PollEnv σ} {p p' : Poll σ} {m : ℕ} {err : Option CopyError}
    (h : waitIfEmpty env (drain p) = (m, err, p')) (hcopied : p.copied = []) :
    After p [] (p.ring.parkLooks p.buffer.length (waitNr env)) p' ∧
      Kept (p.ring.parkLooks p.buffer.length (waitNr env)) m (err ≠ none) p' := by
  unfold drain at h
  split at h
  · rename_i e q heq
    obtain ⟨hresult, hq⟩ := store_eq_error heq
    obtain ⟨-, h₂⟩ := Prod.mk.inj (show ((0, some e, q) : ℕ × Option CopyError × Poll σ) = _ from h)
    obtain ⟨rfl, rfl⟩ := Prod.mk.inj h₂
    rw [Ring.parkLooks, hresult]
    refine ⟨⟨?_, by rw [hq], by rw [hq], rfl⟩, .inl ⟨Option.some_ne_none _, rfl⟩⟩
    rw [hq]
    exact hcopied
  · rename_i n q heq
    have hc := copied_copyUninterrupted heq
    obtain ⟨cqes, hresult, hn, htake, hloop, hcop⟩ := store_eq_ok heq
    rw [Ring.parkLooks, hresult]
    cases cqes with
    | nil =>
      -- the ring is empty: nothing was copied, and the poll waits
      obtain rfl : n = 0 := hn
      have hdrain : drainFull 0 q = (0, none, q) := by
        rw [drainFull, if_neg]
        rintro ⟨hpos, -⟩
        exact absurd hpos (Nat.lt_irrefl 0)
      rw [hdrain] at h
      have hq : q.copied = [] := by rw [hcop, hcopied, List.append_nil]
      obtain ⟨hafter, hkept⟩ := after_look hq
        (fun _ _ heq' => Ring.copyUninterrupted_length heq') h
      rw [hc.buffer] at hafter hkept
      exact ⟨⟨hafter.copied, hafter.loop.trans hloop, hafter.buffer.trans hc.buffer, hafter.ring⟩,
        hkept⟩
    | cons cqe more =>
      rw [hcopied, List.nil_append] at hcop
      rcases hd : drainFull n q with ⟨m', err', p₂⟩
      rw [hd] at h
      obtain ⟨hafter, hkept, hm⟩ :=
        after_drainFull hd (show q.copied = [] ++ (cqe :: more) from hcop) hn htake
          (List.cons_ne_nil _ _)
      have hsame : ((m', err', p₂) : ℕ × Option CopyError × Poll σ) = (m, err, p') := by
        rw [← h, waitIfEmpty]
        rintro p₃ heq'
        have hzero := (Prod.mk.inj heq').1
        omega
      obtain ⟨rfl, h₂⟩ := Prod.mk.inj hsame
      obtain ⟨rfl, rfl⟩ := Prod.mk.inj h₂
      rw [hc.buffer] at hafter hkept
      exact ⟨⟨hafter.copied, hafter.loop.trans hloop, hafter.buffer.trans hc.buffer, hafter.ring⟩,
        hkept⟩

/-- The looks of a poll up to its final loop. -/
def firstLooks (env : PollEnv σ) (parked : Bool) (r : Ring) (len : ℕ) : Looks :=
  if parked then (r.parkLooks len (waitNr env)).dropIf env.raises
  else
    match env.flushError with
    | some _ => ⟨[], [], r⟩
    | none => Ring.look (r.copyEintrSafe len)

/-- The loop as the poll finds it: other threads change it while the poll is parked. -/
def foundLoop (env : PollEnv σ) (parked : Bool) (l : σ) : σ := if parked then env.others l else l

/-- The buffer holds the completions kept, unless the poll ends here with an error. -/
def Hands (looks : Looks) (result : Except PollError ℕ) (p' : Poll σ) : Prop :=
  match result with
  | .error _ => looks.kept = []
  | .ok n => n = looks.kept.length ∧ p'.buffer.take n = looks.kept

theorem after_park {env : PollEnv σ} {p p' : Poll σ} {result : Except PollError ℕ}
    (h : park env p = (result, p')) (hcopied : p.copied = []) :
    After { p with loop := env.others p.loop } []
        ((p.ring.parkLooks p.buffer.length (waitNr env)).dropIf env.raises) p' ∧
      Hands ((p.ring.parkLooks p.buffer.length (waitNr env)).dropIf env.raises) result p' := by
  rw [park] at h
  rcases hw : waitIfEmpty env (drain { p with loop := env.others p.loop }) with ⟨m, err, q⟩
  rw [hw] at h
  obtain ⟨hafter, hkept⟩ := after_waitIfEmpty hw hcopied
  simp only [checkPark] at h
  split at h
  · rename_i hraises
    obtain ⟨rfl, rfl⟩ := Prod.mk.inj h
    rw [Looks.dropIf, if_pos hraises]
    refine ⟨⟨?_, hafter.loop, hafter.buffer, hafter.ring⟩, rfl⟩
    rw [hafter.copied]
    simp
  · rename_i hraises
    rw [Looks.dropIf, if_neg hraises]
    split at h
    · obtain ⟨rfl, rfl⟩ := Prod.mk.inj h
      refine ⟨hafter, ?_⟩
      rcases hkept with ⟨-, hempty⟩ | ⟨hfailed, -⟩
      · exact hempty
      · exact absurd (Option.some_ne_none _) hfailed
    · obtain ⟨rfl, rfl⟩ := Prod.mk.inj h
      refine ⟨hafter, ?_⟩
      rcases hkept with ⟨hfailed, -⟩ | ⟨-, hkept⟩
      · exact absurd rfl hfailed
      · exact hkept

theorem after_peek {env : PollEnv σ} {p p' : Poll σ} {result : Except PollError ℕ}
    (h : peek env p = (result, p')) (hcopied : p.copied = []) :
    After p [] (firstLooks env false p.ring p.buffer.length) p' ∧
      Hands (firstLooks env false p.ring p.buffer.length) result p' := by
  simp only [firstLooks, Bool.false_eq_true, if_false]
  unfold peek at h
  cases hflush : env.flushError with
  | some code =>
    rw [hflush] at h
    obtain ⟨rfl, rfl⟩ := Prod.mk.inj h
    exact ⟨⟨hcopied, rfl, rfl, rfl⟩, rfl⟩
  | none =>
    rw [hflush] at h
    dsimp only at h ⊢
    split at h
    · rename_i e q heq
      obtain ⟨rfl, rfl⟩ := Prod.mk.inj h
      obtain ⟨hresult, hq⟩ := store_eq_error heq
      rw [hresult]
      refine ⟨⟨?_, by rw [hq], by rw [hq], rfl⟩, rfl⟩
      rw [hq]
      exact hcopied
    · rename_i n q heq
      obtain ⟨rfl, rfl⟩ := Prod.mk.inj h
      have hc := copied_copyEintrSafe heq
      obtain ⟨cqes, hresult, hn, htake, hloop, hcop⟩ := store_eq_ok heq
      rw [hresult]
      refine ⟨⟨?_, hloop, hc.buffer, rfl⟩, hn, htake⟩
      rw [hcop, hcopied]
      simp [Ring.look]

end Poll

/-! ### The final loop -/

namespace Ring

theorem exists_harvest_eq (r : Ring) (len : ℕ) (cqes : List Cqe) :
    ∃ more, r.harvest len cqes = cqes ++ more := by
  unfold harvest
  split
  · split
    · exact ⟨_, rfl⟩
    · exact ⟨[], (List.append_nil _).symm⟩
  · exact ⟨[], (List.append_nil _).symm⟩

/-- The final loop ends after a batch that does not fill the buffer. -/
theorem harvest_of_length_ne (r : Ring) {len : ℕ} {cqes : List Cqe} (h : cqes.length ≠ len) :
    r.harvest len cqes = cqes := by
  rw [harvest, if_neg fun hfull => h hfull.2]

/-- The final loop ends when a look at the ring finds nothing or fails. -/
theorem harvest_of_end {r r' : Ring} {len : ℕ} {cqes : List Cqe}
    {result : Except CopyError (List Cqe)} (h : r.copyEintrSafe len = (result, r'))
    (hend : ∀ cqe more, result ≠ .ok (cqe :: more)) : r.harvest len cqes = cqes := by
  unfold harvest
  split
  · split
    · rename_i cqe more r'' heq
      rw [h] at heq
      exact absurd (Prod.mk.inj heq).1 (hend cqe more)
    · rfl
  · rfl

theorem harvest_of_cons {r r' : Ring} {len : ℕ} {cqes more : List Cqe} {cqe : Cqe}
    (h : r.copyEintrSafe len = (.ok (cqe :: more), r')) (hne : cqes ≠ []) (hlen : cqes.length = len) :
    r.harvest len cqes = cqes ++ r'.harvest len (cqe :: more) := by
  rw [harvest, if_pos ⟨hne, hlen⟩]
  split
  · rename_i heq
    rw [h] at heq
    cases heq
    rfl
  · rename_i hother
    exact absurd h (hother cqe more r')

end Ring

namespace Poll

variable {alloc : ℕ → Option (ℕ → ℕ × ℤ)}

/-- The final loop fetches what is in the buffer and the batches behind it, up to the first that
cannot be fetched. -/
theorem fetchBatches_fetch {n : ℕ} {p p' : Poll TaskLoop} {result : Except PollError Unit}
    {cqes : List Cqe}
    (h : fetchBatches (TaskLoop.fetchCompletedTasks alloc) n p = (result, p'))
    (hn : n = cqes.length) (htake : p.buffer.take n = cqes) :
    ∃ more, p'.copied = p.copied ++ more ∧
      p'.loop = (p.loop.fetchCompletedTasks alloc (cqes ++ more)).2 ∧
      (p.loop.fetchCompletedTasks alloc (cqes ++ more)).1 =
        (p.loop.fetchCompletedTasks alloc (p.ring.harvest p.buffer.length cqes)).1 := by
  fun_induction fetchBatches (TaskLoop.fetchCompletedTasks alloc) n p generalizing cqes with
  | case1 n p hpos e loop hfetch =>
    obtain ⟨-, rfl⟩ := Prod.mk.inj h
    rw [htake] at hfetch
    obtain ⟨more, hmore⟩ := p.ring.exists_harvest_eq p.buffer.length cqes
    refine ⟨[], (List.append_nil _).symm, ?_, ?_⟩
    · rw [List.append_nil, hfetch]
    · rw [hmore, List.append_nil, TaskLoop.fetchCompletedTasks_append, hfetch]
  | case2 p loop e q' hpos hfetch q =>
    rename_i heq
    obtain ⟨-, rfl⟩ := Prod.mk.inj h
    rw [htake] at hfetch
    obtain ⟨hresult, hq⟩ := store_eq_error heq
    refine ⟨[], ?_, ?_, ?_⟩
    · rw [hq, List.append_nil]
    · rw [hq, List.append_nil, hfetch]
    · rw [List.append_nil, Ring.harvest_of_end hresult (by simp)]
  | case3 p loop q' hpos hfetch q =>
    rename_i heq
    obtain ⟨-, rfl⟩ := Prod.mk.inj h
    rw [htake] at hfetch
    obtain ⟨more, hresult, hmore, -, hloop, hcop⟩ := store_eq_ok heq
    obtain rfl := List.length_eq_zero_iff.1 hmore.symm
    refine ⟨[], ?_, ?_, ?_⟩
    · rw [hcop]
    · rw [hloop, List.append_nil, hfetch]
    · rw [List.append_nil, Ring.harvest_of_end hresult (by simp)]
  | case4 p loop k q' hpos hfetch q heq =>
    rename_i ih
    rw [htake] at hfetch
    have hc := copied_copyEintrSafe heq
    obtain ⟨batch, hresult, hbatch, htake', hloop, hcop⟩ := store_eq_ok heq
    obtain ⟨more, hcopied, hfetched, hsame⟩ := ih h hbatch htake'
    obtain ⟨cqe, rest, rfl⟩ : ∃ cqe rest, batch = cqe :: rest := by
      refine List.exists_cons_of_ne_nil ?_
      rintro rfl
      cases hbatch
    have hne : cqes ≠ [] := by
      rintro rfl
      exact absurd hn (by simp only [List.length_nil]; omega)
    rw [hc.buffer] at hsame
    rw [hloop] at hfetched hsame
    have hrest : ∀ ys, p.loop.fetchCompletedTasks alloc (cqes ++ ys) =
        loop.fetchCompletedTasks alloc ys := by
      intro ys
      rw [TaskLoop.fetchCompletedTasks_append, hfetch]
    refine ⟨(cqe :: rest) ++ more, ?_, ?_, ?_⟩
    · rw [hcopied, hcop, List.append_assoc]
    · rw [hrest]
      exact hfetched
    · rw [hrest, Ring.harvest_of_cons hresult hne hn.symm, hrest]
      exact hsame
  | case5 n p hpos loop hfetch q =>
    rename_i hfull
    obtain ⟨-, rfl⟩ := Prod.mk.inj h
    rw [htake] at hfetch
    refine ⟨[], (List.append_nil _).symm, ?_, ?_⟩
    · rw [List.append_nil, hfetch]
    · rw [List.append_nil, Ring.harvest_of_length_ne _ (hn ▸ hfull)]
  | case6 n p hpos =>
    obtain ⟨-, rfl⟩ := Prod.mk.inj h
    obtain rfl : cqes = [] := List.length_eq_zero_iff.1 (by omega)
    refine ⟨[], (List.append_nil _).symm, rfl, ?_⟩
    obtain hharvest : p.ring.harvest p.buffer.length [] = [] := by
      rw [Ring.harvest, if_neg fun hfull => hfull.1 rfl]
    rw [hharvest]
    rfl

/-- The books of the poll are those it found, with every completion it copied settled: each has its
callback queued, and its task and its reserved slot released once. -/
def Accounted (found : Books) (p : Poll TaskLoop) : Prop := p.loop.books = found.settleAll p.copied

/-- What a poll copies and what it fetches of it. -/
theorem poll_copies {env : PollEnv TaskLoop} {wait : Bool} {p p' : Poll TaskLoop}
    {result : Except PollError Unit} (hcopied : p.copied = [])
    (h : pollBlockingEvents (TaskLoop.fetchCompletedTasks alloc) TaskLoop.readyQueueEmpty env wait p =
      (result, p')) (parked : Bool) (hparked : parked = (wait && p.loop.readyQueueEmpty))
    (looks : Looks) (hlooks : looks = firstLooks env parked p.ring p.buffer.length)
    (found : TaskLoop) (hfound : found = foundLoop env parked p.loop) :
    ∃ more, p'.copied = looks.dropped ++ (looks.kept ++ more) ∧
      p'.loop = (found.fetchCompletedTasks alloc (looks.kept ++ more)).2 ∧
      (found.fetchCompletedTasks alloc (looks.kept ++ more)).1 =
        (found.fetchCompletedTasks alloc (looks.ring.harvest p.buffer.length looks.kept)).1 := by
  have hfirst : ∃ r₁ p₁, (if parked then park env p else peek env p) = (r₁, p₁) ∧
      After { p with loop := found } [] looks p₁ ∧ Hands looks r₁ p₁ := by
    rcases hpart : (if parked then park env p else peek env p) with ⟨r₁, p₁⟩
    refine ⟨r₁, p₁, rfl, ?_⟩
    cases parked with
    | true =>
      subst hlooks hfound
      exact after_park hpart hcopied
    | false =>
      subst hlooks hfound
      exact after_peek hpart hcopied
  obtain ⟨r₁, p₁, hpart, hafter, hhands⟩ := hfirst
  rw [pollBlockingEvents, ← hparked, hpart] at h
  cases r₁ with
  | error e =>
    obtain ⟨-, rfl⟩ := Prod.mk.inj h
    have hkept : looks.kept = [] := hhands
    have hharvest : looks.ring.harvest p.buffer.length [] = [] := by
      rw [Ring.harvest, if_neg fun hfull => hfull.1 rfl]
    refine ⟨[], ?_, ?_, ?_⟩
    · rw [hafter.copied]
      simp
    · rw [hafter.loop, hkept]
      rfl
    · rw [hkept, hharvest]
      rfl
  | ok n =>
    obtain ⟨hn, htake⟩ := (hhands : n = looks.kept.length ∧ p₁.buffer.take n = looks.kept)
    obtain ⟨more, hcop, hloop, hsame⟩ := fetchBatches_fetch h hn htake
    rw [hafter.loop] at hloop hsame
    rw [hafter.buffer, hafter.ring] at hsame
    refine ⟨more, ?_, hloop, hsame⟩
    rw [hcop, hafter.copied]
    simp

/-- A loop with one task, at address 7, whose callback is number 9. -/
def oneTask : TaskLoop :=
  ⟨⟨fun _ => (0, 0), 1, 0, 0, ⟨0, rfl⟩, Nat.zero_le _, Nat.zero_le _⟩, fun u => if u = 7 then some 9 else none,
    1, []⟩

/-- A park that finds one completion, after which a Python signal handler raises. -/
theorem interrupted_park (cqe : Cqe) {buffer : List Cqe} (hlen : buffer.length = 1024) :
    pollBlockingEvents (TaskLoop.fetchCompletedTasks fun _ => none) TaskLoop.readyQueueEmpty
        ⟨none, true, true, true, false, id⟩ true ⟨oneTask, ⟨[cqe], []⟩, buffer, [], []⟩ =
      (.error .pythonError, ⟨oneTask, ⟨[], []⟩, cqe :: buffer.drop 1, [cqe], []⟩) := by
  have hcopy : (⟨oneTask, ⟨[cqe], []⟩, buffer, [], []⟩ : Poll TaskLoop).copyUninterrupted 0 =
      (.ok 1, ⟨oneTask, ⟨[], []⟩, cqe :: buffer.drop 1, [cqe], []⟩) := by
    rw [copyUninterrupted, Ring.copyUninterrupted_ready (List.cons_ne_nil _ _), hlen]
    rfl
  have hdrain : drain (⟨oneTask, ⟨[cqe], []⟩, buffer, [], []⟩ : Poll TaskLoop) =
      (1, none, ⟨oneTask, ⟨[], []⟩, cqe :: buffer.drop 1, [cqe], []⟩) := by
    rw [drain, hcopy]
    simp only
    rw [drainFull, if_neg]
    simp only [List.length_cons, List.length_drop, hlen]
    decide
  have hempty : (true && oneTask.readyQueueEmpty) = true := by decide
  rw [pollBlockingEvents, if_pos hempty, park]
  simp only [id_eq, hdrain]
  rfl

/-- The looks of that park: the completion is dropped. -/
theorem firstLooks_interrupted_park (cqe : Cqe) :
    firstLooks (⟨none, true, true, true, false, id⟩ : PollEnv TaskLoop) true ⟨[cqe], []⟩ 1024 =
      ⟨[cqe], [], ⟨[], []⟩⟩ := by
  rw [firstLooks, if_pos rfl, Ring.parkLooks, Ring.copyUninterrupted_ready (List.cons_ne_nil _ _)]
  simp only [List.take_succ_cons, List.take_nil, List.drop_succ_cons, List.drop_nil]
  rw [Ring.drainLooks, if_neg fun hfull => absurd hfull.2 (by simp)]
  rfl

/-- **A poll that fails.** Every completion it copied is accounted for exactly when none of those its
parked branch throws away (a full buffer that the next look overwrites or fails behind, and whatever
was found before a Python signal handler raised or while an exception was pending) belongs to a task, and the ready queue takes the
callbacks of all the others. -/
theorem failing_poll_drops_nothing (alloc : ℕ → Option (ℕ → ℕ × ℤ)) (env : PollEnv TaskLoop)
    (wait : Bool) {p p' : Poll TaskLoop} {e : PollError} (hlen : p.buffer.length = 1024)
    (hcopied : p.copied = [])
    (h : pollBlockingEvents (TaskLoop.fetchCompletedTasks alloc) TaskLoop.readyQueueEmpty env wait p =
      (.error e, p')) :
    let parked := wait && p.loop.readyQueueEmpty
    let looks := firstLooks env parked p.ring 1024
    let found := foundLoop env parked p.loop
    Accounted found.books p' ↔ (∀ cqe ∈ looks.dropped, ¬ cqe.IsTask) ∧
      (found.fetchCompletedTasks alloc (looks.ring.harvest 1024 looks.kept)).1 = .ok () := by
  intro parked looks found
  obtain ⟨more, hcop, hloop, hsame⟩ :=
    poll_copies hcopied h parked rfl looks (by rw [hlen]) found rfl
  rw [hlen] at hsame
  rw [Accounted, hloop, hcop, TaskLoop.books_fetch_iff, hsame]

/-- When what the park found is the watchdog, nothing is lost. -/
theorem failing_poll_drops_nothing_watchdog :
    ∃ buffer p', buffer.length = 1024 ∧
      pollBlockingEvents (TaskLoop.fetchCompletedTasks fun _ => none) TaskLoop.readyQueueEmpty
        ⟨none, true, true, true, false, id⟩ true ⟨oneTask, ⟨[⟨1, -62⟩], []⟩, buffer, [], []⟩ =
      (.error .pythonError, p') ∧ p'.copied = [⟨1, -62⟩] ∧ Accounted oneTask.books p' := by
  obtain ⟨buffer, hlen⟩ : ∃ buffer : List Cqe, buffer.length = 1024 :=
    ⟨List.replicate 1024 ⟨0, 0⟩, List.length_replicate⟩
  have h := interrupted_park ⟨1, -62⟩ hlen
  refine ⟨buffer, _, hlen, h, rfl, (failing_poll_drops_nothing _ _ _ hlen rfl h).2 ?_⟩
  show (∀ cqe ∈ (firstLooks _ true _ 1024).dropped, ¬ cqe.IsTask) ∧ _
  rw [firstLooks_interrupted_park]
  constructor
  · intro cqe hcqe
    obtain rfl := List.mem_singleton.1 hcqe
    decide
  · rw [Ring.harvest, if_neg fun hfull => hfull.1 rfl]
    rfl

/-- When it is the completion of a task, its callback is never queued and its slot never released. -/
theorem failing_poll_drops_task :
    ∃ buffer p', buffer.length = 1024 ∧
      pollBlockingEvents (TaskLoop.fetchCompletedTasks fun _ => none) TaskLoop.readyQueueEmpty
        ⟨none, true, true, true, false, id⟩ true ⟨oneTask, ⟨[⟨7, 1⟩], []⟩, buffer, [], []⟩ =
      (.error .pythonError, p') ∧ p'.copied = [⟨7, 1⟩] ∧ p'.ring.ready = [] ∧
      p'.loop.queue.contents = [] ∧ p'.loop.released = [] ∧ p'.loop.reservedSlots = 1 ∧
      ¬ Accounted oneTask.books p' := by
  obtain ⟨buffer, hlen⟩ : ∃ buffer : List Cqe, buffer.length = 1024 :=
    ⟨List.replicate 1024 ⟨0, 0⟩, List.length_replicate⟩
  refine ⟨buffer, _, hlen, interrupted_park ⟨7, 1⟩ hlen, rfl, rfl, rfl, rfl, rfl, ?_⟩
  intro haccounted
  have hreleased : ([] : List ℕ) = [7] := congrArg Books.released haccounted
  exact nomatch hreleased

end Poll

end Talyn
