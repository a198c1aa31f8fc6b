import Talyn.Loop.Queue

/-!
# Room in the submission queue

How many SQEs wait in the submission queue while operations are queued, queues are flushed and the loop
arms and cancels its watchdog. A call of `queue_unlocked` that leaves 1022 SQEs or more flushes them;
two SQEs are the most an operation takes. So a call that finds at most 1021 has room for its SQEs, and
leaves at most 1021 unless the flush fails.

What happens to the tasks between two calls is left open: any pool may take the place of the one there
is. The loop pushes and submits its watchdog while it holds no lock; nothing comes between the two here.
-/

namespace Talyn

namespace Io

variable {io io' : Io} {n : ℕ} {task : Option Task} {event : BlockingOperationData} {env : Env}

/-! ### Runs -/

/-- The timeout that bounds a wait of the loop (its `user_data` is no task). -/
def watchdogTimeout : Sqe := ⟨.timeout, none, -1, 100000000, false, false⟩

/-- The removal of that timeout. -/
def watchdogRemoval : Sqe := ⟨.timeoutRemove, none, -1, 0, false, false⟩

/-- What happens to the submission queue. -/
inductive Act
  /-- `queue_unlocked` -/
  | queue (event : BlockingOperationData) (env : Env)
  /-- `flush_pending_sqes` of the loop, a transport or the resolver -/
  | flush (env : Env)
  /-- `ring.timeout` and `ring.submit` of `poll_blocking_events`, before the wait -/
  | armWatchdog (env : Env)
  /-- `ring.timeout_remove` and `ring.submit`, after it -/
  | cancelWatchdog (env : Env)
  /-- `ring_blocked` is written -/
  | setBlocked (blocked : Bool)
  /-- completed tasks go back to their sets -/
  | harvest (pool : TaskPool)
  /-- the new ring of `ensure_ring_for_current_thread` -/
  | handoff (pool : TaskPool)

/-- An SQE of the loop itself, when there is room for it, and a submit. A submit that a signal
interrupts is not repeated. -/
def pushAndSubmit (io : Io) (sqe : Sqe) (env : Env) : Io :=
  { ((io.getSqe sqe).2.submitGuaranteed env).2 with ringHasSubmitted := true }

/-- One act; the loop has a ring while it runs, and a ring is replaced only before its first submit. -/
def step (io : Io) : Act → Option Io
  | .queue event env => some (io.queueUnlocked event env).2
  | .flush env => some (io.flushPendingSqes env).2
  | .armWatchdog env => if io.ringOpen then some (io.pushAndSubmit watchdogTimeout env) else none
  | .cancelWatchdog env => if io.ringOpen then some (io.pushAndSubmit watchdogRemoval env) else none
  | .setBlocked blocked => some { io with ringBlocked := blocked }
  | .harvest pool => some { io with pool := pool }
  | .handoff pool =>
    if io.ringHasSubmitted then none else some { io with pool := pool, sq := [], published := 0 }

/-- How many SQEs an act hands to `ring.submit`. -/
def submitted (io : Io) : Act → ℕ
  | .queue event _ => io.sq.length + sqes event.timeout
  | .flush _ => io.sq.length
  | .armWatchdog _ | .cancelWatchdog _ => min (io.sq.length + 1) io.sqEntries
  | _ => 0

/-- What `ring.submit` answers during an act. -/
def Act.submit : Act → Option (Except ℕ ℕ)
  | .queue _ env | .flush env | .armWatchdog env | .cancelWatchdog env => some env.submit
  | _ => none

/-- A submit that succeeds empties the queue. -/
def Empties (io : Io) (act : Act) : Prop := ∀ n, act.submit = some (.ok n) → n = io.submitted act

/-- The flush of a nearly full queue is made by `queue_unlocked` from that many SQEs on. -/
def threshold : ℕ := totalTasksItems - 2

/-- A submit of a nearly full queue succeeds. -/
def Drains (io : Io) (act : Act) : Prop :=
  ∀ errno, act.submit = some (.error errno) → io.submitted act < threshold

/-- `link_timeout` fails behind the SQE of the operation, which is taken back. -/
def RollsBack (io : Io) (event : BlockingOperationData) : Prop :=
  event.timeout.isSome = true ∧
    ∃ sqe link, (io.getSqe sqe).1 = .ok () ∧ ((io.getSqe sqe).2.getSqe link).1 ≠ .ok ()

/-- At most 1021 SQEs wait, so that no operation finds the queue full and none is taken back. -/
structure Roomy (io : Io) : Prop where
  pending : io.sq.length ≤ 1021
  notFull : ∀ event env, (io.queueUnlocked event env).1 ≠ .error .submissionQueueFull
  notRolledBack : ∀ event, ¬io.RollsBack event

/-! ### The SQEs of an operation -/

/-- What an operation does to the queue before the flush: it takes its SQEs, or the queue stays as it
was; it is full only when there is no room for all SQEs. -/
inductive Taken (io : Io) (n : ℕ) : Except Error (Option Task) × Io → Prop
  | queued {task : Option Task} {io' : Io} (hlength : io'.sq.length = io.sq.length + n)
      (hentries : io'.sqEntries = io.sqEntries) (hopen : io'.ringOpen = io.ringOpen) :
      Taken io n (.ok task, io')
  | failed {e : Error} {io' : Io} (hsq : io'.sq = io.sq) (hentries : io'.sqEntries = io.sqEntries)
      (hopen : io'.ringOpen = io.ringOpen)
      (hfull : e = .submissionQueueFull → io.sqEntries < io.sq.length + n) :
      Taken io n (.error e, io')

/-- The same of what comes after the task. -/
def TakesSqes (n : ℕ) (rest : Io → Task → Except Error Unit × Io) : Prop :=
  ∀ io task,
    (∃ io', rest io task = (.ok (), io') ∧ io'.sq.length = io.sq.length + n ∧
      io'.sqEntries = io.sqEntries ∧ io'.ringOpen = io.ringOpen) ∨
    ∃ e, rest io task = (.error e, io) ∧
      (e = .submissionQueueFull → io.sqEntries < io.sq.length + n)

theorem takesSqes_prepare (sqe : Task → Sqe) (timeout : Option ℕ) :
    TakesSqes (sqes timeout) fun io task => io.prepare (sqe task) timeout := by
  intro io task
  obtain ⟨-, new, hlength, heq⟩ | ⟨hfull, heq⟩ := prepare_cases io (sqe task) timeout
  · refine .inl ⟨_, heq, ?_, rfl, rfl⟩
    simp [hlength]
  · exact .inr ⟨_, heq, fun _ => hfull⟩

/-- A check before the SQE is prepared. -/
theorem TakesSqes.guard {rest : Io → Task → Except Error Unit × Io} (h : TakesSqes n rest) {c : Prop}
    [Decidable c] {e : Error} (he : e ≠ .submissionQueueFull) :
    TakesSqes n fun io task => if c then (.error e, io) else rest io task := by
  intro io task
  by_cases hc : c
  · simp only [if_pos hc]
    exact .inr ⟨e, rfl, fun heq => absurd heq he⟩
  · simp only [if_neg hc]
    exact h io task

theorem taken_withTask {rest : Io → Task → Except Error Unit × Io} (h : TakesSqes n rest) (io : Io)
    (set : ℕ) (callback : Option ℕ) : Taken io n (io.withTask set callback rest) := by
  unfold withTask
  split
  · exact .failed rfl rfl rfl nofun
  · exact .failed rfl rfl rfl nofun
  · rename_i slot pool _
    obtain ⟨io', heq, hlength, hentries, hopen⟩ | ⟨e, heq, hfull⟩ := h { io with pool := pool } (set, slot)
    · rw [heq]
      exact .queued hlength hentries hopen
    · rw [heq]
      exact .failed rfl rfl rfl hfull

theorem taken_cancel (io : Io) (opcode : Opcode) (fd : ℤ) (target : ℕ) :
    Taken io (sqes none) (io.cancel opcode fd target) := by
  unfold cancel
  obtain ⟨-, new, hlength, heq⟩ | ⟨hfull, heq⟩ :=
    prepare_cases io ⟨opcode, none, fd, target, false, false⟩ none
  · rw [heq]
    refine .queued ?_ rfl rfl
    simp [hlength]
  · rw [heq]
    exact .failed rfl rfl rfl fun _ => hfull

/-- Every operation takes one SQE, and a second one for its timeout. -/
theorem taken_perform (io : Io) (set : ℕ) (event : BlockingOperationData) (env : Env) :
    Taken io (sqes event.timeout) (io.perform set event env) := by
  have hplain : ∀ sqe : Task → Sqe, ∀ timeout callback, Taken io (sqes timeout)
      (io.withTask set callback fun io task => io.prepare (sqe task) timeout) :=
    fun sqe timeout callback => taken_withTask (takesSqes_prepare sqe timeout) io set callback
  have hwait : ∀ data events, Taken io (sqes data.timeout) (io.waitReady set data events) := by
    intro data events
    unfold waitReady
    exact hplain _ data.timeout _
  have hmessage : ∀ data opcode, Taken io (sqes none) (io.message set data opcode) := by
    intro data opcode
    refine taken_withTask (fun io task => ?_) io set _
    obtain ⟨io', heq, hlength, hentries, hopen⟩ | ⟨e, heq, hfull⟩ :=
      takesSqes_prepare (fun task => ⟨opcode, some task, fdArg data.fd data.fixedFileIndex, data.payload,
        data.fixedFileIndex.isSome, false⟩) none io task
    · dsimp only at heq ⊢
      rw [heq]
      exact .inl ⟨_, rfl, hlength, hentries, hopen⟩
    · dsimp only at heq ⊢
      rw [heq]
      exact .inr ⟨_, rfl, hfull⟩
  have hsocket : ∀ callback opcode fd payload,
      Taken io (sqes none) (io.socket set callback opcode fd payload) := by
    intro callback opcode fd payload
    unfold socket
    exact hplain _ none _
  cases event with
  | waitReadable data => exact hwait data pollIn
  | waitWritable data => exact hwait data pollOut
  | performRead data =>
    show Taken io (sqes data.timeout) (io.readPerform set data)
    have hother : Error.notImplemented ≠ .submissionQueueFull := nofun
    unfold readPerform
    exact taken_withTask ((takesSqes_prepare _ data.timeout).guard hother) io set _
  | performWrite data =>
    show Taken io (sqes data.timeout) (io.writePerform set data)
    unfold writePerform
    exact hplain _ data.timeout _
  | performWriteV data =>
    show Taken io (sqes data.timeout) (io.performWithIovecs set data env)
    have hother : Error.outOfMemory ≠ .submissionQueueFull := nofun
    unfold performWithIovecs
    exact taken_withTask ((takesSqes_prepare _ data.timeout).guard hother) io set _
  | performRecvMsg data => exact hmessage data .recvmsg
  | performSendMsg data => exact hmessage data .sendmsg
  | waitTimer callback duration =>
    show Taken io (sqes none) (io.timerWait set callback duration)
    unfold timerWait
    exact hplain _ none _
  | cancelIo task => exact taken_cancel io .asyncCancel (-1) task
  | cancelTimer task => exact taken_cancel io .timeoutRemove (-1) task
  | cancelByFd fd => exact taken_cancel io .asyncCancel fd 0
  | socketShutdown fd how => exact hsocket none .shutdown fd how
  | socketConnect callback fd payload => exact hsocket (some callback) .connect fd payload
  | socketAccept callback fd payload => exact hsocket (some callback) .accept fd payload

/-! ### Flushes -/

/-- A submit empties the queue, or leaves it as it is and fails. -/
theorem submitGuaranteed_spec (io : Io) (hempties : ∀ n, env.submit = .ok n → n = io.sq.length) :
    (io.submitGuaranteed env).2.sqEntries = io.sqEntries ∧
      (io.submitGuaranteed env).2.ringOpen = io.ringOpen ∧
      ((io.submitGuaranteed env).2.sq = [] ∨
        (∃ errno, env.submit = .error errno) ∧ (io.submitGuaranteed env).2.sq = io.sq) := by
  unfold submitGuaranteed flushSq
  cases hsubmit : env.submit with
  | error errno => simp
  | ok n =>
    obtain rfl := hempties n hsubmit
    simp

theorem flushPendingSqes_spec (io : Io) (env : Env) (hempties : ∀ n, env.submit = .ok n → n = io.sq.length) :
    (io.flushPendingSqes env).2.sqEntries = io.sqEntries ∧
      (io.flushPendingSqes env).2.ringOpen = io.ringOpen ∧
      ((io.flushPendingSqes env).2.sq = [] ∨ (io.flushPendingSqes env).2.sq = io.sq ∧
        ((∃ errno, env.submit = .error errno) ∨ io.ringOpen = false)) := by
  obtain ⟨hentries, hring, hsq⟩ := submitGuaranteed_spec io hempties
  unfold flushPendingSqes
  by_cases hopen : io.ringOpen = true
  · by_cases hzero : io.sq.length = 0
    · simp [hopen, List.length_eq_zero_iff.1 hzero]
    · rw [hopen, Bool.not_true, if_neg Bool.false_ne_true, if_neg hzero]
      split <;>
      · rename_i heq
        rw [heq] at hentries hring hsq
        refine ⟨hentries, hring.trans hopen, ?_⟩
        obtain hsq | ⟨herror, hsq⟩ := hsq
        · exact .inl hsq
        · exact .inr ⟨hsq, .inl herror⟩
  · simp [hopen]

/-- An error of a flush is one of the kernel. -/
theorem flushPendingSqes_error {e : Error} (h : (io.flushPendingSqes env).1 = .error e) :
    ∃ errno, e = .enter errno := by
  unfold flushPendingSqes submitGuaranteed at h
  split_ifs at h
  cases hsubmit : env.submit with
  | error errno => exact ⟨errno, by simpa [hsubmit] using h.symm⟩
  | ok n => simp [hsubmit] at h

/-- The wake-up at the end of `queue_unlocked`. -/
def wakeIfBlocked (io : Io) (task : Option Task) (env : Env) : Except Error (Option Task) × Io :=
  if io.ringBlocked then
    match io.wakeupEventfd env with
    | (.error e, io) => (.error e, io)
    | (.ok (), io) => (.ok task, io)
  else (.ok task, io)

/-- It touches neither the queue nor the result. -/
theorem wakeIfBlocked_spec (io : Io) (task : Option Task) (env : Env) :
    (io.wakeIfBlocked task env).1 = .ok task ∧ (io.wakeIfBlocked task env).2.sq = io.sq ∧
      (io.wakeIfBlocked task env).2.sqEntries = io.sqEntries ∧
      (io.wakeIfBlocked task env).2.ringOpen = io.ringOpen := by
  cases hblocked : io.ringBlocked <;> cases hwakes : env.wakes <;>
    simp [wakeIfBlocked, wakeupEventfd, hblocked, hwakes]

/-- What comes behind the operation: the queue is flushed and the loop woken up, or the queue is not
nearly full and only the loop is woken up. -/
theorem flushAndWake_result (io : Io) (task : Option Task) (event : BlockingOperationData) (env : Env) :
    (∃ e, (io.flushPendingSqes env).1 = .error e ∧
        io.flushAndWake task event env = (.error e, (io.flushPendingSqes env).2)) ∨
      (∃ n, (io.flushPendingSqes env).1 = .ok n ∧
        io.flushAndWake task event env = (io.flushPendingSqes env).2.wakeIfBlocked task env) ∨
      (io.sq.length < threshold ∧ io.flushAndWake task event env = io.wakeIfBlocked task env) := by
  unfold flushAndWake
  dsimp only
  by_cases hflush :
      (event.isCancel || (!event.isCancel && decide (io.sq.length ≥ totalTasksItems - 2))) = true
  · rw [if_pos hflush]
    rcases hresult : io.flushPendingSqes env with ⟨e | n, v⟩
    · exact .inl ⟨e, rfl, rfl⟩
    · exact .inr (.inl ⟨n, rfl, rfl⟩)
  · rw [if_neg hflush]
    refine .inr (.inr ⟨?_, rfl⟩)
    cases hcancel : event.isCancel with
    | true => simp [hcancel] at hflush
    | false =>
      simp only [hcancel, threshold, Bool.false_or, Bool.not_false, Bool.true_and,
        decide_eq_true_eq] at hflush ⊢
      omega

/-- A call of `queue_unlocked`: nothing is put in the queue, or the SQEs of the operation are and what
comes behind follows. -/
theorem queueUnlocked_cases (io : Io) (event : BlockingOperationData) (env : Env) :
    ((io.queueUnlocked event env).2.sq = io.sq ∧ (io.queueUnlocked event env).2.sqEntries = io.sqEntries ∧
      (io.queueUnlocked event env).2.ringOpen = io.ringOpen ∧
      ∃ e, (io.queueUnlocked event env).1 = .error e ∧
        (e = .submissionQueueFull → io.sqEntries < io.sq.length + sqes event.timeout)) ∨
    ∃ (task : Option Task) (io' : Io), io'.sq.length = io.sq.length + sqes event.timeout ∧
      io'.sqEntries = io.sqEntries ∧ io.ringOpen = true ∧ io'.ringOpen = true ∧
      io.queueUnlocked event env = io'.flushAndWake task event env := by
  unfold queueUnlocked
  split
  · exact .inl ⟨rfl, rfl, rfl, _, rfl, nofun⟩
  rename_i hring
  have hring : io.ringOpen = true := by simpa using hring
  split
  · exact .inl ⟨rfl, rfl, rfl, _, rfl, nofun⟩
  · exact .inl ⟨rfl, rfl, rfl, _, rfl, nofun⟩
  · rename_i set pool _
    have htaken := taken_perform { io with pool := pool } set event env
    unfold queueWithSet
    generalize perform { io with pool := pool } set event env = result at htaken ⊢
    cases htaken with
    | queued hlength hentries hopen =>
      exact .inr ⟨_, _, hlength, hentries, hring, hopen.trans hring, rfl⟩
    | failed hsq hentries hopen hfull => exact .inl ⟨hsq, hentries, hopen, _, rfl, hfull⟩

/-- A call leaves the queue not longer than it was, or it has the SQEs of the operation as well: then
it was not nearly full, or the flush failed. -/
theorem queueUnlocked_spec (io : Io) (event : BlockingOperationData) (env : Env)
    (hempties : ∀ n, env.submit = .ok n → n = io.sq.length + sqes event.timeout) :
    (io.queueUnlocked event env).2.sqEntries = io.sqEntries ∧
      ((io.queueUnlocked event env).2.sq.length ≤ io.sq.length ∨
        (io.queueUnlocked event env).2.sq.length = io.sq.length + sqes event.timeout ∧
          ((∃ errno, env.submit = .error errno) ∨ io.sq.length + sqes event.timeout < threshold)) := by
  obtain ⟨hsq, hentries, -⟩ | ⟨task, io', hlength, hentries, -, hopen, heq⟩ :=
    queueUnlocked_cases io event env
  · exact ⟨hentries, .inl (by rw [hsq])⟩
  obtain ⟨hflushEntries, -, hflush⟩ := flushPendingSqes_spec io' env (hlength ▸ hempties)
  have hflushed : (io'.flushPendingSqes env).2.sq.length ≤ io.sq.length ∨
      (io'.flushPendingSqes env).2.sq.length = io.sq.length + sqes event.timeout ∧
        ∃ errno, env.submit = .error errno := by
    obtain hempty | ⟨hsame, herror | hclosed⟩ := hflush
    · exact .inl (by simp [hempty])
    · exact .inr ⟨hsame ▸ hlength, herror⟩
    · exact nomatch hclosed.symm.trans hopen
  rw [heq]
  obtain ⟨e, -, hresult⟩ | ⟨n, -, hresult⟩ | ⟨hfew, hresult⟩ := flushAndWake_result io' task event env
  · rw [hresult]
    exact ⟨hflushEntries.trans hentries, hflushed.imp_right fun h => ⟨h.1, .inl h.2⟩⟩
  · obtain ⟨-, hsq, hwakeEntries, -⟩ := wakeIfBlocked_spec (io'.flushPendingSqes env).2 task env
    rw [hresult, hsq, hwakeEntries]
    exact ⟨hflushEntries.trans hentries, hflushed.imp_right fun h => ⟨h.1, .inl h.2⟩⟩
  · obtain ⟨-, hsq, hwakeEntries, -⟩ := wakeIfBlocked_spec io' task env
    rw [hresult, hsq, hwakeEntries]
    exact ⟨hentries, .inr ⟨hlength, .inr (hlength ▸ hfew)⟩⟩

/-- An operation that finds the queue full had no room for its SQEs. -/
theorem full_of_queueUnlocked (h : (io.queueUnlocked event env).1 = .error .submissionQueueFull) :
    io.sqEntries < io.sq.length + sqes event.timeout := by
  obtain ⟨-, -, -, e, he, hfull⟩ | ⟨task, io', -, -, -, -, heq⟩ := queueUnlocked_cases io event env
  · exact hfull (Except.error.inj (he.symm.trans h))
  · rw [heq] at h
    obtain ⟨e, he, hflush⟩ | ⟨n, -, hwake⟩ | ⟨-, hwake⟩ := flushAndWake_result io' task event env
    · rw [hflush] at h
      obtain ⟨errno, rfl⟩ := flushPendingSqes_error he
      exact nomatch h
    · rw [hwake, (wakeIfBlocked_spec _ task env).1] at h
      exact nomatch h
    · rw [hwake, (wakeIfBlocked_spec _ task env).1] at h
      exact nomatch h

/-! ### Runs -/

/-- At most two SQEs. -/
theorem sqes_le (timeout : Option ℕ) : sqes timeout ≤ 2 := by
  unfold sqes
  split <;> decide

/-- Where there is room an SQE is had. -/
theorem getSqe_of_room (io : Io) (sqe : Sqe) (hroom : io.sq.length + 1 ≤ io.sqEntries) :
    io.getSqe sqe = (.ok (), { io with sq := io.sq ++ [sqe] }) := by
  unfold getSqe
  rw [if_neg (not_lt.2 hroom)]

/-- A short enough queue has room for every operation. -/
theorem roomy_of_pending (hentries : io.sqEntries = 1024) (hpending : io.sq.length ≤ 1021) : Roomy io where
  pending := hpending
  notFull := by
    intro event env hfull
    have hlt := full_of_queueUnlocked hfull
    have hle := sqes_le event.timeout
    omega
  notRolledBack := by
    rintro event ⟨-, sqe, link, -, hlink⟩
    have hroom : (io.sq ++ [sqe]).length + 1 ≤ io.sqEntries := by
      simp only [hentries, List.length_append, List.length_singleton]
      omega
    rw [getSqe_of_room io sqe (by omega)] at hlink
    exact hlink (congrArg Prod.fst (getSqe_of_room { io with sq := io.sq ++ [sqe] } link hroom))

/-- The SQE of the loop, submitted. -/
theorem pushAndSubmit_spec {sqe : Sqe} (hpending : io.sq.length ≤ 1021) (hentries : io.sqEntries = 1024)
    (hempties : ∀ n, env.submit = .ok n → n = min (io.sq.length + 1) io.sqEntries) :
    (io.pushAndSubmit sqe env).sqEntries = 1024 ∧
      ((io.pushAndSubmit sqe env).sq = [] ∨ (io.pushAndSubmit sqe env).sq.length = io.sq.length + 1 ∧
        ∃ errno, env.submit = .error errno) := by
  have hpushed := congrArg Prod.snd (getSqe_of_room io sqe (by omega))
  have hmin : min (io.sq.length + 1) io.sqEntries = (io.sq ++ [sqe]).length := by
    simp only [List.length_append, List.length_singleton]
    omega
  rw [hmin] at hempties
  obtain ⟨hsame, -, hsq⟩ := submitGuaranteed_spec { io with sq := io.sq ++ [sqe] } hempties
  unfold pushAndSubmit
  rw [hpushed]
  refine ⟨hsame.trans hentries, ?_⟩
  obtain hsq | ⟨herror, hsq⟩ := hsq
  · exact .inl hsq
  · refine .inr ⟨?_, herror⟩
    dsimp only at hsq ⊢
    rw [hsq, List.length_append]
    rfl

/-- Each act keeps the queue short when its submit does not fail while the queue is nearly full. -/
theorem step_pending {act : Act} (hentries : io.sqEntries = 1024) (hpending : io.sq.length ≤ 1021)
    (hempties : Empties io act) (hdrains : Drains io act) (hs : io.step act = some io') :
    io'.sqEntries = 1024 ∧ io'.sq.length ≤ 1021 := by
  have hthreshold : threshold = 1022 := rfl
  cases act with
  | queue event env =>
    obtain rfl := Option.some.inj hs
    obtain ⟨hsame, hle | ⟨hlength, herror | hfew⟩⟩ :=
      queueUnlocked_spec io event env fun n hn => hempties n (congrArg some hn)
    · exact ⟨hsame.trans hentries, hle.trans hpending⟩
    · obtain ⟨errno, herror⟩ := herror
      have hlt : io.sq.length + sqes event.timeout < threshold := hdrains errno (congrArg some herror)
      exact ⟨hsame.trans hentries, by omega⟩
    · exact ⟨hsame.trans hentries, by omega⟩
  | flush env =>
    obtain rfl := Option.some.inj hs
    obtain ⟨hsame, -, hsq⟩ :=
      flushPendingSqes_spec io env fun n hn => hempties n (congrArg some hn)
    refine ⟨hsame.trans hentries, ?_⟩
    obtain hsq | ⟨hsq, -⟩ := hsq
    · simp [hsq]
    · rwa [hsq]
  | armWatchdog env | cancelWatchdog env =>
    simp only [step] at hs
    split at hs
    · obtain rfl := Option.some.inj hs
      obtain ⟨hsame, hsq | ⟨hlength, errno, herror⟩⟩ := pushAndSubmit_spec hpending hentries fun n hn =>
        hempties n (congrArg some hn)
      · exact ⟨hsame, by simp [hsq]⟩
      · have hlt : min (io.sq.length + 1) io.sqEntries < threshold := hdrains errno (congrArg some herror)
        exact ⟨hsame, by omega⟩
    · exact nomatch hs
  | setBlocked blocked =>
    obtain rfl := Option.some.inj hs
    exact ⟨hentries, hpending⟩
  | harvest pool =>
    obtain rfl := Option.some.inj hs
    exact ⟨hentries, hpending⟩
  | handoff pool =>
    simp only [step] at hs
    split at hs
    · exact nomatch hs
    · obtain rfl := Option.some.inj hs
      exact ⟨hentries, Nat.zero_le _⟩

/-- **There is always room.** Every successful submit empties the queue, and none fails while 1022 SQEs
or more wait: then in every state at most 1021 wait, no operation finds the queue full and no SQE is
taken back. -/
theorem submission_queue_roomy {acts : List Act}
    (hrun : Runs.Along step (fun io act => Empties io act ∧ Drains io act) init acts) :
    Runs.Always step Roomy init acts :=
  Runs.always_of_along (I := fun io => io.sqEntries = 1024 ∧ io.sq.length ≤ 1021) hrun
    ⟨rfl, Nat.zero_le _⟩ (fun _ h => roomy_of_pending h.1 h.2)
    fun _ _ _ h hok hs => step_pending h.1 h.2 hok.1 hok.2 hs

/-- A watchdog whose submit fails, a cancellation whose flush fails, and then a submit of both. -/
theorem submission_queue_roomy_late : Runs.Always step Roomy init
    [.armWatchdog ⟨true, true, .error 16, true⟩, .queue (.cancelIo 5) ⟨true, true, .error 16, true⟩,
      .flush ⟨true, true, .ok 2, true⟩] := by
  refine submission_queue_roomy ⟨⟨nofun, ?_⟩, ?_⟩
  · rintro errno -
    decide
  intro t ht
  obtain rfl := Option.some.inj ht
  refine ⟨⟨nofun, ?_⟩, ?_⟩
  · rintro errno -
    decide
  intro t ht
  obtain rfl := Option.some.inj ht
  refine ⟨⟨?_, nofun⟩, fun _ _ => trivial⟩
  intro n hn
  obtain rfl := Except.ok.inj (Option.some.inj hn)
  decide +kernel

/-- The SQE of a `CancelIO`. -/
def cancelSqe : Sqe := ⟨.asyncCancel, none, -1, 5, false, false⟩

/-- A `CancelIO` whose flush fails with `EBUSY`. -/
def failingCancel : Act := .queue (.cancelIo 5) ⟨true, true, .error 16, true⟩

/-- As long as its flushes fail, each cancellation leaves its SQE behind. -/
theorem exec_failingCancel {k : ℕ} (hk : k ≤ 1024) : Runs.exec step init (List.replicate k failingCancel) =
    some { init with sq := List.replicate k cancelSqe, published := k } := by
  induction k with
  | zero => rfl
  | succ k ih =>
    have hroom : ¬1024 < k + 1 := by omega
    have hpool : TaskPool.init.getBlockingTasksSet true = some (some 0, .init) := rfl
    rw [List.replicate_succ', Runs.exec_append, ih (by omega)]
    simp only [Option.bind_some, Runs.exec_cons, Runs.exec_nil, failingCancel, step, queueUnlocked, init,
      hpool, queueWithSet, perform, cancel, prepare, getSqe, List.length_replicate, Bool.not_true,
      Bool.false_eq_true, if_false, hroom]
    simp [flushAndWake, BlockingOperationData.isCancel, flushPendingSqes, submitGuaranteed, flushSq,
      cancelSqe, List.replicate_succ']

/-- A wait with a timeout. -/
def waitWithTimeout : BlockingOperationData := .waitReadable ⟨1, 7, none, some 100⟩

/-- **The queue fills up.** After 1022 cancellations whose flushes failed a call starts with more than
1021 SQEs, and after one more a timeout finds the queue full behind its operation, which is taken back. -/
theorem submission_queue_fills :
    (¬∀ acts : List Act, Runs.Along step Empties init acts → Runs.Always step Roomy init acts) ∧
      ∃ acts io, Runs.Along step Empties init acts ∧ Runs.exec step init acts = some io ∧
        io.RollsBack waitWithTimeout := by
  have halong : ∀ io k, Runs.Along step Empties io (List.replicate k failingCancel) := by
    intro io k
    induction k generalizing io with
    | zero => trivial
    | succ k ih => exact ⟨nofun, fun t _ => ih t⟩
  constructor
  · intro hall
    have hlast := (hall _ (halong init 1022)).last (exec_failingCancel (by decide))
    have hpending : (List.replicate 1022 cancelSqe).length ≤ 1021 := hlast.pending
    rw [List.length_replicate] at hpending
    omega
  · refine ⟨_, _, halong init 1023, exec_failingCancel (by decide), rfl, cancelSqe, cancelSqe, ?_, ?_⟩
    · rw [getSqe, List.length_replicate]
      rfl
    · have hfirst : ∀ io : Io, io.sqEntries = 1024 → io.sq.length = 1023 →
          ((io.getSqe cancelSqe).2.getSqe cancelSqe).1 ≠ .ok () := by
        intro io hentries hlength
        have hroom : io.sq.length + 1 ≤ io.sqEntries := by omega
        have hfull : ({ io with sq := io.sq ++ [cancelSqe] } : Io).getSqe cancelSqe =
            (.error .submissionQueueFull, { io with sq := io.sq ++ [cancelSqe] }) := by
          rw [getSqe, if_pos]
          simp only [List.length_append, List.length_singleton, hlength, hentries]
          omega
        rw [getSqe_of_room _ cancelSqe hroom, hfull]
        nofun
      exact hfirst _ rfl List.length_replicate

end Io

end Talyn
