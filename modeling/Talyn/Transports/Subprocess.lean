import Talyn.Lib.Runs
import Talyn.Loop.IoUring

/-!
# Subprocess transports

`src/transports/subprocess/transport.zig` and the wrappers `subprocess_exec` of `talyn/loop.py` puts
around the transport and its protocol. The watcher of the pidfd holds a reference to the transport; it
runs once, when the wait is complete, or is taken down with the loop. Where it cannot be started the
protocol knows the transport already, and `subprocess_exec` kills the process and raises. What the
protocol's callbacks and other user code do to the transport in between is a list of calls.

The allocations of the exit path succeed; `waitid` interrupted by a signal is called again.
-/

namespace Talyn

/-- What `waitid` returns. -/
inductive WaitidResult
  | info (code status : ℤ)
  | error (errno : ℕ)
  deriving DecidableEq, Repr

/-- The return code of the exit callback: `CLD_EXITED`, `CLD_KILLED` or `CLD_DUMPED`, and −1 where
`waitid` fails, with `ECHILD` or otherwise. -/
def WaitidResult.returncode : WaitidResult → ℤ
  | .info code status => if code = 1 then status else if code = 2 ∨ code = 3 then -status else 0
  | .error _ => -1

/-- A callback of the protocol. -/
inductive ExitNotice
  | processExited
  | connectionLost
  deriving DecidableEq, Repr

/-- A future of `_wait`. -/
inductive ExitWaiter
  | pending
  | resolved (rc : ℤ)
  | cancelled
  deriving DecidableEq, Repr

/-- The watcher of the pidfd. -/
inductive PidfdWatcher
  | unstarted
  /-- it could not be started -/
  | failed
  | armed
  /-- its wait is in the ring, although it could not be started -/
  | left
  | gone
  deriving DecidableEq, Repr

/-- `SubprocessTransportObject`, its watcher, and what has become of them. -/
structure SubprocessTransport where
  closed : Bool
  /-- `pidfd ≥ 0` -/
  pidfd : Bool
  /-- `pidfd_task_id > 0` -/
  pidfdTask : Bool
  returncode : Option ℤ
  /-- `exit_waiters` -/
  exitWaiters : List ExitWaiter
  loopOpen : Bool
  watcher : PidfdWatcher
  /-- a pidfd was opened, and the watcher took a reference -/
  opened : Bool
  /-- how often the pidfd was closed -/
  closes : ℕ
  /-- how often the watcher's reference was released -/
  releases : ℕ
  notices : List ExitNotice
  /-- the exit callback has found the process to have ended -/
  exited : Bool
  /-- `close()` was called on an open loop -/
  closedOpen : Bool
  deriving DecidableEq, Repr

/-- What user code does to the transport. -/
inductive TransportCall
  | close
  | sendSignal (signal : ℕ)
  | wait
  | cancelWaiter (i : ℕ)
  deriving DecidableEq, Repr

/-- What the exit callback meets: `waitid`, whether the protocol has a `process_exited`, and what user
code does in `process_exited` and in `connection_lost`. -/
structure ExitEnv where
  waitid : WaitidResult
  hasProcessExited : Bool
  inProcessExited : List TransportCall
  inConnectionLost : List TransportCall
  deriving DecidableEq, Repr

/-- How the exit watcher is started: `pidfd_open` fails, or `io.queue` has been called. -/
inductive WatcherStart
  | pidfdFails
  | queue (outcome : Enqueue)
  deriving DecidableEq, Repr

namespace SubprocessTransport

/-- `new_with_pid`. -/
def new : SubprocessTransport where
  closed := false
  pidfd := false
  pidfdTask := false
  returncode := none
  exitWaiters := []
  loopOpen := true
  watcher := .unstarted
  opened := false
  closes := 0
  releases := 0
  notices := []
  exited := false
  closedOpen := false

/-- `close_pidfd`. -/
def closePidfd (t : SubprocessTransport) : SubprocessTransport :=
  if t.pidfd then { t with pidfd := false, closes := t.closes + 1 } else t

/-- `subprocess_close`. Where a wait is under way it is cancelled; its completion runs the exit
callback. -/
def close (t : SubprocessTransport) : SubprocessTransport :=
  if t.closed then t
  else { t with closed := true, pidfdTask := false, closedOpen := t.loopOpen }.closePidfd

/-- `_TransportWrapper._wait`, up to its `await`. -/
def wait (t : SubprocessTransport) : SubprocessTransport :=
  match t.returncode with
  | some _ => t
  | none => { t with exitWaiters := t.exitWaiters ++ [.pending] }

/-- A future of `_wait` is cancelled. -/
def cancelWaiter (t : SubprocessTransport) (i : ℕ) : SubprocessTransport :=
  { t with exitWaiters := t.exitWaiters.modify i fun
      | .pending => .cancelled
      | waiter => waiter }

/-- `kill`, `terminate` and `send_signal` change nothing here. -/
def call (t : SubprocessTransport) : TransportCall → SubprocessTransport
  | .close => t.close
  | .sendSignal _ => t
  | .wait => t.wait
  | .cancelWaiter i => t.cancelWaiter i

def calls (t : SubprocessTransport) (ops : List TransportCall) : SubprocessTransport := ops.foldl call t

/-- The end of `_ProtocolWrapper.connection_lost`: the futures that are not done get the return
code. -/
def resolveWaiters (t : SubprocessTransport) : SubprocessTransport :=
  { t with exitWaiters := t.exitWaiters.map fun
      | .pending => .resolved (t.returncode.getD (-1))
      | waiter => waiter }

def notify (t : SubprocessTransport) (notice : ExitNotice) : SubprocessTransport :=
  { t with notices := t.notices ++ [notice] }

/-- `dispatch_subprocess_exit_callbacks`. -/
def dispatchExitCallbacks (t : SubprocessTransport) (env : ExitEnv) : SubprocessTransport :=
  let t := if env.hasProcessExited then (t.notify .processExited).calls env.inProcessExited else t
  ((t.notify .connectionLost).calls env.inConnectionLost).resolveWaiters

/-- The watcher is over and its reference to the transport is released. -/
def release (t : SubprocessTransport) : SubprocessTransport :=
  { t with releases := t.releases + 1, watcher := .gone }

/-- The process has ended with this return code. -/
def exitWith (t : SubprocessTransport) (rc : ℤ) : SubprocessTransport :=
  { t with returncode := some rc, exited := true }

/-- `pidfd_exit_callback`. -/
def pidfdExitCallback (t : SubprocessTransport) (cancelled : Bool) (env : ExitEnv) :
    SubprocessTransport :=
  let t := { t with pidfdTask := false }
  if cancelled ∨ t.closed then t.closePidfd.release
  else ((t.exitWith env.waitid.returncode).dispatchExitCallbacks env).closePidfd.release

/-- `cleanup_pidfd`. -/
def cleanupPidfd (t : SubprocessTransport) : SubprocessTransport := t.closePidfd.release

/-- The errdefers of `start_exit_watcher` close the pidfd and release the reference. -/
def abandon (t : SubprocessTransport) (watcher : PidfdWatcher) : SubprocessTransport :=
  { t with opened := true, closes := t.closes + 1, releases := t.releases + 1, watcher }

/-- `start_exit_watcher`, after `connection_made`. -/
def startExitWatcher (t : SubprocessTransport) : WatcherStart → SubprocessTransport
  | .pidfdFails => { t with watcher := .failed }
  | .queue .queued => { t with pidfd := true, pidfdTask := true, opened := true, watcher := .armed }
  | .queue .refused => t.abandon .failed
  | .queue .left => t.abandon .left

/-- What can happen to a transport. -/
inductive Event
  | call (op : TransportCall)
  /-- the exit watcher is started -/
  | start (outcome : WatcherStart)
  /-- the wait is complete: the process has ended, or the wait was cancelled by `close()` -/
  | harvest (env : ExitEnv)
  /-- the loop is closed; a watcher that is still there is called as cancelled, or cleaned up -/
  | teardown (callback : Bool) (env : ExitEnv)
  deriving DecidableEq, Repr

/-- One step. -/
def step (t : SubprocessTransport) : Event → Option SubprocessTransport
  | .call op => some (t.call op)
  | .start outcome =>
    if t.watcher = .unstarted ∧ t.loopOpen then some (t.startExitWatcher outcome) else none
  | .harvest env =>
    if (t.watcher = .armed ∨ t.watcher = .left) ∧ t.loopOpen then some (t.pidfdExitCallback false env)
    else none
  | .teardown callback env =>
    if t.loopOpen then
      let t := { t with loopOpen := false }
      if t.watcher = .armed ∨ t.watcher = .left then
        some (if callback then t.pidfdExitCallback true env else t.cleanupPidfd)
      else some t
    else none

/-- The transport has ended, by the exit of the process or by `close()` on an open loop, and its watcher
is over. The process of a transport whose watcher could not be started is killed. -/
def Ended (t : SubprocessTransport) : Prop :=
  t.watcher = .gone ∧ (t.exited = true ∨ t.closedOpen = true) ∨ t.watcher = .failed

/-- Nothing runs for the watcher any more. -/
def Over (t : SubprocessTransport) : Prop := t.watcher = .gone ∨ t.watcher = .failed

instance (t : SubprocessTransport) : Decidable t.Over :=
  inferInstanceAs (Decidable (t.watcher = .gone ∨ t.watcher = .failed))

/-- Every callback of the protocol, every future of `_wait`, the pidfd and the reference are accounted
for. -/
structure Accounts (t : SubprocessTransport) : Prop where
  /-- `process_exited` comes at most once and before `connection_lost`, which comes at most once -/
  order : t.notices = [] ∨ t.notices = [.connectionLost] ∨ t.notices = [.processExited, .connectionLost]
  lost : t.Ended → .connectionLost ∈ t.notices
  waiters : t.Ended → .pending ∉ t.exitWaiters
  closes : t.closes ≤ 1 ∧ (t.Over → t.closes = t.opened.toNat)
  releases : t.releases = if t.Over then t.opened.toNat else 0

/-- The watcher is started without a failure, and does not end on a transport that was closed while the
loop was open. -/
def Unclosed (t : SubprocessTransport) : Event → Prop
  | .harvest _ => t.watcher = .armed → t.loopOpen = true → t.closedOpen = false
  | .teardown _ _ => t.watcher = .armed → t.loopOpen = true → t.closedOpen = false
  | .start outcome => t.watcher = .unstarted → t.loopOpen = true → outcome = .queue .queued
  | .call _ => True

/-! ## What calls leave alone -/

/-- The watcher and the return code are as before; the pidfd may be closed. -/
structure Kept (t t' : SubprocessTransport) : Prop where
  watcher : t'.watcher = t.watcher
  opened : t'.opened = t.opened
  releases : t'.releases = t.releases
  exited : t'.exited = t.exited
  loopOpen : t'.loopOpen = t.loopOpen
  returncode : t'.returncode = t.returncode
  total : t'.closes + t'.pidfd.toNat = t.closes + t.pidfd.toNat
  closedPidfd : t.pidfd = false → t'.pidfd = false
  closedOpen : (t.closed → t.loopOpen → t.closedOpen) → t'.closed → t'.loopOpen → t'.closedOpen
  closed : (t.closedOpen → t.closed) → t'.closedOpen → t'.closed
  torn : (t.closedOpen → t.closed) → t.loopOpen = false ∨ t.closedOpen →
    t'.loopOpen = false ∨ t'.closedOpen
  shut : t.loopOpen = false → t.closedOpen = false → t'.closedOpen = false

/-- Calls do not reach the protocol, and once there is a return code they add no future. -/
structure Framed (t t' : SubprocessTransport) : Prop extends Kept t t' where
  notices : t'.notices = t.notices
  waiters : t.returncode.isSome → .pending ∉ t.exitWaiters → .pending ∉ t'.exitWaiters

variable {t t' t'' : SubprocessTransport}

theorem Kept.trans (h : Kept t t') (h' : Kept t' t'') : Kept t t'' where
  watcher := h'.watcher.trans h.watcher
  opened := h'.opened.trans h.opened
  releases := h'.releases.trans h.releases
  exited := h'.exited.trans h.exited
  loopOpen := h'.loopOpen.trans h.loopOpen
  returncode := h'.returncode.trans h.returncode
  total := h'.total.trans h.total
  closedPidfd := fun hfd => h'.closedPidfd (h.closedPidfd hfd)
  closedOpen := fun hopen => h'.closedOpen (h.closedOpen hopen)
  closed := fun hclosed => h'.closed (h.closed hclosed)
  torn := fun hclosed htorn => h'.torn (h.closed hclosed) (h.torn hclosed htorn)
  shut := fun hloop hopen => h'.shut (h.loopOpen.trans hloop) (h.shut hloop hopen)

theorem Framed.refl (t : SubprocessTransport) : Framed t t :=
  ⟨⟨rfl, rfl, rfl, rfl, rfl, rfl, rfl, id, id, id, fun _ => id, fun _ => id⟩, rfl, fun _ => id⟩

theorem Framed.trans (h : Framed t t') (h' : Framed t' t'') : Framed t t'' where
  toKept := h.toKept.trans h'.toKept
  notices := h'.notices.trans h.notices
  waiters := fun hrc hw => h'.waiters (by rw [h.returncode]; exact hrc) (h.waiters hrc hw)

/-- `close_pidfd` closes the pidfd unless it is closed already. -/
theorem closePidfd_framed (t : SubprocessTransport) : Framed t t.closePidfd := by
  unfold closePidfd
  split
  · rename_i hfd
    exact ⟨⟨rfl, rfl, rfl, rfl, rfl, rfl, by simp [hfd], fun _ => rfl, id, id, fun _ => id, fun _ => id⟩,
      rfl, fun _ => id⟩
  · exact .refl t

@[simp] theorem closePidfd_pidfd (t : SubprocessTransport) : t.closePidfd.pidfd = false := by
  unfold closePidfd
  split
  · rfl
  · rename_i hfd
    exact Bool.eq_false_iff.2 hfd

theorem call_framed (t : SubprocessTransport) (op : TransportCall) : Framed t (t.call op) := by
  cases op with
  | close =>
    unfold call close
    dsimp only
    split
    · exact .refl t
    · rename_i hclosed
      refine Framed.trans ?_ (closePidfd_framed _)
      refine ⟨⟨rfl, rfl, rfl, rfl, rfl, rfl, rfl, id, fun _ _ hopen => hopen, fun _ _ => rfl,
        fun hof htorn => ?_, fun hloop _ => hloop⟩, rfl, fun _ => id⟩
      obtain hloop | hopen := htorn
      · exact .inl hloop
      · exact absurd (hof hopen) hclosed
  | sendSignal signal => exact .refl t
  | wait =>
    unfold call wait
    dsimp only
    split
    · exact .refl t
    · rename_i hrc
      refine ⟨⟨rfl, rfl, rfl, rfl, rfl, rfl, rfl, id, id, id, fun _ => id, fun _ => id⟩, rfl, fun hsome => ?_⟩
      rw [hrc] at hsome
      exact nomatch hsome
  | cancelWaiter i =>
    refine ⟨⟨rfl, rfl, rfl, rfl, rfl, rfl, rfl, id, id, id, fun _ => id, fun _ => id⟩, rfl, fun _ hw hmem => ?_⟩
    obtain ⟨k, hk⟩ := List.mem_iff_getElem?.1 hmem
    rw [call, cancelWaiter, List.getElem?_modify] at hk
    split at hk
    · -- the future that was cancelled is not pending
      cases hget : t.exitWaiters[k]? with
      | none => simp [hget] at hk
      | some waiter => cases waiter <;> simp_all
    · exact hw (List.mem_iff_getElem?.2 ⟨k, by simpa using hk⟩)

theorem calls_framed (t : SubprocessTransport) (ops : List TransportCall) : Framed t (t.calls ops) := by
  induction ops generalizing t with
  | nil => exact .refl t
  | cons op ops ih => exact (call_framed t op).trans (ih (t.call op))

/-- No future of `_wait` is pending after `connection_lost`. -/
theorem resolveWaiters_done (t : SubprocessTransport) : .pending ∉ t.resolveWaiters.exitWaiters := by
  intro hmem
  obtain ⟨waiter, -, hwaiter⟩ := List.mem_map.1 hmem
  cases waiter <;> exact nomatch hwaiter

/-! ## The invariant -/

/-- What holds of every transport whose watcher has not failed to start. -/
structure Inv (t : SubprocessTransport) : Prop where
  started : t.watcher ≠ .failed ∧ t.watcher ≠ .left
  opened : t.opened.toNat = if t.watcher = .unstarted then 0 else 1
  closedOpen : t.closed → t.loopOpen → t.closedOpen
  closed : t.closedOpen → t.closed
  torn : t.watcher = .gone → t.exited = false → t.loopOpen = false ∨ t.closedOpen
  pidfd : t.closes + t.pidfd.toNat = if t.watcher = .unstarted then 0 else 1
  gone : t.watcher = .gone → t.pidfd = false
  releases : t.releases = if t.watcher = .gone then 1 else 0
  quiet : t.exited = false → t.notices = []
  watched : t.exited → t.watcher = .gone
  order : t.exited → t.notices = [.connectionLost] ∨ t.notices = [.processExited, .connectionLost]
  returncode : t.exited → t.returncode.isSome
  waiters : t.exited → .pending ∉ t.exitWaiters

theorem inv_new : new.Inv :=
  ⟨⟨nofun, nofun⟩, rfl, nofun, nofun, nofun, rfl, nofun, rfl, fun _ => rfl, nofun, nofun, nofun, nofun⟩

theorem Inv.of_framed (h : t.Inv) (hframed : Framed t t') : t'.Inv where
  started := by rw [hframed.watcher]; exact h.started
  opened := by rw [hframed.opened, hframed.watcher]; exact h.opened
  closedOpen := hframed.closedOpen h.closedOpen
  closed := hframed.closed h.closed
  torn := by
    rw [hframed.watcher, hframed.exited]
    exact fun hgone hexited => hframed.torn h.closed (h.torn hgone hexited)
  pidfd := by rw [hframed.total, hframed.watcher]; exact h.pidfd
  gone := fun hgone => hframed.closedPidfd (h.gone (hframed.watcher ▸ hgone))
  releases := by rw [hframed.releases, hframed.watcher]; exact h.releases
  quiet := by rw [hframed.exited, hframed.notices]; exact h.quiet
  watched := by rw [hframed.exited, hframed.watcher]; exact h.watched
  order := by rw [hframed.exited, hframed.notices]; exact h.order
  returncode := by rw [hframed.exited, hframed.returncode]; exact h.returncode
  waiters := by
    rw [hframed.exited]
    exact fun hexited => hframed.waiters (h.returncode hexited) (h.waiters hexited)

/-- The watcher ends without calling the protocol. -/
theorem Inv.endSilently (h : t.Inv) (harmed : t.watcher = .armed)
    (htorn : t.loopOpen = false ∨ t.closedOpen) : t.closePidfd.release.Inv := by
  have hframed := closePidfd_framed t
  have hexited : t.exited = false := by
    cases hexited : t.exited with
    | false => rfl
    | true => exact nomatch harmed.symm.trans (h.watched hexited)
  have hpidfd := h.pidfd
  have hreleases := h.releases
  rw [if_neg (by simp [harmed])] at hpidfd hreleases
  have hnot : ∀ {P : Prop}, t.closePidfd.exited = true → P := fun hyes => by
    rw [hframed.exited, hexited] at hyes
    exact nomatch hyes
  have hopened : t.closePidfd.opened.toNat = 1 := by
    rw [hframed.opened, h.opened, if_neg (by simp [harmed])]
  refine ⟨⟨nofun, nofun⟩, hopened, hframed.closedOpen h.closedOpen, hframed.closed h.closed,
    fun _ _ => hframed.torn h.closed htorn, ?_, fun _ => closePidfd_pidfd t, ?_, ?_, hnot, hnot,
    hnot, hnot⟩
  · exact hframed.total.trans hpidfd
  · show t.closePidfd.releases + 1 = 1
    rw [hframed.releases, hreleases]
  · show t.closePidfd.exited = false → t.closePidfd.notices = []
    rw [hframed.exited, hframed.notices]
    exact h.quiet

theorem notify_kept (t : SubprocessTransport) (notice : ExitNotice) : Kept t (t.notify notice) :=
  ⟨rfl, rfl, rfl, rfl, rfl, rfl, rfl, id, id, id, fun _ => id, fun _ => id⟩

theorem resolveWaiters_kept (t : SubprocessTransport) : Kept t t.resolveWaiters :=
  ⟨rfl, rfl, rfl, rfl, rfl, rfl, rfl, id, id, id, fun _ => id, fun _ => id⟩

/-- What the dispatch of an exit does: the protocol's callbacks in their order, whatever user code does
in them, and then no future of `_wait` is pending. -/
theorem dispatchExitCallbacks_spec (t : SubprocessTransport) (env : ExitEnv) :
    Kept t (t.dispatchExitCallbacks env) ∧ .pending ∉ (t.dispatchExitCallbacks env).exitWaiters ∧
      (t.dispatchExitCallbacks env).notices = t.notices ++
        (if env.hasProcessExited then [.processExited, .connectionLost] else [.connectionLost]) := by
  have hlost : ∀ u : SubprocessTransport,
      Kept u ((u.notify .connectionLost).calls env.inConnectionLost).resolveWaiters ∧
      ((u.notify .connectionLost).calls env.inConnectionLost).resolveWaiters.notices =
        u.notices ++ [.connectionLost] := by
    intro u
    have hcalls := calls_framed (u.notify .connectionLost) env.inConnectionLost
    exact ⟨(notify_kept u _).trans (hcalls.toKept.trans (resolveWaiters_kept _)), hcalls.notices⟩
  refine ⟨?_, resolveWaiters_done _, ?_⟩
  · unfold dispatchExitCallbacks
    split
    · refine Kept.trans ?_ (hlost _).1
      exact (notify_kept t _).trans (calls_framed _ _).toKept
    · exact (hlost t).1
  · unfold dispatchExitCallbacks
    split
    · have hcalls := calls_framed (t.notify .processExited) env.inProcessExited
      refine (hlost _).2.trans ?_
      rw [hcalls.notices]
      simp [notify]
    · exact (hlost t).2

/-- The watcher ends when the protocol has been told of the exit. -/
theorem Inv.endByExit {rc : ℤ} {d : SubprocessTransport} (h : t.Inv) (harmed : t.watcher = .armed)
    (hkept : Kept (t.exitWith rc) d) (hwaiters : .pending ∉ d.exitWaiters)
    (horder : d.notices = [.connectionLost] ∨ d.notices = [.processExited, .connectionLost]) :
    d.closePidfd.release.Inv := by
  have hclose := closePidfd_framed d
  have hall := hkept.trans hclose.toKept
  have hpidfd := h.pidfd
  have hreleases := h.releases
  rw [if_neg (by simp [harmed])] at hpidfd hreleases
  have hrc : d.returncode.isSome := by
    rw [hkept.returncode]
    rfl
  have hexited : d.closePidfd.exited = true := hall.exited
  have hopened : d.closePidfd.opened.toNat = 1 := by
    rw [hall.opened]
    exact h.opened.trans (if_neg (by simp [harmed]))
  refine ⟨⟨nofun, nofun⟩, hopened, hall.closedOpen h.closedOpen, hall.closed h.closed,
    fun _ hno => (nomatch hno.symm.trans hexited), hall.total.trans hpidfd,
    fun _ => closePidfd_pidfd d, ?_, fun hno => (nomatch hno.symm.trans hexited), fun _ => rfl,
    fun _ => ?_, fun _ => ?_,
    fun _ => hclose.waiters hrc hwaiters⟩
  · show d.closePidfd.releases + 1 = 1
    rw [hall.releases]
    exact congrArg (· + 1) hreleases
  · show d.closePidfd.notices = _ ∨ d.closePidfd.notices = _
    rwa [hclose.notices]
  · show d.closePidfd.returncode.isSome
    rwa [hclose.returncode]

theorem Inv.over_iff (h : t.Inv) : t.Over ↔ t.watcher = .gone :=
  or_iff_left h.started.1

theorem Inv.ended_iff (h : t.Inv) :
    t.Ended ↔ t.watcher = .gone ∧ (t.exited = true ∨ t.closedOpen = true) :=
  or_iff_left h.started.1

theorem accounts_of_inv (h : t.Inv) (hended : t.Ended → t.exited) : t.Accounts where
  order := by
    cases hexited : t.exited with
    | false => exact .inl (h.quiet hexited)
    | true => exact .inr (h.order hexited)
  lost := fun hend => by
    obtain hnotices | hnotices := h.order (hended hend) <;> simp [hnotices]
  waiters := fun hend => h.waiters (hended hend)
  closes := by
    have hpidfd := h.pidfd
    refine ⟨?_, fun hover => ?_⟩
    · split at hpidfd <;> omega
    · rw [h.gone (h.over_iff.1 hover)] at hpidfd
      exact hpidfd.trans h.opened.symm
  releases := by
    have hopened := h.opened
    rw [h.releases]
    by_cases hgone : t.watcher = .gone
    · rw [if_neg (by simp [hgone])] at hopened
      rw [if_pos hgone, if_pos (h.over_iff.2 hgone), hopened]
    · rw [if_neg hgone, if_neg fun hover => hgone (h.over_iff.1 hover)]

/-- A transport closed while the loop was open whose watcher ends has not called `connection_lost`. -/
theorem not_accounts_of_silent (hquiet : t.notices = []) (hended : t.Ended) : ¬t.Accounts := by
  intro haccounts
  have hlost := haccounts.lost hended
  rw [hquiet] at hlost
  exact nomatch hlost

/-- A watcher that ends without calling the protocol leaves the accounts right exactly if the transport
was not closed while the loop was open. -/
theorem accounts_endSilently_iff (h : t.Inv) (harmed : t.watcher = .armed)
    (htorn : t.loopOpen = false ∨ t.closedOpen) :
    t.closePidfd.release.Accounts ↔ t.closedOpen = false := by
  have hframed := closePidfd_framed t
  have hexited : t.exited = false := by
    cases hexited : t.exited with
    | false => rfl
    | true => exact nomatch harmed.symm.trans (h.watched hexited)
  have hopen : t.closePidfd.release.closedOpen = t.closedOpen := by
    unfold closePidfd release
    split <;> rfl
  constructor
  · intro haccounts
    by_contra hclosed
    have hended : t.closePidfd.release.Ended :=
      .inl ⟨rfl, .inr (hopen.trans (Bool.eq_true_of_not_eq_false hclosed))⟩
    have hnotices : t.closePidfd.release.notices = [] := hframed.notices.trans (h.quiet hexited)
    exact not_accounts_of_silent hnotices hended haccounts
  · intro hclosed
    refine accounts_of_inv (h.endSilently harmed htorn) ?_
    rintro (⟨-, hyes | hyes⟩ | hfailed)
    · exact hyes
    · rw [hopen, hclosed] at hyes
      exact nomatch hyes
    · exact nomatch hfailed

/-- The loop is closed: the flag is no use to anybody else. -/
theorem Inv.closeLoop (h : t.Inv) : Inv { t with loopOpen := false } where
  started := h.started
  opened := h.opened
  torn := fun _ _ => .inl rfl
  closedOpen := fun _ => nofun
  closed := h.closed
  pidfd := h.pidfd
  gone := h.gone
  releases := h.releases
  quiet := h.quiet
  watched := h.watched
  order := h.order
  returncode := h.returncode
  waiters := h.waiters

theorem Inv.dropTask (h : t.Inv) : Inv { t with pidfdTask := false } where
  started := h.started
  opened := h.opened
  torn := h.torn
  closedOpen := h.closedOpen
  closed := h.closed
  pidfd := h.pidfd
  gone := h.gone
  releases := h.releases
  quiet := h.quiet
  watched := h.watched
  order := h.order
  returncode := h.returncode
  waiters := h.waiters

/-- The exit callback leaves the accounts right exactly if `close()` has not been there before it. -/
theorem pidfdExitCallback_spec (h : t.Inv) (harmed : t.watcher = .armed) (hopen : t.loopOpen = true)
    (env : ExitEnv) : (t.pidfdExitCallback false env).Inv ∧
      ((t.pidfdExitCallback false env).Accounts ↔ t.closedOpen = false) := by
  unfold pidfdExitCallback
  dsimp only
  by_cases hclosed : t.closed = true
  · rw [if_pos (.inr hclosed)]
    have htorn : t.loopOpen = false ∨ t.closedOpen := .inr (h.closedOpen hclosed hopen)
    exact ⟨h.dropTask.endSilently harmed htorn, accounts_endSilently_iff h.dropTask harmed htorn⟩
  · rw [if_neg (by simp [hclosed])]
    have hquiet : t.notices = [] := by
      cases hexited : t.exited with
      | false => exact h.quiet hexited
      | true => exact nomatch harmed.symm.trans (h.watched hexited)
    obtain ⟨hkept, hwaiters, hnotices⟩ := dispatchExitCallbacks_spec
      (exitWith { t with pidfdTask := false } env.waitid.returncode) env
    have horder : ∀ d : SubprocessTransport, d.notices = t.notices ++
        (if env.hasProcessExited then [.processExited, .connectionLost] else [.connectionLost]) →
        d.notices = [.connectionLost] ∨ d.notices = [.processExited, .connectionLost] := by
      intro d hd
      rw [hquiet, List.nil_append] at hd
      split at hd
      · exact .inr hd
      · exact .inl hd
    have hinv := h.dropTask.endByExit harmed hkept hwaiters (horder _ hnotices)
    refine ⟨hinv, iff_of_true (accounts_of_inv hinv fun _ => ?_) ?_⟩
    · exact (closePidfd_framed _).exited.trans hkept.exited
    · exact Bool.eq_false_iff.2 fun hyes => hclosed (h.closed hyes)

/-! ## Runs -/

/-- The watcher of a transport that keeps the invariant is armed when its wait is in the ring. -/
theorem Inv.armed_of_live (h : t.Inv) (hlive : t.watcher = .armed ∨ t.watcher = .left) :
    t.watcher = .armed :=
  hlive.resolve_right h.started.2

/-- The loop may be closed, the watcher started and the transport called at any time. -/
theorem Inv.step {ev : Event} (h : t.Inv) (hok : t.Unclosed ev) (hs : t.step ev = some t') : t'.Inv := by
  cases ev with
  | call op =>
    obtain rfl := Option.some.inj hs
    exact h.of_framed (call_framed t op)
  | start outcome =>
    rw [SubprocessTransport.step] at hs
    split at hs
    · rename_i hstart
      obtain rfl := hok hstart.1 hstart.2
      obtain rfl := Option.some.inj hs
      have hpidfd := h.pidfd
      have hreleases := h.releases
      simp only [hstart.1, if_true] at hpidfd
      simp only [hstart.1] at hreleases
      have hnot : ∀ {P : Prop}, t.exited = true → P := fun hexited =>
        nomatch hstart.1.symm.trans (h.watched hexited)
      refine ⟨⟨nofun, nofun⟩, rfl, h.closedOpen, h.closed, nofun, ?_, nofun, hreleases, h.quiet, hnot,
        hnot, hnot, hnot⟩
      show t.closes + 1 = 1
      omega
    · exact nomatch hs
  | harvest env =>
    rw [SubprocessTransport.step] at hs
    split at hs
    · rename_i hlive
      obtain rfl := Option.some.inj hs
      exact (pidfdExitCallback_spec h (h.armed_of_live hlive.1) hlive.2 env).1
    · exact nomatch hs
  | teardown callback env =>
    rw [SubprocessTransport.step] at hs
    split at hs
    · dsimp only at hs
      split at hs
      · rename_i hlive
        have harmed := h.armed_of_live hlive
        obtain rfl := Option.some.inj hs
        cases callback with
        | true => exact h.closeLoop.dropTask.endSilently harmed (.inl rfl)
        | false => exact h.closeLoop.endSilently harmed (.inl rfl)
      · obtain rfl := Option.some.inj hs
        exact h.closeLoop
    · exact nomatch hs

/-- Whoever has ended with the accounts right has ended by an exit. -/
theorem exited_of_ended (h : t.Inv) (haccounts : t.Accounts) (hended : t.Ended) : t.exited := by
  cases hexited : t.exited with
  | true => rfl
  | false =>
    have hlost := haccounts.lost hended
    rw [h.quiet hexited] at hlost
    exact nomatch hlost

/-- A call leaves the accounts right. -/
theorem Accounts.call (haccounts : t.Accounts) (h : t.Inv) (op : TransportCall) :
    (t.call op).Accounts := by
  have hframed := call_framed t op
  have hinv := h.of_framed hframed
  refine accounts_of_inv hinv fun hended => ?_
  obtain ⟨hgone', hway⟩ := hinv.ended_iff.1 hended
  have hgone : t.watcher = .gone := hframed.watcher.symm.trans hgone'
  rw [hframed.exited]
  cases hexited : t.exited with
  | true => rfl
  | false =>
    -- the loop was closed under the watcher, so a `close()` now does not count
    have hopen : t.closedOpen = false := by
      by_contra hyes
      have hended' : t.Ended := .inl ⟨hgone, .inr (Bool.eq_true_of_not_eq_false hyes)⟩
      exact nomatch hexited.symm.trans (exited_of_ended h haccounts hended')
    have hloop : t.loopOpen = false :=
      (h.torn hgone hexited).resolve_right fun hyes => nomatch hopen.symm.trans hyes
    obtain hyes | hyes := hway
    · exact nomatch hexited.symm.trans (hframed.exited.symm.trans hyes)
    · exact nomatch (hframed.shut hloop hopen).symm.trans hyes

/-- A watcher that cannot be started leaves a transport of which the protocol knows without one, and its wait, when
it is in the ring, without a reference. -/
theorem accounts_start_iff (h : t.Inv) (hstart : t.watcher = .unstarted) (hloop : t.loopOpen = true)
    (outcome : WatcherStart) : (t.startExitWatcher outcome).Accounts ↔ outcome = .queue .queued := by
  have hquiet : t.notices = [] := by
    cases hexited : t.exited with
    | false => exact h.quiet hexited
    | true => exact nomatch hstart.symm.trans (h.watched hexited)
  cases outcome with
  | pidfdFails => exact iff_of_false (not_accounts_of_silent hquiet (.inr rfl)) nofun
  | queue q =>
    cases q with
    | queued =>
      refine iff_of_true ?_ rfl
      have hstep : t.step (.start (.queue .queued)) = some (t.startExitWatcher (.queue .queued)) :=
        if_pos ⟨hstart, hloop⟩
      have hok : t.Unclosed (.start (.queue .queued)) := fun _ _ => rfl
      have hinv := h.step hok hstep
      exact accounts_of_inv hinv fun hended => nomatch (hinv.ended_iff.1 hended).1
    | refused => exact iff_of_false (not_accounts_of_silent hquiet (.inr rfl)) nofun
    | left =>
      refine iff_of_false (fun haccounts => ?_) nofun
      have hreleases : t.releases + 1 = 0 := haccounts.releases
      exact nomatch hreleases

theorem accounts_step_iff {ev : Event} (h : t.Inv) (haccounts : t.Accounts)
    (hs : t.step ev = some t') : t'.Accounts ↔ t.Unclosed ev := by
  cases ev with
  | call op =>
    obtain rfl := Option.some.inj hs
    exact iff_of_true (haccounts.call h op) trivial
  | start outcome =>
    rw [SubprocessTransport.step] at hs
    split at hs
    · rename_i hstart
      obtain rfl := Option.some.inj hs
      refine (accounts_start_iff h hstart.1 hstart.2 outcome).trans ?_
      exact ⟨fun hq _ _ => hq, fun hok => hok hstart.1 hstart.2⟩
    · exact nomatch hs
  | harvest env =>
    rw [SubprocessTransport.step] at hs
    split at hs
    · rename_i hlive
      have harmed := h.armed_of_live hlive.1
      obtain rfl := Option.some.inj hs
      refine (pidfdExitCallback_spec h harmed hlive.2 env).2.trans ?_
      exact ⟨fun hopen _ _ => hopen, fun hunclosed => hunclosed harmed hlive.2⟩
    · exact nomatch hs
  | teardown callback env =>
    rw [SubprocessTransport.step] at hs
    split at hs
    · rename_i hloop
      dsimp only at hs
      split at hs
      · rename_i hlive
        have harmed := h.armed_of_live hlive
        have hsilent : t'.Accounts ↔ t.closedOpen = false := by
          obtain rfl := Option.some.inj hs
          cases callback with
          | true => exact accounts_endSilently_iff h.closeLoop.dropTask harmed (.inl rfl)
          | false => exact accounts_endSilently_iff h.closeLoop harmed (.inl rfl)
        refine hsilent.trans ?_
        exact ⟨fun hopen _ _ => hopen, fun hunclosed => hunclosed harmed hloop⟩
      · rename_i hdone
        obtain rfl := Option.some.inj hs
        refine iff_of_true (accounts_of_inv h.closeLoop ?_) fun hyes => absurd (.inl hyes) hdone
        exact fun hended => exited_of_ended (t := t) h haccounts hended
    · exact nomatch hs

/-- **The end of a subprocess transport.** In every order of exit, `close()`, signals, calls of `_wait`
and teardown, the protocol, the futures, the pidfd and the reference are accounted for throughout,
exactly if the watcher is started without a failure and never ends on a transport that was closed while
the loop was open. -/
theorem accounts_iff_unclosed (events : List Event) :
    Runs.Always step Accounts new events ↔ Runs.Along step Unclosed new events := by
  have hnew : new.Accounts := accounts_of_inv inv_new fun hended => nomatch (inv_new.ended_iff.1 hended).1
  refine Runs.always_iff_along_of_break (I := fun t => t.Inv ∧ t.Accounts) ⟨inv_new, hnew⟩
    (fun t h => h.2) (fun t ev t' h hok hs => ?_) (fun t ev t' h hs haccounts => ?_) ?_
  · exact ⟨h.1.step hok hs, (accounts_step_iff h.1 h.2 hs).2 hok⟩
  · exact (accounts_step_iff h.1 h.2 hs).1 haccounts
  intro t ev hs
  cases ev with
  | call op => trivial
  | start outcome =>
    intro hstart hloop
    rw [step, if_pos ⟨hstart, hloop⟩] at hs
    exact nomatch hs
  | harvest env =>
    intro harmed hloop
    rw [step, if_pos ⟨.inl harmed, hloop⟩] at hs
    exact nomatch hs
  | teardown callback env =>
    intro harmed hloop
    simp only [step, hloop, harmed, true_or, if_true] at hs
    exact nomatch hs

/-- `_wait()` and then `close()`, and the process ends: nobody is told. -/
theorem close_silences_exit : ¬∀ events : List Event, Runs.Always step Accounts new events := by
  intro hall
  have hlast := (hall [.start (.queue .queued), .call .wait, .call .close,
    .harvest ⟨.info 1 0, true, [], []⟩]).last rfl
  exact not_accounts_of_silent rfl (.inl ⟨rfl, .inr rfl⟩) hlast

end SubprocessTransport

end Talyn
