import Talyn.Lib.Runs
import Talyn.Dns.Lookup

/-!
# A lookup settles once

Every server of a lookup has exactly one thing outstanding until it is counted finished: a send, a
read or the cleanup of a failed callback. `ServersOk` says so together with what the trace holds of
sockets and finished servers, `ControlOk` says what holds of the callbacks, the record and the
release of the control data. Between two events no server is being served; while a callback runs,
`running` is the server it runs for.

From the two: the callbacks are dispatched once, sockets are closed once, servers are counted once,
and the control data is released once, last of all, and never used after that.
-/

namespace Talyn.Dns

namespace Lookup

/-! ### Frame lemmas -/

theorem server_setServer {l : Lookup} {i : ℕ} (sd : ServerQueryData) (hi : i < l.servers.length)
    (j : ℕ) : (l.setServer i sd).server j = if i = j then sd else l.server j := by
  simp only [server, setServer, List.getD_eq_getElem?_getD, List.getElem?_set]
  split
  · simp
  · rfl

@[simp] theorem length_setServer (l : Lookup) (i : ℕ) (sd : ServerQueryData) :
    (l.setServer i sd).servers.length = l.servers.length := by
  simp [setServer]

theorem server_of_le {l : Lookup} {i : ℕ} (hi : l.servers.length ≤ i) : l.server i = default := by
  simp [server, List.getElem?_eq_none hi]

theorem touch_of_alive {l : Lookup} (h : l.destroyed = false) : l.touch = l := by
  simp [touch, h]

/-- `cancel` either does nothing or closes the socket. -/
theorem cancel_cases (l : Lookup) (i : ℕ) :
    ((l.server i).socketFd = none ∧ l.cancel i = l) ∨
      ((l.server i).socketFd.isSome ∧ i < l.servers.length ∧
        l.cancel i =
          (l.setServer i { l.server i with socketFd := none }).emit (.closeSocket i)) := by
  cases hfd : (l.server i).socketFd with
  | none => exact .inl ⟨rfl, by simp [cancel, hfd]⟩
  | some fd =>
    refine .inr ⟨rfl, ?_, by simp [cancel, hfd]⟩
    by_contra hle
    rw [server_of_le (Nat.le_of_not_lt hle)] at hfd
    exact nomatch (show (none : Option ℕ) = some fd from hfd)

/-- What finishing a server does. -/
theorem finishServer_eq {l : Lookup} {i : ℕ} (hi : i < l.servers.length) :
    l.finishServer i =
      { l with
        servers := l.servers.set i { l.server i with finished := true, socketFd := none }
        tasksFinished := l.tasksFinished + 1
        trace := l.trace ++ (if (l.server i).socketFd.isSome then [.closeSocket i] else []) ++
          [.finished i] } := by
  have hself := server_setServer { l.server i with finished := true } hi i
  rw [if_pos rfl] at hself
  unfold finishServer
  obtain ⟨hfd, he⟩ | ⟨hopen, -, he⟩ :=
    cancel_cases (l.setServer i { l.server i with finished := true }) i
  · rw [he]
    rw [hself] at hfd
    replace hfd : (l.server i).socketFd = none := hfd
    simp [emit, setServer, hfd]
  · rw [he, hself]
    rw [hself] at hopen
    replace hopen : (l.server i).socketFd.isSome = true := hopen
    simp [emit, setServer, hopen]

/-- What `cancel` keeps, `cancelUnfinished` keeps. -/
theorem cancelUnfinished_keeps {I : Lookup → Prop} {l : Lookup} (h : I l)
    (hc : ∀ l i, I l → I (l.cancel i)) : I l.cancelUnfinished := by
  unfold cancelUnfinished
  generalize List.range l.servers.length = is
  induction is generalizing l with
  | nil => exact h
  | cons i is ih =>
    rw [List.foldl_cons]
    split
    · exact ih h
    · exact ih (hc l i h)

/-- The control data without its servers. -/
structure Control where
  userCallbacks : List CallbackId
  resolved : Bool
  recordEvicted : Bool
  released : Bool
  record : Option Record
  destroyed : Bool
  useAfterFree : Bool
  resolution : Option Resolution

/-- The control data of a lookup. -/
def control (l : Lookup) : Control where
  userCallbacks := l.userCallbacks
  resolved := l.resolved
  recordEvicted := l.recordEvicted
  released := l.released
  record := l.record
  destroyed := l.destroyed
  useAfterFree := l.useAfterFree
  resolution := l.resolution

@[simp] theorem control_setServer (l : Lookup) (i : ℕ) (sd : ServerQueryData) :
    (l.setServer i sd).control = l.control := by
  simp [control, setServer]

/-- The number of servers and the number of those that finished. -/
def counts (l : Lookup) : ℕ × ℕ := (l.tasksFinished, l.servers.length)

@[simp] theorem control_emit (l : Lookup) (e : Effect) : (l.emit e).control = l.control := rfl

@[simp] theorem control_cancel (l : Lookup) (i : ℕ) : (l.cancel i).control = l.control := by
  obtain ⟨-, h⟩ | ⟨-, -, h⟩ := cancel_cases l i <;> simp [h]

@[simp] theorem counts_cancel (l : Lookup) (i : ℕ) : (l.cancel i).counts = l.counts := by
  obtain ⟨-, h⟩ | ⟨-, -, h⟩ := cancel_cases l i <;> simp [h, counts, emit, setServer]

theorem control_finishServer {l : Lookup} {i : ℕ} (hi : i < l.servers.length) :
    (l.finishServer i).control = l.control := by
  rw [finishServer_eq hi]
  rfl

theorem counts_cancelUnfinished (l : Lookup) : l.cancelUnfinished.counts = l.counts :=
  cancelUnfinished_keeps (I := fun l' => l'.counts = l.counts) rfl
    fun l' i h => (counts_cancel l' i).trans h

theorem control_cancelUnfinished (l : Lookup) : l.cancelUnfinished.control = l.control :=
  cancelUnfinished_keeps (I := fun l' => l'.control = l.control) rfl
    fun l' i h => (control_cancel l' i).trans h

@[simp] theorem servers_setRecord (l : Lookup) (r : Record) : (l.setRecord r).servers = l.servers := by
  unfold setRecord
  split <;> rfl

@[simp] theorem trace_setRecord (l : Lookup) (r : Record) : (l.setRecord r).trace = l.trace := by
  unfold setRecord
  split <;> rfl

@[simp] theorem counts_setRecord (l : Lookup) (r : Record) : (l.setRecord r).counts = l.counts := by
  unfold setRecord
  split <;> rfl

theorem controlRelease_servers (l : Lookup) : l.controlRelease.servers = l.servers := by
  unfold controlRelease
  split
  · rfl
  simp only [emit]
  split
  · rfl
  split
  · rfl
  · simp [dispatchAll, discardRecord]

theorem counts_controlRelease (l : Lookup) : l.controlRelease.counts = l.counts := by
  unfold controlRelease
  split
  · rfl
  simp only [emit]
  split
  · rfl
  split
  · rfl
  · exact counts_setRecord _ _

theorem controlRelease_released (l : Lookup) : l.controlRelease.released = true := by
  unfold controlRelease
  split
  · assumption
  simp only [emit]
  split
  · rfl
  split
  · rfl
  · simp only [dispatchAll, discardRecord, setRecord]
    split <;> rfl

/-- What the release of the control data adds to the trace is not about a server. -/
theorem controlRelease_trace (l : Lookup) :
    ∃ e, l.controlRelease.trace = l.trace ++ e ∧ (∀ i, e.count (.closeSocket i) = 0) ∧
      ∀ i, e.count (.finished i) = 0 := by
  unfold controlRelease
  split
  · exact ⟨[], by simp⟩
  simp only [emit]
  split
  · exact ⟨[.released], by simp⟩
  · refine ⟨l.userCallbacks.map (Effect.dispatch · true) ++ [.released], ?_, ?_, ?_⟩
    · split
      · simp [dispatchAll]
      · simp only [dispatchAll, discardRecord, setRecord]
        split <;> simp
    · intro i
      simp [List.count_eq_zero]
    · intro i
      simp [List.count_eq_zero]

/-! ### The servers -/

/-- What holds of the servers. `running` is the server whose callback is running. -/
structure ServersOk (running : Option ℕ) (l : Lookup) : Prop where
  closes : ∀ i < l.servers.length,
    l.trace.count (.closeSocket i) = if (l.server i).socketFd.isSome then 0 else 1
  finishes : ∀ i < l.servers.length,
    l.trace.count (.finished i) = if (l.server i).finished then 1 else 0
  closed : ∀ i < l.servers.length, (l.server i).finished = true → (l.server i).socketFd = none
  ops : ∀ i < l.servers.length,
    (l.server i).finished = true ↔ (l.server i).op = none ∧ running ≠ some i
  counted : l.tasksFinished = l.servers.countP (·.finished)
  runs : ∀ i, running = some i → i < l.servers.length ∧ (l.server i).op = none

namespace ServersOk

variable {running : Option ℕ} {l : Lookup} {i : ℕ}

theorem unfinished (h : ServersOk (some i) l) : (l.server i).finished = false := by
  have hi := (h.runs i rfl).1
  by_contra hf
  exact ((h.ops i hi).1 (by simpa using hf)).2 rfl

/-- Only the servers and their part of the trace count. -/
theorem congr {l' : Lookup} (h : ServersOk running l) (hs : l'.servers = l.servers)
    (ht : l'.tasksFinished = l.tasksFinished)
    (hc : ∀ i, l'.trace.count (.closeSocket i) = l.trace.count (.closeSocket i))
    (hf : ∀ i, l'.trace.count (.finished i) = l.trace.count (.finished i)) :
    ServersOk running l' := by
  have hserver : ∀ i, l'.server i = l.server i := fun i => by simp [server, hs]
  constructor
  · simpa only [hs, hc, hserver] using h.closes
  · simpa only [hs, hf, hserver] using h.finishes
  · simpa only [hs, hserver] using h.closed
  · simpa only [hs, hserver] using h.ops
  · rw [ht, hs]
    exact h.counted
  · simpa only [hs, hserver] using h.runs

/-- The data of one server, its part of the trace and the number of finished servers change. Its
callback begins (`running'` is `i`), goes on, or ends. -/
theorem update {running' : Option ℕ} {l' : Lookup} {sd : ServerQueryData} (h : ServersOk running l)
    (hi : i < l.servers.length) (hs : l'.servers = l.servers.set i sd)
    (hcj : ∀ j, j ≠ i → l'.trace.count (.closeSocket j) = l.trace.count (.closeSocket j))
    (hfj : ∀ j, j ≠ i → l'.trace.count (.finished j) = l.trace.count (.finished j))
    (hci : l'.trace.count (.closeSocket i) = if sd.socketFd.isSome then 0 else 1)
    (hfi : l'.trace.count (.finished i) = if sd.finished then 1 else 0)
    (hclosed : sd.finished = true → sd.socketFd = none)
    (hop : sd.finished = true ↔ sd.op = none ∧ running' ≠ some i)
    (hidle : running' = some i → sd.op = none)
    (hrun : ∀ j, j ≠ i → (running' = some j ↔ running = some j))
    (ht : l'.tasksFinished + (if (l.server i).finished then 1 else 0) =
      l.tasksFinished + if sd.finished then 1 else 0) :
    ServersOk running' l' := by
  have hlen : l'.servers.length = l.servers.length := by rw [hs, List.length_set]
  have hself : l'.server i = sd := by
    have := server_setServer sd hi i
    simpa [server, Lookup.setServer, hs] using this
  have hother : ∀ j, j ≠ i → l'.server j = l.server j := by
    intro j hji
    have := server_setServer sd hi j
    rw [if_neg (Ne.symm hji)] at this
    simpa [server, Lookup.setServer, hs] using this
  constructor
  · intro j hj
    by_cases hji : j = i
    · rw [hji, hself, hci]
    · rw [hother j hji, hcj j hji, h.closes j (hlen ▸ hj)]
  · intro j hj
    by_cases hji : j = i
    · rw [hji, hself, hfi]
    · rw [hother j hji, hfj j hji, h.finishes j (hlen ▸ hj)]
  · intro j hj
    by_cases hji : j = i
    · rw [hji, hself]
      exact hclosed
    · rw [hother j hji]
      exact h.closed j (hlen ▸ hj)
  · intro j hj
    by_cases hji : j = i
    · rw [hji, hself]
      exact hop
    · rw [hother j hji, h.ops j (hlen ▸ hj), Ne, Ne, hrun j hji]
  · have hget : l.servers[i] = l.server i := by
      simp [server, hi]
    have hpos : (if (l.server i).finished then 1 else 0) ≤ l.servers.countP (·.finished) := by
      split
      · rename_i hf
        exact List.countP_pos_iff.2 ⟨l.servers[i], List.getElem_mem hi, by rw [hget]; exact hf⟩
      · exact Nat.zero_le _
    have hcount := h.counted
    rw [hs, List.countP_set hi, hget]
    omega
  · intro j hj
    by_cases hji : j = i
    · rw [hji, hlen, hself]
      exact ⟨hi, hidle (hji ▸ hj)⟩
    · rw [hlen, hother j hji]
      exact h.runs j ((hrun j hji).1 hj)

/-- An update of a server that leaves its socket alone. -/
theorem setServer {running' : Option ℕ} {sd : ServerQueryData} (h : ServersOk running l)
    (hi : i < l.servers.length) (hfd : sd.socketFd = (l.server i).socketFd)
    (hfin : sd.finished = (l.server i).finished)
    (hop : sd.finished = true ↔ sd.op = none ∧ running' ≠ some i)
    (hidle : running' = some i → sd.op = none)
    (hrun : ∀ j, j ≠ i → (running' = some j ↔ running = some j)) :
    ServersOk running' (l.setServer i sd) := by
  refine h.update hi rfl (fun _ _ => rfl) (fun _ _ => rfl) ?_ ?_ ?_ hop hidle hrun ?_
  · rw [hfd]
    exact h.closes i hi
  · rw [hfin]
    exact h.finishes i hi
  · rw [hfd, hfin]
    exact h.closed i hi
  · rw [hfin]
    rfl

theorem cancel (h : ServersOk running l) (i : ℕ) : ServersOk running (l.cancel i) := by
  obtain ⟨-, he⟩ | ⟨hopen, hi, he⟩ := cancel_cases l i
  · rw [he]
    exact h
  rw [he]
  have hc := h.closes i hi
  rw [if_pos hopen] at hc
  refine h.update hi rfl ?_ ?_ ?_ ?_ (fun _ => rfl) (h.ops i hi)
    (fun hr => (h.runs i hr).2) (fun _ _ => Iff.rfl) rfl
  · intro j hji
    simp [emit, Lookup.setServer, Ne.symm hji]
  · intro j _
    simp [emit, Lookup.setServer]
  · simp [emit, Lookup.setServer, hc]
  · simpa [emit, Lookup.setServer] using h.finishes i hi

theorem cancelUnfinished (h : ServersOk running l) : ServersOk running l.cancelUnfinished :=
  cancelUnfinished_keeps h fun _ i hl => hl.cancel i

/-- The callback of a server ends by finishing it. -/
theorem finishServer (h : ServersOk (some i) l) : ServersOk none (l.finishServer i) := by
  obtain ⟨hi, hop⟩ := h.runs i rfl
  have hunfinished := h.unfinished
  have hc := h.closes i hi
  have hf := h.finishes i hi
  rw [hunfinished] at hf
  rw [finishServer_eq hi]
  refine h.update hi rfl ?_ ?_ ?_ ?_ (fun _ => rfl) ?_ nofun ?_ ?_
  · intro j hji
    by_cases hopen : (l.server i).socketFd.isSome <;> simp [hopen, Ne.symm hji]
  · intro j hji
    by_cases hopen : (l.server i).socketFd.isSome <;> simp [hopen, Ne.symm hji]
  · by_cases hopen : (l.server i).socketFd.isSome <;> simp [hopen] at hc ⊢ <;> exact hc
  · by_cases hopen : (l.server i).socketFd.isSome <;> simpa [hopen] using hf
  · simp [hop]
  · intro j hji
    simp [Ne.symm hji]
  · simp [hunfinished]

theorem controlRelease (h : ServersOk running l) : ServersOk running l.controlRelease := by
  obtain ⟨e, he, hc, hf⟩ := controlRelease_trace l
  refine h.congr (controlRelease_servers l) (Prod.mk.inj (counts_controlRelease l)).1 ?_ ?_
  · intro j
    rw [he, List.count_append, hc, Nat.add_zero]
  · intro j
    rw [he, List.count_append, hf, Nat.add_zero]

/-- While a server has not finished, not all servers are counted. -/
theorem tasksFinished_ne (h : ServersOk running l) (hi : i < l.servers.length)
    (hf : (l.server i).finished = false) : l.tasksFinished ≠ l.servers.length := by
  intro hall
  rw [h.counted, List.countP_eq_length] at hall
  have hget : l.servers[i] = l.server i := by
    simp [server, hi]
  rw [← hget, hall _ (List.getElem_mem hi)] at hf
  exact Bool.noConfusion hf

end ServersOk

/-! ### The control data -/

/-- The callbacks dispatched in a trace, in order. -/
def dispatched (trace : List Effect) : List CallbackId :=
  trace.filterMap fun
    | .dispatch callback _ => some callback
    | _ => none

@[simp] theorem dispatched_closeSocket (i : ℕ) : dispatched [.closeSocket i] = [] := rfl

@[simp] theorem dispatched_finished (i : ℕ) : dispatched [.finished i] = [] := rfl

@[simp] theorem dispatched_released : dispatched [.released] = [] := rfl

@[simp] theorem dispatched_append (t t' : List Effect) :
    dispatched (t ++ t') = dispatched t ++ dispatched t' := by
  simp [dispatched]

@[simp] theorem dispatched_map (cs : List CallbackId) (cancelled : Bool) :
    dispatched (cs.map (Effect.dispatch · cancelled)) = cs := by
  simp [dispatched, List.filterMap_map]

/-- What holds of the callbacks, the record and the release. -/
structure ControlOk (l : Lookup) : Prop where
  destroyed : l.destroyed = l.released
  last : l.released = true → ∃ before, l.trace = before ++ [.released] ∧ .released ∉ before
  unreleased : l.released = false → .released ∉ l.trace
  dispatches : dispatched l.trace =
    if l.resolved = true ∨ l.released = true then l.userCallbacks else []
  pending : l.recordEvicted = false → l.resolved = false → l.released = false →
    ∃ r, l.record = some r ∧ r.state = .pending
  evicted : l.recordEvicted = true → l.record = none
  settled : ∀ r, l.record = some r → r.state = .pending → l.resolved = false ∧ l.released = false
  safe : l.useAfterFree = false

/-- The invariant of a lookup. -/
structure Inv (running : Option ℕ) (l : Lookup) : Prop where
  servers : ServersOk running l
  control : ControlOk l
  released : l.released = true ↔ l.tasksFinished = l.servers.length

namespace ControlOk

variable {l l' : Lookup}

/-- Before the release, only the control data, the dispatched callbacks and the absence of a release
count. -/
theorem congr (h : ControlOk l) (halive : l.released = false) (hc : l'.control = l.control)
    (hr : .released ∈ l'.trace → .released ∈ l.trace)
    (hd : dispatched l'.trace = dispatched l.trace) : ControlOk l' := by
  simp only [Lookup.control, Control.mk.injEq] at hc
  obtain ⟨hcb, hres, hev, hrel, hrec, hdes, huaf, -⟩ := hc
  constructor
  · rw [hdes, hrel]
    exact h.destroyed
  · intro hl
    rw [hrel, halive] at hl
    exact Bool.noConfusion hl
  · intro _ hmem
    exact h.unreleased halive (hr hmem)
  · rw [hd, hres, hrel, hcb]
    exact h.dispatches
  · rw [hev, hres, hrel, hrec]
    exact h.pending
  · rw [hev, hrec]
    exact h.evicted
  · rw [hres, hrel, hrec]
    exact h.settled
  · rw [huaf]
    exact h.safe

/-- The release of the control data. The callbacks of an unresolved lookup are dispatched and its
record is discarded. -/
theorem controlRelease (h : ControlOk l) (hrel : l.released = false) :
    ControlOk l.controlRelease := by
  have hno := h.unreleased hrel
  have hd := h.dispatches
  by_cases hres : l.resolved = true
  · -- the callbacks were dispatched when the lookup was resolved
    rw [if_pos (.inl hres)] at hd
    simp only [Lookup.controlRelease, hrel, hres, emit, Bool.false_eq_true, if_false, if_true]
    refine ⟨rfl, fun _ => ⟨_, rfl, hno⟩, nofun, ?_, nofun, h.evicted, ?_, h.safe⟩
    · simp [hd]
    · intro r hr hp
      exact absurd (h.settled r hr hp).1 (by simp [hres])
  · have hres' : l.resolved = false := by simpa using hres
    rw [if_neg (by simp [hres', hrel])] at hd
    by_cases hev : l.recordEvicted = true
    · have hnone := h.evicted hev
      simp only [Lookup.controlRelease, hrel, hres', hev, emit, dispatchAll, Bool.false_eq_true,
        if_false, if_true]
      refine ⟨rfl, fun _ => ⟨_, rfl, ?_⟩, nofun, ?_, nofun, fun _ => hnone, ?_, h.safe⟩
      · simp [hno]
      · simp [hd]
      · intro r hr
        simp [hnone] at hr
    · have hev' : l.recordEvicted = false := by simpa using hev
      obtain ⟨r, hr, -⟩ := h.pending hev' hres' hrel
      simp only [Lookup.controlRelease, hrel, hres', hev', emit, dispatchAll, discardRecord,
        setRecord, hr, Bool.false_eq_true, if_false]
      refine ⟨rfl, fun _ => ⟨_, rfl, ?_⟩, nofun, ?_, nofun, nofun, ?_, h.safe⟩
      · simp [hno]
      · simp [hd]
      · rintro r' hr' hp
        simp only [Option.some.injEq] at hr'
        subst hr'
        exact nomatch hp

end ControlOk

/-- `setupRecord` leaves a destroyed record alone and otherwise ends the pending state. -/
theorem setupRecord_cases {l l' : Lookup} {a : Answers} {dupe : Bool} {now : ℤ}
    (h : l.setupRecord a dupe now = some l') :
    (l.recordEvicted = true ∧ l' = l) ∨
      (l.recordEvicted = false ∧ ∃ r : Record, r.state ≠ .pending ∧ l' = l.setRecord r) := by
  unfold setupRecord at h
  split at h
  · rename_i hev
    obtain rfl := Option.some.inj h
    exact .inl ⟨hev, rfl⟩
  rename_i hev
  refine .inr ⟨by simpa using hev, ?_⟩
  split at h
  · split at h
    · obtain rfl := Option.some.inj h
      exact ⟨_, by simp, rfl⟩
    · exact nomatch h
  · split at h
    · obtain rfl := Option.some.inj h
      exact ⟨_, by simp, rfl⟩
    · exact nomatch h
  · obtain rfl := Option.some.inj h
    exact ⟨_, by simp, rfl⟩

/-- Cancelling the servers dispatches and releases nothing. -/
theorem cancelUnfinished_trace (l : Lookup) :
    dispatched l.cancelUnfinished.trace = dispatched l.trace ∧
      (.released ∈ l.cancelUnfinished.trace → .released ∈ l.trace) := by
  refine cancelUnfinished_keeps (I := fun l' => dispatched l'.trace = dispatched l.trace ∧
    (Effect.released ∈ l'.trace → Effect.released ∈ l.trace)) ⟨rfl, id⟩ ?_
  intro l' i hl'
  obtain ⟨-, he⟩ | ⟨-, -, he⟩ := cancel_cases l' i
  · rw [he]
    exact hl'
  · rw [he]
    simpa [emit, setServer] using hl'

namespace Inv

variable {running : Option ℕ} {l : Lookup} {i : ℕ}

theorem released_eq_false (h : Inv running l) (hi : i < l.servers.length)
    (hf : (l.server i).finished = false) : l.released = false := by
  by_contra hr
  exact h.servers.tasksFinished_ne hi hf (h.released.1 (by simpa using hr))

theorem alive (h : Inv (some i) l) : l.released = false :=
  h.released_eq_false (h.servers.runs i rfl).1 h.servers.unfinished

theorem touch_eq (h : Inv (some i) l) : l.touch = l :=
  touch_of_alive (by rw [h.control.destroyed, h.alive])

/-- A callback updates its server. -/
theorem setServer {sd : ServerQueryData} (h : Inv (some i) l)
    (hfd : sd.socketFd = (l.server i).socketFd) (hfin : sd.finished = (l.server i).finished)
    (hop : sd.op = (l.server i).op) : Inv (some i) (l.setServer i sd) := by
  obtain ⟨hi, hidle⟩ := h.servers.runs i rfl
  refine ⟨h.servers.setServer hi hfd hfin ?_ (fun _ => hop.trans hidle) (fun _ _ => Iff.rfl),
    h.control.congr h.alive (control_setServer l i sd) id rfl, ?_⟩
  · rw [hfin, h.servers.unfinished]
    simp
  · rw [length_setServer]
    exact h.released

/-- A callback ends by leaving something outstanding for its server. -/
theorem setOp (h : Inv (some i) l) (op : Op) :
    Inv none (l.setServer i { l.server i with op := some op }) := by
  obtain ⟨hi, -⟩ := h.servers.runs i rfl
  refine ⟨h.servers.setServer hi rfl rfl ?_ nofun ?_,
    h.control.congr h.alive (control_setServer l i _) id rfl, ?_⟩
  · simp [h.servers.unfinished]
  · intro j hji
    simp [Ne.symm hji]
  · rw [length_setServer]
    exact h.released

/-- The operation of a server is over and its callback begins. -/
theorem complete {op : Op} (h : Inv none l) (hop : (l.server i).op = some op)
    (received : Option Datagram) : Inv (some i) (l.complete i received) := by
  have hi : i < l.servers.length := by
    by_contra hle
    rw [server_of_le (Nat.le_of_not_lt hle)] at hop
    exact nomatch (show (none : Option Op) = some op from hop)
  have hf : (l.server i).finished = false := by
    by_contra hf
    have := ((h.servers.ops i hi).1 (by simpa using hf)).1
    rw [hop] at this
    exact nomatch this
  refine ⟨h.servers.setServer hi rfl rfl ?_ (fun _ => rfl) ?_,
    h.control.congr (h.released_eq_false hi hf) (control_setServer l i _) id rfl, ?_⟩
  · simp [hf]
  · intro j hji
    simp [Ne.symm hji]
  · rw [Lookup.complete, length_setServer]
    exact h.released


/-- The callback of a server ends by releasing it. -/
theorem release (h : Inv (some i) l) : Inv none (l.release i) := by
  obtain ⟨hi, -⟩ := h.servers.runs i rfl
  have hservers := h.servers.finishServer
  have hcontrol : ControlOk (l.finishServer i) := by
    refine h.control.congr h.alive (control_finishServer hi) ?_ ?_
    · rw [finishServer_eq hi]
      by_cases hopen : (l.server i).socketFd.isSome <;> simp [hopen]
    · rw [finishServer_eq hi]
      show dispatched (_ ++ _ ++ _) = _
      rw [dispatched_append, dispatched_append]
      split <;> simp [dispatched]
  have hrel : (l.finishServer i).released = false := by
    rw [finishServer_eq hi]
    exact h.alive
  unfold Lookup.release
  simp only [h.touch_eq, h.servers.unfinished, Bool.false_eq_true, if_false]
  split
  · rename_i hall
    refine ⟨hservers.controlRelease, hcontrol.controlRelease hrel, ?_⟩
    have hc := counts_controlRelease (l.finishServer i)
    simp only [counts, Prod.mk.injEq] at hc
    rw [hc.1, hc.2]
    simp [hall, controlRelease_released]
  · rename_i hnot
    refine ⟨hservers, hcontrol, ?_⟩
    simp [hrel, hnot]

/-- Resolving the lookup, from the callback of a server. -/
theorem markResolved (h : Inv (some i) l) (cause : Cause) (dupe : Bool) (now : ℤ) :
    Inv (some i) (l.markResolved i cause dupe now).1 := by
  have halive := h.alive
  unfold Lookup.markResolved
  rw [h.touch_eq]
  split
  · exact h
  rename_i hres
  replace hres : l.resolved = false := by simpa using hres
  have hd := h.control.dispatches
  rw [if_neg (by simp [hres, halive])] at hd
  -- the lookup with every open socket closed
  have hset : ServersOk (some i) { l with resolved := true } :=
    h.servers.congr rfl rfl (fun _ => rfl) fun _ => rfl
  have hservers := hset.cancelUnfinished
  have hcontrol := control_cancelUnfinished { l with resolved := true }
  have hcounts := counts_cancelUnfinished { l with resolved := true }
  obtain ⟨hdisp, hnorel⟩ := cancelUnfinished_trace { l with resolved := true }
  revert hservers hcontrol hcounts hdisp hnorel
  generalize Lookup.cancelUnfinished { l with resolved := true } = l'
  intro hservers hcontrol hcounts hdisp hnorel
  simp only [Lookup.control, Control.mk.injEq] at hcontrol
  obtain ⟨hcb, hres', hev, hrel, hrec, hdes, huaf, hresn⟩ := hcontrol
  simp only [counts, Prod.mk.injEq] at hcounts
  have hreleased : l'.released = true ↔ l'.tasksFinished = l'.servers.length := by
    rw [hrel, hcounts.1, hcounts.2]
    exact h.released
  dsimp only
  split
  · -- no memory for the cached copy: nothing was dispatched and the record is still pending
    refine ⟨hservers.congr rfl rfl (fun _ => rfl) fun _ => rfl,
      h.control.congr halive ?_ hnorel hdisp, hreleased⟩
    simp [Lookup.control, hcb, hres, hev, hrel, hrec, hdes, huaf, hresn]
  · rename_i l'' hsetup
    have hdone : dispatched (l'.trace ++ l'.userCallbacks.map (Effect.dispatch · false)) =
        l'.userCallbacks := by
      rw [dispatched_append, dispatched_map, hdisp, hd, List.nil_append]
    have hno : Effect.released ∉ l'.trace ++ l'.userCallbacks.map (Effect.dispatch · false) := by
      have := h.control.unreleased halive
      simpa using fun hmem => this (hnorel hmem)
    have hcount : ∀ i, (l'.trace ++ l'.userCallbacks.map (Effect.dispatch · false)).count
        (.closeSocket i) = l'.trace.count (.closeSocket i) := by
      intro j
      simp [List.count_eq_zero]
    have hcount' : ∀ i, (l'.trace ++ l'.userCallbacks.map (Effect.dispatch · false)).count
        (.finished i) = l'.trace.count (.finished i) := by
      intro j
      simp [List.count_eq_zero]
    -- whether the record was destroyed or written, it is not pending
    obtain ⟨record, hnp, hnone, rfl⟩ : ∃ record : Option Record,
        (∀ r, record = some r → r.state ≠ .pending) ∧
          (l'.recordEvicted = true → record = none) ∧ l'' = { l' with record := record } := by
      obtain ⟨hev', rfl⟩ | ⟨hev', r, hr, rfl⟩ := setupRecord_cases hsetup
      · have hnone : l''.record = none := by
          rw [hrec]
          exact h.control.evicted (hev ▸ hev')
        exact ⟨none, nofun, fun _ => rfl, by rw [← hnone]⟩
      · obtain ⟨r₀, hr₀, -⟩ := h.control.pending (hev ▸ hev') hres halive
        refine ⟨some r, ?_, by simp [hev'], by simp [setRecord, hrec, hr₀]⟩
        rintro r' hr'
        obtain rfl := Option.some.inj hr'
        exact hr
    refine ⟨hservers.congr rfl rfl hcount hcount', ?_, hreleased⟩
    refine ⟨?_, ?_, fun _ => hno, ?_, ?_, hnone, ?_, huaf.trans h.control.safe⟩
    · exact hdes.trans (h.control.destroyed.trans hrel.symm)
    · intro hr
      exact absurd (hrel.symm.trans hr) (by simp [halive])
    · simpa [dispatchAll, hres'] using hdone
    · intro _ hr
      exact absurd (hres'.symm.trans hr) (by simp)
    · intro r hr hp
      exact absurd hp (hnp r hr)

/-- `try mark_resolved_and_execute_user_callbacks(server_data); server_data.release();` -/
theorem resolveAndRelease (h : Inv (some i) l) (cause : Cause) (dupe : Bool) (now : ℤ) :
    Inv none (l.resolveAndRelease i cause dupe now) := by
  have hmark := h.markResolved cause dupe now
  unfold Lookup.resolveAndRelease
  split
  · rename_i l' heq
    rw [heq] at hmark
    exact hmark.release
  · rename_i l' heq
    rw [heq] at hmark
    exact hmark.setOp .cleanup

/-! ### The completions keep the invariant -/

theorem queueNextResponseRead (h : Inv (some i) l) : Inv none (l.queueNextResponseRead i) :=
  h.setOp .reading

theorem onQuerySent (h : Inv (some i) l) (failed cancelled dupe : Bool) (now : ℤ) :
    Inv none (l.onQuerySent i failed cancelled dupe now) := by
  unfold Lookup.onQuerySent
  dsimp only
  split
  · split
    · exact h.resolveAndRelease _ _ _
    · exact h.release
  · split
    · refine Inv.setOp (h.setServer ?_ ?_ ?_) .sending <;> rfl
    · refine Inv.setOp (h.setServer ?_ ?_ ?_) .reading <;> rfl

theorem countResponse (h : Inv (some i) l) : Inv (some i) (l.countResponse i) :=
  h.setServer rfl rfl rfl

theorem dropResponse (h : Inv (some i) l) (guarded dupe : Bool) (now : ℤ) :
    Inv none (l.dropResponse i guarded dupe now) := by
  unfold Lookup.dropResponse
  dsimp only
  split
  · exact h.countResponse.queueNextResponseRead
  split
  · exact h.countResponse.resolveAndRelease _ _ _
  · exact h.countResponse.release

theorem finishResponse (h : Inv (some i) l) (dupe : Bool) (now : ℤ) :
    Inv none (l.finishResponse i dupe now) := by
  unfold Lookup.finishResponse
  dsimp only
  split
  · exact h.countResponse.resolveAndRelease _ _ _
  split
  · exact h.countResponse.queueNextResponseRead
  split
  · exact h.countResponse.resolveAndRelease _ _ _
  · exact h.countResponse.release

theorem datagramReceived (h : Inv (some i) l) (response : Datagram) (allocs : Allocs) (now : ℤ) :
    Inv none (l.datagramReceived i response allocs now) := by
  unfold Lookup.datagramReceived
  split
  · exact h.finishResponse _ _
  · exact h.dropResponse _ _ _
  · exact h.dropResponse _ _ _
  · exact h.dropResponse _ _ _
  · exact h.dropResponse _ _ _
  · exact h.dropResponse _ _ _
  · unfold acceptResponse
    dsimp only
    split
    · refine Inv.finishResponse (h.setServer ?_ ?_ ?_) _ _ <;> rfl
    · refine Inv.setOp (h.setServer ?_ ?_ ?_) .cleanup <;> rfl

theorem processDnsResponse (h : Inv (some i) l) (response : Option Datagram) (cancelled : Bool)
    (allocs : Allocs) (now : ℤ) :
    Inv none (l.processDnsResponse i response cancelled allocs now) := by
  unfold Lookup.processDnsResponse
  split
  · exact h.release
  split
  · split
    · exact h.resolveAndRelease _ _ _
    · exact h.release
  · exact h.datagramReceived _ _ _

/-! ### The cache keeps the invariant -/

theorem appendCallback (h : Inv none l) {r : Record} (hr : l.record = some r)
    (callback : CallbackId) (alloc : Bool) : Inv none (l.appendCallback r callback alloc) := by
  unfold Lookup.appendCallback
  split
  · rename_i hp
    obtain ⟨hres, hrel⟩ := h.control.settled r hr hp
    rw [touch_of_alive (h.control.destroyed.trans hrel)]
    dsimp only
    split
    · exact h
    refine ⟨h.servers.congr rfl rfl (fun _ => rfl) fun _ => rfl, ?_, h.released⟩
    have hd := h.control.dispatches
    rw [if_neg (by simp [hres, hrel])] at hd
    refine { h.control with dispatches := ?_ }
    simpa [hres, hrel] using hd
  · exact h

theorem evictRecord (h : Inv none l) {r : Record} (hr : l.record = some r) :
    Inv none (l.evictRecord r) := by
  unfold Lookup.evictRecord
  split
  · rename_i hp
    obtain ⟨hres, hrel⟩ := h.control.settled r hr hp
    rw [touch_of_alive (h.control.destroyed.trans hrel)]
    refine ⟨h.servers.congr rfl rfl (fun _ => rfl) fun _ => rfl, ?_, h.released⟩
    exact { h.control with pending := nofun, evicted := fun _ => rfl, settled := nofun }
  · rename_i hp
    refine ⟨h.servers.congr rfl rfl (fun _ => rfl) fun _ => rfl, ?_, h.released⟩
    refine { h.control with pending := ?_, evicted := fun _ => rfl, settled := nofun }
    intro hev hres hrel
    obtain ⟨r', hr', hp'⟩ := h.control.pending hev hres hrel
    obtain rfl : r = r' := Option.some.inj (hr.symm.trans hr')
    exact absurd hp' hp

/-- **Every event keeps the invariant.** -/
theorem step {e : Event} {t : Lookup} (h : Inv none l) (hs : l.step e = some t) : Inv none t := by
  cases e with
  | querySent i failed cancelled dupe now =>
    simp only [Lookup.step] at hs
    split at hs
    · rename_i hop
      obtain rfl := Option.some.inj hs
      have hc := h.complete hop none
      rw [hc.touch_eq]
      exact hc.onQuerySent failed cancelled dupe now
    · exact nomatch hs
  | response i datagram cancelled allocs now =>
    simp only [Lookup.step] at hs
    split at hs
    · rename_i hop
      obtain rfl := Option.some.inj hs
      have hc := h.complete hop.1 datagram
      rw [hc.touch_eq]
      exact hc.processDnsResponse datagram cancelled allocs now
    · exact nomatch hs
  | cleanup i =>
    simp only [Lookup.step] at hs
    split at hs
    · rename_i hop
      obtain rfl := Option.some.inj hs
      exact (h.complete hop none).release
    · exact nomatch hs
  | attach callback alloc =>
    obtain ⟨r, hr, rfl⟩ := Option.map_eq_some_iff.1 hs
    exact h.appendCallback hr callback alloc
  | evict =>
    obtain ⟨r, hr, rfl⟩ := Option.map_eq_some_iff.1 hs
    exact h.evictRecord hr

end Inv

/-! ### Progress -/

/-- How many more completions a server can have. -/
def remaining (sd : ServerQueryData) : ℕ :=
  if sd.finished then 0
  else
    match sd.op with
    | some .sending => sd.queries.length - sd.sendIdx + sd.queries.length + 1
    | some .reading => sd.queries.length - sd.responsesReceived + 1
    | some .cleanup => 1
    | none => 0

/-- A server that sends has a query to send, a server that reads has a response to wait for. -/
def InPhase (sd : ServerQueryData) : Prop :=
  match sd.op with
  | some .sending => sd.sendIdx < sd.queries.length ∧ sd.responsesReceived = 0
  | some .reading => sd.responsesReceived < sd.queries.length
  | _ => True

/-- How many more completions a lookup can have. -/
def total (l : Lookup) : ℕ := ∑ i ∈ Finset.range l.servers.length, remaining (l.server i)

/-- What a callback of server `i` does to the servers when `budget` completions were left for this
one: it spends some, and of the others at most the sockets are closed. -/
structure Spends (i budget : ℕ) (l t : Lookup) : Prop where
  length : t.servers.length = l.servers.length
  others : ∀ j, j ≠ i → ∃ fd, t.server j = { l.server j with socketFd := fd }
  phase : InPhase (t.server i)
  spent : remaining (t.server i) < budget

theorem cancel_server (l : Lookup) (i j : ℕ) :
    ∃ fd, (l.cancel i).server j = { l.server j with socketFd := fd } := by
  obtain ⟨-, he⟩ | ⟨-, hi, he⟩ := cancel_cases l i
  · exact ⟨(l.server j).socketFd, by rw [he]⟩
  · have := server_setServer { l.server i with socketFd := none } hi j
    rw [he]
    show ∃ fd, (l.setServer i _).server j = _
    rw [this]
    split
    · rename_i hij
      subst hij
      exact ⟨none, rfl⟩
    · exact ⟨(l.server j).socketFd, rfl⟩

theorem cancelUnfinished_server (l : Lookup) (j : ℕ) :
    ∃ fd, l.cancelUnfinished.server j = { l.server j with socketFd := fd } := by
  refine cancelUnfinished_keeps
    (I := fun l' => ∃ fd, l'.server j = { l.server j with socketFd := fd }) ⟨_, rfl⟩ ?_
  intro l' i hl'
  obtain ⟨fd, hfd⟩ := hl'
  obtain ⟨fd', hfd'⟩ := cancel_server l' i j
  exact ⟨fd', by rw [hfd', hfd]⟩

theorem server_congr {l l' : Lookup} (h : l'.servers = l.servers) (j : ℕ) :
    l'.server j = l.server j := by
  simp [server, h]

theorem touch_servers (l : Lookup) : l.touch.servers = l.servers := by
  unfold touch
  split <;> rfl

/-- Resolving a lookup at most closes sockets. -/
theorem markResolved_servers (l : Lookup) (i : ℕ) (cause : Cause) (dupe : Bool) (now : ℤ) :
    (l.markResolved i cause dupe now).1.servers.length = l.servers.length ∧
      ∀ j, ∃ fd, (l.markResolved i cause dupe now).1.server j =
        { l.server j with socketFd := fd } := by
  have htouch : ({ l.touch with resolved := true } : Lookup).servers = l.servers := touch_servers l
  have hlen := (Prod.mk.inj (counts_cancelUnfinished { l.touch with resolved := true })).2
  have hfd := cancelUnfinished_server { l.touch with resolved := true }
  have hserver : ∀ j, ({ l.touch with resolved := true } : Lookup).server j = l.server j :=
    server_congr htouch
  rw [htouch] at hlen
  simp only [hserver] at hfd
  unfold markResolved
  split
  · exact ⟨by rw [touch_servers], fun j => ⟨(l.server j).socketFd, server_congr (touch_servers l) j⟩⟩
  dsimp only
  split
  · exact ⟨hlen, hfd⟩
  · rename_i l'' hsetup
    have hs : l''.servers = (cancelUnfinished { l.touch with resolved := true }).servers := by
      obtain ⟨-, rfl⟩ | ⟨-, r, -, rfl⟩ := setupRecord_cases hsetup
      · rfl
      · exact servers_setRecord _ r
    refine ⟨(congrArg List.length hs).trans hlen, fun j => ?_⟩
    obtain ⟨fd, hfd⟩ := hfd j
    exact ⟨fd, (server_congr hs j).trans hfd⟩

theorem release_servers {l : Lookup} {i : ℕ} (hi : i < l.servers.length)
    (hf : (l.server i).finished = false) :
    (l.release i).servers =
      l.servers.set i { l.server i with finished := true, socketFd := none } := by
  have htouch := touch_servers l
  have hserver := server_congr htouch i
  have hfin : (l.touch.finishServer i).servers =
      l.servers.set i { l.server i with finished := true, socketFd := none } := by
    rw [finishServer_eq (htouch ▸ hi)]
    show l.touch.servers.set i _ = _
    rw [htouch, hserver]
  unfold release
  simp only [hserver, hf, Bool.false_eq_true, if_false]
  split
  · rw [controlRelease_servers, hfin]
  · exact hfin

namespace Spends

variable {i budget : ℕ} {l t : Lookup}

/-- The callback first updates its own server. -/
theorem of_setServer (sd : ServerQueryData) (hi : i < l.servers.length)
    (h : Spends i budget (l.setServer i sd) t) : Spends i budget l t := by
  refine ⟨h.length.trans (length_setServer l i sd), ?_, h.phase, h.spent⟩
  intro j hji
  obtain ⟨fd, hfd⟩ := h.others j hji
  rw [server_setServer sd hi j, if_neg (Ne.symm hji)] at hfd
  exact ⟨fd, hfd⟩

theorem setServer {sd : ServerQueryData} (hi : i < l.servers.length) (hphase : InPhase sd)
    (hspent : remaining sd < budget) : Spends i budget l (l.setServer i sd) := by
  have hcases := server_setServer sd hi
  refine ⟨length_setServer l i sd, ?_, ?_, ?_⟩
  · intro j hji
    rw [hcases, if_neg (Ne.symm hji)]
    exact ⟨_, rfl⟩
  · rw [hcases, if_pos rfl]
    exact hphase
  · rw [hcases, if_pos rfl]
    exact hspent

theorem release (hi : i < l.servers.length) (hf : (l.server i).finished = false)
    (hop : (l.server i).op = none) (hb : 0 < budget) : Spends i budget l (l.release i) := by
  have hs := release_servers hi hf
  have h : Spends i budget l
      (l.setServer i { l.server i with finished := true, socketFd := none }) :=
    setServer hi (by simp [InPhase, hop]) (by simpa [remaining] using hb)
  have hserver : ∀ j, (l.release i).server j = (l.setServer i _).server j := server_congr hs
  exact ⟨(congrArg List.length hs).trans h.length, fun j hj => by rw [hserver]; exact h.others j hj,
    by rw [hserver]; exact h.phase, by rw [hserver]; exact h.spent⟩

/-- The callback first closes sockets. -/
theorem of_markResolved {cause : Cause} {dupe : Bool} {now : ℤ}
    (h : Spends i budget (l.markResolved i cause dupe now).1 t) : Spends i budget l t := by
  obtain ⟨hlen, hserver⟩ := markResolved_servers l i cause dupe now
  refine ⟨h.length.trans hlen, fun j hj => ?_, h.phase, h.spent⟩
  obtain ⟨fd, hfd⟩ := h.others j hj
  obtain ⟨fd', hfd'⟩ := hserver j
  exact ⟨fd, by rw [hfd, hfd']⟩

theorem resolveAndRelease (hi : i < l.servers.length) (hf : (l.server i).finished = false)
    (hop : (l.server i).op = none) (hb : 1 < budget) (cause : Cause) (dupe : Bool) (now : ℤ) :
    Spends i budget l (l.resolveAndRelease i cause dupe now) := by
  obtain ⟨hlen, hserver⟩ := markResolved_servers l i cause dupe now
  obtain ⟨fd, hfd⟩ := hserver i
  have hi' := hlen.symm ▸ hi
  apply of_markResolved
  unfold Lookup.resolveAndRelease
  split
  · rename_i l' heq
    rw [heq] at hi' hfd ⊢
    exact release hi' (by rw [hfd]; exact hf) (by rw [hfd]; exact hop) (by omega)
  · rename_i l' heq
    rw [heq] at hi' hfd ⊢
    refine setServer hi' (by simp [InPhase]) ?_
    rw [hfd]
    simpa [remaining, hf] using hb

/-- `setServer` twice on the same server. -/
theorem of_update {sd : ServerQueryData} {f : ServerQueryData → ServerQueryData}
    (hi : i < l.servers.length) (hphase : InPhase (f sd)) (hspent : remaining (f sd) < budget) :
    Spends i budget l ((l.setServer i sd).setServer i (f ((l.setServer i sd).server i))) := by
  apply of_setServer sd hi
  rw [server_setServer sd hi, if_pos rfl]
  exact setServer (by simpa using hi) hphase hspent

theorem onQuerySent (hi : i < l.servers.length) (hf : (l.server i).finished = false)
    (hop : (l.server i).op = none) (hsend : (l.server i).sendIdx < (l.server i).queries.length)
    (hrecv : (l.server i).responsesReceived = 0)
    (hb : (l.server i).queries.length - (l.server i).sendIdx + (l.server i).queries.length <
      budget) (failed cancelled dupe : Bool) (now : ℤ) :
    Spends i budget l (l.onQuerySent i failed cancelled dupe now) := by
  unfold Lookup.onQuerySent
  dsimp only
  split
  · split
    · exact resolveAndRelease hi hf hop (by omega) _ _ _
    · exact release hi hf hop (by omega)
  · split
    · rename_i hnext
      refine of_update (f := fun sd => { sd with op := some .sending }) hi ⟨hnext, hrecv⟩ ?_
      simp only [remaining, hf, Bool.false_eq_true, if_false]
      omega
    · refine of_update (f := fun sd => { sd with op := some .reading }) hi ?_ ?_
      · show (l.server i).responsesReceived < (l.server i).queries.length
        omega
      · simp only [remaining, hf, Bool.false_eq_true, if_false]
        omega

/-- A callback serves a read of server `i`, for which `budget` completions were left. -/
structure Reading (i budget : ℕ) (l : Lookup) : Prop where
  lt : i < l.servers.length
  unfinished : (l.server i).finished = false
  idle : (l.server i).op = none
  expects : (l.server i).responsesReceived < (l.server i).queries.length
  left : (l.server i).queries.length - (l.server i).responsesReceived < budget

/-- The counted datagram is followed by a read or by the end of the server. -/
theorem countResponse (h : Reading i budget l)
    (ht : ((l.countResponse i).server i).responsesReceived <
          ((l.countResponse i).server i).queries.length ∧
        t = (l.countResponse i).queueNextResponseRead i ∨
      t = (l.countResponse i).release i ∨
      ∃ cause dupe now, t = (l.countResponse i).resolveAndRelease i cause dupe now) :
    Spends i budget l t := by
  have hself := server_setServer
    { l.server i with responsesReceived := (l.server i).responsesReceived + 1 } h.lt i
  rw [if_pos rfl] at hself
  replace hself : (l.countResponse i).server i = _ := hself
  have hlen : i < (l.countResponse i).servers.length := by simpa [Lookup.countResponse] using h.lt
  have hexpects := h.expects
  have hleft := h.left
  refine of_setServer _ h.lt (?_ : Spends i budget (l.countResponse i) t)
  obtain ⟨hmore, rfl⟩ | rfl | ⟨cause, dupe, now, rfl⟩ := ht
  · rw [hself] at hmore
    refine setServer hlen ?_ ?_
    · rw [hself]
      exact hmore
    · rw [hself]
      simp only [remaining, h.unfinished, Bool.false_eq_true, if_false]
      simp only at hmore
      omega
  · exact release hlen (by rw [hself]; exact h.unfinished) (by rw [hself]; exact h.idle) (by omega)
  · exact resolveAndRelease hlen (by rw [hself]; exact h.unfinished) (by rw [hself]; exact h.idle)
      (by omega) _ _ _

theorem dropResponse (h : Reading i budget l) (guarded dupe : Bool) (now : ℤ) :
    Spends i budget l (l.dropResponse i guarded dupe now) := by
  unfold Lookup.dropResponse
  apply countResponse h
  dsimp only
  split
  · rename_i hmore
    exact .inl ⟨hmore.1, rfl⟩
  split
  · exact .inr (.inr ⟨_, _, _, rfl⟩)
  · exact .inr (.inl rfl)

theorem finishResponse (h : Reading i budget l) (dupe : Bool) (now : ℤ) :
    Spends i budget l (l.finishResponse i dupe now) := by
  unfold Lookup.finishResponse
  apply countResponse h
  dsimp only
  split
  · exact .inr (.inr ⟨_, _, _, rfl⟩)
  split
  · rename_i hmore
    exact .inl ⟨hmore.1, rfl⟩
  split
  · exact .inr (.inr ⟨_, _, _, rfl⟩)
  · exact .inr (.inl rfl)

theorem datagramReceived (h : Reading i budget l) (response : Datagram) (allocs : Allocs) (now : ℤ) :
    Spends i budget l (l.datagramReceived i response allocs now) := by
  unfold Lookup.datagramReceived
  split
  · exact finishResponse h _ _
  · exact dropResponse h _ _ _
  · exact dropResponse h _ _ _
  · exact dropResponse h _ _ _
  · exact dropResponse h _ _ _
  · exact dropResponse h _ _ _
  · unfold acceptResponse
    dsimp only
    have hself := server_setServer
      { l.server i with answers := (collectAnswers response allocs (l.server i).answers).1 } h.lt i
    rw [if_pos rfl] at hself
    split
    · apply of_setServer _ h.lt
      refine finishResponse ⟨?_, ?_, ?_, ?_, ?_⟩ _ _
      · simpa using h.lt
      · rw [hself]
        exact h.unfinished
      · rw [hself]
        exact h.idle
      · rw [hself]
        exact h.expects
      · rw [hself]
        exact h.left
    · refine of_update (f := fun sd => { sd with op := some .cleanup }) h.lt (by simp [InPhase]) ?_
      have := h.expects
      have := h.left
      simp only [remaining, h.unfinished, Bool.false_eq_true, if_false]
      omega

theorem processDnsResponse (h : Reading i budget l) (response : Option Datagram) (cancelled : Bool)
    (allocs : Allocs) (now : ℤ) :
    Spends i budget l (l.processDnsResponse i response cancelled allocs now) := by
  have hexpects := h.expects
  have hleft := h.left
  unfold Lookup.processDnsResponse
  split
  · exact release h.lt h.unfinished h.idle (by omega)
  split
  · split
    · exact resolveAndRelease h.lt h.unfinished h.idle (by omega) _ _ _
    · exact release h.lt h.unfinished h.idle (by omega)
  · exact datagramReceived h _ _ _

theorem total_lt (h : Spends i (remaining (l.server i)) l t) (hi : i < l.servers.length) :
    total t < total l := by
  unfold total
  rw [h.length]
  refine Finset.sum_lt_sum ?_ ⟨i, Finset.mem_range.2 hi, h.spent⟩
  intro j _
  by_cases hji : j = i
  · rw [hji]
    exact h.spent.le
  · obtain ⟨fd, hfd⟩ := h.others j hji
    rw [hfd]
    exact le_rfl

theorem inPhase (h : Spends i budget l t) (hl : ∀ j, InPhase (l.server j)) (j : ℕ) :
    InPhase (t.server j) := by
  by_cases hji : j = i
  · rw [hji]
    exact h.phase
  · obtain ⟨fd, hfd⟩ := h.others j hji
    rw [hfd]
    exact hl j

end Spends

/-- The server for which an event completes something outstanding. -/
def Event.server? : Event → Option ℕ
  | .querySent i .. | .response i .. | .cleanup i => some i
  | .attach .. | .evict => none

/-- The events that complete something outstanding for a server. -/
def Event.completes (e : Event) : Bool := e.server?.isSome

/-- A completion spends completions of one server; the other events leave the servers alone. -/
theorem step_spends {l t : Lookup} {e : Event} (h : Inv none l) (hphase : ∀ j, InPhase (l.server j))
    (hs : l.step e = some t) :
    (∃ i < l.servers.length, e.server? = some i ∧ Spends i (remaining (l.server i)) l t) ∨
      (e.server? = none ∧ t.servers = l.servers) := by
  -- what holds when the callback of server `i` begins
  have hbegin : ∀ {i : ℕ} {op : Op} (received : Option Datagram), (l.server i).op = some op →
      i < l.servers.length ∧ (l.server i).finished = false ∧
        (l.complete i received).server i =
          { l.server i with op := none, history := (l.server i).history ++ received.toList } := by
    intro i op received hop
    have hc := h.complete hop received
    obtain ⟨hi, -⟩ := hc.servers.runs i rfl
    rw [Lookup.complete, length_setServer] at hi
    have hself := server_setServer
      { l.server i with op := none, history := (l.server i).history ++ received.toList } hi i
    rw [if_pos rfl] at hself
    have hf := hc.servers.unfinished
    rw [Lookup.complete, hself] at hf
    exact ⟨hi, hf, hself⟩
  cases e with
  | querySent i failed cancelled dupe now =>
    left
    simp only [Lookup.step] at hs
    split at hs
    · rename_i hop
      obtain rfl := Option.some.inj hs
      obtain ⟨hi, hf, hself⟩ := hbegin none hop
      have hp := hphase i
      simp only [InPhase, hop] at hp
      rw [(h.complete hop none).touch_eq]
      refine ⟨i, hi, rfl, .of_setServer _ hi (Spends.onQuerySent ?_ ?_ ?_ ?_ ?_ ?_ _ _ _ _)⟩
      · simpa using hi
      all_goals rw [show (l.setServer i _).server i = _ from hself]
      · exact hf
      · exact hp.1
      · exact hp.2
      · simp only [remaining, hf, hop, Bool.false_eq_true, if_false]
        omega
    · exact nomatch hs
  | response i datagram cancelled allocs now =>
    left
    simp only [Lookup.step] at hs
    split at hs
    · rename_i hop
      obtain rfl := Option.some.inj hs
      obtain ⟨hi, hf, hself⟩ := hbegin datagram hop.1
      have hp := hphase i
      simp only [InPhase, hop.1] at hp
      rw [(h.complete hop.1 datagram).touch_eq]
      refine ⟨i, hi, rfl, .of_setServer _ hi
        (Spends.processDnsResponse ⟨?_, ?_, ?_, ?_, ?_⟩ _ _ _ _)⟩
      · simpa using hi
      all_goals rw [show (l.setServer i _).server i = _ from hself]
      · exact hf
      · exact hp
      · simp only [remaining, hf, hop.1, Bool.false_eq_true, if_false]
        omega
    · exact nomatch hs
  | cleanup i =>
    left
    simp only [Lookup.step] at hs
    split at hs
    · rename_i hop
      obtain rfl := Option.some.inj hs
      obtain ⟨hi, hf, hself⟩ := hbegin none hop
      refine ⟨i, hi, rfl, .of_setServer _ hi (Spends.release ?_ ?_ ?_ ?_)⟩
      · simpa using hi
      · rw [show (l.setServer i _).server i = _ from hself]
        exact hf
      · rw [show (l.setServer i _).server i = _ from hself]
      · simp [remaining, hf, hop]
    · exact nomatch hs
  | attach callback alloc =>
    right
    obtain ⟨r, -, rfl⟩ := Option.map_eq_some_iff.1 hs
    refine ⟨rfl, ?_⟩
    unfold appendCallback
    split
    · dsimp only
      split
      · exact touch_servers l
      · exact touch_servers l
    · rfl
  | evict =>
    right
    obtain ⟨r, -, rfl⟩ := Option.map_eq_some_iff.1 hs
    refine ⟨rfl, ?_⟩
    unfold evictRecord
    split
    · exact touch_servers l
    · rfl

/-- The number of servers stands, and each server is in a phase. -/
theorem step_shape {l t : Lookup} {e : Event} (h : Inv none l) (hphase : ∀ j, InPhase (l.server j))
    (hs : l.step e = some t) :
    (∀ j, InPhase (t.server j)) ∧ t.servers.length = l.servers.length := by
  obtain ⟨i, -, -, hsp⟩ | ⟨-, hsame⟩ := step_spends h hphase hs
  · exact ⟨hsp.inPhase hphase, hsp.length⟩
  · refine ⟨fun j => ?_, by rw [hsame]⟩
    rw [server_congr hsame]
    exact hphase j

/-- **The rule of the handlers.** Every handler is made of the same few operations, and none changes
the queries of a server: what they keep, every completion keeps. -/
theorem completion_keeps {I : Lookup → Prop} {l t : Lookup} {e : Event} (h : I l)
    (hset : ∀ (l : Lookup) i sd, sd.queries = (l.server i).queries → I l → I (l.setServer i sd))
    (htouch : ∀ l : Lookup, I l → I l.touch)
    (hrelease : ∀ l i, I l → I (l.release i))
    (hmark : ∀ l i cause dupe now, I l → I (l.markResolved i cause dupe now).1)
    (he : e.completes = true) (hs : l.step e = some t) : I t := by
  have hresolve : ∀ l i cause dupe now, I l → I (l.resolveAndRelease i cause dupe now) := by
    intro l i cause dupe now hl
    have hm := hmark l i cause dupe now hl
    unfold resolveAndRelease
    split <;> rename_i l' heq <;> rw [heq] at hm
    · exact hrelease _ _ hm
    · exact hset _ _ _ rfl hm
  have hfinish : ∀ l i dupe now, I l → I (l.finishResponse i dupe now) := by
    intro l i dupe now hl
    have hc : I (l.countResponse i) := hset _ _ _ rfl hl
    unfold finishResponse
    dsimp only
    split
    · exact hresolve _ _ _ _ _ hc
    split
    · exact hset _ _ _ rfl hc
    split
    · exact hresolve _ _ _ _ _ hc
    · exact hrelease _ _ hc
  have hdrop : ∀ l i guarded dupe now, I l → I (l.dropResponse i guarded dupe now) := by
    intro l i guarded dupe now hl
    have hc : I (l.countResponse i) := hset _ _ _ rfl hl
    unfold dropResponse
    dsimp only
    split
    · exact hset _ _ _ rfl hc
    split
    · exact hresolve _ _ _ _ _ hc
    · exact hrelease _ _ hc
  have hreceived : ∀ l i response allocs now, I l → I (l.datagramReceived i response allocs now) := by
    intro l i response allocs now hl
    unfold datagramReceived
    split
    · exact hfinish _ _ _ _ hl
    all_goals try exact hdrop _ _ _ _ _ hl
    unfold acceptResponse
    dsimp only
    split
    · exact hfinish _ _ _ _ (hset _ _ _ rfl hl)
    · exact hset _ _ _ rfl (hset _ _ _ rfl hl)
  cases e with
  | querySent i failed cancelled dupe now =>
    simp only [step] at hs
    split at hs
    · obtain rfl := Option.some.inj hs
      have hl : I (l.complete i none).touch := htouch _ (hset _ _ _ rfl h)
      unfold onQuerySent
      dsimp only
      split
      · split
        · exact hresolve _ _ _ _ _ hl
        · exact hrelease _ _ hl
      split
      · exact hset _ _ _ rfl (hset _ _ _ rfl hl)
      · exact hset _ _ _ rfl (hset _ _ _ rfl hl)
    · exact nomatch hs
  | response i datagram cancelled allocs now =>
    simp only [step] at hs
    split at hs
    · obtain rfl := Option.some.inj hs
      have hl : I (l.complete i datagram).touch := htouch _ (hset _ _ _ rfl h)
      unfold processDnsResponse
      split
      · exact hrelease _ _ hl
      split
      · split
        · exact hresolve _ _ _ _ _ hl
        · exact hrelease _ _ hl
      · exact hreceived _ _ _ _ _ hl
    · exact nomatch hs
  | cleanup i =>
    simp only [step] at hs
    split at hs
    · obtain rfl := Option.some.inj hs
      exact hrelease _ _ (hset _ _ _ rfl h)
    · exact nomatch hs
  | attach callback alloc => exact nomatch he
  | evict => exact nomatch he

/-! ### The start of a lookup -/

theorem length_buildQueries (types : List QuestionType) (hostnames : List Datagram)
    (ids : ℕ → UInt16) : (buildQueries types hostnames ids).length =
      hostnames.length * types.length := by
  simp [buildQueries, List.length_flatMap]

theorem questionTypes_pos (ipv6Supported : Bool) (type : Option QuestionType) :
    0 < (questionTypes ipv6Supported type).length := by
  cases type with
  | some _ => exact Nat.zero_lt_one
  | none => cases ipv6Supported <;> decide

/-- What a started lookup looks like. -/
structure Started (l : Lookup) : Prop where
  server : ∀ i < l.servers.length, ∃ fd hostnamesLen queries, 0 < queries.length ∧
    l.server i = { socketFd := some fd, hostnamesLen := hostnamesLen, queries := queries, op := some .sending }
  nonempty : 0 < l.servers.length
  control : l.control =
    { userCallbacks := l.userCallbacks, resolved := false, recordEvicted := false, released := false
      record := some ⟨.pending, 9223372036854775807⟩, destroyed := false, useAfterFree := false
      resolution := none }
  tasksFinished : l.tasksFinished = 0
  trace : l.trace = []

theorem queue_started {hostname : Datagram} {userCallback : CallbackId}
    {configuration : Configuration} {ipv6Supported : Bool} {questionType : Option QuestionType}
    {ids : ℕ → ℕ → UInt16} {fds : ℕ → ℕ} {l : Lookup}
    (h : queue hostname userCallback configuration ipv6Supported questionType ids fds = some l) :
    Started l := by
  unfold queue at h
  dsimp only at h
  split at h
  · exact nomatch h
  rename_i hne
  obtain rfl := Option.some.inj h
  have hpos := questionTypes_pos ipv6Supported questionType
  refine ⟨?_, ?_, rfl, rfl, rfl⟩
  · intro i hi
    refine ⟨fds i, (getHostnameArray hostname configuration.search).length,
      buildQueries (questionTypes ipv6Supported questionType)
        (getHostnameArray hostname configuration.search) (ids i), ?_, ?_⟩
    · rw [length_buildQueries]
      exact Nat.mul_pos (Nat.pos_of_ne_zero hne) hpos
    · simp only [List.length_mapIdx] at hi
      simp [server, hi]
  · simpa [List.length_pos_iff] using configuration.servers_ne_nil

theorem Started.inv {l : Lookup} (h : Started l) : Inv none l := by
  have hserver := h.server
  have hcontrol := h.control
  simp only [Lookup.control, Control.mk.injEq, true_and] at hcontrol
  obtain ⟨hres, hev, hrel, hrec, hdes, huaf, -⟩ := hcontrol
  refine ⟨⟨?_, ?_, ?_, ?_, ?_, nofun⟩, ⟨?_, ?_, ?_, ?_, ?_, ?_, ?_, huaf⟩, ?_⟩
  · intro i hi
    obtain ⟨fd, n, queries, -, he⟩ := hserver i hi
    simp [h.trace, he]
  · intro i hi
    obtain ⟨fd, n, queries, -, he⟩ := hserver i hi
    simp [h.trace, he]
  · intro i hi hf
    obtain ⟨fd, n, queries, -, he⟩ := hserver i hi
    simp [he] at hf
  · intro i hi
    obtain ⟨fd, n, queries, -, he⟩ := hserver i hi
    simp [he]
  · rw [h.tasksFinished, eq_comm, List.countP_eq_zero]
    intro sd hsd
    obtain ⟨i, hi, rfl⟩ := List.getElem_of_mem hsd
    obtain ⟨fd, n, queries, -, he⟩ := hserver i hi
    have hget : l.servers[i] = l.server i := by
      simp [Lookup.server, hi]
    simp [hget, he]
  · rw [hdes, hrel]
  · simp [hrel]
  · simp [h.trace]
  · simp [h.trace, hres, hrel, dispatched]
  · intro _ _ _
    exact ⟨_, hrec, rfl⟩
  · simp [hev]
  · intro _ _ _
    exact ⟨hres, hrel⟩
  · rw [hrel, h.tasksFinished]
    have := h.nonempty
    simp
    omega

theorem Started.inPhase {l : Lookup} (h : Started l) (j : ℕ) : InPhase (l.server j) := by
  by_cases hj : j < l.servers.length
  · obtain ⟨fd, n, queries, hpos, he⟩ := h.server j hj
    rw [he]
    exact ⟨hpos, rfl⟩
  · rw [server_of_le (Nat.le_of_not_lt hj)]
    trivial

/-! ### Every run -/

/-- What a lookup owes its callers, its servers and its memory. -/
structure SettlesOnce (l : Lookup) : Prop where
  /-- nothing is read or written after it was destroyed -/
  safe : l.useAfterFree = false
  /-- the callbacks are dispatched together, once -/
  callbacks : dispatched l.trace =
    if l.resolved = true ∨ l.released = true then l.userCallbacks else []
  sockets : ∀ i < l.servers.length, l.trace.count (.closeSocket i) ≤ 1
  finishes : ∀ i < l.servers.length, l.trace.count (.finished i) ≤ 1
  counted : l.tasksFinished = l.servers.countP (·.finished)
  /-- the release is the last thing a lookup does -/
  released : .released ∈ l.trace → ∃ before, l.trace = before ++ [.released] ∧
    .released ∉ before ∧ ∀ i < l.servers.length, .finished i ∈ before ∧ .closeSocket i ∈ before
  /-- after the release no completion and no record leads to the control data -/
  forgotten : .released ∈ l.trace →
    (∀ i < l.servers.length, (l.server i).op = none) ∧ ∀ r, l.record = some r → r.state ≠ .pending
  /-- until the release a completion is outstanding -/
  outstanding : .released ∉ l.trace → ∃ e : Event, e.completes = true ∧ (l.step e).isSome = true
  /-- once nothing is outstanding, everything has happened -/
  settled : (∀ i < l.servers.length, (l.server i).op = none) →
    .released ∈ l.trace ∧ dispatched l.trace = l.userCallbacks ∧ ∀ i < l.servers.length,
      l.trace.count (.closeSocket i) = 1 ∧ l.trace.count (.finished i) = 1

theorem Inv.released_iff {l : Lookup} (h : Inv none l) :
    .released ∈ l.trace ↔ l.released = true := by
  constructor
  · intro hmem
    by_contra hr
    exact h.control.unreleased (by simpa using hr) hmem
  · intro hr
    obtain ⟨before, hb, -⟩ := h.control.last hr
    simp [hb]

theorem Inv.released_iff_finished {l : Lookup} (h : Inv none l) :
    l.released = true ↔ ∀ i < l.servers.length, (l.server i).finished = true := by
  rw [h.released, h.servers.counted, List.countP_eq_length]
  constructor
  · intro hall i hi
    have hget : l.servers[i] = l.server i := by
      simp [Lookup.server, hi]
    rw [← hget]
    exact hall _ (List.getElem_mem hi)
  · intro hall sd hsd
    obtain ⟨i, hi, rfl⟩ := List.getElem_of_mem hsd
    have hget : l.servers[i] = l.server i := by
      simp [Lookup.server, hi]
    rw [hget]
    exact hall i hi

/-- An outstanding operation can complete. -/
theorem step_enabled {l : Lookup} {i : ℕ} {op : Op} (h : (l.server i).op = some op) :
    ∃ e : Event, e.completes = true ∧ (l.step e).isSome = true := by
  cases op with
  | sending => exact ⟨.querySent i true false true 0, rfl, by simp [step, h]⟩
  | reading => exact ⟨.response i none false .ok 0, rfl, by simp [step, h]⟩
  | cleanup => exact ⟨.cleanup i, rfl, by simp [step, h]⟩

theorem Inv.settlesOnce {l : Lookup} (h : Inv none l) : SettlesOnce l := by
  have hfinished : ∀ i < l.servers.length, (l.server i).op = none →
      (l.server i).finished = true := fun i hi hop => (h.servers.ops i hi).2 ⟨hop, nofun⟩
  refine ⟨h.control.safe, h.control.dispatches, ?_, ?_, h.servers.counted, ?_, ?_, ?_, ?_⟩
  · intro i hi
    rw [h.servers.closes i hi]
    split <;> decide
  · intro i hi
    rw [h.servers.finishes i hi]
    split <;> decide
  · intro hmem
    have hr := h.released_iff.1 hmem
    obtain ⟨before, hb, hno⟩ := h.control.last hr
    refine ⟨before, hb, hno, ?_⟩
    intro i hi
    have hf := h.released_iff_finished.1 hr i hi
    have hc := h.servers.closes i hi
    have hn := h.servers.finishes i hi
    rw [h.servers.closed i hi hf, hb] at hc
    rw [hf, hb] at hn
    constructor
    · rw [← List.count_pos_iff]
      simpa using hn.ge
    · rw [← List.count_pos_iff]
      simpa using hc.ge
  · intro hmem
    have hr := h.released_iff.1 hmem
    constructor
    · intro i hi
      exact ((h.servers.ops i hi).1 (h.released_iff_finished.1 hr i hi)).1
    · intro r hrec hp
      exact absurd hr (by simp [(h.control.settled r hrec hp).2])
  · intro hno
    rw [h.released_iff, h.released_iff_finished] at hno
    push Not at hno
    obtain ⟨i, hi, hf⟩ := hno
    obtain ⟨op, hop⟩ := Option.ne_none_iff_exists'.1 fun hop => hf (hfinished i hi hop)
    exact step_enabled hop
  · intro hall
    have hr := h.released_iff_finished.2 fun i hi => hfinished i hi (hall i hi)
    refine ⟨h.released_iff.2 hr, ?_, ?_⟩
    · rw [h.control.dispatches, if_pos (.inr hr)]
    · intro i hi
      have hf := hfinished i hi (hall i hi)
      rw [h.servers.closes i hi, h.servers.finishes i hi, h.servers.closed i hi hf, hf]
      decide

/-- The state reached by a run meets the invariant, and the completions of the run are bounded. -/
theorem exec_inv {l t : Lookup} {es : List Event} (h : Inv none l)
    (hphase : ∀ j, InPhase (l.server j)) (hrun : Runs.exec step l es = some t) :
    Inv none t ∧ es.countP (·.completes) + total t ≤ total l := by
  induction es generalizing l with
  | nil =>
    obtain rfl : l = t := by simpa using hrun
    exact ⟨h, by simp⟩
  | cons e es ih =>
    obtain ⟨u, hu, hrest⟩ := Option.bind_eq_some_iff.1 hrun
    rw [List.countP_cons]
    obtain ⟨i, hi, he, hsp⟩ | ⟨he, hs⟩ := step_spends h hphase hu
    · obtain ⟨hinv, hle⟩ := ih (h.step hu) (hsp.inPhase hphase) hrest
      have := hsp.total_lt hi
      refine ⟨hinv, ?_⟩
      rw [if_pos (by simp [Event.completes, he])]
      omega
    · have hserver := server_congr hs
      obtain ⟨hinv, hle⟩ := ih (h.step hu) (fun j => by rw [hserver]; exact hphase j) hrest
      have htotal : total u = total l := by
        simp only [total, hs, hserver]
      refine ⟨hinv, ?_⟩
      rw [if_neg (by simp [Event.completes, he])]
      omega

/-- **A lookup settles once.** In every run of a started lookup, whatever the servers answer and
whatever the cache and other callers do, callbacks, sockets, servers and the control data are
accounted for once; and a run has at most `total l` completions, so the servers finish. -/
theorem lookup_settles_once {hostname : Datagram} {userCallback : CallbackId}
    {configuration : Configuration} {ipv6Supported : Bool} {questionType : Option QuestionType}
    {ids : ℕ → ℕ → UInt16} {fds : ℕ → ℕ} {l t : Lookup} {es : List Event}
    (h : queue hostname userCallback configuration ipv6Supported questionType ids fds = some l)
    (hrun : Runs.exec step l es = some t) :
    SettlesOnce t ∧ es.countP (·.completes) ≤ total l := by
  have hstarted := queue_started h
  obtain ⟨hinv, hle⟩ := exec_inv hstarted.inv hstarted.inPhase hrun
  exact ⟨hinv.settlesOnce, by omega⟩

/-- Two servers: the first one's read fails, a second caller attaches, the record is evicted and the
second server's send fails. -/
theorem lookup_settles_once_two_servers :
    ∃ l t, queue [97] 7 ⟨[.ip4 [1, 1, 1, 1], .ip4 [8, 8, 8, 8]], [], by simp⟩ false none
        (fun _ _ => 1) id = some l ∧
      Runs.exec step l [.querySent 0 false false true 0, .response 0 none false .ok 0,
        .attach 8 true, .evict, .querySent 1 true false true 0] = some t ∧
      dispatched t.trace = [7, 8] ∧ SettlesOnce t := by
  have hd : ((queue [97] 7 ⟨[.ip4 [1, 1, 1, 1], .ip4 [8, 8, 8, 8]], [], by simp⟩ false none
      (fun _ _ => 1) id).bind fun l => Runs.exec step l [.querySent 0 false false true 0,
        .response 0 none false .ok 0, .attach 8 true, .evict, .querySent 1 true false true 0]).map
      (fun t => dispatched t.trace) = some [7, 8] := by decide +kernel
  obtain ⟨t, ht, hd⟩ := Option.map_eq_some_iff.1 hd
  obtain ⟨l, hl, hrun⟩ := Option.bind_eq_some_iff.1 ht
  exact ⟨l, t, hl, hrun, hd, (lookup_settles_once hl hrun).1⟩

end Lookup

end Talyn.Dns
