import Talyn.Client.CreateConnection

/-!
# What an attempt leaves behind

`AttemptOk` is what a caller relies on in every state of an attempt: the future is resolved at most
once, at most one transport is created, every socket opened is in flight, closed or handed over, and
each only once, and what was allocated is freed once, after the last callback.

The proof splits it into `Accounts`, which also holds while a callback runs, with the socket the
callback holds, and `Located`, which says where the attempt is between two callbacks: not connecting
yet, racing with a callback left (`Racing`), or over. Each branch of a callback ends in one of them.

Five kinds of steps break it (`Admissible`): an option that cannot be converted before the
`MultiConnectState` exists, its list of exceptions that cannot be allocated, a connect or a timer
that is cancelled by the loop while the future is pending, the exception of the last failing
connect that cannot be built with `all_errors`, and a connect or a timer that a failing flush leaves
in the ring.
-/

namespace Talyn.Connect

namespace Attempt

variable {a a' : Attempt} {m m' : MultiConnectState} {held : List ℕ} {fd : ℕ}

/-- The cells that are allocated and not freed. -/
def live (a : Attempt) : List Cell :=
  (if a.socketCreationData then [.socketCreationData] else []) ++
    (if a.socketConnectionData then [.socketConnectionData] else []) ++
    if a.mcs.isSome then [.multiConnectState] else []

theorem live_congr (hc : a'.socketCreationData = a.socketCreationData)
    (hd : a'.socketConnectionData = a.socketConnectionData) (hm : a'.mcs.isSome = a.mcs.isSome) :
    a'.live = a.live := by
  unfold live
  rw [hc, hd, hm]

/-- What a caller relies on. -/
structure AttemptOk (a : Attempt) : Prop where
  resolvedOnce : a.resolved ≤ 1
  oneTransport : a.handed.length ≤ 1
  sockets : (a.closed ++ a.handed ++ a.connects.map SocketData.socketFd).Perm (List.range a.opened)
  memory : (a.freed ++ a.live).Perm a.allocated
  allocatedOnce : a.allocated.Nodup
  freedLast : .multiConnectState ∈ a.freed ∨ .socketConnectionData ∈ a.freed →
    a.stage = .connecting ∧ a.connects = [] ∧ a.left = 0 ∧ a.timer = false
  ended : a.stage = .connecting → a.connects = [] → a.timer = false →
    a.future ≠ .pending ∧ a.freed.Perm a.allocated
  safe : a.useAfterFree = false

/-! ### The invariant -/

/-- The accounts of an attempt, while a callback holds the sockets `held`. -/
structure Accounts (held : List ℕ) (a : Attempt) : Prop where
  resolved : a.resolved ≤ 1
  unresolved : a.future = .pending → a.resolved = 0
  transports : a.handed.length ≤ 1
  sockets : (a.closed ++ a.handed ++ held ++ a.connects.map SocketData.socketFd).Perm
    (List.range a.opened)
  memory : (a.freed ++ a.live).Perm a.allocated
  once : a.allocated.Nodup
  safe : a.useAfterFree = false

/-- The `MultiConnectState` exists. -/
structure Racing (a : Attempt) (m : MultiConnectState) : Prop where
  stage : a.stage = .connecting
  state : a.mcs = some m
  creation : a.socketCreationData = true
  connection : a.socketConnectionData = true
  pending : m.pending = a.connects.length
  timer : a.timer = m.timerLive
  settled : m.succeeded = true ∨ m.aborted = true → a.future ≠ .pending
  unhanded : m.succeeded = false → a.handed = []
  /-- only the first connect is submitted before the timer fires -/
  first : a.timer = true → 1 < a.addresses ∧ m.aborted = false ∧ m.pending ≤ 1 ∧
    (m.succeeded = true → m.pending = 0)

/-- No connect was submitted. -/
structure Idle (a : Attempt) : Prop where
  state : a.mcs = none
  creation : a.socketCreationData = true
  connects : a.connects = []
  timer : a.timer = false
  handed : a.handed = []

/-- All callbacks have run. -/
structure Over (a : Attempt) : Prop where
  stage : a.stage = .connecting
  state : a.mcs = none
  creation : a.socketCreationData = false
  connection : a.socketConnectionData = false
  connects : a.connects = []
  timer : a.timer = false
  future : a.future ≠ .pending

/-- Where an attempt is between two callbacks. -/
inductive Located (a : Attempt) : Prop
  | start (hstage : a.stage = .tryResolvHost) (hcells : a.allocated = [.socketCreationData])
      (hfreed : a.freed = []) (hdata : a.socketConnectionData = false) (hidle : Idle a)
  | resolving (hstage : a.stage = .hostResolved ∨ a.stage = .createSocketConnection)
      (hcells : a.allocated = [.socketCreationData, .socketConnectionData])
      (hfreed : a.freed = []) (hdata : a.socketConnectionData = true) (hidle : Idle a)
  | racing {m : MultiConnectState} (h : Racing a m) (hout : 0 < m.pending ∨ a.timer = true)
  | ended (h : Over a)

/-- The invariant. -/
structure Inv (a : Attempt) : Prop where
  accounts : Accounts [] a
  located : Located a

theorem Inv.init : Inv init where
  accounts := ⟨Nat.zero_le 1, fun _ => rfl, Nat.zero_le 1, .refl _, .refl _, by decide, rfl⟩
  located := .start rfl rfl rfl rfl ⟨rfl, rfl, rfl, rfl, rfl⟩

theorem Inv.attemptOk (h : Inv a) (hleft : a.left = 0) : AttemptOk a where
  resolvedOnce := h.accounts.resolved
  oneTransport := h.accounts.transports
  sockets := by simpa using h.accounts.sockets
  memory := h.accounts.memory
  allocatedOnce := h.accounts.once
  freedLast := by
    intro hfreed
    have hlive : ∀ cell ∈ a.freed, cell ∉ a.live := by
      intro cell hin hlive
      exact List.disjoint_of_nodup_append (h.accounts.memory.nodup_iff.2 h.accounts.once) hin hlive
    cases h.located with
    | start _ _ hnone => simp [hnone] at hfreed
    | resolving _ _ hnone => simp [hnone] at hfreed
    | racing hr _ =>
      obtain hin | hin := hfreed
      · exact absurd (by simp [live, hr.state]) (hlive _ hin)
      · exact absurd (by simp [live, hr.connection]) (hlive _ hin)
    | ended ho => exact ⟨ho.stage, ho.connects, hleft, ho.timer⟩
  ended := by
    intro hstage hconnects htimer
    cases h.located with
    | start hs => exact nomatch hs.symm.trans hstage
    | resolving hs =>
      obtain hs | hs := hs
      · exact nomatch hs.symm.trans hstage
      · exact nomatch hs.symm.trans hstage
    | racing hr hout =>
      rw [hr.pending, hconnects, htimer] at hout
      simp at hout
    | ended ho =>
      have hnone : a.live = [] := by
        simp [live, ho.creation, ho.connection, ho.state]
      have hmem := h.accounts.memory
      rw [hnone, List.append_nil] at hmem
      exact ⟨ho.future, hmem⟩
  safe := h.accounts.safe

/-! ### Operations -/

namespace Accounts

theorem resolve (h : Accounts held a) : Accounts held a.resolve := by
  unfold Attempt.resolve
  split
  · rename_i hpending
    refine ⟨?_, nofun, h.transports, h.sockets, h.memory, h.once, h.safe⟩
    rw [h.unresolved hpending]
  · exact h

theorem cancelFuture (h : Accounts held a) : Accounts held a.cancelFuture := by
  unfold Attempt.cancelFuture
  split
  · exact ⟨h.resolved, nofun, h.transports, h.sockets, h.memory, h.once, h.safe⟩
  · exact h

/-- The socket the callback holds is closed. -/
theorem close (h : Accounts [fd] a) : Accounts [] (a.close fd) := by
  refine ⟨h.resolved, h.unresolved, h.transports, ?_, h.memory, h.once, h.safe⟩
  refine List.Perm.trans ?_ h.sockets
  simp only [Attempt.close, List.append_assoc, List.nil_append]
  refine List.Perm.append_left _ ?_
  rw [← List.append_assoc, ← List.append_assoc]
  exact List.perm_append_comm.append_right _

/-- The socket the callback holds is handed to a transport, the first one. -/
theorem hand (h : Accounts [fd] a) (hnone : a.handed = []) :
    Accounts [] { a with handed := a.handed ++ [fd] } := by
  refine ⟨h.resolved, h.unresolved, ?_, ?_, h.memory, h.once, h.safe⟩
  · show (a.handed ++ [fd]).length ≤ 1
    rw [hnone]
    exact le_rfl
  · simpa using h.sockets

/-- Fields the accounts do not read. -/
theorem congr (h : Accounts held a) (hresolved : a'.resolved = a.resolved)
    (hfuture : a'.future = a.future) (hhanded : a'.handed = a.handed) (hclosed : a'.closed = a.closed)
    (hconnects : a'.connects = a.connects) (hopened : a'.opened = a.opened)
    (hfreed : a'.freed = a.freed) (hlive : a'.live = a.live) (hallocated : a'.allocated = a.allocated)
    (hsafe : a'.useAfterFree = a.useAfterFree) : Accounts held a' where
  resolved := hresolved ▸ h.resolved
  unresolved := by
    rw [hresolved, hfuture]
    exact h.unresolved
  transports := hhanded ▸ h.transports
  sockets := by
    rw [hclosed, hhanded, hconnects, hopened]
    exact h.sockets
  memory := by
    rw [hfreed, hlive, hallocated]
    exact h.memory
  once := hallocated ▸ h.once
  safe := hsafe.trans h.safe

end Accounts

/-- What `deinit` does when the state and its data are there. -/
theorem deinit_eq (hm : a.mcs = some m) (hc : a.socketCreationData = true)
    (hd : a.socketConnectionData = true) :
    a.deinit =
      { a with
        cancels := a.cancels ++ m.taskIds ++ m.happyTimerId.toList
        socketCreationData := false
        socketConnectionData := false
        mcs := none
        freed := a.freed ++ [.socketCreationData, .socketConnectionData, .multiConnectState] } := by
  simp [Attempt.deinit, hm, connectionDeinit, creationDeinit, hc, hd]

theorem Accounts.deinit (h : Accounts held a) (hm : a.mcs = some m)
    (hc : a.socketCreationData = true) (hd : a.socketConnectionData = true) :
    Accounts held a.deinit := by
  rw [deinit_eq hm hc hd]
  refine ⟨h.resolved, h.unresolved, h.transports, h.sockets, ?_, h.once, h.safe⟩
  have hmem := h.memory
  simp only [live, hm, hc, hd, if_true, Option.isSome_some] at hmem
  simpa [live] using hmem

/-- What `SocketConnectionData.deinit` does when there is no `MultiConnectState`. -/
theorem connectionDeinit_eq (hc : a.socketCreationData = true) (hd : a.socketConnectionData = true) :
    a.connectionDeinit =
      { a with
        socketCreationData := false
        socketConnectionData := false
        freed := a.freed ++ [.socketCreationData, .socketConnectionData] } := by
  simp [connectionDeinit, creationDeinit, hc, hd]

theorem future_resolve (a : Attempt) : a.resolve.future ≠ .pending := by
  unfold resolve
  split
  · exact nofun
  · assumption

/-- Resolving the future changes nothing else that the invariant reads. -/
theorem resolve_eq (a : Attempt) :
    a.resolve = { a with future := a.resolve.future, resolved := a.resolve.resolved } := by
  unfold resolve
  split <;> rfl

theorem Racing.resolve (h : Racing a m) : Racing a.resolve m := by
  rw [resolve_eq]
  exact ⟨h.stage, h.state, h.creation, h.connection, h.pending, h.timer,
    fun _ => future_resolve a, h.unhanded, h.first⟩

/-- The teardown when no callback is left. -/
theorem inv_deinit (hacc : Accounts [] a) (hstage : a.stage = .connecting) (hm : a.mcs = some m)
    (hc : a.socketCreationData = true) (hd : a.socketConnectionData = true)
    (hconnects : a.connects = []) (htimer : a.timer = false) (hfuture : a.future ≠ .pending) :
    Inv a.deinit := by
  refine ⟨hacc.deinit hm hc hd, .ended ?_⟩
  rw [deinit_eq hm hc hd]
  exact ⟨hstage, rfl, rfl, rfl, hconnects, htimer, hfuture⟩

theorem Racing.connects_eq_nil (h : Racing a m) (hlast : m.pending = 0) : a.connects = [] :=
  List.eq_nil_of_length_eq_zero (h.pending.symm.trans hlast)

theorem Racing.deinit (h : Racing a m) (hacc : Accounts [] a) (hlast : m.pending = 0)
    (htimer : a.timer = false) (hfuture : a.future ≠ .pending) : Inv a.deinit :=
  inv_deinit hacc h.stage h.state h.creation h.connection (h.connects_eq_nil hlast) htimer hfuture

/-- The end of a connect callback. -/
theorem Racing.deinitIfLast (h : Racing a m) (hacc : Accounts [] a)
    (hfuture : m.pending = 0 → m.timerLive = false → a.future ≠ .pending) :
    Inv (a.deinitIfLast m) := by
  unfold Attempt.deinitIfLast
  split
  · rename_i hlast
    exact h.deinit hacc hlast.2 (h.timer.trans hlast.1) (hfuture hlast.2 hlast.1)
  · rename_i hnot
    refine ⟨hacc, .racing h ?_⟩
    rw [h.timer]
    by_cases hp : m.pending = 0
    · right
      cases ht : m.timerLive with
      | true => rfl
      | false => exact absurd ⟨ht, hp⟩ hnot
    · exact .inl (Nat.pos_of_ne_zero hp)

/-- The connects in flight are aborted, and the future is resolved. -/
theorem Racing.abort (h : Racing a m) (htimer : a.timer = false) (hfuture : a.future ≠ .pending) :
    Racing (a.abort m) { m with aborted := true } :=
  ⟨h.stage, rfl, h.creation, h.connection, h.pending, h.timer, fun _ => hfuture, h.unhanded,
    fun hlive => nomatch htimer.symm.trans hlive⟩

theorem Accounts.abort (h : Accounts held a) (hm : a.mcs = some m) : Accounts held (a.abort m) :=
  h.congr rfl rfl rfl rfl rfl rfl rfl (live_congr rfl rfl (congrArg Option.isSome hm).symm) rfl rfl

/-! ### Submits -/

/-- A submit went through: one more connect is in flight. -/
structure Submitted (a : Attempt) (m : MultiConnectState) (a' : Attempt) (m' : MultiConnectState) :
    Prop where
  future : a'.future = a.future
  addresses : a'.addresses = a.addresses
  pending : m.pending ≤ m'.pending
  succeeded : m'.succeeded = m.succeeded
  aborted : m'.aborted = m.aborted
  timerScheduled : m'.timerScheduled = m.timerScheduled
  timerFired : m'.timerFired = m.timerFired

theorem Submitted.refl (a : Attempt) (m : MultiConnectState) : Submitted a m a m :=
  ⟨rfl, rfl, le_rfl, rfl, rfl, rfl, rfl⟩

theorem Submitted.timerLive (h : Submitted a m a' m') : m'.timerLive = m.timerLive := by
  rw [MultiConnectState.timerLive, h.timerScheduled, h.timerFired, MultiConnectState.timerLive]

theorem Submitted.trans {a'' : Attempt} {m'' : MultiConnectState} (h : Submitted a m a' m')
    (h' : Submitted a' m' a'' m'') : Submitted a m a'' m'' :=
  ⟨h'.future.trans h.future, h'.addresses.trans h.addresses, h.pending.trans h'.pending,
    h'.succeeded.trans h.succeeded, h'.aborted.trans h.aborted,
    h'.timerScheduled.trans h.timerScheduled, h'.timerFired.trans h.timerFired⟩

/-- A submit that fails leaves no socket behind. -/
theorem submit_failed {submit : Submit} (h : Racing a m) (hacc : Accounts [] a)
    (hs : a.submitConnectForAddress m submit = (a', none)) :
    Racing a' m ∧ Accounts [] a' ∧ Submitted a m a' m := by
  have hclosed : (a.closed ++ [a.opened] ++ a.handed ++ [] ++ a.connects.map SocketData.socketFd).Perm
      (List.range (a.opened + 1)) := by
    rw [List.range_succ]
    refine List.Perm.trans ?_ (hacc.sockets.append_right [a.opened])
    simp only [List.append_assoc, List.nil_append]
    refine List.Perm.append_left _ ?_
    rw [← List.append_assoc a.handed]
    exact List.perm_append_comm
  cases submit with
  | noSocket =>
    obtain rfl : a = a' := (Prod.mk.inj hs).1
    exact ⟨h, hacc, .refl a m⟩
  | notQueued =>
    obtain rfl := (Prod.mk.inj hs).1
    exact ⟨⟨h.stage, h.state, h.creation, h.connection, h.pending, h.timer, h.settled, h.unhanded,
      h.first⟩, ⟨hacc.resolved, hacc.unresolved, hacc.transports, hclosed, hacc.memory, hacc.once,
      hacc.safe⟩, ⟨rfl, rfl, le_rfl, rfl, rfl, rfl, rfl⟩⟩
  | left =>
    obtain rfl := (Prod.mk.inj hs).1
    exact ⟨⟨h.stage, h.state, h.creation, h.connection, h.pending, h.timer, h.settled, h.unhanded,
      h.first⟩, ⟨hacc.resolved, hacc.unresolved, hacc.transports, hclosed, hacc.memory, hacc.once,
      hacc.safe⟩, ⟨rfl, rfl, le_rfl, rfl, rfl, rfl, rfl⟩⟩
  | queued taskId => exact nomatch (Prod.mk.inj hs).2

/-- A submit that goes through adds its socket to the connects in flight. -/
theorem submit_queued {submit : Submit} (h : Racing a m) (hacc : Accounts [] a)
    (htimer : a.timer = false) (hs : a.submitConnectForAddress m submit = (a', some m')) :
    Racing a' m' ∧ Accounts [] a' ∧ Submitted a m a' m' ∧ m'.pending = m.pending + 1 := by
  cases submit with
  | noSocket => exact nomatch (Prod.mk.inj hs).2
  | notQueued => exact nomatch (Prod.mk.inj hs).2
  | left => exact nomatch (Prod.mk.inj hs).2
  | queued taskId =>
    obtain ⟨rfl, hm'⟩ := Prod.mk.inj hs
    obtain rfl := Option.some.inj hm'
    refine ⟨⟨h.stage, rfl, h.creation, h.connection, ?_, h.timer, h.settled, h.unhanded,
      fun hlive => nomatch htimer.symm.trans hlive⟩,
      ⟨hacc.resolved, hacc.unresolved, hacc.transports, ?_, ?_, hacc.once, hacc.safe⟩,
      ⟨rfl, rfl, Nat.le_succ _, rfl, rfl, rfl, rfl⟩, rfl⟩
    · show m.pending + 1 = (a.connects ++ [SocketData.mk a.opened taskId]).length
      rw [List.length_append, h.pending]
      rfl
    · show (a.closed ++ a.handed ++ [] ++ (a.connects ++ [SocketData.mk a.opened taskId]).map
        SocketData.socketFd).Perm (List.range (a.opened + 1))
      rw [List.range_succ, List.map_append, ← List.append_assoc]
      exact hacc.sockets.append_right [a.opened]
    · have hmem := hacc.memory
      simp only [live, h.state, Option.isSome_some] at hmem ⊢
      exact hmem

/-- The loops over the addresses. -/
theorem submitAll_keeps {submits : List Submit} {ok : Bool} (h : Racing a m) (hacc : Accounts [] a)
    (htimer : a.timer = false) (hs : a.submitAll m submits = (a', m', ok)) :
    Racing a' m' ∧ Accounts [] a' ∧ Submitted a m a' m' ∧
      (ok = true → submits ≠ [] → m.pending < m'.pending) := by
  induction submits generalizing a m with
  | nil =>
    obtain ⟨rfl, rfl, rfl⟩ : a = a' ∧ m = m' ∧ true = ok := by simpa [submitAll] using hs
    exact ⟨h, hacc, .refl a m, fun _ hne => absurd rfl hne⟩
  | cons submit submits ih =>
    unfold submitAll at hs
    split at hs <;> rename_i heq
    · obtain ⟨h₁, hacc₁, hsub₁⟩ := submit_failed h hacc heq
      simp only [Prod.mk.injEq] at hs
      obtain ⟨rfl, rfl, rfl⟩ := hs
      exact ⟨h₁, hacc₁, hsub₁, nofun⟩
    · obtain ⟨h₁, hacc₁, hsub₁, hone⟩ := submit_queued h hacc htimer heq
      have htimer₁ := h₁.timer.trans (hsub₁.timerLive.trans (h.timer.symm.trans htimer))
      obtain ⟨h₂, hacc₂, hsub₂, -⟩ := ih h₁ hacc₁ htimer₁ hs
      have hle := hsub₂.pending
      exact ⟨h₂, hacc₂, hsub₁.trans hsub₂, fun _ _ => by omega⟩

/-! ### The callbacks -/

/-- The steps that keep the accounts. -/
def Admissible (a : Attempt) : Event → Prop
  | .createSocketConnection cancelled options env => cancelled = false →
      options.interleave ≠ none ∧ (options.interleave ≠ some 0 → env.interleave = true) ∧
        options.allErrors ≠ none ∧
        (options.allErrors = some true → env.state = true → env.exceptions = true) ∧
        env.timer ≠ .left ∧ ∀ i < a.addresses, env.submits i ≠ .left
  | .connected _ cancelled success env => ∀ m ∈ a.mcs, m.succeeded = false → m.aborted = false →
      m.pending = 1 → m.timerLive = false → a.future = .pending →
      cancelled = false ∧
        (success = false → m.allErrors = true → env.bookkeeping = true ∧ env.exceptionGroup = true)
  | .timer cancelled submits =>
      (∀ m ∈ a.mcs, cancelled = true → m.succeeded = false → m.pending = 0 ∧ a.future ≠ .pending) ∧
        ∀ i < a.addresses, submits i ≠ .left
  | _ => True

instance (a : Attempt) : (e : Event) → Decidable (Admissible a e)
  | .createSocketConnection _ _ _ => inferInstanceAs (Decidable (_ → _ ∧ _))
  | .connected _ _ _ _ => inferInstanceAs (Decidable (∀ m ∈ a.mcs, _))
  | .timer _ _ => inferInstanceAs (Decidable ((∀ m ∈ a.mcs, _) ∧ ∀ i < a.addresses, _))
  | .tryResolvHost _ _ | .hostResolved _ _ | .leftConnected | .cancelFuture => isTrue trivial

/-- The data of an attempt that has no `MultiConnectState` are freed, and its future is resolved. -/
theorem Idle.connectionDeinit (hidle : Idle a) (hacc : Accounts [] a)
    (hdata : a.socketConnectionData = true) (hstage : a.stage = .connecting) :
    Inv a.connectionDeinit.resolve := by
  have hacc' : Accounts [] a.connectionDeinit := by
    rw [connectionDeinit_eq hidle.creation hdata]
    refine ⟨hacc.resolved, hacc.unresolved, hacc.transports, hacc.sockets, ?_, hacc.once, hacc.safe⟩
    have hmem := hacc.memory
    simp only [live, hidle.state, hidle.creation, hdata, if_true] at hmem
    simpa [live, hidle.state] using hmem
  refine ⟨hacc'.resolve, .ended ?_⟩
  have hfuture := future_resolve a.connectionDeinit
  rw [resolve_eq]
  rw [connectionDeinit_eq hidle.creation hdata] at hfuture ⊢
  exact ⟨hstage, hidle.state, rfl, rfl, hidle.connects, hidle.timer, hfuture⟩

theorem Idle.creationDeinit (hidle : Idle a) (hacc : Accounts [] a)
    (hdata : a.socketConnectionData = false) (hstage : a.stage = .connecting) :
    Inv a.creationDeinit.resolve := by
  have heq : a.creationDeinit =
      { a with socketCreationData := false, freed := a.freed ++ [.socketCreationData] } := by
    simp [Attempt.creationDeinit, hidle.creation]
  have hacc' : Accounts [] a.creationDeinit := by
    rw [heq]
    refine ⟨hacc.resolved, hacc.unresolved, hacc.transports, hacc.sockets, ?_, hacc.once, hacc.safe⟩
    have hmem := hacc.memory
    simp only [live, hidle.state, hidle.creation, hdata, if_true] at hmem
    simpa [live, hidle.state, hdata] using hmem
  refine ⟨hacc'.resolve, .ended ?_⟩
  have hfuture := future_resolve a.creationDeinit
  rw [resolve_eq]
  rw [heq] at hfuture ⊢
  exact ⟨hstage, hidle.state, rfl, hdata, hidle.connects, hidle.timer, hfuture⟩

theorem inv_tryResolvHost {cancelled : Bool} {lookup : Lookup} (hidle : Idle a)
    (hacc : Accounts [] a) (hdata : a.socketConnectionData = false) (hfreed : a.freed = [])
    (hcells : a.allocated = [.socketCreationData]) : Inv (a.tryResolvHost cancelled lookup) := by
  have hacc₀ : Accounts [] { a with stage := .connecting } :=
    hacc.congr rfl rfl rfl rfl rfl rfl rfl rfl rfl rfl
  have hidle₀ : Idle { a with stage := .connecting } :=
    ⟨hidle.state, hidle.creation, hidle.connects, hidle.timer, hidle.handed⟩
  have honce : (a.allocated ++ [Cell.socketConnectionData]).Nodup := by
    rw [hcells]
    decide
  unfold Attempt.tryResolvHost
  dsimp only
  split
  · exact hidle₀.creationDeinit hacc₀ hdata rfl
  cases lookup with
  | refused => exact hidle₀.creationDeinit hacc₀ hdata rfl
  | failed =>
    refine Idle.creationDeinit
      ⟨hidle.state, hidle.creation, hidle.connects, hidle.timer, hidle.handed⟩
      ⟨hacc.resolved, hacc.unresolved, hacc.transports, hacc.sockets, ?_, honce, hacc.safe⟩ rfl rfl
    simp only [live, hidle.creation, hidle.state, hfreed, hcells]
    exact .swap _ _ _
  | queued =>
    refine ⟨⟨hacc.resolved, hacc.unresolved, hacc.transports, hacc.sockets, ?_, honce, hacc.safe⟩,
      .resolving (.inl rfl) ?_ hfreed rfl
        ⟨hidle.state, hidle.creation, hidle.connects, hidle.timer, hidle.handed⟩⟩
    · simp [live, hidle.creation, hidle.state, hfreed, hcells]
    · simp [hcells]
  | resolved addresses =>
    refine ⟨⟨hacc.resolved, hacc.unresolved, hacc.transports, hacc.sockets, ?_, honce, hacc.safe⟩,
      .resolving (.inr rfl) ?_ hfreed rfl
        ⟨hidle.state, hidle.creation, hidle.connects, hidle.timer, hidle.handed⟩⟩
    · simp [live, hidle.creation, hidle.state, hfreed, hcells]
    · simp [hcells]

theorem inv_hostResolved {cancelled : Bool} {addresses : Option ℕ} (hidle : Idle a)
    (hacc : Accounts [] a) (hdata : a.socketConnectionData = true) (hfreed : a.freed = [])
    (hcells : a.allocated = [.socketCreationData, .socketConnectionData]) :
    Inv (a.hostResolvedCallback cancelled addresses) := by
  have hacc₀ : Accounts [] { a with stage := .connecting } :=
    hacc.congr rfl rfl rfl rfl rfl rfl rfl rfl rfl rfl
  have hidle₀ : Idle { a with stage := .connecting } :=
    ⟨hidle.state, hidle.creation, hidle.connects, hidle.timer, hidle.handed⟩
  unfold hostResolvedCallback
  dsimp only
  split
  · exact hidle₀.connectionDeinit hacc₀ hdata rfl
  cases addresses with
  | none => exact hidle₀.connectionDeinit hacc₀ hdata rfl
  | some addresses =>
    exact ⟨hacc.congr rfl rfl rfl rfl rfl rfl rfl rfl rfl rfl, .resolving (.inr rfl) hcells hfreed
      hdata ⟨hidle.state, hidle.creation, hidle.connects, hidle.timer, hidle.handed⟩⟩

/-- The `errdefer` of `z_create_socket_connection`, and the exception its caller sets. -/
theorem Racing.failCreate (h : Racing a m) (hacc : Accounts [] a) (htimer : a.timer = false) :
    Inv (a.failCreate m).resolve := by
  unfold Attempt.failCreate
  split
  · rename_i hpending
    have hacc' := hacc.deinit h.state h.creation h.connection
    have hnone := h.connects_eq_nil hpending
    refine ⟨hacc'.resolve, .ended ?_⟩
    have hfuture := future_resolve a.deinit
    rw [resolve_eq]
    rw [deinit_eq h.state h.creation h.connection] at hfuture ⊢
    exact ⟨h.stage, rfl, rfl, rfl, hnone, htimer, hfuture⟩
  · rename_i hpending
    refine ⟨(hacc.abort h.state).resolve, .racing (m := { m with aborted := true }) ?_
      (.inl (Nat.pos_of_ne_zero hpending))⟩
    have hfuture := future_resolve (a.abort m)
    rw [resolve_eq]
    exact ⟨h.stage, rfl, h.creation, h.connection, h.pending, h.timer, fun _ => hfuture, h.unhanded,
      fun hlive => nomatch htimer.symm.trans hlive⟩

theorem inv_startConnects {interleave : ℕ} {allErrors ok : Bool} {options : Options}
    {env : CreateEnv} (hstage : a.stage = .connecting) (hc : a.socketCreationData = true)
    (hd : a.socketConnectionData = true) (hconnects : a.connects = []) (htimer : a.timer = false)
    (hhanded : a.handed = [])
    (hacc : Accounts [] { a with mcs := some (.init allErrors) }) (hleft : env.timer ≠ .left)
    (hs : a.startConnects interleave allErrors options env = (a', ok)) :
    Inv (if ok then a' else a'.resolve) := by
  have hrace : Racing { a with mcs := some (.init allErrors) } (.init allErrors) :=
    ⟨hstage, rfl, hc, hd, by rw [hconnects]; rfl, htimer, by simp [MultiConnectState.init],
      fun _ => hhanded, fun hlive => nomatch htimer.symm.trans hlive⟩
  have hfail := hrace.failCreate hacc htimer
  unfold Attempt.startConnects at hs
  dsimp only at hs
  split at hs
  · obtain ⟨rfl, rfl⟩ := Prod.mk.inj hs
    exact hfail
  split at hs
  · obtain ⟨rfl, rfl⟩ := Prod.mk.inj hs
    exact hfail
  split at hs
  · obtain ⟨rfl, rfl⟩ := Prod.mk.inj hs
    refine hrace.resolve.deinit hacc.resolve rfl ?_ (future_resolve _)
    rw [resolve_eq]
    exact htimer
  split at hs
  · obtain ⟨rfl, rfl⟩ := Prod.mk.inj hs
    exact hfail
  split at hs
  · obtain ⟨rfl, rfl⟩ := Prod.mk.inj hs
    exact hfail
  split at hs <;> rename_i heq
  · obtain ⟨h₁, hacc₁, hsub₁⟩ := submit_failed hrace hacc heq
    obtain ⟨rfl, rfl⟩ := Prod.mk.inj hs
    exact h₁.failCreate hacc₁ (h₁.timer.trans hsub₁.timerLive)
  rename_i a₁ m₁
  obtain ⟨h₁, hacc₁, hsub₁, hone⟩ := submit_queued hrace hacc htimer heq
  have htimer₁ : a₁.timer = false := h₁.timer.trans hsub₁.timerLive
  split at hs
  · rename_i hmany
    split at hs
    · obtain ⟨rfl, rfl⟩ := Prod.mk.inj hs
      exact h₁.failCreate hacc₁ htimer₁
    · rename_i hqueued
      exact absurd hqueued hleft
    · rename_i timerId _
      obtain ⟨rfl, rfl⟩ := Prod.mk.inj hs
      refine ⟨?_, .racing (m := { m₁ with happyTimerId := some timerId, timerScheduled := true })
        ⟨h₁.stage, rfl, h₁.creation, h₁.connection, h₁.pending, ?_, h₁.settled, h₁.unhanded, ?_⟩
        (.inr rfl)⟩
      · exact hacc₁.congr rfl rfl rfl rfl rfl rfl rfl
          (live_congr rfl rfl (congrArg Option.isSome h₁.state).symm) rfl rfl
      · show true = (true && !m₁.timerFired)
        rw [hsub₁.timerFired]
        rfl
      · exact fun _ => ⟨hmany.1, hsub₁.aborted, hone.le,
          fun hwon => nomatch hsub₁.succeeded.symm.trans hwon⟩
  · split at hs <;> rename_i heq₂ <;> obtain ⟨h₂, hacc₂, hsub₂, -⟩ := submitAll_keeps h₁ hacc₁ htimer₁ heq₂
    · obtain ⟨rfl, rfl⟩ := Prod.mk.inj hs
      exact h₂.failCreate hacc₂ (h₂.timer.trans (hsub₂.timerLive.trans hsub₁.timerLive))
    · obtain ⟨rfl, rfl⟩ := Prod.mk.inj hs
      have hpos : 0 < m₁.pending := hone ▸ Nat.succ_pos _
      exact ⟨hacc₂, .racing h₂ (.inl (hpos.trans_le hsub₂.pending))⟩

theorem inv_zCreateSocketConnection {options : Options} {env : CreateEnv} {ok : Bool}
    (hidle : Idle a) (hacc : Accounts [] a) (hstage : a.stage = .connecting)
    (hdata : a.socketConnectionData = true) (hfreed : a.freed = [])
    (hcells : a.allocated = [.socketCreationData, .socketConnectionData])
    (hok : Admissible a (.createSocketConnection false options env))
    (hs : a.zCreateSocketConnection options env = (a', ok)) :
    Inv (if ok then a' else a'.resolve) := by
  obtain ⟨hsome, hfirst, hsome', hlist, htimer, -⟩ := hok rfl
  obtain ⟨interleave, hinterleave⟩ := Option.ne_none_iff_exists'.1 hsome
  obtain ⟨allErrors, hall⟩ := Option.ne_none_iff_exists'.1 hsome'
  rw [hinterleave] at hfirst
  rw [hall] at hlist
  have hskip : ¬(interleave > 0 ∧ env.interleave = false) := by
    rintro ⟨hpos, hfails⟩
    exact nomatch (hfirst (by simpa using hpos.ne')).symm.trans hfails
  unfold Attempt.zCreateSocketConnection at hs
  rw [hinterleave, hall] at hs
  dsimp only at hs
  rw [if_neg hskip] at hs
  split at hs
  · obtain ⟨rfl, rfl⟩ := Prod.mk.inj hs
    exact hidle.connectionDeinit hacc hdata hstage
  rename_i hstate
  have hlisted : ¬(allErrors = true ∧ env.exceptions = false) := by
    rintro ⟨hset, hfails⟩
    exact nomatch (hlist (congrArg some hset) (Bool.eq_true_of_not_eq_false hstate)).symm.trans hfails
  rw [if_neg hlisted] at hs
  refine inv_startConnects (a := { a with allocated := a.allocated ++ [.multiConnectState] }) hstage
    hidle.creation hdata hidle.connects hidle.timer hidle.handed ?_ htimer hs
  refine ⟨hacc.resolved, hacc.unresolved, hacc.transports, hacc.sockets, ?_, ?_, hacc.safe⟩
  · simp [live, hidle.creation, hdata, hfreed, hcells]
  · show (a.allocated ++ [Cell.multiConnectState]).Nodup
    rw [hcells]
    decide

theorem inv_createSocketConnection {cancelled : Bool} {options : Options} {env : CreateEnv}
    (hidle : Idle a) (hacc : Accounts [] a) (hdata : a.socketConnectionData = true)
    (hfreed : a.freed = []) (hcells : a.allocated = [.socketCreationData, .socketConnectionData])
    (hok : Admissible a (.createSocketConnection cancelled options env)) :
    Inv (a.createSocketConnection cancelled options env) := by
  obtain ⟨a₀, ha₀⟩ : ∃ a₀, a₀ = { a with stage := .connecting } := ⟨_, rfl⟩
  have hacc₀ : Accounts [] a₀ := by
    rw [ha₀]
    exact hacc.congr rfl rfl rfl rfl rfl rfl rfl rfl rfl rfl
  have hidle₀ : Idle a₀ := by
    rw [ha₀]
    exact ⟨hidle.state, hidle.creation, hidle.connects, hidle.timer, hidle.handed⟩
  have hstage : a₀.stage = .connecting := ha₀ ▸ rfl
  have hdata₀ : a₀.socketConnectionData = true := ha₀ ▸ hdata
  unfold Attempt.createSocketConnection
  rw [← ha₀]
  dsimp only
  split
  · exact hidle₀.connectionDeinit hacc₀ hdata₀ hstage
  rename_i hcancelled
  rw [Bool.not_eq_true] at hcancelled
  subst hcancelled
  have hok₀ : Admissible a₀ (.createSocketConnection false options env) := ha₀ ▸ hok
  have hz {a' : Attempt} {ok : Bool} (hs : a₀.zCreateSocketConnection options env = (a', ok)) :=
    inv_zCreateSocketConnection hidle₀ hacc₀ hstage hdata₀ (ha₀ ▸ hfreed) (ha₀ ▸ hcells) hok₀ hs
  split <;> rename_i heq
  · exact hz heq
  · exact hz heq

theorem inv_scheduleRemainingConnects {cancelled : Bool} {submits : ℕ → Submit} (h : Racing a m)
    (hacc : Accounts [] a) (htimer : a.timer = true)
    (hok : Admissible a (.timer cancelled submits)) :
    Inv (a.scheduleRemainingConnects cancelled submits) := by
  obtain ⟨hmany, hnotAborted, -, hwon⟩ := h.first htimer
  unfold Attempt.scheduleRemainingConnects
  rw [h.state]
  dsimp only
  split
  · rename_i hquit
    have hend : m.pending = 0 ∧ a.future ≠ .pending := by
      cases hsucceeded : m.succeeded with
      | true => exact ⟨hwon hsucceeded, h.settled (.inl hsucceeded)⟩
      | false =>
        rw [hsucceeded, Bool.or_false] at hquit
        exact hok.1 m h.state hquit hsucceeded
    rw [if_pos hend.1]
    refine inv_deinit ?_ h.stage rfl h.creation h.connection (h.connects_eq_nil hend.1) rfl hend.2
    exact hacc.congr rfl rfl rfl rfl rfl rfl rfl
      (live_congr rfl rfl (congrArg Option.isSome h.state).symm) rfl rfl
  · rename_i hgo
    obtain ⟨-, hnotWon⟩ : cancelled = false ∧ m.succeeded = false := by
      simpa using hgo
    obtain ⟨m₀, hm₀⟩ : ∃ m₀, m₀ =
        { m with happyTimerId := none, timerFired := true, timerScheduled := false } := ⟨_, rfl⟩
    obtain ⟨a₀, ha₀⟩ : ∃ a₀, a₀ = { a with timer := false, mcs := some m₀ } := ⟨_, rfl⟩
    have hacc₀ : Accounts [] a₀ := by
      rw [ha₀]
      exact hacc.congr rfl rfl rfl rfl rfl rfl rfl
        (live_congr rfl rfl (congrArg Option.isSome h.state).symm) rfl rfl
    have htimer₀ : a₀.timer = false := ha₀ ▸ rfl
    have hrace₀ : Racing a₀ m₀ := by
      subst ha₀ hm₀
      refine ⟨h.stage, rfl, h.creation, h.connection, h.pending, rfl, ?_, h.unhanded, nofun⟩
      rintro (hset | hset)
      · exact nomatch hnotWon.symm.trans hset
      · exact nomatch hnotAborted.symm.trans hset
    have hremaining : ({ a with timer := false, mcs := some { m with happyTimerId := none } }.remaining
        submits) ≠ [] := by
      simp only [remaining, ne_eq, List.map_eq_nil_iff, List.range_eq_nil]
      omega
    rw [← hm₀, ← ha₀]
    split <;> rename_i heq <;> obtain ⟨h₁, hacc₁, hsub₁, hlt⟩ := submitAll_keeps hrace₀ hacc₀ htimer₀ heq
    · exact ⟨hacc₁, .racing h₁ (.inl (Nat.zero_lt_of_lt (hlt rfl hremaining)))⟩
    · rename_i a₁ m₁
      have htimer₁ : a₁.timer = false := h₁.timer.trans (hsub₁.timerLive.trans (hrace₀.timer ▸ htimer₀))
      have hstop : Racing (a₁.resolve.abort m₁) { m₁ with aborted := true } :=
        h₁.resolve.abort (by rw [resolve_eq]; exact htimer₁) (future_resolve a₁)
      have hacc₂ : Accounts [] (a₁.resolve.abort m₁) := hacc₁.resolve.abort h₁.resolve.state
      split
      · rename_i hlast
        exact hstop.deinit hacc₂ hlast (by rw [resolve_eq]; exact htimer₁) (future_resolve a₁)
      · rename_i hlast
        exact ⟨hacc₂, .racing hstop (.inl (Nat.pos_of_ne_zero hlast))⟩

/-- A connect went through, and its transport is being created: the future may be pending. -/
structure Won (a : Attempt) (m : MultiConnectState) : Prop where
  stage : a.stage = .connecting
  state : a.mcs = some m
  creation : a.socketCreationData = true
  connection : a.socketConnectionData = true
  pending : m.pending = a.connects.length
  timer : a.timer = m.timerLive
  succeeded : m.succeeded = true
  first : a.timer = true → 1 < a.addresses ∧ m.aborted = false ∧ m.pending = 0

theorem Won.resolve (h : Won a m) : Racing a.resolve m := by
  rw [resolve_eq]
  refine ⟨h.stage, h.state, h.creation, h.connection, h.pending, h.timer,
    fun _ => future_resolve a, fun hlost => (nomatch hlost.symm.trans h.succeeded), ?_⟩
  intro htimer
  obtain ⟨hmany, habort, hnone⟩ := h.first htimer
  exact ⟨hmany, habort, hnone.le.trans (Nat.zero_le 1), fun _ => hnone⟩

theorem Won.cancelFuture (h : Won a m) : Won a.cancelFuture m := by
  unfold Attempt.cancelFuture
  split
  · exact ⟨h.stage, h.state, h.creation, h.connection, h.pending, h.timer, h.succeeded, h.first⟩
  · exact h

/-- The teardown does not touch the future. -/
theorem Won.deinitIfLast_resolve (h : Won a m) :
    (a.deinitIfLast m).resolve = a.resolve.deinitIfLast m := by
  unfold Attempt.deinitIfLast
  split
  · rw [deinit_eq h.state h.creation h.connection,
      deinit_eq h.resolve.state h.resolve.creation h.resolve.connection]
    unfold Attempt.resolve
    dsimp only
    split <;> rfl
  · rfl

theorem Racing.deinitIfLast_close (h : Racing a m) (fd : ℕ) :
    (a.deinitIfLast m).close fd = (a.close fd).deinitIfLast m := by
  unfold Attempt.deinitIfLast
  split
  · rw [deinit_eq h.state h.creation h.connection]
    exact (deinit_eq (a := a.close fd) h.state h.creation h.connection).symm
  · rfl

theorem inv_createTransport {env : ConnectedEnv} (h : Won a m) (hacc : Accounts [fd] a)
    (hhanded : a.handed = []) : Inv (a.createTransport m fd env) := by
  obtain ⟨a₁, ha₁⟩ : ∃ a₁, a₁ = if env.cancels then a.cancelFuture else a := ⟨_, rfl⟩
  have hwon : Won a₁ m := by
    rw [ha₁]
    split
    · exact h.cancelFuture
    · exact h
  have hacc₁ : Accounts [fd] a₁ := by
    rw [ha₁]
    split
    · exact hacc.cancelFuture
    · exact hacc
  have hhanded₁ : a₁.handed = [] := by
    rw [ha₁]
    split
    · unfold Attempt.cancelFuture
      split <;> exact hhanded
    · exact hhanded
  have htransport : Won { a₁ with handed := a₁.handed ++ [fd] } m :=
    ⟨hwon.stage, hwon.state, hwon.creation, hwon.connection, hwon.pending, hwon.timer,
      hwon.succeeded, hwon.first⟩
  have hmade := htransport.resolve.deinitIfLast (hacc₁.hand hhanded₁).resolve
    fun _ _ => future_resolve _
  unfold Attempt.createTransport
  rw [← ha₁]
  cases env.creation with
  | failed =>
    show Inv (((a₁.deinitIfLast m).resolve).close fd)
    rw [hwon.deinitIfLast_resolve, hwon.resolve.deinitIfLast_close]
    have hclosed : Racing (a₁.resolve.close fd) m :=
      ⟨hwon.resolve.stage, hwon.resolve.state, hwon.resolve.creation, hwon.resolve.connection,
        hwon.resolve.pending, hwon.resolve.timer, hwon.resolve.settled, hwon.resolve.unhanded,
        hwon.resolve.first⟩
    exact hclosed.deinitIfLast hacc₁.resolve.close fun _ _ => future_resolve a₁
  | refused =>
    show Inv ({ a₁ with handed := a₁.handed ++ [fd] }.deinitIfLast m).resolve
    rw [htransport.deinitIfLast_resolve]
    exact hmade
  | made => exact hmade

/-- The callback of a connect takes its socket out of those in flight. -/
theorem Accounts.take {index : ℕ} {socketData : SocketData} (h : Accounts [] a)
    (hindex : a.connects[index]? = some socketData) :
    Accounts [socketData.socketFd] { a with connects := a.connects.eraseIdx index } := by
  refine ⟨h.resolved, h.unresolved, h.transports, ?_, h.memory, h.once, h.safe⟩
  refine List.Perm.trans ?_ h.sockets
  obtain ⟨hlt, rfl⟩ := List.getElem?_eq_some_iff.1 hindex
  have hperm := (List.getElem_cons_eraseIdx_perm hlt).map SocketData.socketFd
  simp only [List.append_assoc, List.nil_append]
  exact (hperm.append_left _).append_left _

theorem Racing.close (h : Racing a m) (fd : ℕ) : Racing (a.close fd) m :=
  ⟨h.stage, h.state, h.creation, h.connection, h.pending, h.timer, h.settled, h.unhanded, h.first⟩

/-- The failure branch either leaves the attempt alone or resolves its future. -/
theorem connectFailed_cases (a : Attempt) (m : MultiConnectState) (env : ConnectedEnv) :
    a.connectFailed m env = a.resolve ∨
      a.connectFailed m env = a ∧ (m.pending ≠ 0 ∨ m.timerLive = true ∨
        m.allErrors = true ∧ ¬(env.bookkeeping = true ∧ env.exceptionGroup = true)) := by
  unfold connectFailed
  split
  · rename_i hfails
    exact .inr ⟨rfl, .inr (.inr ⟨hfails.1, fun hall => nomatch hfails.2.symm.trans hall.1⟩)⟩
  split
  · split
    · rename_i hlive
      exact .inr ⟨rfl, .inr (.inl hlive)⟩
    split
    · rename_i hfails
      exact .inr ⟨rfl, .inr (.inr ⟨hfails.1, fun hall => nomatch hfails.2.symm.trans hall.2⟩)⟩
    · exact .inl rfl
  · rename_i hmore
    exact .inr ⟨rfl, .inl hmore⟩

/-- The rest of a connect callback, which holds the socket. -/
theorem inv_connectCompleted {cancelled success : Bool} {env : ConnectedEnv} (h : Racing a m)
    (hacc : Accounts [fd] a) (hfirst : a.timer = true → m.pending = 0)
    (hok : m.succeeded = false → m.aborted = false → m.pending = 0 → m.timerLive = false →
      a.future = .pending → cancelled = false ∧
        (success = false → m.allErrors = true → env.bookkeeping = true ∧ env.exceptionGroup = true)) :
    Inv (a.connectCompleted m fd cancelled success env) := by
  have hclosed := h.close fd
  unfold connectCompleted
  split
  · rename_i haborted
    exact hclosed.deinitIfLast hacc.close fun _ _ => h.settled (.inr haborted)
  rename_i habort
  rw [Bool.not_eq_true] at habort
  split
  · rename_i hquit
    refine hclosed.deinitIfLast hacc.close fun hlast htimer hpending => ?_
    cases hsucceeded : m.succeeded with
    | true => exact h.settled (.inl hsucceeded) hpending
    | false =>
      obtain ⟨hnot, -⟩ := hok hsucceeded habort hlast htimer hpending
      simp [hsucceeded, hnot] at hquit
  rename_i hgo
  obtain ⟨hsucceeded, -⟩ : m.succeeded = false ∧ cancelled = false := by
    simpa using hgo
  split
  · rename_i hfailed
    obtain heq | ⟨heq, hwhy⟩ := connectFailed_cases (a.close fd) m env
    · rw [heq]
      exact hclosed.resolve.deinitIfLast hacc.close.resolve fun _ _ => future_resolve _
    · rw [heq]
      refine hclosed.deinitIfLast hacc.close fun hlast htimer hpending => ?_
      obtain ⟨-, hbuilt⟩ := hok hsucceeded habort hlast htimer hpending
      obtain hmore | hlive | ⟨hall, hnot⟩ := hwhy
      · exact hmore hlast
      · exact nomatch htimer.symm.trans hlive
      · exact hnot (hbuilt hfailed hall)
  · refine inv_createTransport ⟨h.stage, rfl, h.creation, h.connection, h.pending, h.timer, rfl, ?_⟩
      ?_ (h.unhanded hsucceeded)
    · intro htimer
      exact ⟨(h.first htimer).1, habort, hfirst htimer⟩
    · exact hacc.congr rfl rfl rfl rfl rfl rfl rfl
        (live_congr rfl rfl (congrArg Option.isSome h.state).symm) rfl rfl

theorem inv_socketConnectedCallback {index : ℕ} {socketData : SocketData} {cancelled success : Bool}
    {env : ConnectedEnv} (h : Racing a m) (hacc : Accounts [] a)
    (hindex : a.connects[index]? = some socketData)
    (hok : Admissible a (.connected index cancelled success env)) :
    Inv ({ a with connects := a.connects.eraseIdx index }.socketConnectedCallback socketData
      cancelled success env) := by
  have hlt := (List.getElem?_eq_some_iff.1 hindex).1
  have hpos : 0 < m.pending := h.pending ▸ Nat.zero_lt_of_lt hlt
  unfold Attempt.socketConnectedCallback
  rw [h.state]
  refine inv_connectCompleted ⟨h.stage, rfl, h.creation, h.connection, ?_, h.timer, h.settled,
    h.unhanded, ?_⟩ ?_ ?_ ?_
  · show m.pending - 1 = (a.connects.eraseIdx index).length
    rw [List.length_eraseIdx_of_lt hlt, h.pending]
  · intro htimer
    obtain ⟨hmany, habort, hle, hwon⟩ := h.first htimer
    exact ⟨hmany, habort, (Nat.sub_le _ _).trans hle, fun hset => by rw [hwon hset]⟩
  · exact (hacc.take hindex).congr rfl rfl rfl rfl rfl rfl rfl
      (live_congr rfl rfl (congrArg Option.isSome h.state).symm) rfl rfl
  · intro htimer
    have hle := (h.first htimer).2.2.1
    show m.pending - 1 = 0
    omega
  · intro hsucceeded habort hlast htimer hpending
    have hone : m.pending = 1 := by
      have hzero : m.pending - 1 = 0 := hlast
      omega
    exact hok m h.state hsucceeded habort hone htimer hpending

/-! ### Runs -/

theorem Located.cancelFuture (h : Located a) : Located a.cancelFuture := by
  have hidle : ∀ hidle : Idle a, Idle { a with future := .canceled } := fun hidle =>
    ⟨hidle.state, hidle.creation, hidle.connects, hidle.timer, hidle.handed⟩
  unfold Attempt.cancelFuture
  split
  · cases h with
    | start hstage hcells hfreed hdata hi => exact .start hstage hcells hfreed hdata (hidle hi)
    | resolving hstage hcells hfreed hdata hi => exact .resolving hstage hcells hfreed hdata (hidle hi)
    | racing hr hout =>
      exact .racing ⟨hr.stage, hr.state, hr.creation, hr.connection, hr.pending, hr.timer, nofun,
        hr.unhanded, hr.first⟩ hout
    | ended ho =>
      exact .ended ⟨ho.stage, ho.state, ho.creation, ho.connection, ho.connects, ho.timer, nofun⟩
  · exact h

/-- Every admissible step keeps the invariant, while no connect was left in the ring. -/
theorem Inv.step {e : Event} (h : Inv a) (hleft : a.left = 0) (hok : Admissible a e)
    (hs : a.step e = some a') : Inv a' := by
  cases e with
  | tryResolvHost cancelled lookup =>
    simp only [Attempt.step] at hs
    split at hs
    · rename_i hstage
      obtain rfl := Option.some.inj hs
      cases h.located with
      | start _ hcells hfreed hdata hidle =>
        exact inv_tryResolvHost hidle h.accounts hdata hfreed hcells
      | resolving hother => exact absurd hstage (by rcases hother with hs | hs <;> simp [hs])
      | racing hr => exact nomatch hstage.symm.trans hr.stage
      | ended ho => exact nomatch hstage.symm.trans ho.stage
    · exact nomatch hs
  | hostResolved cancelled addresses =>
    simp only [Attempt.step] at hs
    split at hs
    · rename_i hstage
      obtain rfl := Option.some.inj hs
      cases h.located with
      | start hother => exact nomatch hstage.symm.trans hother
      | resolving _ hcells hfreed hdata hidle =>
        exact inv_hostResolved hidle h.accounts hdata hfreed hcells
      | racing hr => exact nomatch hstage.symm.trans hr.stage
      | ended ho => exact nomatch hstage.symm.trans ho.stage
    · exact nomatch hs
  | createSocketConnection cancelled options env =>
    simp only [Attempt.step] at hs
    split at hs
    · rename_i hstage
      obtain rfl := Option.some.inj hs
      cases h.located with
      | start hother => exact nomatch hstage.symm.trans hother
      | resolving _ hcells hfreed hdata hidle =>
        exact inv_createSocketConnection hidle h.accounts hdata hfreed hcells hok
      | racing hr => exact nomatch hstage.symm.trans hr.stage
      | ended ho => exact nomatch hstage.symm.trans ho.stage
    · exact nomatch hs
  | connected index cancelled success env =>
    simp only [Attempt.step] at hs
    split at hs
    · exact nomatch hs
    · rename_i socketData hindex
      obtain rfl := Option.some.inj hs
      have hsome : a.connects ≠ [] := by
        rintro hnil
        rw [hnil] at hindex
        exact nomatch hindex
      cases h.located with
      | start _ _ _ _ hidle => exact absurd hidle.connects hsome
      | resolving _ _ _ _ hidle => exact absurd hidle.connects hsome
      | racing hr => exact inv_socketConnectedCallback hr h.accounts hindex hok
      | ended ho => exact absurd ho.connects hsome
  | leftConnected =>
    rw [Attempt.step, if_pos hleft] at hs
    exact nomatch hs
  | timer cancelled submits =>
    simp only [Attempt.step] at hs
    split at hs
    · rename_i htimer
      obtain rfl := Option.some.inj hs
      cases h.located with
      | start _ _ _ _ hidle => exact nomatch hidle.timer.symm.trans htimer
      | resolving _ _ _ _ hidle => exact nomatch hidle.timer.symm.trans htimer
      | racing hr => exact inv_scheduleRemainingConnects hr h.accounts htimer hok
      | ended ho => exact nomatch ho.timer.symm.trans htimer
    · exact nomatch hs
  | cancelFuture =>
    obtain rfl := Option.some.inj hs
    exact ⟨h.accounts.cancelFuture, h.located.cancelFuture⟩

/-! ### What is left in the ring -/

@[simp] theorem left_resolve (a : Attempt) : a.resolve.left = a.left := by
  unfold resolve
  split <;> rfl

@[simp] theorem left_cancelFuture (a : Attempt) : a.cancelFuture.left = a.left := by
  unfold cancelFuture
  split <;> rfl

@[simp] theorem left_creationDeinit (a : Attempt) : a.creationDeinit.left = a.left := by
  unfold creationDeinit
  split <;> rfl

@[simp] theorem left_connectionDeinit (a : Attempt) : a.connectionDeinit.left = a.left := by
  unfold connectionDeinit
  dsimp only
  split <;> exact left_creationDeinit a

@[simp] theorem left_deinit (a : Attempt) : a.deinit.left = a.left := by
  unfold deinit
  split
  · rfl
  · exact left_connectionDeinit _

@[simp] theorem left_failCreate (a : Attempt) (m : MultiConnectState) :
    (a.failCreate m).left = a.left := by
  unfold failCreate
  split
  · exact left_deinit a
  · rfl

@[simp] theorem left_deinitIfLast (a : Attempt) (m : MultiConnectState) :
    (a.deinitIfLast m).left = a.left := by
  unfold deinitIfLast
  split
  · exact left_deinit a
  · rfl

theorem left_submitConnectForAddress {submit : Submit} (hne : submit ≠ .left) :
    (a.submitConnectForAddress m submit).1.left = a.left := by
  cases submit with
  | left => exact absurd rfl hne
  | _ => rfl

theorem left_submitAll {submits : List Submit} (hne : ∀ submit ∈ submits, submit ≠ .left) :
    (a.submitAll m submits).1.left = a.left := by
  induction submits generalizing a m with
  | nil => rfl
  | cons submit submits ih =>
    have hfirst := left_submitConnectForAddress (a := a) (m := m) (hne submit List.mem_cons_self)
    unfold submitAll
    split <;> rename_i heq <;> rw [heq] at hfirst
    · exact hfirst
    · exact (ih fun submit hin => hne submit (List.mem_cons_of_mem _ hin)).trans hfirst

theorem ne_left_of_mem_remaining {submits : ℕ → Submit} {submit : Submit}
    (hne : ∀ i < a.addresses, submits i ≠ .left) (hin : submit ∈ a.remaining submits) :
    submit ≠ .left := by
  obtain ⟨i, hi, rfl⟩ := List.mem_map.1 hin
  rw [List.mem_range] at hi
  exact hne (i + 1) (by omega)

theorem addresses_submitConnectForAddress (a : Attempt) (m : MultiConnectState) (submit : Submit) :
    (a.submitConnectForAddress m submit).1.addresses = a.addresses := by
  cases submit <;> rfl

theorem left_startConnects {interleave : ℕ} {allErrors : Bool} {options : Options} {env : CreateEnv}
    (hne : ∀ i < a.addresses, env.submits i ≠ .left) :
    (a.startConnects interleave allErrors options env).1.left = a.left := by
  unfold startConnects
  dsimp only
  split
  · exact left_failCreate _ _
  split
  · exact left_failCreate _ _
  split
  · rw [left_deinit, left_resolve]
  rename_i hsome
  split
  · exact left_failCreate _ _
  split
  · exact left_failCreate _ _
  have hfirst := left_submitConnectForAddress (a := { a with mcs := some (.init allErrors) })
    (m := .init allErrors) (hne 0 (Nat.pos_of_ne_zero hsome))
  have haddresses := addresses_submitConnectForAddress { a with mcs := some (.init allErrors) }
    (.init allErrors) (env.submits 0)
  split <;> rename_i heq <;> rw [heq] at hfirst haddresses
  · exact (left_failCreate _ _).trans hfirst
  rename_i a₁ m₁
  split
  · split
    · exact (left_failCreate _ _).trans hfirst
    · exact (left_failCreate _ _).trans hfirst
    · exact hfirst
  · have hrest := left_submitAll (a := a₁) (m := m₁) fun submit hin =>
      ne_left_of_mem_remaining (a := a₁) (haddresses.symm ▸ hne) hin
    split <;> rename_i heq₂ <;> rw [heq₂] at hrest
    · exact (left_failCreate _ _).trans (hrest.trans hfirst)
    · exact hrest.trans hfirst

theorem left_zCreateSocketConnection {options : Options} {env : CreateEnv}
    (hne : ∀ i < a.addresses, env.submits i ≠ .left) :
    (a.zCreateSocketConnection options env).1.left = a.left := by
  unfold zCreateSocketConnection
  split
  · rfl
  split
  · rfl
  split
  · rfl
  split
  · exact left_connectionDeinit a
  dsimp only
  split
  · exact left_connectionDeinit _
  · exact left_startConnects hne

theorem left_scheduleRemainingConnects {cancelled : Bool} {submits : ℕ → Submit}
    (hne : ∀ i < a.addresses, submits i ≠ .left) :
    (a.scheduleRemainingConnects cancelled submits).left = a.left := by
  unfold scheduleRemainingConnects
  dsimp only
  split
  · rfl
  split
  · split
    · exact left_deinit _
    · rfl
  rename_i m _ _
  have hrest := left_submitAll
    (a := { a with
      timer := false
      mcs := some { m with happyTimerId := none, timerFired := true, timerScheduled := false } })
    (m := { m with happyTimerId := none, timerFired := true, timerScheduled := false })
    fun submit
      (hin : submit ∈
        { a with timer := false, mcs := some { m with happyTimerId := none } }.remaining submits) =>
      ne_left_of_mem_remaining (a := a) hne hin
  split <;> rename_i heq <;> rw [heq] at hrest
  · exact hrest
  · have habort : ∀ b : Attempt, ∀ m : MultiConnectState, (b.resolve.abort m).left = b.left :=
      fun b _ => left_resolve b
    split
    · exact (left_deinit _).trans ((habort _ _).trans hrest)
    · exact (habort _ _).trans hrest

theorem left_connectFailed (a : Attempt) (m : MultiConnectState) (env : ConnectedEnv) :
    (a.connectFailed m env).left = a.left := by
  obtain h | ⟨h, -⟩ := connectFailed_cases a m env
  · rw [h, left_resolve]
  · rw [h]

theorem left_createTransport (a : Attempt) (m : MultiConnectState) (fd : ℕ) (env : ConnectedEnv) :
    (a.createTransport m fd env).left = a.left := by
  have hcancel : (if env.cancels then a.cancelFuture else a).left = a.left := by
    split
    · exact left_cancelFuture a
    · rfl
  unfold createTransport
  cases env.creation with
  | failed => exact (left_resolve _).trans ((left_deinitIfLast _ _).trans hcancel)
  | refused => exact (left_resolve _).trans ((left_deinitIfLast _ _).trans hcancel)
  | made => exact (left_deinitIfLast _ _).trans ((left_resolve _).trans hcancel)

theorem left_connectCompleted (a : Attempt) (m : MultiConnectState) (fd : ℕ)
    (cancelled success : Bool) (env : ConnectedEnv) :
    (a.connectCompleted m fd cancelled success env).left = a.left := by
  unfold connectCompleted
  split
  · exact left_deinitIfLast _ _
  split
  · exact left_deinitIfLast _ _
  split
  · exact (left_deinitIfLast _ _).trans (left_connectFailed _ _ _)
  · exact left_createTransport _ _ _ _

/-- An admissible step leaves no connect in the ring. -/
theorem step_left {e : Event} (hleft : a.left = 0) (hok : Admissible a e)
    (hs : a.step e = some a') : a'.left = 0 := by
  rw [← hleft]
  cases e with
  | tryResolvHost cancelled lookup =>
    obtain ⟨-, hs⟩ := Option.ite_none_right_eq_some.1 hs
    obtain rfl := Option.some.inj hs
    unfold Attempt.tryResolvHost
    dsimp only
    split
    · simp
    · cases lookup <;> simp
  | hostResolved cancelled addresses =>
    obtain ⟨-, hs⟩ := Option.ite_none_right_eq_some.1 hs
    obtain rfl := Option.some.inj hs
    unfold hostResolvedCallback
    dsimp only
    split
    · simp
    · cases addresses <;> simp
  | createSocketConnection cancelled options env =>
    obtain ⟨-, hs⟩ := Option.ite_none_right_eq_some.1 hs
    obtain rfl := Option.some.inj hs
    unfold Attempt.createSocketConnection
    dsimp only
    split
    · simp
    rename_i hcancelled
    have hz : (({ a with stage := .connecting } : Attempt).zCreateSocketConnection options env).1.left =
        a.left :=
      left_zCreateSocketConnection (hok (Bool.eq_false_of_not_eq_true hcancelled)).2.2.2.2.2
    split <;> rename_i heq <;> rw [heq] at hz
    · exact hz
    · exact (left_resolve _).trans hz
  | connected index cancelled success env =>
    simp only [Attempt.step] at hs
    split at hs
    · exact nomatch hs
    · obtain rfl := Option.some.inj hs
      unfold Attempt.socketConnectedCallback
      split
      · rfl
      · exact left_connectCompleted _ _ _ _ _ _
  | leftConnected =>
    rw [Attempt.step, if_pos hleft] at hs
    exact nomatch hs
  | timer cancelled submits =>
    obtain ⟨-, hs⟩ := Option.ite_none_right_eq_some.1 hs
    obtain rfl := Option.some.inj hs
    exact left_scheduleRemainingConnects hok.2
  | cancelFuture =>
    obtain rfl := Option.some.inj hs
    exact left_cancelFuture a

/-- Options that convert, with the default delay. -/
def plainOptions : Options := ⟨some 0, some false, .absent, some 80⟩

/-- Nothing fails; the first connect has id 1, and the timer id 9. -/
def calmCreate : CreateEnv := ⟨true, true, true, true, fun i => .queued (i + 1), .queued 9⟩

/-- Nothing fails, and the protocol does not cancel the future. -/
def calmConnected : ConnectedEnv := ⟨true, true, .made, false⟩

end Attempt

end Talyn.Connect
