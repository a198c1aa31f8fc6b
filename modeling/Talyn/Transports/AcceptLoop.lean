import Talyn.Transports.StreamServer

/-!
# The accept loop

What `close`, the garbage collector and the callbacks of a listening socket do to its waits and timers,
their references and the accepted descriptors. `Acts` says it once for every event; the references, the
order of `close` and the waits, the descriptors and the count of what arms the server are each followed
through it.
-/

namespace Talyn

namespace StreamServer

/-! ### The references -/

/-- Every reference that was taken was dropped once, except those of the callbacks and of `debts`. -/
def Owes (s : StreamServer) (debts : List ℕ) : Prop :=
  ∀ task, s.trace.count (.decref task) + s.carriers.count task + debts.count task =
      s.trace.count (.incref task) ∧
    s.trace.count (.incref task) ≤ 1

/-- Tasks from `next` on were not used. -/
def Fresh (s : StreamServer) : Prop := ∀ task, s.next ≤ task → s.trace.count (.incref task) = 0

theorem balanced_iff (s : StreamServer) : s.Balanced ↔ s.Owes [] := Iff.rfl

theorem owes_congr {s s' : StreamServer} {debts debts' : List ℕ}
    (hd : ∀ task, s'.trace.count (.decref task) = s.trace.count (.decref task))
    (hi : ∀ task, s'.trace.count (.incref task) = s.trace.count (.incref task))
    (hc : ∀ task, s'.carriers.count task + debts'.count task =
      s.carriers.count task + debts.count task) : s'.Owes debts' ↔ s.Owes debts := by
  apply forall_congr'
  intro task
  rw [hd, hi]
  have := hc task
  omega

theorem Owes.moved {s s' : StreamServer} {debts debts' : List ℕ} (h : s.Owes debts)
    (ht : s'.trace = s.trace) (hc : ∀ task, s'.carriers.count task + debts'.count task =
      s.carriers.count task + debts.count task) : s'.Owes debts' :=
  (owes_congr (fun task => by rw [ht]) (fun task => by rw [ht]) hc).2 h

theorem owes_decref (s : StreamServer) (task : ℕ) (debts : List ℕ) :
    (s.emit [.decref task]).Owes debts ↔ s.Owes (task :: debts) := by
  apply forall_congr'
  intro a
  simp only [emit, carriers, List.count_append, List.count_cons, List.count_nil]
  by_cases he : task = a
  · simp [he]
    omega
  · simp [he]

theorem owes_emit {s : StreamServer} {es : List Effect} {debts : List ℕ}
    (hd : ∀ task, .decref task ∉ es) (hi : ∀ task, .incref task ∉ es) :
    (s.emit es).Owes debts ↔ s.Owes debts := by
  apply owes_congr
  · intro task
    simp [emit, List.count_eq_zero_of_not_mem (hd task)]
  · intro task
    simp [emit, List.count_eq_zero_of_not_mem (hi task)]
  · intro task
    rfl

theorem Owes.wait {s : StreamServer} {debts : List ℕ} (h : s.Owes debts) (hf : s.Fresh) :
    ({ s.wait with blockingTaskId := s.next }.emit [.incref s.next]).Owes debts := by
  intro task
  have ht := h task
  have hn := hf task
  simp only [StreamServer.wait, emit, carriers, List.count_append, List.map_append, List.count_cons,
    List.count_nil, List.map_cons, List.map_nil] at ht ⊢
  by_cases he : s.next = task
  · have := hn he.le
    simp [he]
    omega
  · simp [he]
    omega

theorem owes_scheduleAcceptRetry {s : StreamServer} {debts : List ℕ} (h : s.Owes debts)
    (hf : s.Fresh) (timer : Queue) :
    (s.scheduleAcceptRetry timer).Owes debts ↔ timer ≠ .failed true := by
  rcases timer with _ | left
  · refine iff_of_true (fun task => ?_) (by simp)
    have ht := h task
    have hn := hf task
    simp only [scheduleAcceptRetry, emit, carriers, List.count_append, List.count_cons,
      List.count_nil] at ht ⊢
    by_cases he : s.next = task
    · have := hn he.le
      simp [he]
      omega
    · simp [he]
      omega
  · cases left with
    | false =>
      refine iff_of_true (fun task => ?_) (by simp)
      have ht := h task
      have hn := hf task
      simp only [scheduleAcceptRetry, emit, carriers, List.count_append, List.count_cons,
        List.count_nil] at ht ⊢
      by_cases he : s.next = task
      · have := hn he.le
        simp [he]
        omega
      · simp [he]
        omega
    | true =>
      refine iff_of_false (fun ho => ?_) (by simp)
      have ht := h s.next
      have hn := hf s.next le_rfl
      have hs := ho s.next
      simp only [scheduleAcceptRetry, emit, carriers, List.count_append, List.count_cons,
        List.count_nil] at ht hs
      simp at hs
      omega

theorem Fresh.wait {s : StreamServer} (h : s.Fresh) : s.wait.Fresh := by
  intro task hle
  have := h task (Nat.le_of_succ_le hle)
  simpa [StreamServer.wait, List.count_append] using this

theorem owes_rearm {s : StreamServer} {debts : List ℕ} (h : s.Owes debts) (hf : s.Fresh)
    (enqueue timer : Queue) : (s.rearm enqueue timer).Owes debts ↔
      enqueue ≠ .failed true ∧ (enqueue = .failed false → timer ≠ .failed true) := by
  rcases enqueue with _ | left
  · exact iff_of_true (h.wait hf) (by simp)
  · cases left with
    | false =>
      have hr := owes_scheduleAcceptRetry h hf timer
      simpa [rearm, enqueueAccept] using hr
    | true =>
      refine iff_of_false (fun ho => ?_) (by simp)
      -- nobody took a reference for the wait that was left
      have ht := h s.next
      have hn := hf s.next le_rfl
      have hs := ho s.next
      rcases timer with _ | left
      · simp [rearm, enqueueAccept, scheduleAcceptRetry, StreamServer.wait, emit, carriers] at ht hs
        omega
      · simp [rearm, enqueueAccept, scheduleAcceptRetry, StreamServer.wait, emit, carriers] at ht hs
        omega

theorem fresh_emit {s : StreamServer} {es : List Effect}
    (hes : ∀ task, .incref task ∉ es) : (s.emit es).Fresh ↔ s.Fresh := by
  apply forall_congr'
  intro task
  simp [emit, List.count_eq_zero_of_not_mem (hes task)]

theorem Fresh.scheduleAcceptRetry {s : StreamServer} (h : s.Fresh) (timer : Queue) :
    (s.scheduleAcceptRetry timer).Fresh := by
  rcases timer with _ | left
  · intro task hle
    have := h task (Nat.le_of_succ_le hle)
    have hne : s.next ≠ task := Nat.ne_of_lt hle
    simp [StreamServer.scheduleAcceptRetry, emit, hne, this]
  · intro task hle
    have := h task (Nat.le_of_succ_le hle)
    have hne : s.next ≠ task := Nat.ne_of_lt hle
    simp [StreamServer.scheduleAcceptRetry, emit, hne, this]

theorem Fresh.rearm {s : StreamServer} (h : s.Fresh) (enqueue timer : Queue) :
    (s.rearm enqueue timer).Fresh := by
  rcases enqueue with _ | left
  · intro task hle
    have := h task (Nat.le_of_succ_le hle)
    have hne : s.next ≠ task := Nat.ne_of_lt hle
    simp [StreamServer.rearm, enqueueAccept, StreamServer.wait, emit, hne, this]
  · cases left with
    | false => exact h.scheduleAcceptRetry timer
    | true => exact h.wait.scheduleAcceptRetry timer

/-- What `accept_callback` does before it leaves or calls user code. -/
theorem acceptCallback_cases (s : StreamServer) (task : ℕ) (result : Completion) (accept4 : Accept4)
    (timer : Queue) :
    let t := { s with blockingTaskId := 0 }
    ((result = .canceled ∨ s.closed = true) ∧
        s.acceptCallback task result accept4 timer = t.emit [.decref task]) ∨
      (result ≠ .canceled ∧ s.closed = false ∧
        (result = .success → ∀ e, accept4 = .errno e → e ≠ emfile ∧ e ≠ enfile) ∧
        s.acceptCallback task result accept4 timer =
          { t with frame := some ⟨task, s.loop, s.connections, .leaving false false⟩ }) ∨
      (result = .success ∧ s.closed = false ∧ (∃ e, accept4 = .errno e ∧ (e = emfile ∨ e = enfile)) ∧
        s.acceptCallback task result accept4 timer =
          { t with
            acceptPaused := true
            frame := some ⟨task, false, s.connections, .leaving false false⟩ }.scheduleAcceptRetry
              timer) ∨
      (result = .success ∧ s.closed = false ∧ accept4 = .connection ∧
        ∃ stage, stage.ownsFd = true ∧ s.acceptCallback task result accept4 timer =
          { t with
            connections := s.connections + 1
            frame := some ⟨task, s.loop, s.connections, stage⟩ }.emit [.accepted s.connections]) := by
  intro t
  unfold acceptCallback
  by_cases hend : result = .canceled ∨ s.closed = true
  · exact .inl ⟨hend, by simp only [if_pos hend]; rfl⟩
  · have hopen : s.closed = false := by simpa using fun h => hend (.inr h)
    have hcan : result ≠ .canceled := fun h => hend (.inl h)
    right
    have hloop : (!s.closed && s.loop) = s.loop := by simp [hopen]
    simp only [if_neg hend, hloop]
    by_cases hres : result = .success
    · rw [if_neg (not_not.2 hres)]
      rcases accept4 with _ | e
      · right
        right
        refine ⟨hres, hopen, rfl, _, ?_, rfl⟩
        cases s.protocolFactory <;> rfl
      · dsimp only
        by_cases hagain : e = eagain ∨ e = eintr
        · rw [if_pos hagain]
          refine .inl ⟨hcan, hopen, fun _ e' he => ?_, rfl⟩
          rcases hagain with rfl | rfl <;> (obtain rfl := Accept4.errno.inj he; decide)
        · rw [if_neg hagain]
          by_cases hfiles : e = emfile ∨ e = enfile
          · rw [if_pos hfiles]
            exact .inr (.inl ⟨hres, hopen, ⟨e, rfl, hfiles⟩, rfl⟩)
          · rw [if_neg hfiles]
            refine .inl ⟨hcan, hopen, fun _ e' he => ?_, rfl⟩
            obtain rfl := Accept4.errno.inj he
            exact not_or.1 hfiles
    · rw [if_pos hres]
      exact .inl ⟨hcan, hopen, fun h => absurd h hres, rfl⟩

/-- What `close` leaves alone. -/
structure SameCallbacks (s t : StreamServer) : Prop where
  carriers : t.carriers = s.carriers
  frame : t.frame = s.frame
  next : t.next = s.next
  connections : t.connections = s.connections
  closed : t.closed = true
  trace : t.trace = if s.closed then s.trace else s.trace ++ [.close]

theorem map_task_cancelIo (s : StreamServer) (task : ℕ) :
    (s.cancelIo task).waits.map Wait.task = s.waits.map Wait.task := by
  unfold cancelIo
  dsimp only
  rw [List.map_map]
  apply List.map_congr_left
  intro w _
  dsimp only [Function.comp_apply]
  split <;> rfl

theorem sameCallbacks_closeFd {s t : StreamServer} (h : SameCallbacks s t) :
    SameCallbacks s t.closeFd := by
  unfold closeFd
  split
  · exact ⟨h.carriers, h.frame, h.next, h.connections, h.closed, h.trace⟩
  · exact h

theorem sameCallbacks_cancelIo {s t : StreamServer} (h : SameCallbacks s t) (task : ℕ) :
    SameCallbacks s (t.cancelIo task) := by
  refine ⟨?_, h.frame, h.next, h.connections, h.closed, h.trace⟩
  rw [← h.carriers]
  unfold StreamServer.carriers
  rw [map_task_cancelIo]
  rfl

theorem sameCallbacks_closeServer (s : StreamServer) (cancel : Queue) :
    SameCallbacks s (s.closeServer cancel) := by
  unfold closeServer
  split
  · rename_i hc
    exact ⟨rfl, rfl, rfl, rfl, hc, by rw [if_pos hc]⟩
  · rename_i hc
    have hsame : SameCallbacks s ({ s with closed := true }.emit [.close]) :=
      ⟨rfl, rfl, rfl, rfl, rfl, by rw [if_neg hc]; rfl⟩
    dsimp only
    split
    · cases cancel with
      | queued =>
        have h := sameCallbacks_cancelIo hsame s.blockingTaskId
        exact sameCallbacks_closeFd ⟨h.carriers, h.frame, h.next, h.connections, h.closed, h.trace⟩
      | failed left =>
        cases left with
        | false => exact hsame
        | true => exact sameCallbacks_cancelIo hsame _
    · exact sameCallbacks_closeFd hsame

theorem sameCallbacks_deinit (s : StreamServer) : SameCallbacks s s.deinit := by
  unfold deinit
  apply sameCallbacks_closeFd
  by_cases hc : s.closed = true
  · exact ⟨by rw [if_pos hc]; rfl, by rw [if_pos hc], by rw [if_pos hc], by rw [if_pos hc],
      by simp [hc], by simp [hc]⟩
  · exact ⟨by rw [if_neg hc]; rfl, by rw [if_neg hc]; rfl, by rw [if_neg hc]; rfl,
      by rw [if_neg hc]; rfl, by simp [hc, emit], by simp [hc, emit]⟩

theorem SameCallbacks.owes_iff {s t : StreamServer} (h : SameCallbacks s t) (debts : List ℕ) :
    t.Owes debts ↔ s.Owes debts := by
  apply owes_congr
  · intro task
    rw [h.trace]
    split <;> simp
  · intro task
    rw [h.trace]
    split <;> simp
  · intro task
    rw [h.carriers]

theorem SameCallbacks.fresh {s t : StreamServer} (h : SameCallbacks s t) (hf : s.Fresh) :
    t.Fresh := by
  intro task hle
  rw [h.next] at hle
  rw [h.trace]
  have := hf task hle
  split <;> simp [this]

/-- What an event does. -/
inductive Acts (s : StreamServer) : Event → StreamServer → Prop
  | complete (w : Wait) (result : Completion) (hframe : s.frame = none) (hw : w ∈ s.waits)
      (hcan : result = .canceled → w.cancelRequested = true) :
      Acts s (.complete w result)
        { s with waits := s.waits.erase w, ready := s.ready ++ [.accept w.task result] }
  | expire (task : ℕ) (hframe : s.frame = none) (htask : task ∈ s.timers) :
      Acts s (.expire task)
        { s with timers := s.timers.erase task, ready := s.ready ++ [.retry task] }
  | accept (accept4 : Accept4) (timer : Queue) {task : ℕ} {result : Completion} {ready : List Ready}
      (hframe : s.frame = none) (hready : s.ready = .accept task result :: ready) :
      Acts s (.accept accept4 timer)
        ({ s with ready := ready }.acceptCallback task result accept4 timer)
  | retry (enqueue timer : Queue) {task : ℕ} {ready : List Ready} (hframe : s.frame = none)
      (hready : s.ready = .retry task :: ready) :
      Acts s (.retry enqueue timer) ({ s with ready := ready }.acceptRetryCallback task enqueue timer)
  /-- user code returns or raises, and a transport may own the descriptor -/
  | goOn {e : Event} {frame : Frame} {stage : Stage} {es : List Effect} (hframe : s.frame = some frame)
      (he : s.rearms e = false ∧ s.pauses e = false)
      (hes : es = [.transport frame.connection] ∧ frame.stage.ownsFd = true ∧ stage.ownsFd = false ∨
        (es = [] ∨ es = [.forceClose frame.connection]) ∧ stage.ownsFd = frame.stage.ownsFd) :
      Acts s e ({ s with frame := some { frame with stage := stage } }.emit es)
  | leave (enqueue timer : Queue) {frame : Frame} {ownsFd python : Bool} (hframe : s.frame = some frame)
      (hstage : frame.stage = .leaving ownsFd python) :
      Acts s (.leave enqueue timer) (s.leave frame enqueue timer)
  | close {e : Event} {s' : StreamServer} (he : s.rearms e = false ∧ s.pauses e = false)
      (hs : SameCallbacks s s') : Acts s e s'

theorem acts_goOn {s : StreamServer} {e : Event} {frame : Frame} {stage : Stage}
    (hframe : s.frame = some frame) (he : s.rearms e = false ∧ s.pauses e = false)
    (hstage : stage.ownsFd = frame.stage.ownsFd) :
    Acts s e { s with frame := some { frame with stage := stage } } := by
  have h : Acts s e _ := .goOn hframe he (.inr ⟨.inl rfl, hstage⟩)
  rwa [emit, List.append_nil] at h

theorem acts_of_step {s s' : StreamServer} {e : Event} (hs : s.step e = some s') : Acts s e s' := by
  unfold step at hs
  cases e with
  | complete w result =>
    dsimp only at hs
    split at hs
    · rename_i hen
      obtain rfl := Option.some.inj hs
      exact .complete w result hen.1 hen.2.1 hen.2.2
    · exact nomatch hs
  | expire task =>
    dsimp only at hs
    split at hs
    · rename_i hen
      obtain rfl := Option.some.inj hs
      exact .expire task hen.1 hen.2
    · exact nomatch hs
  | accept accept4 timer =>
    dsimp only at hs
    split at hs
    · rename_i hframe hready
      obtain rfl := Option.some.inj hs
      exact .accept accept4 timer hframe hready
    · exact nomatch hs
  | retry enqueue timer =>
    dsimp only at hs
    split at hs
    · rename_i hframe hready
      obtain rfl := Option.some.inj hs
      exact .retry enqueue timer hframe hready
    · exact nomatch hs
  | returned made =>
    dsimp only at hs
    split at hs
    · rename_i frame hframe
      unfold returned at hs
      split at hs
      · rename_i hstage
        cases made with
        | true =>
          obtain rfl := Option.some.inj hs
          exact .goOn hframe ⟨rfl, rfl⟩ (.inl ⟨rfl, by rw [hstage]; rfl, rfl⟩)
        | false =>
          obtain rfl := Option.some.inj hs
          exact acts_goOn hframe ⟨rfl, rfl⟩ (by rw [hstage]; rfl)
      · rename_i hstage
        obtain rfl := Option.some.inj hs
        exact acts_goOn hframe ⟨rfl, rfl⟩ (by rw [hstage]; rfl)
      · rename_i hstage
        obtain rfl := Option.some.inj hs
        exact acts_goOn hframe ⟨rfl, rfl⟩ (by rw [hstage]; rfl)
      · exact nomatch hs
    · exact nomatch hs
  | raised =>
    dsimp only at hs
    split at hs
    · rename_i frame hframe
      unfold raised at hs
      split at hs
      · rename_i hstage
        obtain rfl := Option.some.inj hs
        exact acts_goOn hframe ⟨rfl, rfl⟩ (by rw [hstage]; rfl)
      · rename_i hstage
        obtain rfl := Option.some.inj hs
        exact .goOn hframe ⟨rfl, rfl⟩ (.inr ⟨.inr rfl, by rw [hstage]; rfl⟩)
      · rename_i hstage
        obtain rfl := Option.some.inj hs
        exact .goOn hframe ⟨rfl, rfl⟩ (.inr ⟨.inr rfl, by rw [hstage]; rfl⟩)
      · exact nomatch hs
    · exact nomatch hs
  | leave enqueue timer =>
    dsimp only at hs
    split at hs
    · rename_i hframe
      obtain rfl := Option.some.inj hs
      exact .leave enqueue timer hframe rfl
    · exact nomatch hs
  | close cancel =>
    dsimp only at hs
    split at hs
    · obtain rfl := Option.some.inj hs
      exact .close ⟨rfl, rfl⟩ (sameCallbacks_closeServer s cancel)
    · exact nomatch hs
  | deinit =>
    dsimp only at hs
    split at hs
    · obtain rfl := Option.some.inj hs
      exact .close ⟨rfl, rfl⟩ (sameCallbacks_deinit s)
    · exact nomatch hs

theorem fresh_acceptCallback {s : StreamServer} (h : s.Fresh) (task : ℕ) (result : Completion)
    (accept4 : Accept4) (timer : Queue) : (s.acceptCallback task result accept4 timer).Fresh := by
  rcases s.acceptCallback_cases task result accept4 timer with
    ⟨-, heq⟩ | ⟨-, -, -, heq⟩ | ⟨-, -, -, heq⟩ | ⟨-, -, -, stage, -, heq⟩
  · rw [heq]
    exact (fresh_emit (by simp)).2 h
  · rw [heq]
    exact h
  · rw [heq]
    apply Fresh.scheduleAcceptRetry
    exact h
  · rw [heq]
    exact (fresh_emit (by simp)).2 h

theorem dropFrame_cases (s : StreamServer) (frame : Frame) :
    s.dropFrame frame = { s with frame := none }.emit
      (if frame.stage.ownsFd then [.closeFd frame.connection] else []) := by
  unfold dropFrame
  dsimp only
  split
  · rfl
  · simp [emit]

theorem Fresh.acts {s s' : StreamServer} {e : Event} (h : s.Fresh) (ha : Acts s e s') : s'.Fresh := by
  cases ha with
  | complete | expire => exact h
  | accept accept4 timer =>
    apply fresh_acceptCallback
    exact h
  | retry enqueue timer =>
    unfold acceptRetryCallback
    split
    · exact (fresh_emit (by simp)).2 h
    · refine (fresh_emit (by simp)).2 (Fresh.rearm ?_ enqueue timer)
      exact h
  | goOn hframe he hes =>
    refine (fresh_emit fun task hmem => ?_).2 h
    rcases hes with ⟨rfl, -⟩ | ⟨rfl | rfl, -⟩ <;> simp at hmem
  | @leave enqueue timer frame =>
    have hd : (s.dropFrame frame).Fresh := by
      rw [dropFrame_cases]
      refine (fresh_emit fun task => ?_).2 h
      split <;> simp
    unfold leave
    refine (fresh_emit (by simp)).2 ?_
    split
    · exact hd.rearm enqueue timer
    · exact hd
  | close he hs => exact hs.fresh h

theorem count_carriers_erase {waits : List Wait} {w : Wait} (hw : w ∈ waits) (task : ℕ) :
    ((waits.erase w).map Wait.task).count task + [w.task].count task =
      (waits.map Wait.task).count task := by
  have hp := ((List.perm_cons_erase hw).map Wait.task).count_eq task
  rw [List.map_cons, List.count_cons] at hp
  rw [List.count_singleton, hp]

theorem owes_acceptCallback {s : StreamServer} {task : ℕ} (h : s.Owes [task]) (hf : s.Fresh)
    (hframe : s.frame = none) (result : Completion) (accept4 : Accept4) (timer : Queue) :
    (s.acceptCallback task result accept4 timer).Owes [] ↔
      (s.closed = false ∧ result = .success ∧ (∃ e, accept4 = .errno e ∧ (e = emfile ∨ e = enfile)) →
        timer ≠ .failed true) := by
  have hcarry : ∀ t : StreamServer, t.trace = s.trace → t.waits = s.waits → t.timers = s.timers →
      t.ready = s.ready → (∃ f, t.frame = some f ∧ f.task = task) → t.Owes [] := by
    rintro t htrace hwaits htimers hready ⟨f, hf, rfl⟩
    refine h.moved htrace fun a => ?_
    simp only [carriers, hwaits, htimers, hready, hf, hframe, Option.toList, List.map_cons,
      List.map_nil, List.count_append, List.count_nil]
    omega
  rcases s.acceptCallback_cases task result accept4 timer with
    ⟨hend, heq⟩ | ⟨-, hopen, hno, heq⟩ | ⟨hres, hopen, hyes, heq⟩ | ⟨hres, hopen, hconn, stage, -, heq⟩
  · rw [heq, owes_decref]
    refine iff_of_true h fun hp => ?_
    rcases hend with rfl | hc
    · exact nomatch hp.2.1
    · exact nomatch hc.symm.trans hp.1
  · rw [heq]
    refine iff_of_true (hcarry _ rfl rfl rfl rfl ⟨_, rfl, rfl⟩) fun hp => ?_
    rcases hp.2.2 with ⟨e, he, hfiles⟩
    have hne := hno hp.2.1 e he
    omega
  · rw [heq]
    refine Iff.trans (owes_scheduleAcceptRetry ?_ ?_ timer)
      ⟨fun ht _ => ht, fun ht => ht ⟨hopen, hres, hyes⟩⟩
    · exact hcarry _ rfl rfl rfl rfl ⟨_, rfl, rfl⟩
    · exact hf
  · rw [heq]
    refine iff_of_true ?_ fun hp => ?_
    · exact (owes_emit (by simp) (by simp)).2 (hcarry _ rfl rfl rfl rfl ⟨_, rfl, rfl⟩)
    · rcases hp.2.2 with ⟨e, he, -⟩
      exact nomatch hconn.symm.trans he

theorem owes_take {s : StreamServer} {r : Ready} {ready : List Ready} (h : s.Owes [])
    (hready : s.ready = r :: ready) : Owes { s with ready := ready } [r.task] := by
  refine h.moved rfl fun a => ?_
  simp only [carriers, hready, List.map_cons, List.count_append, List.count_cons, List.count_nil]
  omega

theorem pauses_accept {s : StreamServer} {accept4 : Accept4} {timer : Queue} {task : ℕ}
    {result : Completion} {ready : List Ready} (hframe : s.frame = none)
    (hready : s.ready = .accept task result :: ready) :
    s.pauses (.accept accept4 timer) = true ↔ s.closed = false ∧ result = .success ∧
      ∃ e, accept4 = .errno e ∧ (e = emfile ∨ e = enfile) := by
  unfold pauses
  cases accept4 with
  | connection => simp
  | errno e => cases result <;> simp [hframe, hready]

theorem rearms_retry {s : StreamServer} {enqueue timer : Queue} {task : ℕ} {ready : List Ready}
    (hframe : s.frame = none) (hready : s.ready = .retry task :: ready) :
    s.rearms (.retry enqueue timer) = (!s.closed && s.loop) := by
  simp [rearms, hframe, hready]

theorem rearms_leave {s : StreamServer} {enqueue timer : Queue} {frame : Frame} {ownsFd python : Bool}
    (hframe : s.frame = some frame) (hstage : frame.stage = .leaving ownsFd python) :
    s.rearms (.leave enqueue timer) = (frame.shouldReenqueue && !s.acceptPaused) := by
  rcases frame with ⟨task, shouldReenqueue, connection, stage⟩
  obtain rfl : stage = .leaving ownsFd python := hstage
  simp [rearms, hframe]

/-- An event keeps the references balanced exactly when it leaves nothing in the ring. -/
theorem Balanced.acts_iff {s s' : StreamServer} {e : Event} (h : s.Balanced) (hf : s.Fresh)
    (ha : Acts s e s') : s'.Balanced ↔ s.LeavesNothing e := by
  cases ha with
  | complete w result hframe hw hcan =>
    refine iff_of_true ?_ (by simp [LeavesNothing, rearms, pauses])
    rw [balanced_iff]
    refine Owes.moved (s.balanced_iff.1 h) rfl fun a => ?_
    have hp := count_carriers_erase hw a
    simp only [carriers, List.map_append, List.map_cons, List.map_nil, List.count_append,
      Ready.task] at hp ⊢
    omega
  | expire task hframe htask =>
    refine iff_of_true ?_ (by simp [LeavesNothing, rearms, pauses])
    rw [balanced_iff]
    refine Owes.moved (s.balanced_iff.1 h) rfl fun a => ?_
    have hp := (List.perm_cons_erase htask).count_eq a
    simp only [carriers, List.map_append, List.map_cons, List.map_nil, List.count_append,
      List.count_cons, List.count_nil, Ready.task] at hp ⊢
    omega
  | accept accept4 timer hframe hready =>
    have hl : s.LeavesNothing (.accept accept4 timer) ↔
        (s.pauses (.accept accept4 timer) = true → timer ≠ .failed true) :=
      ⟨fun hp => hp.2, fun hp => ⟨nofun, hp⟩⟩
    rw [hl, pauses_accept hframe hready]
    refine owes_acceptCallback (owes_take h hready) ?_ ?_ _ accept4 timer
    · exact hf
    · exact hframe
  | retry enqueue timer hframe hready =>
    have htake := owes_take h hready
    have hl : s.LeavesNothing (.retry enqueue timer) ↔ ((!s.closed && s.loop) = true →
        enqueue ≠ .failed true ∧ (enqueue = .failed false → timer ≠ .failed true)) := by
      rw [LeavesNothing, rearms_retry hframe hready]
      exact ⟨fun hp => hp.1, fun hp => ⟨hp, nofun⟩⟩
    rw [hl, balanced_iff]
    unfold acceptRetryCallback
    split
    · rename_i hend
      refine iff_of_true ((owes_decref _ _ _).2 htake) fun hp => ?_
      simp_all
    · rename_i hend
      rw [owes_decref]
      refine (owes_rearm (by exact htake) (by exact hf) enqueue timer).trans ?_
      have hgo : (!s.closed && s.loop) = true := by simpa using hend
      exact ⟨fun hp _ => hp, fun hp => hp hgo⟩
  | @goOn _ frame _ es hframe he hes =>
    refine iff_of_true ?_ (by simp [LeavesNothing, he])
    rw [balanced_iff]
    refine (owes_emit ?_ ?_).2 ?_
    · intro task hmem
      rcases hes with ⟨rfl, -⟩ | ⟨rfl | rfl, -⟩ <;> simp at hmem
    · intro task hmem
      rcases hes with ⟨rfl, -⟩ | ⟨rfl | rfl, -⟩ <;> simp at hmem
    · exact Owes.moved (s.balanced_iff.1 h) rfl fun a => by simp [carriers, hframe]
  | @leave enqueue timer frame ownsFd python hframe hstage =>
    have hd : (s.dropFrame frame).Owes [frame.task] := by
      rw [dropFrame_cases]
      refine (owes_emit (fun task => by split <;> simp) fun task => by split <;> simp).2 ?_
      refine Owes.moved (s.balanced_iff.1 h) rfl fun a => ?_
      simp [carriers, hframe]
      omega
    have hdf : (s.dropFrame frame).Fresh := by
      rw [dropFrame_cases]
      exact (fresh_emit fun task => by split <;> simp).2 hf
    have hpaused : (s.dropFrame frame).acceptPaused = s.acceptPaused := by
      rw [dropFrame_cases]
      rfl
    have hl : s.LeavesNothing (.leave enqueue timer) ↔
        ((frame.shouldReenqueue && !s.acceptPaused) = true →
          enqueue ≠ .failed true ∧ (enqueue = .failed false → timer ≠ .failed true)) := by
      rw [LeavesNothing, rearms_leave hframe hstage]
      exact ⟨fun hp => hp.1, fun hp => ⟨hp, nofun⟩⟩
    rw [hl, balanced_iff]
    unfold StreamServer.leave
    rw [owes_decref, hpaused]
    split
    · rename_i hgo
      refine (owes_rearm hd hdf enqueue timer).trans ⟨fun hp _ => hp, fun hp => hp hgo⟩
    · rename_i hno
      exact iff_of_true hd fun hgo => absurd hgo hno
  | close he hs => exact iff_of_true ((hs.owes_iff []).2 h) (by simp [LeavesNothing, he])

/-! ### No wait after `close` -/

/-- `closed` says whether `close` was called. -/
def Marked (s : StreamServer) : Prop := s.closed = true ↔ Effect.close ∈ s.trace

theorem noneAfterClose_emit {s : StreamServer} {es : List Effect} (hes : ∀ task, .wait task ∉ es) :
    (s.emit es).NoneAfterClose ↔ s.NoneAfterClose := by
  unfold NoneAfterClose emit
  rw [List.pairwise_append]
  constructor
  · exact fun h => h.1
  · refine fun h => ⟨h, ?_, ?_⟩
    · exact List.pairwise_of_forall_mem_list fun e _ f hf _ task hw => hes task (hw ▸ hf)
    · exact fun e _ f hf _ task hw => hes task (hw ▸ hf)

theorem noneAfterClose_wait (s : StreamServer) :
    s.wait.NoneAfterClose ↔ s.NoneAfterClose ∧ Effect.close ∉ s.trace := by
  unfold NoneAfterClose StreamServer.wait
  rw [List.pairwise_append]
  constructor
  · refine fun h => ⟨h.1, fun hc => ?_⟩
    exact h.2.2 _ hc (.wait s.next) (by simp) rfl s.next rfl
  · refine fun h => ⟨h.1, by simp, fun e he f hf hc => ?_⟩
    exact absurd (hc ▸ he) h.2

theorem noneAfterClose_scheduleAcceptRetry (s : StreamServer) (timer : Queue) :
    (s.scheduleAcceptRetry timer).NoneAfterClose ↔ s.NoneAfterClose := by
  unfold scheduleAcceptRetry
  cases timer with
  | queued => exact noneAfterClose_emit (by simp)
  | failed left => exact noneAfterClose_emit (by simp)

theorem noneAfterClose_rearm (s : StreamServer) (enqueue timer : Queue) :
    (s.rearm enqueue timer).NoneAfterClose ↔
      s.NoneAfterClose ∧ (Effect.close ∈ s.trace → enqueue = .failed false) := by
  have hw : ∀ t : StreamServer, (t.NoneAfterClose ↔ s.NoneAfterClose ∧ Effect.close ∉ s.trace) →
      enqueue ≠ .failed false → (t.NoneAfterClose ↔
        s.NoneAfterClose ∧ (Effect.close ∈ s.trace → enqueue = .failed false)) := by
    intro t ht hne
    rw [ht]
    exact and_congr_right fun _ => ⟨fun hno hc => absurd hc hno, fun h hc => hne (h hc)⟩
  rcases enqueue with _ | left
  · exact hw _ ((noneAfterClose_emit (by simp)).trans s.noneAfterClose_wait) (by simp)
  · cases left with
    | false =>
      refine (noneAfterClose_scheduleAcceptRetry s timer).trans ?_
      simp
    | true =>
      exact hw _ ((noneAfterClose_scheduleAcceptRetry s.wait timer).trans s.noneAfterClose_wait)
        (by simp)

theorem noneAfterClose_acceptCallback (s : StreamServer) (task : ℕ) (result : Completion)
    (accept4 : Accept4) (timer : Queue) :
    (s.acceptCallback task result accept4 timer).NoneAfterClose ↔ s.NoneAfterClose := by
  rcases s.acceptCallback_cases task result accept4 timer with
    ⟨-, heq⟩ | ⟨-, -, -, heq⟩ | ⟨-, -, -, heq⟩ | ⟨-, -, -, stage, -, heq⟩
  · rw [heq]
    exact noneAfterClose_emit (by simp)
  · rw [heq]
    rfl
  · rw [heq]
    exact noneAfterClose_scheduleAcceptRetry _ timer
  · rw [heq]
    exact noneAfterClose_emit (by simp)

theorem noneAfterClose_dropFrame (s : StreamServer) (frame : Frame) :
    (s.dropFrame frame).NoneAfterClose ↔ s.NoneAfterClose := by
  rw [dropFrame_cases]
  exact noneAfterClose_emit fun task => by split <;> simp

theorem close_mem_dropFrame (s : StreamServer) (frame : Frame) :
    Effect.close ∈ (s.dropFrame frame).trace ↔ Effect.close ∈ s.trace := by
  rw [dropFrame_cases]
  simp only [emit, List.mem_append]
  split <;> simp

/-- An event queues no wait on a closed server exactly when the condition holds. -/
theorem NoneAfterClose.acts_iff {s s' : StreamServer} {e : Event} (h : s.NoneAfterClose)
    (hm : s.Marked) (ha : Acts s e s') : s'.NoneAfterClose ↔ s.StaysClosed e := by
  cases ha with
  | complete | expire => exact iff_of_true h nofun
  | accept accept4 timer hframe hready =>
    exact iff_of_true ((noneAfterClose_acceptCallback _ _ _ accept4 timer).2 h) nofun
  | retry enqueue timer hframe hready =>
    have hl : s.StaysClosed (.retry enqueue timer) := by
      intro hgo hc
      rw [rearms_retry hframe hready, hc] at hgo
      exact nomatch hgo
    refine iff_of_true ?_ hl
    unfold acceptRetryCallback
    split
    · exact (noneAfterClose_emit (by simp)).2 h
    · rename_i hend
      refine (noneAfterClose_emit (by simp)).2 ((noneAfterClose_rearm _ enqueue timer).2
        ⟨h, fun hc => ?_⟩)
      exact absurd (.inl (hm.2 hc)) hend
  | @goOn _ frame _ es hframe he hes =>
    refine iff_of_true ((noneAfterClose_emit ?_).2 h) (by simp [StaysClosed, he])
    intro task hmem
    rcases hes with ⟨rfl, -⟩ | ⟨rfl | rfl, -⟩ <;> simp at hmem
  | @leave enqueue timer frame ownsFd python hframe hstage =>
    have hl : s.StaysClosed (.leave enqueue timer) ↔ ((frame.shouldReenqueue && !s.acceptPaused) = true →
        Effect.close ∈ s.trace → enqueue = .failed false) := by
      rw [StaysClosed, rearms_leave hframe hstage, show s.closed = true ↔ _ from hm]
      rfl
    have hpaused : (s.dropFrame frame).acceptPaused = s.acceptPaused := by
      rw [dropFrame_cases]
      rfl
    have hd := s.noneAfterClose_dropFrame frame
    rw [hl]
    unfold StreamServer.leave
    rw [noneAfterClose_emit (by simp), hpaused]
    split
    · rename_i hgo
      rw [noneAfterClose_rearm, hd, close_mem_dropFrame]
      exact ⟨fun hp _ => hp.2, fun hp => ⟨h, hp hgo⟩⟩
    · rename_i hno
      exact iff_of_true (hd.2 h) fun hgo => absurd hgo hno
  | close he hs =>
    refine iff_of_true ?_ (by simp [StaysClosed, he])
    unfold NoneAfterClose
    rw [hs.trace]
    split
    · exact h
    · have hemit : (s.emit [.close]).NoneAfterClose := (noneAfterClose_emit (by simp)).2 h
      exact hemit

/-! ### The other fields -/

/-- An effect of a wait or a timer. -/
def Effect.ofTask : Effect → Bool
  | .wait _ | .incref _ | .decref _ => true
  | _ => false

/-- Only waits, timers and their references change. -/
structure Arms (s t : StreamServer) : Prop where
  closed : t.closed = s.closed
  loop : t.loop = s.loop
  acceptPaused : t.acceptPaused = s.acceptPaused
  ready : t.ready = s.ready
  frame : t.frame = s.frame
  connections : t.connections = s.connections
  trace : ∃ es, t.trace = s.trace ++ es ∧ ∀ e ∈ es, e.ofTask = true

theorem arms_scheduleAcceptRetry (s : StreamServer) (timer : Queue) :
    Arms s (s.scheduleAcceptRetry timer) := by
  rcases timer with _ | left
  · exact ⟨rfl, rfl, rfl, rfl, rfl, rfl, _, rfl, by simp [Effect.ofTask]⟩
  · exact ⟨rfl, rfl, rfl, rfl, rfl, rfl, _, rfl, by simp [Effect.ofTask]⟩

theorem arms_wait (s : StreamServer) : Arms s s.wait :=
  ⟨rfl, rfl, rfl, rfl, rfl, rfl, _, rfl, by simp [Effect.ofTask]⟩

theorem Arms.trans {s t u : StreamServer} (h : Arms s t) (h' : Arms t u) : Arms s u := by
  rcases h.trace with ⟨es, hes, hall⟩
  rcases h'.trace with ⟨fs, hfs, hall'⟩
  refine ⟨h'.closed.trans h.closed, h'.loop.trans h.loop, h'.acceptPaused.trans h.acceptPaused,
    h'.ready.trans h.ready, h'.frame.trans h.frame, h'.connections.trans h.connections, es ++ fs,
    ?_, ?_⟩
  · rw [hfs, hes, List.append_assoc]
  · intro e he
    rcases List.mem_append.1 he with he | he
    · exact hall e he
    · exact hall' e he

theorem arms_rearm (s : StreamServer) (enqueue timer : Queue) : Arms s (s.rearm enqueue timer) := by
  rcases enqueue with _ | left
  · exact s.arms_wait.trans ⟨rfl, rfl, rfl, rfl, rfl, rfl, _, rfl, by simp [Effect.ofTask]⟩
  · cases left with
    | false => exact s.arms_scheduleAcceptRetry timer
    | true => exact s.arms_wait.trans (s.wait.arms_scheduleAcceptRetry timer)

theorem Arms.count {s t : StreamServer} (h : Arms s t) {e : Effect} (he : e.ofTask = false) :
    t.trace.count e = s.trace.count e := by
  rcases h.trace with ⟨es, hes, hall⟩
  have hno : e ∉ es := fun hmem => nomatch he.symm.trans (hall e hmem)
  rw [hes, List.count_append, List.count_eq_zero_of_not_mem hno, Nat.add_zero]

theorem Arms.marked {s t : StreamServer} (h : Arms s t) (hm : s.Marked) : t.Marked := by
  unfold Marked
  rw [h.closed, ← List.count_pos_iff, h.count rfl, List.count_pos_iff]
  exact hm

theorem marked_emit {s : StreamServer} {es : List Effect} (hes : .close ∉ es) :
    (s.emit es).Marked ↔ s.Marked := by
  simp [Marked, emit, hes]

theorem Marked.acts {s s' : StreamServer} {e : Event} (h : s.Marked) (ha : Acts s e s') :
    s'.Marked := by
  cases ha with
  | complete | expire => exact h
  | @accept accept4 timer task result ready hframe hready =>
    rcases acceptCallback_cases { s with ready := ready } task result accept4 timer with
      ⟨-, heq⟩ | ⟨-, -, -, heq⟩ | ⟨-, -, -, heq⟩ | ⟨-, -, -, stage, -, heq⟩
    · rw [heq]
      exact (marked_emit (by simp)).2 h
    · rw [heq]
      exact h
    · rw [heq]
      apply (arms_scheduleAcceptRetry _ timer).marked
      exact h
    · rw [heq]
      exact (marked_emit (by simp)).2 h
  | retry enqueue timer =>
    unfold acceptRetryCallback
    split
    · exact (marked_emit (by simp)).2 h
    · refine (marked_emit (by simp)).2 ((arms_rearm _ enqueue timer).marked ?_)
      exact h
  | goOn hframe he hes =>
    refine (marked_emit ?_).2 h
    rcases hes with ⟨rfl, -⟩ | ⟨rfl | rfl, -⟩ <;> simp
  | @leave enqueue timer frame =>
    have hd : (s.dropFrame frame).Marked := by
      rw [dropFrame_cases]
      exact (marked_emit (by split <;> simp)).2 h
    unfold StreamServer.leave
    refine (marked_emit (by simp)).2 ?_
    split
    · exact (arms_rearm _ enqueue timer).marked hd
    · exact hd
  | close he hs =>
    refine iff_of_true hs.closed ?_
    rw [hs.trace]
    split
    · rename_i hc
      exact h.1 hc
    · simp

/-! ### The descriptors -/

/-- Connections from `connections` on were not accepted. -/
def Counted (s : StreamServer) : Prop :=
  ∀ c, s.connections ≤ c → s.trace.count (.accepted c) = 0

theorem pendingFd_some (s : StreamServer) {frame : Frame} (h : s.frame = some frame) (c : ℕ) :
    s.pendingFd c = if frame.stage.ownsFd && frame.connection == c then 1 else 0 := by
  simp only [pendingFd, h, Option.toList, List.filter_cons, List.filter_nil]
  split <;> rfl

/-- The descriptors of the connections are where they have to be. -/
structure Disposes (s : StreamServer) : Prop where
  disposed : s.Disposed
  counted : s.Counted

theorem Disposes.moved {s t : StreamServer} (h : s.Disposes)
    (ht : ∀ e : Effect, e.ofTask = false → t.trace.count e = s.trace.count e)
    (hf : ∀ c, t.pendingFd c = s.pendingFd c) (hc : t.connections = s.connections) : t.Disposes := by
  constructor
  · intro c
    rw [ht _ rfl, ht _ rfl, ht _ rfl, hf]
    exact h.disposed c
  · intro c hle
    rw [ht _ rfl]
    exact h.counted c (hc ▸ hle)

theorem Arms.disposes {s t : StreamServer} (h : Arms s t) (hd : s.Disposes) : t.Disposes :=
  hd.moved (fun _ he => h.count he) (fun c => by rw [pendingFd, h.frame]; rfl) h.connections

theorem count_emit_ofTask (s : StreamServer) {e f : Effect} (he : e.ofTask = false)
    (hf : f.ofTask = true) : (s.emit [f]).trace.count e = s.trace.count e := by
  have hne : f ≠ e := by
    rintro rfl
    exact nomatch he.symm.trans hf
  simp [emit, hne]

theorem Disposes.acts {s s' : StreamServer} {e : Event} (h : s.Disposes) (ha : Acts s e s') :
    s'.Disposes := by
  cases ha with
  | complete | expire => exact h.moved (fun _ _ => rfl) (fun _ => rfl) rfl
  | @accept accept4 timer task result ready hframe hready =>
    have hnone : ∀ c, s.pendingFd c = 0 := fun c => by simp [pendingFd, hframe]
    rcases acceptCallback_cases { s with ready := ready } task result accept4 timer with
      ⟨-, heq⟩ | ⟨-, -, -, heq⟩ | ⟨-, -, -, heq⟩ | ⟨-, -, -, stage, hstage, heq⟩
    · rw [heq]
      exact h.moved (fun _ he => count_emit_ofTask _ he rfl) (fun _ => rfl) rfl
    · rw [heq]
      exact h.moved (fun _ _ => rfl) (fun c => (hnone c).symm ▸ rfl) rfl
    · rw [heq]
      refine (arms_scheduleAcceptRetry _ timer).disposes ?_
      exact h.moved (fun _ _ => rfl) (fun c => (hnone c).symm ▸ rfl) rfl
    · rw [heq]
      constructor
      · intro c
        have hc := h.disposed c
        rw [hnone] at hc
        by_cases hne : s.connections = c
        · have hfresh := h.counted c hne.le
          simp [emit, pendingFd, hstage, hne] at hc ⊢
          omega
        · simpa [emit, pendingFd, hstage, hne] using hc
      · intro c hle
        have hfresh := h.counted c (Nat.le_of_succ_le hle)
        have hne : s.connections ≠ c := Nat.ne_of_lt hle
        simp [emit, hne, hfresh]
  | retry enqueue timer =>
    unfold acceptRetryCallback
    split
    · exact h.moved (fun _ he => count_emit_ofTask _ he rfl) (fun _ => rfl) rfl
    · refine Disposes.moved ((arms_rearm _ enqueue timer).disposes ?_)
        (fun _ he => count_emit_ofTask _ he rfl) (fun _ => rfl) rfl
      exact h.moved (fun _ _ => rfl) (fun _ => rfl) rfl
  | @goOn _ frame stage es hframe he hes =>
    constructor
    · intro c
      have hc := h.disposed c
      rcases hes with ⟨rfl, hown, hstage⟩ | ⟨rfl | rfl, hstage⟩
      · by_cases hne : frame.connection = c
        · simp [emit, pendingFd, hframe, hown, hstage, hne] at hc ⊢
          omega
        · simpa [emit, pendingFd, hframe, hown, hstage, hne] using hc
      · have hp := s.pendingFd_some hframe c
        simpa [emit, pendingFd_some, hstage, hp] using hc
      · have hp := s.pendingFd_some hframe c
        simpa [emit, pendingFd_some, hstage, hp] using hc
    · intro c hle
      have hfresh := h.counted c hle
      rcases hes with ⟨rfl, -⟩ | ⟨rfl | rfl, -⟩
      · simpa [emit] using hfresh
      · simpa [emit] using hfresh
      · simpa [emit] using hfresh
  | @leave enqueue timer frame ownsFd python hframe hstage =>
    have hd : (s.dropFrame frame).Disposes := by
      rw [dropFrame_cases]
      constructor
      · intro c
        have hc := h.disposed c
        cases hown : frame.stage.ownsFd with
        | false => simpa [emit, pendingFd, hframe, hown] using hc
        | true =>
          by_cases hne : frame.connection = c
          · simp [emit, pendingFd, hframe, hown, hne] at hc ⊢
            omega
          · simpa [emit, pendingFd, hframe, hown, hne] using hc
      · intro c hle
        have hfresh := h.counted c hle
        cases frame.stage.ownsFd with
        | false => simpa [emit] using hfresh
        | true => simpa [emit] using hfresh
    unfold StreamServer.leave
    dsimp only
    split
    · have hr := (arms_rearm (s.dropFrame frame) enqueue timer).disposes hd
      exact hr.moved (fun _ he => count_emit_ofTask _ he rfl) (fun _ => rfl) rfl
    · exact hd.moved (fun _ he => count_emit_ofTask _ he rfl) (fun _ => rfl) rfl
  | close he hs =>
    have ht : ∀ e : Effect, e ≠ .close → s'.trace.count e = s.trace.count e := by
      intro e he
      rw [hs.trace]
      split
      · rfl
      · simp [he.symm]
    constructor
    · intro c
      rw [ht _ (by simp), ht _ (by simp), ht _ (by simp), pendingFd, hs.frame]
      exact h.disposed c
    · intro c hle
      rw [ht _ (by simp)]
      exact h.counted c (hs.connections ▸ hle)

/-! ### An open server is armed once -/

/-- An open server: it is armed once, nothing was cancelled, and it is paused only while a timer is to
resume it. -/
structure Armed (s : StreamServer) : Prop where
  arms : s.arms = 1
  loop : s.loop = true
  uncancelled : ∀ w ∈ s.waits, w.cancelRequested = false
  accepts : ∀ task, .accept task .canceled ∉ s.ready
  paused : s.acceptPaused = true → s.waits = [] ∧ (∀ task result, .accept task result ∉ s.ready) ∧
    ∀ f ∈ s.frame, f.shouldReenqueue = false

/-- Nothing is to arm the server. -/
structure Disarmed (s : StreamServer) : Prop where
  waits : s.waits = []
  timers : s.timers = []
  ready : s.ready = []
  frame : s.frame = none
  loop : s.loop = true
  unpaused : s.acceptPaused = false

theorem Armed.emit {s : StreamServer} (h : s.Armed) (es : List Effect) : (s.emit es).Armed :=
  ⟨h.arms, h.loop, h.uncancelled, h.accepts, h.paused⟩

/-- `enqueue_accept` and, when it fails, a timer arm the server once, unless the wait is left in the
ring. -/
theorem Disarmed.rearm {s : StreamServer} (h : s.Disarmed) (enqueue : Queue) :
    enqueue ≠ .failed true ∧ (s.rearm enqueue .queued).Armed ∨
      enqueue = .failed true ∧ (s.rearm enqueue .queued).arms = 2 := by
  rcases h with ⟨hwaits, htimers, hready, hframe, hloop, hpaused⟩
  rcases enqueue with _ | left
  · left
    have harms : (s.rearm .queued .queued).arms = 1 := by
      simp [StreamServer.rearm, enqueueAccept, StreamServer.wait, StreamServer.emit, arms, hwaits,
        htimers, hready, hframe]
    refine ⟨by simp, harms, hloop, ?_, ?_, ?_⟩
    · simp [StreamServer.rearm, enqueueAccept, StreamServer.wait, StreamServer.emit, hwaits]
    · simp [StreamServer.rearm, enqueueAccept, StreamServer.wait, StreamServer.emit, hready]
    · simp [StreamServer.rearm, enqueueAccept, StreamServer.wait, StreamServer.emit, hpaused]
  · cases left with
    | false =>
      left
      have harms : (s.rearm (.failed false) .queued).arms = 1 := by
        simp [StreamServer.rearm, enqueueAccept, scheduleAcceptRetry, StreamServer.emit, arms, hwaits,
          htimers, hready, hframe]
      refine ⟨by simp, harms, hloop, ?_, ?_, ?_⟩
      · simp [StreamServer.rearm, enqueueAccept, scheduleAcceptRetry, StreamServer.emit, hwaits]
      · simp [StreamServer.rearm, enqueueAccept, scheduleAcceptRetry, StreamServer.emit, hready]
      · simp [StreamServer.rearm, enqueueAccept, scheduleAcceptRetry, StreamServer.emit, hpaused]
    | true =>
      right
      simp [StreamServer.rearm, enqueueAccept, scheduleAcceptRetry, StreamServer.wait,
        StreamServer.emit, arms, hwaits, htimers, hready, hframe]

/-- The callback that is about to run is all that arms the server. -/
theorem Armed.of_ready {s : StreamServer} (h : s.Armed) {r : Ready} {ready : List Ready}
    (hframe : s.frame = none) (hready : s.ready = r :: ready) :
    s.waits = [] ∧ s.timers = [] ∧ ready = [] := by
  have harms := h.arms
  simp only [StreamServer.arms, hready, hframe, Option.toList, List.filter_nil, List.length_nil,
    List.length_cons] at harms
  exact ⟨List.length_eq_zero_iff.1 (by omega), List.length_eq_zero_iff.1 (by omega),
    List.length_eq_zero_iff.1 (by omega)⟩

theorem Armed.of_frame {s : StreamServer} (h : s.Armed) {frame : Frame}
    (hframe : s.frame = some frame) (hre : frame.shouldReenqueue = true) :
    s.waits = [] ∧ s.timers = [] ∧ s.ready = [] ∧ s.acceptPaused = false := by
  have harms := h.arms
  simp only [StreamServer.arms, hframe, Option.toList, List.filter_cons, hre, if_true,
    List.filter_nil, List.length_cons, List.length_nil] at harms
  refine ⟨List.length_eq_zero_iff.1 (by omega), List.length_eq_zero_iff.1 (by omega),
    List.length_eq_zero_iff.1 (by omega), ?_⟩
  rw [Bool.eq_false_iff]
  intro hp
  have := (h.paused hp).2.2 frame hframe
  exact nomatch hre.symm.trans this

theorem Armed.acceptCallback {s : StreamServer} (h : s.Armed) (hopen : s.closed = false)
    {task : ℕ} {result : Completion} {ready : List Ready} (hframe : s.frame = none)
    (hready : s.ready = .accept task result :: ready) (accept4 : Accept4) :
    (StreamServer.acceptCallback { s with ready := ready } task result accept4 .queued).Armed := by
  obtain ⟨hwaits, htimers, rfl⟩ := h.of_ready hframe hready
  have hunpaused : s.acceptPaused = false := by
    rw [Bool.eq_false_iff]
    intro hp
    exact (h.paused hp).2.1 task result (by simp [hready])
  have hcan : result ≠ .canceled := by
    rintro rfl
    exact h.accepts task (by simp [hready])
  rcases acceptCallback_cases { s with ready := [] } task result accept4 .queued with
    ⟨hend, -⟩ | ⟨-, -, -, heq⟩ | ⟨-, -, -, heq⟩ | ⟨-, -, -, stage, -, heq⟩
  · rcases hend with hend | hend
    · exact absurd hend hcan
    · exact nomatch hopen.symm.trans hend
  · rw [heq]
    refine ⟨?_, h.loop, h.uncancelled, nofun, fun hp => ?_⟩
    · simp [StreamServer.arms, hwaits, htimers, h.loop]
    · exact nomatch hunpaused.symm.trans hp
  · rw [heq]
    refine ⟨?_, h.loop, h.uncancelled, nofun, fun _ => ⟨hwaits, nofun, ?_⟩⟩
    · simp [StreamServer.arms, scheduleAcceptRetry, StreamServer.emit, hwaits, htimers]
    · simp [scheduleAcceptRetry, StreamServer.emit]
  · rw [heq]
    apply Armed.emit
    refine ⟨?_, h.loop, h.uncancelled, nofun, fun hp => ?_⟩
    · simp [StreamServer.arms, hwaits, htimers, h.loop]
    · exact nomatch hunpaused.symm.trans hp

/-- An event of an open server keeps it armed once, or it leaves a wait in the ring and arms the server
a second time. -/
theorem Armed.acts {s s' : StreamServer} {e : Event} (h : s.Armed) (hopen : s.closed = false)
    (hq : s.QueuesTimer e) (ha : Acts s e s') :
    s.LeavesNoWait e ∧ (s'.closed = false → s'.Armed) ∨
      ¬ s.LeavesNoWait e ∧ s'.closed = false ∧ s'.arms = 2 := by
  cases ha with
  | complete w result hframe hw hcan =>
    refine .inl ⟨nofun, fun _ => ⟨?_, h.loop, ?_, ?_, fun hp => ?_⟩⟩
    · have harms := h.arms
      have hlen := List.length_erase_of_mem hw
      have hpos := List.length_pos_of_mem hw
      simp only [StreamServer.arms, List.length_append, List.length_singleton] at harms ⊢
      omega
    · exact fun v hv => h.uncancelled v (List.mem_of_mem_erase hv)
    · intro task hmem
      rcases List.mem_append.1 hmem with hmem | hmem
      · exact h.accepts task hmem
      · simp at hmem
        have := h.uncancelled w hw
        exact nomatch this.symm.trans (hcan hmem.2.symm)
    · rw [(h.paused hp).1] at hw
      exact nomatch hw
  | expire task hframe htask =>
    refine .inl ⟨nofun, fun _ => ⟨?_, h.loop, h.uncancelled, ?_, fun hp => ⟨(h.paused hp).1, ?_,
      (h.paused hp).2.2⟩⟩⟩
    · have harms := h.arms
      have hlen := List.length_erase_of_mem htask
      have hpos := List.length_pos_of_mem htask
      simp only [StreamServer.arms, List.length_append, List.length_singleton] at harms ⊢
      omega
    · intro a hmem
      exact h.accepts a (by simpa using hmem)
    · intro a result hmem
      exact (h.paused hp).2.1 a result (by simpa using hmem)
  | accept accept4 timer hframe hready =>
    obtain rfl : timer = .queued := hq
    exact .inl ⟨nofun, fun _ => h.acceptCallback hopen hframe hready accept4⟩
  | retry enqueue timer hframe hready =>
    obtain rfl : timer = .queued := hq
    obtain ⟨hwaits, htimers, rfl⟩ := h.of_ready hframe hready
    have hl : s.LeavesNoWait (.retry enqueue .queued) ↔ enqueue ≠ .failed true := by
      simp [LeavesNoWait, rearms_retry hframe hready, hopen, h.loop, Event.enqueue]
    have hgo : ¬ (s.closed = true ∨ (!s.loop) = true) := by simp [hopen, h.loop]
    unfold acceptRetryCallback
    dsimp only
    rw [hl, if_neg hgo]
    rcases Disarmed.rearm (s := { s with ready := [], acceptPaused := false })
        ⟨hwaits, htimers, rfl, hframe, h.loop, rfl⟩ enqueue with ⟨hne, harmed⟩ | ⟨rfl, harms⟩
    · exact .inl ⟨hne, fun _ => harmed.emit _⟩
    · exact .inr ⟨fun hne => hne rfl, (arms_rearm _ _ _).closed.trans hopen, harms⟩
  | goOn hframe he hes =>
    refine .inl ⟨by simp [LeavesNoWait, he], fun _ => ?_⟩
    apply Armed.emit
    refine ⟨?_, h.loop, h.uncancelled, h.accepts, fun hp => ⟨(h.paused hp).1, (h.paused hp).2.1, ?_⟩⟩
    · have harms := h.arms
      simp only [StreamServer.arms, hframe, Option.toList, List.filter_cons, List.filter_nil] at harms ⊢
      split at harms <;> simp_all
    · have := (h.paused hp).2.2 _ hframe
      simpa using this
  | @leave enqueue timer frame ownsFd python hframe hstage =>
    obtain rfl : timer = .queued := hq
    have hl : s.LeavesNoWait (.leave enqueue .queued) ↔
        ((frame.shouldReenqueue && !s.acceptPaused) = true → enqueue ≠ .failed true) := by
      rw [LeavesNoWait, rearms_leave hframe hstage]
      exact ⟨fun hp hgo => hp hgo hopen, fun hp hgo _ => hp hgo⟩
    obtain ⟨es, hes⟩ : ∃ es, s.dropFrame frame = { s with frame := none }.emit es :=
      ⟨_, s.dropFrame_cases frame⟩
    unfold StreamServer.leave
    rw [hl, hes]
    dsimp only
    split
    · rename_i hgo
      have hre : frame.shouldReenqueue = true := by
        rw [Bool.and_eq_true] at hgo
        exact hgo.1
      obtain ⟨hwaits, htimers, hready, hpaused⟩ := h.of_frame hframe hre
      have hgo' : (frame.shouldReenqueue && !s.acceptPaused) = true := by simp [hre, hpaused]
      have hclosed := (arms_rearm ({ s with frame := none }.emit es) enqueue .queued).closed
      rcases Disarmed.rearm (s := { s with frame := none }.emit es)
          ⟨hwaits, htimers, hready, rfl, h.loop, hpaused⟩ enqueue with ⟨hne, harmed⟩ | ⟨rfl, harms⟩
      · exact .inl ⟨fun _ => hne, fun _ => harmed.emit _⟩
      · exact .inr ⟨fun hp => hp hgo' rfl, hclosed.trans hopen, harms⟩
    · rename_i hno
      refine .inl ⟨fun hgo => absurd hgo hno, fun _ => Armed.emit (Armed.emit ?_ _) _⟩
      -- the frame was not going to arm a wait
      have hre : frame.shouldReenqueue = false := by
        rw [Bool.eq_false_iff]
        intro hre
        have hpaused := (h.of_frame hframe hre).2.2.2
        exact hno (by simp [hre, hpaused, StreamServer.emit])
      refine ⟨?_, h.loop, h.uncancelled, h.accepts, fun hp => ⟨(h.paused hp).1, (h.paused hp).2.1,
        nofun⟩⟩
      have harms := h.arms
      simpa [StreamServer.arms, hframe, hre] using harms
  | close he hs => exact .inl ⟨by simp [LeavesNoWait, he], fun hc => nomatch hc.symm.trans hs.closed⟩

/-! ### Runs -/

theorem enabled_of_rearms {s : StreamServer} {e : Event} (h : s.rearms e = true) : s.step e ≠ none := by
  unfold rearms at h
  unfold step
  split at h
  · dsimp only
    split at h
    · rename_i hframe hready
      simp [hframe]
    · exact nomatch h
  · dsimp only
    split at h
    · simp
    · exact nomatch h
  · exact nomatch h

theorem enabled_of_pauses {s : StreamServer} {e : Event} (h : s.pauses e = true) : s.step e ≠ none := by
  unfold pauses at h
  unfold step
  split at h
  · dsimp only
    split at h
    · rename_i hframe hready
      simp [hframe, hready]
    · exact nomatch h
  · exact nomatch h

theorem armed_serving (fd : ℕ) : (serving fd).Armed := by
  refine ⟨rfl, rfl, ?_, nofun, nofun⟩
  intro w hw
  obtain rfl : w = ⟨1, false⟩ := List.mem_singleton.1 hw
  rfl

theorem balanced_serving (fd : ℕ) : (serving fd).Balanced := by
  intro task
  by_cases he : task = 1
  · simp [serving, startServing, init, enqueueAccept, wait, emit, carriers, he]
  · have hne : 1 ≠ task := fun h => he h.symm
    simp [serving, startServing, init, enqueueAccept, wait, emit, carriers, hne]

theorem fresh_serving (fd : ℕ) : (serving fd).Fresh := by
  intro task hle
  have hne : 1 ≠ task := Nat.ne_of_lt hle
  simp [serving, startServing, init, enqueueAccept, wait, emit, hne]

theorem Acts.closed {s s' : StreamServer} {e : Event} (ha : Acts s e s') (h : s.closed = true) :
    s'.closed = true := by
  cases ha with
  | complete | expire | goOn => exact h
  | @accept accept4 timer task result ready =>
    rcases acceptCallback_cases { s with ready := ready } task result accept4 timer with
      ⟨-, heq⟩ | ⟨-, hopen, -⟩ | ⟨-, hopen, -⟩ | ⟨-, hopen, -⟩
    · rw [heq]
      exact h
    · exact nomatch h.symm.trans hopen
    · exact nomatch h.symm.trans hopen
    · exact nomatch h.symm.trans hopen
  | retry =>
    unfold acceptRetryCallback
    rw [if_pos (.inl h)]
    exact h
  | @leave enqueue timer frame =>
    have hd : (s.dropFrame frame).closed = true := by
      rw [dropFrame_cases]
      exact h
    unfold StreamServer.leave
    dsimp only
    split
    · exact (arms_rearm (s.dropFrame frame) enqueue timer).closed.trans hd
    · exact hd
  | close _ hs => exact hs.closed

end StreamServer
end Talyn
