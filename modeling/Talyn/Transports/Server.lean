import Talyn.Transports.ServerRef

/-!
# The server wrapper

`Server` of `talyn/server.py`, the part of `accept_callback` that makes a transport and attaches it, and
the accepted transports, each a `Machine`. Between the start of the listening sockets and the end of
`Server.__init__`, where they learn of their wrapper, connections can be accepted already. The wrapper
stays alive. A transport is known by its number, and so is a call of `wait_closed`. Where an accepted
transport is closed or aborted by the server (`close_clients`, `abort_clients`), it is as if the user did.
When `connection_made` raises, the transport is aborted with no write submitted yet, so that the only
`CancelIO` is the one of its read, and whether it can be queued makes no difference.

User code runs in `protocol_factory`, in `connection_made` and in the frames of the transports. The loop
does nothing meanwhile: it accepts and completes no operation, and it resumes no coroutine.
-/

namespace Talyn

namespace Server

/-- An accepted transport; `_attach` was called with it if `attached`. -/
structure Client where
  transport : Machine
  attached : Bool
  deriving DecidableEq, Repr

/-- The user code that `accept_callback` is in. -/
inductive Accepting
  | protocolFactory
  | connectionMade (client : ℕ)
  deriving DecidableEq, Repr

end Server

/-- A `Server`. -/
structure Server where
  /-- the listening sockets, and whether they are open -/
  listeners : List Bool
  /-- `__init__` has run -/
  installed : Bool
  /-- `_servers` is `None` -/
  closed : Bool
  serving : Bool
  activeCount : ℤ
  /-- `_clients` -/
  clients : List ℕ
  /-- the calls of `wait_closed` whose waiter is in `_waiters` -/
  waiters : List ℕ
  /-- the calls of `wait_closed` whose waiter has its result, and which did not return yet -/
  woken : List ℕ
  /-- the number of calls of `wait_closed` that had to wait -/
  next : ℕ
  accepting : Option Server.Accepting
  transports : List Server.Client
  /-- for each call of `wait_closed` that returned: whether the server was closed, and how many transports
  remained -/
  completions : List (Bool × ℕ)
  deriving DecidableEq, Repr

namespace Server

/-- The listening sockets are started; `__init__` will get `start_serving`. -/
def init (n : ℕ) (startServing : Bool) : Server where
  listeners := List.replicate n true
  installed := false
  closed := false
  serving := startServing
  activeCount := 0
  clients := []
  waiters := []
  woken := []
  next := 0
  accepting := none
  transports := []
  completions := []

/-- The accepted transports whose `connection_lost` has not been scheduled. -/
def remaining (s : Server) : ℕ :=
  s.transports.countP fun c => !c.transport.stream.connectionLostNotified

/-- `is_serving`. -/
def isServing (s : Server) : Bool := s.serving && !s.closed && decide (s.listeners.length > 0)

/-- `_wakeup`. -/
def wakeup (s : Server) : Server := { s with waiters := [], woken := s.woken ++ s.waiters }

/-- `_attach`. -/
def attach (s : Server) (client : ℕ) : Server :=
  { s with
    activeCount := s.activeCount + 1
    clients := if client ∈ s.clients then s.clients else client :: s.clients }

/-- `_detach`. -/
def detach (s : Server) (client : ℕ) : Server :=
  let s := { s with activeCount := s.activeCount - 1, clients := s.clients.erase client }
  if s.activeCount ≤ 0 ∧ (s.closed ∨ !s.isServing) then s.wakeup else s

/-- `close`; with `raises` the `close` of that listening socket raises. -/
def close (s : Server) (raises : Option ℕ) : Server :=
  if s.closed then s
  else
    let s := { s with serving := false, closed := true }
    match raises with
    | some k => { s with listeners :=
        (s.listeners.take (k + 1)).map (fun _ => false) ++ s.listeners.drop (k + 1) }
    | none =>
      let s := { s with listeners := s.listeners.map fun _ => false }
      if s.activeCount ≤ 0 then s.wakeup else s

/-- A call of `wait_closed` returns. -/
def complete (s : Server) : Server :=
  { s with completions := s.completions ++ [(s.closed, s.remaining)] }

/-- `wait_closed`, up to the `await`. -/
def waitClosed (s : Server) : Server :=
  if s.closed ∧ s.activeCount ≤ 0 then s.complete
  else { s with waiters := s.waiters ++ [s.next], next := s.next + 1 }

/-- `start_serving`: the listening sockets have no method of that name. -/
def startServing (s : Server) : Server := if s.closed then s else { s with serving := true }

/-- The rest of `accept_callback` after `protocol_factory` returned, up to the call of
`connection_made`. -/
def makeTransport (s : Server) (protocol : Protocol) (fd fixedFileIndex : ℕ) (task : TaskId) : Server :=
  let client := s.transports.length
  let s := { s with
    transports := s.transports ++
      [(⟨.init protocol fd fixedFileIndex true s.installed task, s.installed⟩ : Client)]
    accepting := some (.connectionMade client) }
  if s.installed then s.attach client else s

/-- A transport goes on as `m`; the server is told whenever it calls `detach_server`. -/
def advance (s : Server) (client : ℕ) (c : Client) (m : Machine) : Server :=
  (fun s => s.detach client)^[m.stream.detaches - c.transport.stream.detaches]
    { s with transports := s.transports.set client { c with transport := m } }

/-- What can happen. -/
inductive Event
  /-- `__init__` -/
  | install
  /-- `accept_callback` accepts a connection -/
  | accept (listener : ℕ)
  | made (protocol : Protocol) (fd fixedFileIndex : ℕ) (task : TaskId)
  /-- `protocol_factory` raises, or no transport can be made -/
  | notMade
  | connectionMade (raises : Bool)
  | transport (client : ℕ) (e : Talyn.Event)
  | startServing
  | close (raises : Option ℕ)
  | waitClosed
  /-- a call of `wait_closed` whose waiter has its result goes on -/
  | resume (waiter : ℕ)
  deriving DecidableEq, Repr

/-- Only the loop itself does this. -/
def ofLoop : Talyn.Event → Bool
  | .flush _ | .writeCompleted .. | .readCompleted .. | .readHarvested _ | .readDispatched _
  | .batchedReadCompleted .. => true
  | _ => false

/-- No user code runs. -/
def Idle (s : Server) : Prop := s.accepting = none ∧ ∀ c ∈ s.transports, c.transport.frames = []

instance (s : Server) : Decidable s.Idle := inferInstanceAs (Decidable (_ ∧ _))

/-- One event; `none` when it cannot happen. -/
def step (s : Server) : Event → Option Server
  | .install => if s.installed then none else some { s with installed := true }
  | .accept listener =>
    if s.Idle ∧ s.listeners[listener]? = some true then
      some { s with accepting := some .protocolFactory }
    else none
  | .made protocol fd fixedFileIndex task =>
    if s.accepting = some .protocolFactory ∧ task ≠ 0 then
      some (s.makeTransport protocol fd fixedFileIndex task)
    else none
  | .notMade =>
    if s.accepting = some .protocolFactory then some { s with accepting := none } else none
  | .connectionMade raises =>
    match s.accepting with
    | some (.connectionMade client) =>
      let s := { s with accepting := none }
      if raises then
        (s.transports[client]?).map fun c =>
          s.advance client c { c.transport with stream := c.transport.stream.transportAbort false false }
      else some s
    | _ => none
  | .transport client e =>
    if ofLoop e = true → s.Idle then
      (s.transports[client]?).bind fun c => (c.transport.step e).map (s.advance client c)
    else none
  | .startServing => if s.installed then some s.startServing else none
  | .close raises => if s.installed then some (s.close raises) else none
  | .waitClosed => if s.installed then some s.waitClosed else none
  | .resume waiter =>
    if s.Idle ∧ waiter ∈ s.woken then some { s with woken := s.woken.erase waiter }.complete else none

/-- Every `_attach` has one `_detach`, once the transport gave up its reference. -/
def Paired (s : Server) : Prop :=
  ∀ c ∈ s.transports, c.transport.stream.detaches + c.transport.stream.serverRef.toNat =
    c.attached.toNat

/-- The transports are counted, and `wait_closed` returns when it is to. -/
structure Sound (s : Server) : Prop where
  counted : s.activeCount = s.remaining
  completions : ∀ p ∈ s.completions, p = (true, 0)
  woken : s.closed = true → s.remaining = 0 → s.waiters = []

/-- The condition on an event. A transport closes at once; a connection is accepted for a server that was
installed and, if `wait_closed` is about to return, not closed; a `close` that raises has nobody to wake;
and `wait_closed` is called on a server that serves or is closed. -/
def Clean (s : Server) : Event → Prop
  | .transport client e => ∀ c, s.transports[client]? = some c → c.transport.ClosesAtOnce e
  | .connectionMade raises => raises = true → ∀ client c,
      s.accepting = some (.connectionMade client) → s.transports[client]? = some c →
        c.transport.ClosesAtOnce (.forceClose none false false)
  | .made _ _ _ _ => s.installed = true ∧ (s.closed = true → s.woken = [])
  | .close raises => raises ≠ none → s.closed = false → 0 < s.activeCount ∨ s.waiters = []
  | .waitClosed => s.closed = true ∨ s.isServing = true
  | _ => True

/-! ### The transports -/

/-- What holds of the transports in every run. -/
structure Base (s : Server) : Prop where
  paired : s.Paired
  batches : ∀ c ∈ s.transports, c.transport.Batches
  exclusive : ∀ c ∈ s.transports, c.transport.stream.connectionLostNotified = true →
    c.transport.stream.serverRef = false

theorem base_iff (s : Server) : s.Base ↔ ∀ c ∈ s.transports,
    c.transport.stream.detaches + c.transport.stream.serverRef.toNat = c.attached.toNat ∧
      c.transport.Batches ∧ (c.transport.stream.connectionLostNotified = true →
        c.transport.stream.serverRef = false) := by
  constructor
  · exact fun h c hc => ⟨h.paired c hc, h.batches c hc, h.exclusive c hc⟩
  · exact fun h => ⟨fun c hc => (h c hc).1, fun c hc => (h c hc).2.1, fun c hc => (h c hc).2.2⟩

theorem Base.congr {s t : Server} (h : s.Base) (ht : t.transports = s.transports) : t.Base := by
  rw [base_iff] at h ⊢
  rw [ht]
  exact h

theorem detach_transports (s : Server) (client : ℕ) : (s.detach client).transports = s.transports := by
  unfold detach
  dsimp only
  split <;> rfl

theorem iterate_detach_transports (s : Server) (client n : ℕ) :
    ((fun s => detach s client)^[n] s).transports = s.transports := by
  induction n generalizing s with
  | zero => rfl
  | succ n ih =>
    rw [Function.iterate_succ_apply, ih, detach_transports]

theorem advance_transports (s : Server) (client : ℕ) (c : Client) (m : Machine) :
    (s.advance client c m).transports = s.transports.set client { c with transport := m } :=
  iterate_detach_transports _ _ _

theorem close_transports (s : Server) (raises : Option ℕ) :
    (s.close raises).transports = s.transports := by
  unfold close
  split
  · rfl
  · dsimp only
    split
    · rfl
    · split <;> rfl

theorem init_stream (protocol : Protocol) (fd fixedFileIndex : ℕ) (ownsFd serverRef : Bool)
    (task : TaskId) :
    let m := Machine.init protocol fd fixedFileIndex ownsFd serverRef task
    m.stream.serverRef = serverRef ∧ m.stream.connectionLostNotified = false ∧
      m.stream.detaches = 0 ∧ m.stream.pendingReads = [.inFlight] := by
  intro m
  rcases protocol with ⟨type, eofReceived, pauseWriting, resumeWriting⟩
  cases type with
  | legacy => exact ⟨rfl, rfl, rfl, rfl⟩
  | buffered => exact ⟨rfl, rfl, rfl, rfl⟩

theorem Base.makeTransport {s : Server} (h : s.Base) (protocol : Protocol) (fd fixedFileIndex : ℕ)
    (task : TaskId) : (s.makeTransport protocol fd fixedFileIndex task).Base := by
  have ht : (s.makeTransport protocol fd fixedFileIndex task).transports = s.transports ++
      [⟨.init protocol fd fixedFileIndex true s.installed task, s.installed⟩] := by
    unfold Server.makeTransport attach
    dsimp only
    split <;> rfl
  rw [base_iff] at h ⊢
  rw [ht]
  intro c hc
  rcases List.mem_append.1 hc with hc | hc
  · exact h c hc
  · obtain rfl := List.mem_singleton.1 hc
    obtain ⟨href, hnotified, hdetaches, hreads⟩ := init_stream protocol fd fixedFileIndex true
      s.installed task
    refine ⟨?_, ?_, ?_⟩
    · rw [href, hdetaches, Nat.zero_add]
    · intro n hop
      rw [hreads] at hop
      simp at hop
    · exact fun hn => nomatch hnotified.symm.trans hn

theorem Base.advance {s : Server} (h : s.Base) {client : ℕ} {c : Client} {m : Machine} {p : Prop}
    (hc : s.transports[client]? = some c) (ht : Stream.Ties p c.transport.stream m.stream)
    (hb : m.Batches) : (s.advance client c m).Base := by
  rw [base_iff] at h ⊢
  rw [advance_transports]
  intro d hd
  rcases List.mem_or_eq_of_mem_set hd with hd | rfl
  · exact h d hd
  · obtain ⟨hpaired, -, hexclusive⟩ := h c (List.mem_of_getElem? hc)
    refine ⟨?_, hb, ht.exclusive hexclusive⟩
    exact ht.detaches.trans hpaired

/-- What one step can do. -/
inductive Step (s : Server) : Event → Server → Prop
  | install : Step s .install { s with installed := true }
  | accept (listener : ℕ) : Step s (.accept listener) { s with accepting := some .protocolFactory }
  | made (protocol : Protocol) (fd fixedFileIndex : ℕ) (task : TaskId) :
      Step s (.made protocol fd fixedFileIndex task) (s.makeTransport protocol fd fixedFileIndex task)
  | notMade : Step s .notMade { s with accepting := none }
  | connectionMade : Step s (.connectionMade false) { s with accepting := none }
  | connectionRaised (client : ℕ) (c : Client) (hacc : s.accepting = some (.connectionMade client))
      (hc : s.transports[client]? = some c) :
      Step s (.connectionMade true) (advance { s with accepting := none } client c
        { c.transport with stream := c.transport.stream.transportAbort false false })
  | transport (client : ℕ) (f : Talyn.Event) (c : Client) (m : Machine)
      (hc : s.transports[client]? = some c) (hm : c.transport.step f = some m) :
      Step s (.transport client f) (s.advance client c m)
  | startServing : Step s .startServing s.startServing
  | close (raises : Option ℕ) : Step s (.close raises) (s.close raises)
  | waitClosed : Step s .waitClosed s.waitClosed
  | resume (waiter : ℕ) (hwoken : waiter ∈ s.woken) :
      Step s (.resume waiter) { s with woken := s.woken.erase waiter }.complete

/-- **Inversion of `step`.** -/
theorem step_cases {s s' : Server} {e : Event} (hs : s.step e = some s') : Step s e s' := by
  cases e with
  | install =>
    obtain ⟨-, hs⟩ := Option.ite_none_left_eq_some.1 hs
    obtain rfl := Option.some.inj hs
    exact .install
  | accept listener =>
    obtain ⟨-, hs⟩ := Option.ite_none_right_eq_some.1 hs
    obtain rfl := Option.some.inj hs
    exact .accept listener
  | made protocol fd fixedFileIndex task =>
    obtain ⟨-, hs⟩ := Option.ite_none_right_eq_some.1 hs
    obtain rfl := Option.some.inj hs
    exact .made protocol fd fixedFileIndex task
  | notMade =>
    obtain ⟨-, hs⟩ := Option.ite_none_right_eq_some.1 hs
    obtain rfl := Option.some.inj hs
    exact .notMade
  | connectionMade raises =>
    simp only [Server.step] at hs
    split at hs
    · rename_i client hacc
      cases raises with
      | false =>
        obtain rfl := Option.some.inj hs
        exact .connectionMade
      | true =>
        obtain ⟨c, hc, rfl⟩ := Option.map_eq_some_iff.1 hs
        exact .connectionRaised client c hacc hc
    · exact nomatch hs
  | transport client f =>
    obtain ⟨-, hs⟩ := Option.ite_none_right_eq_some.1 hs
    obtain ⟨c, hc, hmap⟩ := Option.bind_eq_some_iff.1 hs
    obtain ⟨m, hm, rfl⟩ := Option.map_eq_some_iff.1 hmap
    exact .transport client f c m hc hm
  | startServing =>
    obtain ⟨-, hs⟩ := Option.ite_none_right_eq_some.1 hs
    obtain rfl := Option.some.inj hs
    exact .startServing
  | close raises =>
    obtain ⟨-, hs⟩ := Option.ite_none_right_eq_some.1 hs
    obtain rfl := Option.some.inj hs
    exact .close raises
  | waitClosed =>
    obtain ⟨-, hs⟩ := Option.ite_none_right_eq_some.1 hs
    obtain rfl := Option.some.inj hs
    exact .waitClosed
  | resume waiter =>
    obtain ⟨hen, hs⟩ := Option.ite_none_right_eq_some.1 hs
    obtain rfl := Option.some.inj hs
    exact .resume waiter hen.2

/-- An abort keeps the tie of a transport to its server. -/
theorem ties_abort (m : Machine) : Stream.Ties (m.ClosesAtOnce (.forceClose none false false)) m.stream
    (m.stream.transportAbort false false) :=
  m.stream.ties_transportForceClose none false false

theorem startServing_transports (s : Server) : s.startServing.transports = s.transports := by
  unfold startServing
  split <;> rfl

theorem waitClosed_transports (s : Server) : s.waitClosed.transports = s.transports := by
  unfold waitClosed
  split <;> rfl

/-- Only three events touch the transports. -/
theorem Base.step {s s' : Server} {e : Event} (h : s.Base) (hs : s.step e = some s') : s'.Base := by
  cases step_cases hs with
  | install | accept _ | notMade | connectionMade | resume _ _ => exact h.congr rfl
  | made protocol fd fixedFileIndex task => exact h.makeTransport protocol fd fixedFileIndex task
  | connectionRaised client c hacc hc =>
    have hb := h.batches c (List.mem_of_getElem? hc)
    refine Base.advance (s := { s with accepting := none }) (h.congr rfl) hc
      (ties_abort c.transport) ?_
    exact hb.of_ties (ties_abort c.transport)
  | transport client f c m hc hm =>
    have hb := h.batches c (List.mem_of_getElem? hc)
    exact h.advance hc (Machine.ties_step hb hm) (hb.step hm)
  | startServing => exact h.congr s.startServing_transports
  | close raises => exact h.congr (s.close_transports raises)
  | waitClosed => exact h.congr s.waitClosed_transports

/-! ### The wrapper -/

/-- The invariant of the runs that meet the condition. -/
structure Inv (s : Server) : Prop where
  tied : ∀ c ∈ s.transports,
    c.transport.stream.serverRef = !c.transport.stream.connectionLostNotified
  counted : s.activeCount = s.remaining
  waiting : s.waiters ≠ [] → s.closed = true ∨ s.isServing = true
  woken : s.closed = true → s.activeCount ≤ 0 → s.waiters = []
  returning : s.woken ≠ [] → s.closed = true ∧ s.remaining = 0
  completions : ∀ p ∈ s.completions, p = (true, 0)

theorem Inv.sound {s : Server} (h : s.Inv) : s.Sound := by
  refine ⟨h.counted, h.completions, fun hc hzero => h.woken hc ?_⟩
  rw [h.counted, hzero]
  rfl

/-- A transport that goes on keeps its reference, or gives it up and the server is told once. -/
theorem advance_cases {s : Server} {client : ℕ} {c : Client} {m : Machine} {p : Prop}
    (ht : Stream.Ties p c.transport.stream m.stream) :
    (m.stream.serverRef = c.transport.stream.serverRef ∧ s.advance client c m =
        { s with transports := s.transports.set client { c with transport := m } }) ∨
      (c.transport.stream.serverRef = true ∧ m.stream.serverRef = false ∧ s.advance client c m =
        detach { s with transports := s.transports.set client { c with transport := m } } client) := by
  have hd := ht.detaches
  unfold advance
  cases hm : m.stream.serverRef with
  | true =>
    have hc := ht.ref hm
    rw [hm, hc] at hd
    have hsame : m.stream.detaches - c.transport.stream.detaches = 0 := by omega
    left
    rw [hsame]
    exact ⟨hc.symm, rfl⟩
  | false =>
    cases hc : c.transport.stream.serverRef with
    | true =>
      rw [hm, hc] at hd
      have hone : m.stream.detaches - c.transport.stream.detaches = 1 := by simp at hd; omega
      right
      rw [hone]
      exact ⟨rfl, rfl, rfl⟩
    | false =>
      rw [hm, hc] at hd
      have hsame : m.stream.detaches - c.transport.stream.detaches = 0 := by omega
      left
      rw [hsame]
      exact ⟨rfl, rfl⟩

theorem remaining_set {s : Server} {client : ℕ} {c d : Client} (hc : s.transports[client]? = some c) :
    remaining { s with transports := s.transports.set client d } +
        (!c.transport.stream.connectionLostNotified).toNat =
      s.remaining + (!d.transport.stream.connectionLostNotified).toNat := by
  obtain ⟨hlt, rfl⟩ := List.getElem?_eq_some_iff.1 hc
  unfold remaining
  dsimp only
  rw [List.countP_set hlt]
  have hpos : (!s.transports[client].transport.stream.connectionLostNotified) = true →
      0 < s.transports.countP fun c => !c.transport.stream.connectionLostNotified :=
    fun h => List.countP_pos_iff.2 ⟨_, List.getElem_mem hlt, h⟩
  cases h₁ : s.transports[client].transport.stream.connectionLostNotified with
  | true => cases h₂ : d.transport.stream.connectionLostNotified <;> simp
  | false =>
    have := hpos (by simp [h₁])
    cases h₂ : d.transport.stream.connectionLostNotified with
    | true =>
      simp
      omega
    | false =>
      simp
      omega

/-- `_detach` for a transport whose notification was just scheduled. -/
theorem Inv.detach {s : Server} (htied : ∀ c ∈ s.transports,
      c.transport.stream.serverRef = !c.transport.stream.connectionLostNotified)
    (hcount : s.activeCount - 1 = s.remaining)
    (hwait : s.waiters ≠ [] → s.closed = true ∨ s.isServing = true) (hwoken : s.woken = [])
    (hcompletions : ∀ p ∈ s.completions, p = (true, 0)) (client : ℕ) : (s.detach client).Inv := by
  unfold Server.detach
  dsimp only
  split
  · rename_i hwake
    refine ⟨htied, hcount, fun h => absurd rfl h, fun _ _ => rfl, fun hw => ?_, hcompletions⟩
    have hzero : s.remaining = 0 := by
      have hle : s.activeCount - 1 ≤ 0 := hwake.1
      omega
    refine ⟨?_, hzero⟩
    have hne : s.waiters ≠ [] := by
      intro hnil
      apply hw
      show s.woken ++ s.waiters = []
      rw [hwoken, hnil]
      rfl
    rcases hwait hne with hc | hserves
    · exact hc
    · rcases hwake.2 with hc | hnot
      · exact hc
      · have hserves' : isServing { s with
            activeCount := s.activeCount - 1, clients := s.clients.erase client } = true := hserves
        rw [hserves'] at hnot
        exact nomatch hnot
  · rename_i hno
    refine ⟨htied, hcount, hwait, fun hc hle => ?_, fun hw => absurd hwoken hw, hcompletions⟩
    exact absurd ⟨hle, .inl hc⟩ hno

theorem Inv.advance {s : Server} (h : s.Inv) (hb : s.Base) {client : ℕ} {c : Client} {m : Machine}
    {p : Prop} (hc : s.transports[client]? = some c)
    (ht : Stream.Ties p c.transport.stream m.stream) (hp : p) : (s.advance client c m).Inv := by
  have hmem := List.mem_of_getElem? hc
  have hexclusive := ht.exclusive (hb.exclusive c hmem)
  have hctied := h.tied c hmem
  -- the transport that goes on is still tied to the server
  have hmtied : m.stream.serverRef = !m.stream.connectionLostNotified := by
    cases hm : m.stream.serverRef with
    | true =>
      cases hn : m.stream.connectionLostNotified with
      | true => exact nomatch hm.symm.trans (hexclusive hn)
      | false => rfl
    | false =>
      have hn : m.stream.connectionLostNotified = true := by
        cases href : c.transport.stream.serverRef with
        | true => exact ht.released hp href hm
        | false =>
          rw [href] at hctied
          exact ht.notified (by simpa using hctied.symm)
      rw [hn]
      rfl
  have hrem := remaining_set (s := s) (d := { c with transport := m }) hc
  dsimp only at hrem
  rw [← hctied, ← hmtied] at hrem
  have htied : ∀ d ∈ s.transports.set client { c with transport := m },
      d.transport.stream.serverRef = !d.transport.stream.connectionLostNotified := by
    intro d hd
    rcases List.mem_or_eq_of_mem_set hd with hd | rfl
    · exact h.tied d hd
    · exact hmtied
  rcases @advance_cases s client c m p ht with ⟨hsame, heq⟩ | ⟨href, hm, heq⟩
  · rw [heq]
    rw [hsame] at hrem
    have hrem' : remaining { s with transports := s.transports.set client { c with transport := m } } =
        s.remaining := by omega
    refine ⟨htied, ?_, h.waiting, h.woken, fun hw => ?_, h.completions⟩
    · rw [hrem']
      exact h.counted
    · rw [hrem']
      exact h.returning hw
  · rw [heq]
    rw [href, hm] at hrem
    generalize hu : ({ s with transports := s.transports.set client { c with transport := m } } :
      Server) = u at hrem
    have hlost : u.remaining + 1 = s.remaining := by simpa using hrem
    have hactive : u.activeCount = s.activeCount := by rw [← hu]
    have hwoken : u.woken = [] := by
      by_contra hne
      have := (h.returning (by rw [← hu] at hne; exact hne)).2
      omega
    refine Inv.detach ?_ ?_ ?_ hwoken ?_ client
    · rw [← hu]
      exact htied
    · have hs := h.counted
      omega
    · rw [← hu]
      exact h.waiting
    · rw [← hu]
      exact h.completions

theorem Inv.makeTransport {s : Server} (h : s.Inv) (hinstalled : s.installed = true)
    (hclosed : s.closed = true → s.woken = []) (protocol : Protocol) (fd fixedFileIndex : ℕ)
    (task : TaskId) : (s.makeTransport protocol fd fixedFileIndex task).Inv := by
  obtain ⟨href, hnotified, -, -⟩ := init_stream protocol fd fixedFileIndex true true task
  have hwoken : s.woken = [] := by
    by_contra hne
    exact hne (hclosed (h.returning hne).1)
  unfold Server.makeTransport
  rw [hinstalled]
  dsimp only
  rw [if_pos rfl]
  have hrem : remaining { s with
      transports := s.transports ++
        [(⟨.init protocol fd fixedFileIndex true true task, true⟩ : Client)] } = s.remaining + 1 := by
    simp [remaining, List.countP_append, hnotified]
  have hactive : s.activeCount + 1 = (s.remaining : ℤ) + 1 := by rw [h.counted]
  refine ⟨?_, ?_, h.waiting, fun _ hle => ?_, fun hw => absurd hwoken hw, h.completions⟩
  · intro c hc
    rcases List.mem_append.1 hc with hc | hc
    · exact h.tied c hc
    · obtain rfl := List.mem_singleton.1 hc
      rw [href, hnotified]
      rfl
  · refine Eq.trans hactive ?_
    exact_mod_cast hrem.symm
  · have hle' : s.activeCount + 1 ≤ 0 := hle
    omega

theorem Inv.close {s : Server} (h : s.Inv) (raises : Option ℕ)
    (hraises : raises ≠ none → s.closed = false → 0 < s.activeCount ∨ s.waiters = []) :
    (s.close raises).Inv := by
  unfold Server.close
  split
  · exact h
  · rename_i hc
    have hopen : s.closed = false := by simpa using hc
    have hwoken : s.woken = [] := by
      by_contra hne
      exact nomatch hopen.symm.trans (h.returning hne).1
    dsimp only
    split
    · rename_i k
      refine ⟨h.tied, h.counted, fun _ => .inl rfl, fun _ hle => ?_, fun hw => absurd hwoken hw,
        h.completions⟩
      rcases hraises (by simp) hopen with hpos | hnil
      · have hle' : s.activeCount ≤ 0 := hle
        omega
      · exact hnil
    · split
      · rename_i hle
        refine ⟨h.tied, h.counted, fun _ => .inl rfl, fun _ _ => rfl, fun _ => ⟨rfl, ?_⟩,
          h.completions⟩
        have hcount := h.counted
        have hle' : s.activeCount ≤ 0 := hle
        show s.remaining = 0
        omega
      · rename_i hle
        refine ⟨h.tied, h.counted, fun _ => .inl rfl, fun _ hle' => absurd hle' hle,
          fun hw => absurd hwoken hw, h.completions⟩

theorem Inv.complete {s : Server} (h : s.Inv) (hc : s.closed = true) (hzero : s.remaining = 0) :
    s.complete.Inv := by
  refine ⟨h.tied, h.counted, h.waiting, h.woken, h.returning, fun p hp => ?_⟩
  rcases List.mem_append.1 hp with hp | hp
  · exact h.completions p hp
  · rw [List.mem_singleton.1 hp, hc, hzero]

theorem Inv.waitClosed {s : Server} (h : s.Inv) (hserves : s.closed = true ∨ s.isServing = true) :
    s.waitClosed.Inv := by
  unfold Server.waitClosed
  split
  · rename_i hend
    apply h.complete hend.1
    have hcount := h.counted
    have hle := hend.2
    omega
  · rename_i hno
    refine ⟨h.tied, h.counted, fun _ => hserves, fun hc hle => ?_, h.returning, h.completions⟩
    exact absurd ⟨hc, hle⟩ hno

theorem Inv.startServing {s : Server} (h : s.Inv) : s.startServing.Inv := by
  unfold Server.startServing
  split
  · exact h
  · rename_i hc
    refine ⟨h.tied, h.counted, fun hw => ?_, h.woken, h.returning, h.completions⟩
    rcases h.waiting hw with hclosed | hserves
    · exact absurd hclosed hc
    · right
      simp only [isServing, Bool.and_eq_true] at hserves ⊢
      exact ⟨⟨trivial, hserves.1.2⟩, hserves.2⟩

/-- An event that meets the condition keeps the invariant. -/
theorem Inv.step {s s' : Server} {e : Event} (h : s.Inv) (hb : s.Base) (hok : s.Clean e)
    (hs : s.step e = some s') : s'.Inv := by
  have hfree : Inv { s with accepting := none } :=
    ⟨h.tied, h.counted, h.waiting, h.woken, h.returning, h.completions⟩
  cases step_cases hs with
  | install | accept listener =>
    exact ⟨h.tied, h.counted, h.waiting, h.woken, h.returning, h.completions⟩
  | made protocol fd fixedFileIndex task => exact h.makeTransport hok.1 hok.2 protocol fd fixedFileIndex task
  | notMade | connectionMade => exact hfree
  | connectionRaised client c hacc hc =>
    exact hfree.advance (hb.congr rfl) hc (ties_abort c.transport) (hok rfl client c hacc hc)
  | transport client f c m hc hm =>
    have hbatches := hb.batches c (List.mem_of_getElem? hc)
    exact h.advance hb hc (Machine.ties_step hbatches hm) (hok c hc)
  | startServing => exact h.startServing
  | close raises => exact h.close raises hok
  | waitClosed => exact h.waitClosed hok
  | resume waiter hwoken =>
    obtain ⟨hc, hzero⟩ := h.returning (List.ne_nil_of_mem hwoken)
    exact Inv.complete ⟨h.tied, h.counted, h.waiting, h.woken, fun _ => ⟨hc, hzero⟩, h.completions⟩ hc hzero

theorem base_init (n : ℕ) (startServing : Bool) : (init n startServing).Base := by
  rw [base_iff]
  intro c hc
  simp [init] at hc

theorem inv_init (n : ℕ) (startServing : Bool) : (init n startServing).Inv := by
  refine ⟨fun c hc => ?_, rfl, fun h => absurd rfl h, fun hc => ?_, fun h => absurd rfl h,
    fun p hp => ?_⟩
  · simp [init] at hc
  · simp [init] at hc
  · simp [init] at hp

end Server

end Talyn
