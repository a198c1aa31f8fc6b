import Mathlib.Data.List.TakeWhile
import Talyn.Lib.Runs
import Talyn.Transports.CreateServer

/-!
# What an attempt to create a server leaves behind

`AttemptOk` is what a caller relies on in every state of an attempt: the future is resolved at most once,
what was allocated is freed once, every socket was closed once or has one server, and no socket listens
after a failure.

The work is in the loop over the addresses. Every address has a `Fate`, which the events decide; `Round`
says what one round adds, and `Rounds` what the loop does, by the address at which it stops. What follows
the loop then depends on two things only: whether some server is in the list, and whether the servers that
are open can be closed (`Closable`).

Three kinds of steps break `AttemptOk` (`Admissible`): a name for which something is lost, a list that
`server_host_resolved_callback` frees twice, and a `create_server_socket` that leaves a socket behind
(`Serves`).
-/

namespace Talyn.CreateServer

open StreamServer (serving)

/-- What becomes of an address. -/
inductive Fate
  /-- there is no server, and the loop goes on -/
  | skipped
  /-- there is no server, and the loop stops -/
  | stopped
  /-- the server is in the list -/
  | served
  /-- the server serves, but it is not in the list, and the loop stops -/
  | stray
  deriving DecidableEq, Repr

/-- The loop goes on. -/
def Fate.goesOn : Fate → Bool
  | .skipped | .served => true
  | .stopped | .stray => false

/-- What becomes of a listening socket. -/
def AddressEnv.fate (e : AddressEnv) : Fate :=
  if e.numbers = false ∨ e.construct ≠ .made then .stopped
  else
    match e.serve, e.append with
    | .failed _, _ => .skipped
    | .queued, true => .served
    | .queued, false => .stray

variable {α : Type*} {a : Attempt α} {env : ServerEnv α} {e : AddressEnv} {servers new : List Served}
  {s : Served} {i fd : ℕ} {addr : α × ℕ} {addrs : List (α × ℕ)}

/-! ### Servers -/

/-- A server serves, or it is out of the list and has closed its socket. -/
def Settled (s : Served) : Prop :=
  s.server = serving s.fd ∨ s.listed = false ∧ s.server.serverFd = -1

/-- When the servers in the list are closed, none is open any more. -/
def Closable (env : ServerEnv α) (servers : List Served) : Prop :=
  ∀ s ∈ servers, s.open = true → s.listed = true ∧ (env.address s.address).cancel = .queued

/-- Some server is in the list. -/
def AnyListed (servers : List Served) : Prop := ∃ s ∈ servers, s.listed = true

instance (servers : List Served) : Decidable (AnyListed servers) :=
  inferInstanceAs (Decidable (∃ s ∈ servers, _))

@[simp] theorem closable_nil : Closable env [] := List.forall_mem_nil _

theorem closable_append :
    Closable env (servers ++ new) ↔ Closable env servers ∧ Closable env new :=
  List.forall_mem_append

@[simp] theorem not_anyListed_nil : ¬AnyListed [] := by simp [AnyListed]

theorem anyListed_append : AnyListed (servers ++ new) ↔ AnyListed servers ∨ AnyListed new := by
  simp only [AnyListed, List.mem_append, or_and_right, exists_or]

theorem startServing_queued (fd : ℕ) :
    (StreamServer.init fd).startServing .queued = (true, serving fd) := by
  simp [StreamServer.startServing, serving, StreamServer.init, StreamServer.enqueueAccept]

theorem startServing_failed (fd : ℕ) (left : Bool) :
    ∃ server, (StreamServer.init fd).startServing (.failed left) = (false, server) ∧
      server.deinit.serverFd = -1 := by
  cases left with
  | true => simp [StreamServer.startServing, StreamServer.init, StreamServer.enqueueAccept,
      StreamServer.deinit, StreamServer.closeFd, StreamServer.wait, StreamServer.emit]
  | false => simp [StreamServer.startServing, StreamServer.init, StreamServer.enqueueAccept,
      StreamServer.deinit, StreamServer.closeFd, StreamServer.emit]

/-- A server that serves is open, and its wait refers to it. -/
theorem serving_spec (fd : ℕ) : (serving fd).serverFd = fd ∧ (serving fd).waits ≠ [] := by
  rw [serving, startServing_queued]
  exact ⟨rfl, nofun⟩

theorem closable_singleton : Closable env [s] ↔
    (s.open = true → s.listed = true ∧ (env.address s.address).cancel = .queued) :=
  List.forall_mem_singleton

theorem anyListed_singleton : AnyListed [s] ↔ s.listed = true := by simp [AnyListed]

/-- Where no server is in the list, all that can be closed are closed. -/
theorem closable_of_not_anyListed (h : ¬AnyListed servers) :
    Closable env servers ↔ ∀ s ∈ servers, s.open = false := by
  refine forall₂_congr fun s hs => ?_
  have hunlisted : ¬s.listed = true := fun hlisted => h ⟨s, hs, hlisted⟩
  simp [hunlisted]

/-- A server in the list is open. -/
theorem AnyListed.open (h : AnyListed servers) (hsettled : ∀ s ∈ servers, Settled s) :
    ¬∀ s ∈ servers, s.open = false := by
  intro hclosed
  obtain ⟨s, hs, hlisted⟩ := h
  obtain hserving | ⟨hunlisted, -⟩ := hsettled s hs
  · have hopen : s.open = true := by simp [Served.open, hserving, serving_spec]
    exact absurd (hopen.symm.trans (hclosed s hs)) nofun
  · exact absurd (hlisted.symm.trans hunlisted) nofun

/-- A server that serves is closed unless the `CancelIO` cannot be queued; its wait refers to it. -/
theorem close_serving (h : s.server = serving s.fd) (cancel : StreamServer.Queue) :
    (s.close cancel).release = s.close cancel ∧
      (s.close cancel).server.serverFd = (if cancel = .queued then -1 else s.fd : ℤ) := by
  have hwaits : (s.close cancel).server.waits ≠ [] := by
    unfold Served.close
    rw [h]
    cases cancel with
    | queued => exact nofun
    | failed left => cases left <;> exact nofun
  refine ⟨if_neg hwaits, ?_⟩
  unfold Served.close
  rw [h]
  cases cancel with
  | queued => rfl
  | failed left => cases left <;> rfl

/-- What `closeServers` does to a server. -/
def Served.closeListed (env : ServerEnv α) (s : Served) : Served :=
  if s.listed then s.close (env.address s.address).cancel else s

theorem Served.closeListed_spec (env : ServerEnv α) (h : Settled s) :
    (s.closeListed env).fd = s.fd ∧ (s.closeListed env).listed = s.listed ∧
      (s.listed = true → (s.closeListed env).release = s.closeListed env) ∧
      ((s.closeListed env).server.serverFd = s.fd ∨ (s.closeListed env).server.serverFd = -1) ∧
      ((s.closeListed env).open = false ↔
        (s.open = true → s.listed = true ∧ (env.address s.address).cancel = .queued)) := by
  unfold Served.closeListed
  obtain hserving | ⟨hunlisted, hclosed⟩ := h
  · have hopen : s.open = true := by simp [Served.open, hserving, serving_spec]
    obtain ⟨hrelease, hfd⟩ := close_serving hserving (env.address s.address).cancel
    split
    · rename_i hlisted
      refine ⟨rfl, rfl, fun _ => hrelease, ?_, ?_⟩
      · rw [hfd]
        split
        · exact .inr rfl
        · exact .inl rfl
      · rw [Served.open, hfd]
        by_cases hcancel : (env.address s.address).cancel = .queued
        · simp [hcancel, hlisted]
        · simp [hcancel, hopen]
    · rename_i hlisted
      refine ⟨rfl, rfl, fun h => absurd h hlisted, .inl ?_, by simp [hopen, hlisted]⟩
      rw [hserving, (serving_spec _).1]
  · have hopen : s.open = false := by simp [Served.open, hclosed]
    rw [if_neg (by simp [hunlisted])]
    exact ⟨rfl, rfl, fun h => absurd (h.symm.trans hunlisted) nofun, .inr hclosed, by simp [hopen]⟩

/-! ### One address -/

namespace Attempt

/-- What becomes of an address and its position. -/
def fate (a : Attempt α) (env : ServerEnv α) (addr : α × ℕ) : Fate :=
  let e := env.address addr.2
  if a.filtered env addr.1 then .skipped
  else if a.socketFd = none ∧ (e.socket && e.bind && e.listen) = false then .skipped
  else e.fate

/-- The constructor is not called, or fails. -/
theorem startServer_of_stopped (a : Attempt α) (i fd : ℕ) (h : e.fate = .stopped) : ∃ zeroClosed,
    a.startServer i fd e =
      ({ (if a.socketFd.isSome then a else a.close fd) with zeroClosed := zeroClosed }, false) := by
  have hfails : e.numbers = false ∨ e.construct ≠ .made := by
    by_contra hmade
    unfold AddressEnv.fate at h
    rw [if_neg hmade] at h
    split at h <;> exact nomatch h
  unfold startServer
  dsimp only
  split
  · exact ⟨_, rfl⟩
  · rename_i hnumbers
    obtain hfalse | hconstruct := hfails
    · exact absurd hfalse hnumbers
    · cases hmade : e.construct with
      | failed => exact ⟨_, rfl⟩
      | initFailed => exact ⟨true, rfl⟩
      | made => exact absurd hmade hconstruct

/-- The server takes the socket. It serves where the address is `served` or `stray`. -/
theorem startServer_of_not_stopped (a : Attempt α) (i fd : ℕ) (h : e.fate ≠ .stopped) : ∃ s : Served,
    s.address = i ∧ s.fd = fd ∧ Settled s ∧ (s.listed = true ↔ e.fate = .served) ∧
      (s.open = true ↔ e.fate = .served ∨ e.fate = .stray) ∧
        a.startServer i fd e = ({ a with servers := a.servers ++ [s] }, e.fate.goesOn) := by
  unfold AddressEnv.fate at h ⊢
  split at h
  · exact absurd rfl h
  · rename_i hmade
    rw [if_neg hmade]
    rw [not_or, Bool.not_eq_false, not_not] at hmade
    unfold startServer
    dsimp only
    rw [if_neg (by simp [hmade.1]), hmade.2]
    have hserving := serving_spec fd
    cases hserve : e.serve with
    | failed left =>
      obtain ⟨server, heq, hclosed⟩ := startServing_failed fd left
      rw [heq]
      exact ⟨⟨i, fd, server.deinit, false⟩, rfl, rfl, .inr ⟨rfl, hclosed⟩, by simp,
        by simp [Served.open, hclosed], rfl⟩
    | queued =>
      rw [startServing_queued]
      cases happend : e.append with
      | true =>
        exact ⟨⟨i, fd, serving fd, true⟩, rfl, rfl, .inl rfl, by simp,
          by simp [Served.open, hserving.1], rfl⟩
      | false =>
        have hkept : Served.release ⟨i, fd, serving fd, false⟩ = ⟨i, fd, serving fd, false⟩ :=
          if_neg hserving.2
        refine ⟨⟨i, fd, serving fd, false⟩, rfl, rfl, .inl rfl, by simp,
          by simp [Served.open, hserving.1], ?_⟩
        simp [hkept, Fate.goesOn]

/-- What one round of the loop adds: the sockets that are closed, and the servers. -/
structure Round (a : Attempt α) (env : ServerEnv α) (addr : α × ℕ) (opened : ℕ) (shut : List ℕ)
    (new : List Served) : Prop where
  settled : ∀ s ∈ new, Settled s
  closable : Closable env new ↔
    (a.fate env addr = .served → (env.address addr.2).cancel = .queued) ∧ a.fate env addr ≠ .stray
  listed : AnyListed new ↔ a.fate env addr = .served
  /-- a socket that is opened is closed, or its server's -/
  fresh : a.socketFd = none →
    opened = a.opened ∧ shut ++ new.map (·.fd) = [] ∨
      opened = a.opened + 1 ∧ shut ++ new.map (·.fd) = [a.opened]
  /-- the duplicate is the server's -/
  given : ∀ fd ∈ a.socketFd, opened = a.opened ∧ shut = [] ∧
    new.map (·.fd) = if a.filtered env addr.1 ∨ a.fate env addr = .stopped then [] else [fd]

/-- A round without a server. -/
theorem round_nil {opened : ℕ} {shut : List ℕ}
    (hfate : a.fate env addr = .skipped ∨ a.fate env addr = .stopped)
    (hfresh : a.socketFd = none →
      opened = a.opened ∧ shut = [] ∨ opened = a.opened + 1 ∧ shut = [a.opened])
    (hgiven : ∀ fd ∈ a.socketFd, opened = a.opened ∧ shut = [] ∧
      (a.filtered env addr.1 ∨ a.fate env addr = .stopped)) :
    Round a env addr opened shut [] := by
  have hserved : a.fate env addr ≠ .served := by
    obtain h | h := hfate
    · rw [h]; nofun
    · rw [h]; nofun
  have hstray : a.fate env addr ≠ .stray := by
    obtain h | h := hfate
    · rw [h]; nofun
    · rw [h]; nofun
  refine ⟨List.forall_mem_nil _, by simp [hserved, hstray], by simp [hserved],
    by simpa using hfresh, fun fd hfd => ?_⟩
  obtain ⟨hopened, hshut, hnone⟩ := hgiven fd hfd
  exact ⟨hopened, hshut, (if_pos hnone).symm⟩

/-- A round with a server. -/
theorem round_singleton {opened : ℕ} (hnot : ¬a.filtered env addr.1)
    (hne : a.fate env addr ≠ .stopped) (haddress : s.address = addr.2) (hsettled : Settled s)
    (hlisted : s.listed = true ↔ a.fate env addr = .served)
    (hopen : s.open = true ↔ a.fate env addr = .served ∨ a.fate env addr = .stray)
    (hfresh : a.socketFd = none → opened = a.opened + 1 ∧ s.fd = a.opened)
    (hgiven : ∀ fd ∈ a.socketFd, opened = a.opened ∧ s.fd = fd) :
    Round a env addr opened [] [s] := by
  refine ⟨List.forall_mem_singleton.2 hsettled, ?_, anyListed_singleton.trans hlisted,
    fun hnone => .inr (by simpa using hfresh hnone), fun fd hfd => ?_⟩
  · rw [closable_singleton, hopen, hlisted, haddress]
    cases a.fate env addr with
    | skipped => simp
    | stopped => simp
    | served => simp
    | stray => simp
  · rw [if_neg (not_or.2 ⟨hnot, hne⟩)]
    simpa using hgiven fd hfd

/-- The round of a socket that a server is to get: a new one, or the duplicate. -/
theorem startServer_spec {opened fd : ℕ} (hnot : ¬a.filtered env addr.1)
    (hfate : a.fate env addr = (env.address addr.2).fate)
    (hfd : a.socketFd = none ∧ opened = a.opened + 1 ∧ fd = a.opened ∨
      a.socketFd = some fd ∧ opened = a.opened) :
    ∃ shut new zeroClosed, Round a env addr opened shut new ∧
      { a with opened := opened }.startServer addr.2 fd (env.address addr.2) =
        ({ a with
          opened := opened
          closed := a.closed ++ shut
          servers := a.servers ++ new
          zeroClosed := zeroClosed }, (a.fate env addr).goesOn) := by
  by_cases hstopped : (env.address addr.2).fate = .stopped
  · obtain ⟨zeroClosed, hstart⟩ :=
      startServer_of_stopped { a with opened := opened } addr.2 fd hstopped
    have hat : a.fate env addr = .stopped := hfate.trans hstopped
    rw [hstart, hat]
    obtain ⟨hnone, rfl, rfl⟩ | ⟨hsome, rfl⟩ := hfd
    · refine ⟨[a.opened], [], zeroClosed, round_nil (.inr hat) (fun _ => .inr ⟨rfl, rfl⟩)
        (by simp [hnone]), ?_⟩
      simp [hnone, Fate.goesOn, close]
    · refine ⟨[], [], zeroClosed, round_nil (.inr hat) (fun _ => .inl ⟨rfl, rfl⟩)
        (fun _ _ => ⟨rfl, rfl, .inr hat⟩), ?_⟩
      simp [hsome, Fate.goesOn]
  · obtain ⟨s, haddress, hs, hsettled, hlisted, hopen, hstart⟩ :=
      startServer_of_not_stopped { a with opened := opened } addr.2 fd hstopped
    rw [← hfate] at hstopped hlisted hopen hstart
    refine ⟨[], [s], a.zeroClosed,
      round_singleton hnot hstopped haddress hsettled hlisted hopen ?_ ?_, ?_⟩
    · intro hnone
      obtain ⟨-, hopened, rfl⟩ | ⟨hsome, -⟩ := hfd
      · exact ⟨hopened, hs⟩
      · cases hnone.symm.trans hsome
    · intro fd' hfd'
      obtain ⟨hnone, -⟩ | ⟨hsome, hopened⟩ := hfd
      · cases hnone.symm.trans hfd'
      · exact ⟨hopened, hs.trans (Option.some.inj (hsome.symm.trans hfd'))⟩
    · rw [hstart, List.append_nil]

/-- A round of the loop, and whether the loop goes on. -/
theorem serveAddress_spec (a : Attempt α) (env : ServerEnv α) (addr : α × ℕ) :
    ∃ opened shut new zeroClosed, Round a env addr opened shut new ∧
      a.serveAddress env addr =
        ({ a with
          opened := opened
          closed := a.closed ++ shut
          servers := a.servers ++ new
          zeroClosed := zeroClosed }, (a.fate env addr).goesOn) := by
  by_cases hfiltered : a.filtered env addr.1
  · have hfate : a.fate env addr = .skipped := if_pos hfiltered
    refine ⟨a.opened, [], [], a.zeroClosed, round_nil (.inl hfate) (fun _ => .inl ⟨rfl, rfl⟩)
      (fun _ _ => ⟨rfl, rfl, .inl hfiltered⟩), ?_⟩
    simp [serveAddress, hfiltered, hfate, Fate.goesOn]
  obtain hnone | ⟨fd, hgiven⟩ := Option.eq_none_or_eq_some a.socketFd
  · by_cases hsocket : (env.address addr.2).socket = false
    · have hfate : a.fate env addr = .skipped := by simp [fate, hnone, hsocket]
      refine ⟨a.opened, [], [], a.zeroClosed, round_nil (.inl hfate) (fun _ => .inl ⟨rfl, rfl⟩)
        (by simp [hnone]), ?_⟩
      have heq : a.serveAddress env addr = (a, true) := by simp [serveAddress, hnone, hsocket]
      rw [heq, hfate, List.append_nil, List.append_nil]
      rfl
    by_cases hlisten : ((env.address addr.2).bind && (env.address addr.2).listen) = false
    · have hfate : a.fate env addr = .skipped := by
        simp only [fate, hnone, Bool.and_assoc, hlisten, Bool.and_false, and_self, if_true, ite_self]
      refine ⟨a.opened + 1, [a.opened], [], a.zeroClosed, round_nil (.inl hfate)
        (fun _ => .inr ⟨rfl, rfl⟩) (by simp [hnone]), ?_⟩
      simp only [serveAddress, if_neg hfiltered, hnone, if_neg hsocket, if_pos hlisten, hfate,
        Fate.goesOn, close, List.append_nil, Nat.add_sub_cancel]
    · have hfate : a.fate env addr = (env.address addr.2).fate := by
        rw [Bool.not_eq_false] at hsocket hlisten
        simp only [fate, if_neg hfiltered, Bool.and_assoc, hsocket, hlisten, Bool.and_self,
          Bool.true_eq_false, and_false, if_false]
      have heq : a.serveAddress env addr =
          { a with opened := a.opened + 1 }.startServer addr.2 a.opened (env.address addr.2) := by
        simp only [serveAddress, if_neg hfiltered, hnone, if_neg hsocket, if_neg hlisten,
          Nat.add_sub_cancel]
      rw [heq]
      exact ⟨a.opened + 1, startServer_spec hfiltered hfate (.inl ⟨hnone, rfl, rfl⟩)⟩
  · have hfate : a.fate env addr = (env.address addr.2).fate := by simp [fate, hfiltered, hgiven]
    have heq : a.serveAddress env addr = a.startServer addr.2 fd (env.address addr.2) := by
      simp [serveAddress, hfiltered, hgiven]
    rw [heq]
    exact ⟨a.opened, startServer_spec hfiltered hfate (.inr ⟨hgiven, rfl⟩)⟩

/-! ### The loop -/

/-- The loop goes on after an address. -/
def goesOn (a : Attempt α) (env : ServerEnv α) (addr : α × ℕ) : Bool := (a.fate env addr).goesOn

/-- The addresses at which the loop goes on, from the first one. -/
def passed (a : Attempt α) (env : ServerEnv α) (addrs : List (α × ℕ)) : List (α × ℕ) :=
  addrs.takeWhile (a.goesOn env)

/-- The address at which the loop stops. -/
def stopsAt (a : Attempt α) (env : ServerEnv α) (addrs : List (α × ℕ)) : Option (α × ℕ) :=
  addrs.find? fun addr => !a.goesOn env addr

/-- The servers of these addresses can be closed. -/
def Cancels (a : Attempt α) (env : ServerEnv α) (addrs : List (α × ℕ)) : Prop :=
  ∀ addr ∈ addrs, a.fate env addr = .served → (env.address addr.2).cancel = .queued

/-- What the loop adds. -/
structure Rounds (a : Attempt α) (env : ServerEnv α) (addrs : List (α × ℕ)) (opened : ℕ)
    (shut : List ℕ) (new : List Served) : Prop where
  settled : ∀ s ∈ new, Settled s
  closable : Closable env new ↔
    a.Cancels env (a.passed env addrs) ∧ ∀ addr ∈ a.stopsAt env addrs, a.fate env addr ≠ .stray
  listed : AnyListed new ↔ ∃ addr ∈ a.passed env addrs, a.fate env addr = .served
  fresh : a.socketFd = none →
    ∃ n, opened = a.opened + n ∧ (shut ++ new.map (·.fd)).Perm (List.range' a.opened n)
  none : addrs = [] → opened = a.opened ∧ shut = [] ∧ new = []
  given : ∀ fd ∈ a.socketFd, ∀ addr, addrs = [addr] → ¬a.filtered env addr.1 →
    opened = a.opened ∧ shut = [] ∧
      new.map (·.fd) = if a.fate env addr = .stopped then [] else [fd]

variable {opened opened' : ℕ} {shut shut' : List ℕ} {new' : List Served}

theorem rounds_nil : Rounds a env [] a.opened [] [] where
  settled := List.forall_mem_nil _
  closable := by simp [passed, stopsAt, Cancels]
  listed := by simp [passed]
  fresh := fun _ => ⟨0, rfl, by simp⟩
  none := fun _ => ⟨rfl, rfl, rfl⟩
  given := nofun

/-- A round opens one socket at most. -/
theorem Round.range (h : Round a env addr opened shut new) (hnone : a.socketFd = none) :
    ∃ n, opened = a.opened + n ∧ shut ++ new.map (·.fd) = List.range' a.opened n := by
  obtain ⟨hopened, hempty⟩ | ⟨hopened, hone⟩ := h.fresh hnone
  · exact ⟨0, hopened, hempty⟩
  · exact ⟨1, hopened, hone⟩

/-- The loop stops. -/
theorem Round.stop (h : Round a env addr opened shut new) (hstop : a.goesOn env addr = false) :
    Rounds a env (addr :: addrs) opened shut new := by
  have hpassed : a.passed env (addr :: addrs) = [] := by simp [passed, hstop]
  have hat : a.stopsAt env (addr :: addrs) = some addr := by simp [stopsAt, hstop]
  have hserved : a.fate env addr ≠ .served := by
    intro hserved
    simp [goesOn, hserved, Fate.goesOn] at hstop
  refine ⟨h.settled, ?_, ?_, fun hnone => ?_, nofun, fun fd hfd addr' haddr hnot => ?_⟩
  · rw [h.closable, hpassed, hat]
    simp [hserved, Cancels]
  · rw [h.listed, hpassed]
    simp [hserved]
  · obtain ⟨n, hopened, heq⟩ := h.range hnone
    exact ⟨n, hopened, .of_eq heq⟩
  · obtain rfl : addr = addr' := (List.cons.inj haddr).1
    obtain ⟨hopened, hshut, hmap⟩ := h.given fd hfd
    exact ⟨hopened, hshut, by simpa [hnot] using hmap⟩

/-- The loop goes on from the state `b`. -/
theorem Round.cons {b : Attempt α} (h : Round a env addr opened shut new)
    (hon : a.goesOn env addr = true) (hfate : b.fate env = a.fate env)
    (hfd : b.socketFd = a.socketFd) (hopened : b.opened = opened)
    (hrest : Rounds b env addrs opened' shut' new') :
    Rounds a env (addr :: addrs) opened' (shut ++ shut') (new ++ new') := by
  have hgoes : b.goesOn env = a.goesOn env := by
    funext addr
    rw [goesOn, goesOn, hfate]
  have hpassed : a.passed env (addr :: addrs) = addr :: b.passed env addrs := by
    simp [passed, hon, hgoes]
  have hat : a.stopsAt env (addr :: addrs) = b.stopsAt env addrs := by simp [stopsAt, hon, hgoes]
  have hstray : a.fate env addr ≠ .stray := by
    intro hstray
    simp [goesOn, hstray, Fate.goesOn] at hon
  refine ⟨?_, ?_, ?_, fun hnone => ?_, nofun, fun fd hgiven addr' haddr hnot => ?_⟩
  · rw [List.forall_mem_append]
    exact ⟨h.settled, hrest.settled⟩
  · rw [closable_append, h.closable, hrest.closable, hpassed, hat, hfate]
    simp [hstray, Cancels, hfate, and_assoc]
  · rw [anyListed_append, h.listed, hrest.listed, hpassed, hfate]
    simp
  · obtain ⟨n, rfl, hround⟩ := h.range hnone
    obtain ⟨n', rfl, hrounds⟩ := hrest.fresh (hfd.trans hnone)
    refine ⟨n + n', by omega, ?_⟩
    rw [hopened] at hrounds
    rw [← List.range'_append_1, ← hround, List.map_append]
    calc (shut ++ shut') ++ (new.map (·.fd) ++ new'.map (·.fd))
        _ = shut ++ (shut' ++ new.map (·.fd)) ++ new'.map (·.fd) := by simp
        List.Perm _ (shut ++ (new.map (·.fd) ++ shut') ++ new'.map (·.fd)) :=
          (List.perm_append_comm.append_left _).append_right _
        _ = (shut ++ new.map (·.fd)) ++ (shut' ++ new'.map (·.fd)) := by simp
        List.Perm _ _ := hrounds.append_left _
  · obtain ⟨rfl, rfl⟩ := List.cons.inj haddr
    obtain ⟨rfl, rfl, rfl⟩ := hrest.none rfl
    obtain ⟨hsame, hshut, hmap⟩ := h.given fd hgiven
    rw [List.append_nil, List.append_nil, hopened]
    exact ⟨hsame, hshut, by simpa [hnot] using hmap⟩

/-- The loop. -/
theorem serveAddresses_spec (a : Attempt α) (env : ServerEnv α) (addrs : List (α × ℕ)) :
    ∃ opened shut new zeroClosed, Rounds a env addrs opened shut new ∧
      a.serveAddresses env addrs =
        ({ a with
          opened := opened
          closed := a.closed ++ shut
          servers := a.servers ++ new
          zeroClosed := zeroClosed }, (a.stopsAt env addrs).isNone) := by
  induction addrs generalizing a with
  | nil => exact ⟨a.opened, [], [], a.zeroClosed, rounds_nil, by simp [serveAddresses, stopsAt]⟩
  | cons addr addrs ih =>
    obtain ⟨opened, shut, new, zeroClosed, hround, heq⟩ := a.serveAddress_spec env addr
    unfold serveAddresses
    rw [heq]
    cases hon : a.goesOn env addr with
    | false =>
      refine ⟨opened, shut, new, zeroClosed, hround.stop hon, ?_⟩
      have hfalse : (a.fate env addr).goesOn = false := hon
      simp [hfalse, stopsAt, hon]
    | true =>
      have htrue : (a.fate env addr).goesOn = true := hon
      obtain ⟨opened', shut', new', zeroClosed', hrounds, hrest⟩ := ih { a with
        opened := opened
        closed := a.closed ++ shut
        servers := a.servers ++ new
        zeroClosed := zeroClosed }
      refine ⟨opened', shut ++ shut', new ++ new', zeroClosed',
        hround.cons hon (by rfl) (by rfl) (by rfl) hrounds, ?_⟩
      rw [htrue]
      dsimp only
      rw [hrest, List.append_assoc, List.append_assoc]
      congr 1
      simp only [stopsAt, List.find?_cons, hon]
      rfl

/-! ### The servers are closed -/

theorem closeServers_spec (h : ∀ s ∈ a.servers, Settled s) (env : ServerEnv α) :
    (a.closeServers env).releaseServers = a.closeServers env ∧
      (a.closeServers env).servers.map (·.fd) = a.servers.map (·.fd) ∧
      (∀ s ∈ (a.closeServers env).servers, s.server.serverFd = s.fd ∨ s.server.serverFd = -1) ∧
      ((∀ s ∈ (a.closeServers env).servers, s.open = false) ↔ Closable env a.servers) := by
  have hservers : (a.closeServers env).servers = a.servers.map (Served.closeListed env) := rfl
  refine ⟨?_, ?_, ?_, ?_⟩
  · unfold releaseServers
    rw [hservers, List.map_map]
    have hmap : a.servers.map ((fun s => if s.listed then s.release else s) ∘ Served.closeListed env) =
        a.servers.map (Served.closeListed env) := by
      refine List.map_congr_left fun s hs => ?_
      obtain ⟨-, hlisted, hrelease, -⟩ := Served.closeListed_spec env (h s hs)
      rw [Function.comp_apply, hlisted]
      split
      · rename_i hin
        exact hrelease hin
      · rfl
    rw [hmap]
    rfl
  · rw [hservers, List.map_map]
    exact List.map_congr_left fun s hs => (Served.closeListed_spec env (h s hs)).1
  · rw [hservers, List.forall_mem_map]
    intro s hs
    obtain ⟨hfd, -, -, howner, -⟩ := Served.closeListed_spec env (h s hs)
    rwa [hfd]
  · rw [hservers, List.forall_mem_map]
    exact forall₂_congr fun s hs => (Served.closeListed_spec env (h s hs)).2.2.2.2

/-- Without `servers_list` every server still has its wait. -/
theorem releaseServers_eq (h : ∀ s ∈ a.servers, Settled s) : a.releaseServers = a := by
  have hmap : a.servers.map (fun s => if s.listed then s.release else s) = a.servers.map id := by
    refine List.map_congr_left fun s hs => ?_
    obtain hserving | ⟨hunlisted, -⟩ := h s hs
    · have hkept : s.release = s := if_neg (by rw [hserving]; exact (serving_spec _).2)
      simp [hkept]
    · simp [hunlisted]
  unfold releaseServers
  rw [hmap, List.map_id]

/-! ### What has to hold -/

/-- What has to hold of an attempt. -/
structure AttemptOk (a : Attempt α) : Prop where
  /-- the future is resolved at most once -/
  resolved : a.resolved ≤ 1
  /-- what was allocated is freed once, when the attempt ends -/
  memory : if a.stage = .over ∨ a.stage = .raised then a.freed.Perm a.allocated else a.freed = []
  /-- every socket was closed once, or has one server, or waits in the record -/
  sockets : (a.closed ++ a.socketFd.toList ++ a.servers.map (·.fd)).Perm (List.range a.opened)
  /-- a server owns its socket until it closes it -/
  owners : ∀ s ∈ a.servers, s.server.serverFd = s.fd ∨ s.server.serverFd = -1
  /-- an attempt that failed leaves no listening socket -/
  nothingOpen : a.stage = .over → a.failed = true → ∀ s ∈ a.servers, s.open = false

/-- Nothing was freed, resolved or served. -/
structure Waiting (a : Attempt α) : Prop where
  freed : a.freed = []
  resolved : a.resolved = 0
  closed : a.closed = []
  servers : a.servers = []
  succeeding : a.failed = false

/-- Where the callback of an attempt is. -/
inductive Located (a : Attempt α) : Prop
  | host (hstage : a.stage = .tryResolveServerHost) (hcells : a.allocated = [.creationData])
      (haddrs : a.addressList = none) (hfd : a.socketFd = none) (hopened : a.opened = 0)
  | resolver (hstage : a.stage = .serverHostResolved)
      (hcells : a.allocated = [.creationData, .socketData])
      (haddrs : a.addressList = none) (hfd : a.socketFd = none) (hopened : a.opened = 0)
  | socket (addrs : List α) (hstage : a.stage = .createServerSocket)
      (hcells : a.allocated = [.creationData, .socketData, .addressList])
      (haddrs : a.addressList = some addrs)
      (hfd : a.socketFd = none ∧ a.opened = 0 ∨
        a.socketFd = some 0 ∧ a.opened = 1 ∧ a.options = false ∧ addrs.length = 1)

/-- The invariant of an attempt; of one that has ended it says nothing. -/
structure Inv (a : Attempt α) : Prop where
  live : a.stage ≠ .uncalled → a.stage ≠ .raised → a.stage ≠ .over → a.Waiting ∧ a.Located
  uncalled : a.stage = .uncalled → a = init

theorem inv_of_over (h : a.stage = .over ∨ a.stage = .raised) : a.Inv where
  live := fun _ hraised hover => (h.elim hover hraised).elim
  uncalled := fun hun => by
    obtain hover | hraised := h
    · exact nomatch hun.symm.trans hover
    · exact nomatch hun.symm.trans hraised

theorem Located.queued (h : a.Located) : a.stage ≠ .uncalled ∧ a.stage ≠ .raised ∧ a.stage ≠ .over := by
  cases h with
  | host hstage => rw [hstage]; exact ⟨nofun, nofun, nofun⟩
  | resolver hstage => rw [hstage]; exact ⟨nofun, nofun, nofun⟩
  | socket _ hstage => rw [hstage]; exact ⟨nofun, nofun, nofun⟩

theorem Located.sockets (h : a.Located) : a.socketFd.toList = List.range a.opened := by
  cases h with
  | host _ _ _ hfd hopened => simp [hfd, hopened]
  | resolver _ _ _ hfd hopened => simp [hfd, hopened]
  | socket _ _ _ _ hfd =>
    obtain ⟨hnone, hopened⟩ | ⟨hsome, hopened, -⟩ := hfd
    · simp [hnone, hopened]
    · simp [hsome, hopened]

/-- An attempt that is all right and keeps its invariant. -/
def Good (a : Attempt α) : Prop := a.Inv ∧ a.AttemptOk

/-- A step that meets its condition. -/
theorem Good.iff_of {P : Prop} (h : a.Good) (hP : P) : a.Inv ∧ (a.AttemptOk ↔ P) :=
  ⟨h.1, iff_of_true h.2 hP⟩

/-- An attempt whose callback is queued is all right. -/
theorem Waiting.good (h : a.Waiting) (hlocated : a.Located) : a.Good := by
  obtain ⟨hun, hraised, hover⟩ := hlocated.queued
  refine ⟨⟨fun _ _ _ => ⟨h, hlocated⟩, fun hstage => absurd hstage hun⟩, ?_, ?_, ?_, ?_,
    fun hstage => absurd hstage hover⟩
  · have hresolved := h.resolved
    omega
  · rw [if_neg (not_or.2 ⟨hover, hraised⟩)]
    exact h.freed
  · simp [h.closed, h.servers, hlocated.sockets]
  · simp [h.servers]

/-! ### The end of an attempt -/

/-- This code has not resolved a future that is pending. -/
def Resolvable (a : Attempt α) : Prop := a.resolved ≤ 1 ∧ (a.future = .pending → a.resolved = 0)

/-- Resolving the future changes nothing else. -/
theorem resolve_eq (h : a.Resolvable) : ∃ future resolved,
    resolved ≤ 1 ∧ future ≠ .pending ∧ a.resolve = { a with future := future, resolved := resolved } := by
  unfold resolve
  split
  · rename_i hpending
    exact ⟨.finished, a.resolved + 1, by simp [h.2 hpending], nofun, rfl⟩
  · rename_i hdone
    exact ⟨a.future, a.resolved, h.1, hdone, rfl⟩

theorem Waiting.resolvable (h : a.Waiting) : a.Resolvable := by
  refine ⟨?_, fun _ => h.resolved⟩
  have hresolved := h.resolved
  omega

theorem cancelFuture_if (h : a.Resolvable) (cancels : Bool) :
    ∃ future : Connect.FutureStatus, (future = .pending → a.resolved = 0) ∧
      (future = .pending ↔ a.future = .pending ∧ cancels = false) ∧
      (if cancels then a.cancelFuture else a) = { a with future := future } := by
  cases cancels with
  | false => exact ⟨a.future, h.2, by simp, rfl⟩
  | true =>
    rw [if_pos rfl]
    by_cases hpending : a.future = .pending
    · exact ⟨.canceled, nofun, by simp, if_pos hpending⟩
    · exact ⟨a.future, h.2, by simp [hpending], if_neg hpending⟩

/-- The end of an attempt without sockets: the memory is to be freed. -/
theorem fail_ok_iff (h : a.Resolvable) (hservers : a.servers = [])
    (hsockets : (a.closed ++ a.socketFd.toList).Perm (List.range a.opened)) :
    a.resolve.fail.AttemptOk ↔ a.freed.Perm a.allocated := by
  obtain ⟨future, resolved, hresolved, -, heq⟩ := resolve_eq h
  rw [heq]
  constructor
  · intro hok
    exact hok.memory
  · intro hfreed
    refine ⟨hresolved, ?_, ?_, ?_, ?_⟩
    · exact hfreed
    · simpa [fail, hservers] using hsockets
    · simp [fail, hservers]
    · simp [fail, hservers]

/-- The end of `create_server_socket`: the sockets are to be closed or owned, and nothing is to stay open
after a failure. -/
theorem end_ok_iff (hfreed : a.freed = [])
    (hcells : a.allocated = [.creationData, .socketData, .addressList])
    (haddrs : a.addressList.isSome) (hresolved : a.resolved ≤ 1)
    (howners : ∀ s ∈ a.servers, s.server.serverFd = s.fd ∨ s.server.serverFd = -1) (failed : Bool) :
    AttemptOk { a.socketDeinit with stage := .over, failed := failed } ↔
      (a.closed ++ a.servers.map (·.fd)).Perm (List.range a.opened) ∧
        (failed = true → ∀ s ∈ a.servers, s.open = false) := by
  have hdeinit : a.socketDeinit =
      { a with
        freed := [.addressList, .creationData, .socketData], addressList := none, socketFd := none } := by
    simp [socketDeinit, haddrs, creationDeinit, free, hfreed]
  rw [hdeinit]
  constructor
  · intro hok
    have hsockets := hok.sockets
    exact ⟨by simpa using hsockets, hok.nothingOpen rfl⟩
  · rintro ⟨hsockets, hopen⟩
    refine ⟨hresolved, ?_, by simpa using hsockets, howners, fun _ => hopen⟩
    show [Cell.addressList, .creationData, .socketData].Perm a.allocated
    rw [hcells]
    decide

/-! ### The call and the names -/

theorem raise_good (hwaiting : a.resolved = 0) (hservers : a.servers = [])
    (hsockets : (a.closed ++ a.socketFd.toList).Perm (List.range a.opened))
    (hmemory : (a.freed ++ [Cell.creationData]).Perm a.allocated) : a.raise.Good := by
  refine ⟨inv_of_over (.inr rfl), ?_, hmemory, ?_, ?_, nofun⟩
  · show a.resolved ≤ 1
    omega
  · simpa [raise, creationDeinit, free, hservers] using hsockets
  · simp [raise, creationDeinit, free, hservers]

theorem cells_perm_two : [Cell.socketData, .creationData].Perm [.creationData, .socketData] := by
  decide

theorem cells_perm_three : [Cell.addressList, .socketData, .creationData].Perm
    [.creationData, .socketData, .addressList] := by
  decide

/-- A call that raises leaves nothing, and one that returns has queued a callback. -/
theorem create_good (outcome : Create α) : (init.create outcome).Good := by
  cases outcome with
  | refused => exact ⟨inv_of_over (.inr rfl), Nat.zero_le 1, .nil, .nil, List.forall_mem_nil _, nofun⟩
  | host dispatched =>
    cases dispatched with
    | true =>
      exact Waiting.good (a := init.create (.host true)) ⟨rfl, rfl, rfl, rfl, rfl⟩
        (.host rfl rfl rfl rfl rfl)
    | false => exact raise_good rfl rfl .nil (.refl _)
  | sock outcome =>
    cases outcome with
    | refused => exact raise_good rfl rfl .nil (.refl _)
    | notCopied => exact raise_good rfl rfl .nil cells_perm_two
    | notDuplicated => exact raise_good rfl rfl .nil cells_perm_three
    | duplicated addr dispatched =>
      cases dispatched with
      | true =>
        exact Waiting.good (a := init.create (.sock (.duplicated addr true))) ⟨rfl, rfl, rfl, rfl, rfl⟩
          (.socket [addr] rfl rfl rfl (.inr ⟨rfl, rfl, rfl, rfl⟩))
      | false => exact raise_good rfl rfl (.refl _) cells_perm_three

/-- A name for which something is lost: the list of the empty host, which nobody frees when a later step
fails, or a lookup that returns null without keeping the callback. -/
def Loses (host : Host α) (dispatched : Bool) : Prop :=
  match host with
  | .empty .notOwned | .named .lost => True
  | .empty (.owned _) => dispatched = false
  | _ => False

/-- `try_resolve_server_host` ends with an error. -/
theorem failCreation_ok_iff (h : a.Resolvable) (hservers : a.servers = []) (hclosed : a.closed = [])
    (hfd : a.socketFd = none) (hopened : a.opened = 0) :
    a.failCreation.AttemptOk ↔ (a.freed ++ [Cell.creationData]).Perm a.allocated :=
  fail_ok_iff (a := a.creationDeinit) h hservers (by simp [creationDeinit, free, hclosed, hfd, hopened])

section

variable (h : a.Waiting) (hcells : a.allocated = [.creationData]) (hfd : a.socketFd = none)
  (hopened : a.opened = 0)

include h hcells hfd hopened

/-- Nothing but the creation data was allocated. -/
theorem Waiting.failCreation_good : a.failCreation.Good := by
  refine ⟨inv_of_over (.inl rfl), (failCreation_ok_iff h.resolvable h.servers h.closed hfd hopened).2 ?_⟩
  rw [h.freed, hcells]
  exact .refl _

/-- The socket data is freed again. -/
theorem Waiting.failRecord_good : ((a.alloc .socketData).free .socketData).failCreation.Good := by
  refine ⟨inv_of_over (.inl rfl), (failCreation_ok_iff (a := (a.alloc .socketData).free .socketData)
    h.resolvable h.servers h.closed hfd hopened).2 ?_⟩
  simp only [alloc, free, h.freed, hcells]
  exact cells_perm_two

/-- The addresses are there, and `create_server_socket` is queued. -/
theorem Waiting.queueSocket_good (addrs : List α) :
    Good { (a.alloc .socketData).setAddresses addrs with stage := .createServerSocket } := by
  refine Waiting.good ⟨h.freed, h.resolved, h.closed, h.servers, h.succeeding⟩
    (.socket addrs rfl ?_ rfl (.inl ⟨hfd, hopened⟩))
  show a.allocated ++ [Cell.socketData] ++ [Cell.addressList] = _
  rw [hcells]
  rfl

theorem Waiting.emptyHost (list : AnyAddresses α) (dispatched : Bool) :
    (a.tryResolveServerHost false (.empty list) dispatched).Inv ∧
      ((a.tryResolveServerHost false (.empty list) dispatched).AttemptOk ↔
        ¬Loses (.empty list) dispatched) := by
  -- the list is not freed
  have hleaks : ∀ addrs, ¬AttemptOk (({ (a.alloc .socketData).alloc .addressList with
      addressList := addrs } : Attempt α).free .socketData).failCreation := by
    intro addrs hok
    have hperm := (failCreation_ok_iff (a := ({ (a.alloc .socketData).alloc .addressList with
      addressList := addrs } : Attempt α).free .socketData)
      h.resolvable h.servers h.closed hfd hopened).1 hok
    have hlength := hperm.length_eq
    simp [alloc, free, h.freed, hcells] at hlength
  unfold Attempt.tryResolveServerHost
  cases list with
  | noEntry => exact Good.iff_of (h.failRecord_good hcells hfd hopened) id
  | notOwned => exact ⟨inv_of_over (.inl rfl), iff_of_false (hleaks _) fun hnot => hnot trivial⟩
  | owned addrs =>
    cases dispatched with
    | true => exact Good.iff_of (h.queueSocket_good hcells hfd hopened addrs) nofun
    | false => exact ⟨inv_of_over (.inl rfl), iff_of_false (hleaks _) fun hnot => hnot rfl⟩

theorem Waiting.namedHost (haddrs : a.addressList = none) (lookup : HostLookup α) (dispatched : Bool) :
    (a.tryResolveServerHost false (.named lookup) dispatched).Inv ∧
      ((a.tryResolveServerHost false (.named lookup) dispatched).AttemptOk ↔
        ¬Loses (.named lookup) dispatched) := by
  unfold Attempt.tryResolveServerHost
  cases lookup with
  | failed => exact Good.iff_of (h.failRecord_good hcells hfd hopened) id
  | queued =>
    refine Good.iff_of (Waiting.good ⟨h.freed, h.resolved, h.closed, h.servers, h.succeeding⟩
      (.resolver rfl ?_ haddrs hfd hopened)) id
    show a.allocated ++ [Cell.socketData] = _
    rw [hcells]
    rfl
  | lost =>
    refine ⟨inv_of_over (.inl rfl), iff_of_false (fun hok => ?_) fun hnot => hnot trivial⟩
    have hmemory : a.freed.Perm (a.allocated ++ [Cell.socketData]) := hok.memory
    rw [h.freed] at hmemory
    exact nomatch hmemory.length_eq.trans (List.length_append ..)
  | answered addrs copied =>
    cases copied with
    | false => exact Good.iff_of (h.failRecord_good hcells hfd hopened) id
    | true =>
      cases dispatched with
      | true => exact Good.iff_of (h.queueSocket_good hcells hfd hopened addrs) id
      | false =>
        refine Good.iff_of ⟨inv_of_over (.inl rfl), (failCreation_ok_iff
          (a := (((a.alloc .socketData).setAddresses addrs).free .addressList).free .socketData)
          h.resolvable h.servers h.closed hfd hopened).2 ?_⟩ id
        simp only [setAddresses, alloc, free, h.freed, hcells]
        exact cells_perm_three

end

theorem Waiting.tryResolveServerHost (h : a.Waiting) (hlocated : a.Located)
    (hstage : a.stage = .tryResolveServerHost) (cancelled : Bool) (host : Host α) (dispatched : Bool) :
    (a.tryResolveServerHost cancelled host dispatched).Inv ∧
      ((a.tryResolveServerHost cancelled host dispatched).AttemptOk ↔
        (cancelled = false → ¬Loses host dispatched)) := by
  cases hlocated with
  | resolver hother => exact nomatch hstage.symm.trans hother
  | socket _ hother => exact nomatch hstage.symm.trans hother
  | host _ hcells haddrs hfd hopened =>
    cases cancelled with
    | true =>
      unfold Attempt.tryResolveServerHost
      exact Good.iff_of (h.failCreation_good hcells hfd hopened) nofun
    | false =>
      simp only [true_imp_iff]
      cases host with
      | refused =>
        unfold Attempt.tryResolveServerHost
        exact Good.iff_of (h.failCreation_good hcells hfd hopened) id
      | empty list => exact h.emptyHost hcells hfd hopened list dispatched
      | named lookup => exact h.namedHost hcells hfd hopened haddrs lookup dispatched

/-- `server_host_resolved_callback` ends with an error. -/
theorem failSocket_ok_iff (h : a.Resolvable) (hservers : a.servers = []) (hclosed : a.closed = [])
    (hopened : a.opened = 0) :
    a.failSocket.AttemptOk ↔ a.socketDeinit.freed.Perm a.allocated := by
  have hsame : ∃ freed, a.socketDeinit =
      { a with freed := freed, addressList := none, socketFd := none } := by
    unfold socketDeinit
    split
    · exact ⟨_, rfl⟩
    · exact ⟨_, rfl⟩
  obtain ⟨freed, heq⟩ := hsame
  unfold failSocket
  rw [heq]
  exact fail_ok_iff (a := { a with freed := freed, addressList := none, socketFd := none }) h hservers
    (by simp [hclosed, hopened])

theorem Waiting.serverHostResolvedCallback (h : a.Waiting) (hlocated : a.Located)
    (hstage : a.stage = .serverHostResolved) (cancelled : Bool) (lookup : Option (List α × Bool))
    (dispatched : Bool) :
    (a.serverHostResolvedCallback cancelled lookup dispatched).Inv ∧
      ((a.serverHostResolvedCallback cancelled lookup dispatched).AttemptOk ↔
        (cancelled = false →
          ∀ addrs, lookup = some (addrs, true) → addrs ≠ [] → dispatched = true)) := by
  cases hlocated with
  | host hother => exact nomatch hstage.symm.trans hother
  | socket _ hother => exact nomatch hstage.symm.trans hother
  | resolver _ hcells haddrs hfd hopened =>
    have hfail : a.failSocket.Good := by
      refine ⟨inv_of_over (.inl rfl), (failSocket_ok_iff h.resolvable h.servers h.closed hopened).2 ?_⟩
      rw [hcells]
      simp [socketDeinit, haddrs, creationDeinit, free, h.freed]
    unfold Attempt.serverHostResolvedCallback
    cases cancelled with
    | true => exact Good.iff_of hfail nofun
    | false =>
      rw [if_neg Bool.false_ne_true]
      simp only [true_imp_iff]
      split
      · exact Good.iff_of hfail nofun
      · exact Good.iff_of hfail (by simp)
      · exact Good.iff_of hfail (by simp)
      · rename_i addr addrs
        cases dispatched with
        | true =>
          refine Good.iff_of (Waiting.good ⟨h.freed, h.resolved, h.closed, h.servers, h.succeeding⟩
            (.socket (addr :: addrs) rfl ?_ rfl (.inl ⟨hfd, hopened⟩))) fun _ _ _ => rfl
          show a.allocated ++ [Cell.addressList] = _
          rw [hcells]
          rfl
        | false =>
          refine ⟨inv_of_over (.inl rfl), iff_of_false (fun hok => ?_) fun hnot =>
            (nomatch hnot (addr :: addrs) rfl (List.cons_ne_nil _ _))⟩
          -- the list is freed twice
          have hperm := (failSocket_ok_iff (a := (a.setAddresses (addr :: addrs)).free .addressList)
            h.resolvable h.servers h.closed hopened).1 hok
          have hlength := hperm.length_eq
          simp [setAddresses, alloc, socketDeinit, creationDeinit, free, h.freed, hcells] at hlength

/-! ### The sockets -/

/-- How the sockets of an attempt are laid out before the loop. -/
def SocketsAt (a : Attempt α) (addresses : ℕ) : Prop :=
  a.socketFd = none ∧ a.opened = 0 ∨
    a.socketFd = some 0 ∧ a.opened = 1 ∧ a.options = false ∧ addresses = 1

/-- After the loop every socket is accounted for, unless the duplicate has got no server. -/
theorem Rounds.sockets_iff (h : Rounds a env addrs opened shut new) (hat : a.SocketsAt addrs.length) :
    (shut ++ new.map (·.fd)).Perm (List.range opened) ↔
      (a.socketFd.isSome → ∀ addr ∈ addrs, a.fate env addr ≠ .stopped) := by
  obtain ⟨hnone, hopened⟩ | ⟨hsome, hopened, hoptions, hone⟩ := hat
  · obtain ⟨n, rfl, hperm⟩ := h.fresh hnone
    refine iff_of_true ?_ (by simp [hnone])
    rw [hopened] at hperm ⊢
    rwa [Nat.zero_add, List.range_eq_range']
  · obtain ⟨addr, rfl⟩ := List.length_eq_one_iff.1 hone
    have hnot : ¬a.filtered env addr.1 := fun hfiltered => absurd (hfiltered.1.symm.trans hoptions) nofun
    obtain ⟨rfl, rfl, hmap⟩ := h.given 0 hsome addr rfl hnot
    rw [hmap, hopened]
    by_cases hstopped : a.fate env addr = .stopped
    · simp [hsome, hstopped]
    · simp [hsome, hstopped]

/-- The loop leaves nothing behind that it must not. -/
structure Tidy (a : Attempt α) (env : ServerEnv α) (addrs : List (α × ℕ)) : Prop where
  /-- no server that serves fails to get into the list -/
  stray : ∀ addr ∈ a.stopsAt env addrs, a.fate env addr ≠ .stray
  /-- where the loop stops, the servers in the list can be closed -/
  stopped : a.stopsAt env addrs ≠ none → a.Cancels env (a.passed env addrs)
  /-- where it ends with servers, the future waits for them, and is told or the servers can be closed -/
  ended : a.stopsAt env addrs = none → (∃ addr ∈ addrs, a.fate env addr = .served) →
    a.future = .pending ∧ env.cancels = false ∧ (env.result = true ∨ a.Cancels env addrs)
  /-- the duplicate gets a server -/
  given : a.socketFd.isSome → ∀ addr ∈ addrs, a.fate env addr ≠ .stopped

/-- What `create_server_socket` has to meet. -/
def Serves (a : Attempt α) (cancelled : Bool) (env : ServerEnv α) : Prop :=
  (a.socketFd.isSome → cancelled = false ∧ env.list = true) ∧
    (cancelled = false → (a.options && !env.options) = false → env.list = true →
      ∀ addrs ∈ a.addressList, a.Tidy env addrs.zipIdx)

theorem socketDeinit_failed (a : Attempt α) : a.socketDeinit.failed = a.failed := by
  unfold socketDeinit
  split <;> rfl

/-- The record of an attempt that is in `create_server_socket`. -/
structure InSocket (a : Attempt α) : Prop where
  freed : a.freed = []
  cells : a.allocated = [.creationData, .socketData, .addressList]
  addresses : a.addressList.isSome
  resolvable : a.Resolvable

/-- The attempt ends, with the future resolved or cancelled. -/
theorem InSocket.end_ok_iff (h : a.InSocket)
    (howners : ∀ s ∈ a.servers, s.server.serverFd = s.fd ∨ s.server.serverFd = -1) :
    AttemptOk { a.socketDeinit with stage := .over } ↔
      (a.closed ++ a.servers.map (·.fd)).Perm (List.range a.opened) ∧
        (a.failed = true → ∀ s ∈ a.servers, s.open = false) := by
  have hiff := Attempt.end_ok_iff h.freed h.cells h.addresses h.resolvable.1 howners a.failed
  rw [← socketDeinit_failed] at hiff ⊢
  exact hiff

/-- The attempt fails. -/
theorem InSocket.fail_ok_iff (h : a.InSocket)
    (howners : ∀ s ∈ a.servers, s.server.serverFd = s.fd ∨ s.server.serverFd = -1) :
    a.resolve.socketDeinit.fail.AttemptOk ↔
      (a.closed ++ a.servers.map (·.fd)).Perm (List.range a.opened) ∧
        ∀ s ∈ a.servers, s.open = false := by
  obtain ⟨future, resolved, hresolved, -, heq⟩ := resolve_eq h.resolvable
  rw [heq]
  have hiff := Attempt.end_ok_iff (a := { a with future := future, resolved := resolved }) h.freed
    h.cells h.addresses hresolved howners true
  exact hiff.trans (and_congr_right fun _ => ⟨fun hall => hall rfl, fun hall _ => hall⟩)

theorem settled_owners (h : ∀ s ∈ servers, Settled s) :
    ∀ s ∈ servers, s.server.serverFd = s.fd ∨ s.server.serverFd = -1 := by
  intro s hs
  obtain hserving | ⟨-, hclosed⟩ := h s hs
  · rw [hserving]
    exact .inl (serving_spec _).1
  · exact .inr hclosed

/-- The servers in the list are closed, and the attempt fails. -/
theorem InSocket.closeServers_ok_iff (h : a.InSocket) (hsettled : ∀ s ∈ a.servers, Settled s) :
    (a.closeServers env).resolve.socketDeinit.fail.AttemptOk ↔
      (a.closed ++ a.servers.map (·.fd)).Perm (List.range a.opened) ∧ Closable env a.servers := by
  obtain ⟨-, hmap, howners, hclosed⟩ := closeServers_spec hsettled env
  have hin : (a.closeServers env).InSocket := ⟨h.freed, h.cells, h.addresses, h.resolvable⟩
  rw [hin.fail_ok_iff howners, hmap, hclosed]
  rfl

/-- After the loop: the sockets have to be accounted for, the servers that are to be closed can be, and the
future waits for those that are not. -/
theorem InSocket.finishServers_ok_iff (h : a.InSocket) (env : ServerEnv α)
    (hsettled : ∀ s ∈ a.servers, Settled s) (hfailed : a.failed = false) (ended : Bool) :
    (endCallback (a.finishServers env ended)).AttemptOk ↔
      (a.closed ++ a.servers.map (·.fd)).Perm (List.range a.opened) ∧
        if ended = true ∧ AnyListed a.servers then
          a.future = .pending ∧ (env.result = true ∨ Closable env a.servers)
        else Closable env a.servers := by
  have hany : a.servers.any (·.listed) = false ↔ ¬AnyListed a.servers := by
    rw [Bool.eq_false_iff, ne_eq, List.any_eq_true]
    rfl
  unfold finishServers
  cases ended with
  | false =>
    rw [if_pos rfl, if_neg (by simp), (closeServers_spec hsettled env).1]
    exact h.closeServers_ok_iff hsettled
  | true =>
    rw [if_neg (by simp)]
    simp only [true_and]
    by_cases hlisted : AnyListed a.servers
    · rw [if_neg (fun hnone => hany.1 hnone hlisted), if_pos (c := AnyListed _) hlisted]
      by_cases hpending : a.future = .pending
      · rw [if_pos hpending]
        obtain ⟨future, resolved, hresolved, hdone, heq⟩ := resolve_eq h.resolvable
        rw [heq]
        have hin : InSocket { a with future := future, resolved := resolved } :=
          ⟨h.freed, h.cells, h.addresses, hresolved, fun hwaits => absurd hwaits hdone⟩
        cases hresult : env.result with
        | true =>
          refine (hin.end_ok_iff (settled_owners hsettled)).trans ?_
          simp [hfailed, hpending]
        | false =>
          refine (hin.closeServers_ok_iff hsettled).trans ?_
          simp [hpending]
      · rw [if_neg hpending, releaseServers_eq hsettled]
        have hin : InSocket { a with failed := true } := ⟨h.freed, h.cells, h.addresses, h.resolvable⟩
        refine (hin.end_ok_iff (settled_owners hsettled)).trans ?_
        simp [hpending, hlisted.open hsettled]
    · rw [if_pos (hany.2 hlisted), if_neg (c := AnyListed _) hlisted]
      refine (h.fail_ok_iff (settled_owners hsettled)).trans ?_
      rw [closable_of_not_anyListed hlisted]

theorem passed_eq_self (hstop : a.stopsAt env addrs = none) : a.passed env addrs = addrs := by
  unfold stopsAt at hstop
  unfold passed
  rw [List.takeWhile_eq_self_iff]
  simpa using hstop

/-- What the loop has added decides whether it leaves nothing behind. -/
theorem Rounds.tidy_iff (h : Rounds a env addrs opened shut new) :
    a.Tidy env addrs ↔ (a.socketFd.isSome → ∀ addr ∈ addrs, a.fate env addr ≠ .stopped) ∧
      if (a.stopsAt env addrs).isNone = true ∧ AnyListed new then
        (a.future = .pending ∧ env.cancels = false) ∧ (env.result = true ∨ Closable env new)
      else Closable env new := by
  have hclosable := h.closable
  have hlisted := h.listed
  cases hstop : a.stopsAt env addrs with
  | none =>
    rw [passed_eq_self hstop] at hclosable hlisted
    rw [hstop] at hclosable
    simp only [Option.not_mem_none, false_imp_iff, implies_true, and_true] at hclosable
    by_cases hany : AnyListed new
    · rw [if_pos ⟨rfl, hany⟩, hclosable]
      constructor
      · intro htidy
        obtain ⟨hpending, hcancels, hresult⟩ := htidy.ended hstop (hlisted.1 hany)
        exact ⟨htidy.given, ⟨hpending, hcancels⟩, hresult⟩
      · rintro ⟨hgiven, ⟨hpending, hcancels⟩, hresult⟩
        exact ⟨by simp [hstop], fun hne => absurd hstop hne,
          fun _ _ => ⟨hpending, hcancels, hresult⟩, hgiven⟩
    · rw [if_neg fun hboth => hany hboth.2, hclosable]
      constructor
      · intro htidy
        exact ⟨htidy.given, fun addr haddr hserved => absurd (hlisted.2 ⟨addr, haddr, hserved⟩) hany⟩
      · rintro ⟨hgiven, -⟩
        exact ⟨by simp [hstop], fun hne => absurd hstop hne,
          fun _ hserved => absurd (hlisted.2 hserved) hany, hgiven⟩
  | some addr =>
    rw [if_neg (by simp), hclosable]
    constructor
    · intro htidy
      exact ⟨htidy.given, htidy.stopped (by simp [hstop]), htidy.stray⟩
    · rintro ⟨hgiven, hcancels, hstray⟩
      exact ⟨hstray, fun _ => hcancels, fun hnone => (nomatch hstop.symm.trans hnone), hgiven⟩

/-- An attempt that fails before the loop: the duplicate has no owner. -/
theorem InSocket.noServers_ok_iff (h : a.InSocket) {addresses : ℕ} (hat : a.SocketsAt addresses)
    (hservers : a.servers = []) (hclosed : a.closed = []) :
    a.resolve.socketDeinit.fail.AttemptOk ↔ ¬a.socketFd.isSome := by
  rw [h.fail_ok_iff (by rw [hservers]; exact List.forall_mem_nil _), hservers, hclosed]
  obtain ⟨hnone, hzero⟩ | ⟨hsome, hone, -⟩ := hat
  · simp [hnone, hzero]
  · simp [hsome, hone]

theorem zCreateServerSocket_eq {addrs : List α} {future : Connect.FutureStatus}
    (haddrs : a.addressList = some addrs)
    (hcancel : (if env.cancels then a.cancelFuture else a) = { a with future := future }) :
    a.zCreateServerSocket env =
      if (a.options && !env.options) || !env.list then ({ a with future := future }, false)
      else
        (serveAddresses { a with future := future } env addrs.zipIdx).1.finishServers env
          (serveAddresses { a with future := future } env addrs.zipIdx).2 := by
  unfold zCreateServerSocket
  rw [hcancel]
  simp only [haddrs]

/-- The loop over the addresses, and what follows it. -/
theorem Waiting.serveAddresses_ok_iff (h : a.Waiting) {addrs : List (α × ℕ)}
    {future : Connect.FutureStatus} (hat : a.SocketsAt addrs.length) (hin : InSocket { a with future := future })
    (hpending : future = .pending ↔ a.future = .pending ∧ env.cancels = false) :
    (endCallback ((serveAddresses { a with future := future } env addrs).1.finishServers env
      (serveAddresses { a with future := future } env addrs).2)).AttemptOk ↔ a.Tidy env addrs := by
  obtain ⟨opened, shut, new, zeroClosed, hrounds, hloop⟩ :=
    serveAddresses_spec { a with future := future } env addrs
  have hrounds' : Rounds a env addrs opened shut new :=
    ⟨hrounds.settled, hrounds.closable, hrounds.listed, hrounds.fresh, hrounds.none, hrounds.given⟩
  rw [hloop]
  have hfinish := InSocket.finishServers_ok_iff (a := { a with
    future := future
    opened := opened
    closed := a.closed ++ shut
    servers := a.servers ++ new
    zeroClosed := zeroClosed }) ⟨hin.freed, hin.cells, hin.addresses, hin.resolvable⟩
    env (by simpa [h.servers] using hrounds.settled) h.succeeding (a.stopsAt env addrs).isNone
  refine hfinish.trans ?_
  simp only [h.closed, h.servers, List.nil_append, hrounds'.sockets_iff hat, hpending]
  exact hrounds'.tidy_iff.symm

/-- **When `create_server_socket` leaves everything in order.** -/
theorem Waiting.createServerSocket_ok_iff (h : a.Waiting) (hlocated : a.Located)
    (hstage : a.stage = .createServerSocket) (cancelled : Bool) (env : ServerEnv α) :
    (a.createServerSocket cancelled env).AttemptOk ↔ a.Serves cancelled env := by
  cases hlocated with
  | host hother => exact nomatch hstage.symm.trans hother
  | resolver hother => exact nomatch hstage.symm.trans hother
  | socket addrs _ hcells haddrs hat =>
    have hin : ∀ future : Connect.FutureStatus, (future = .pending → a.resolved = 0) →
        InSocket { a with future := future } := fun future hresolved =>
      ⟨h.freed, hcells, by rw [haddrs]; rfl, h.resolvable.1, hresolved⟩
    have hnoServers : ∀ future : Connect.FutureStatus, (future = .pending → a.resolved = 0) →
        (({ a with future := future } : Attempt α).resolve.socketDeinit.fail.AttemptOk ↔
          ¬a.socketFd.isSome) :=
      fun future hresolved => (hin future hresolved).noServers_ok_iff hat h.servers h.closed
    unfold createServerSocket
    cases cancelled with
    | true =>
      rw [if_pos rfl, hnoServers a.future fun _ => h.resolved]
      exact ⟨fun hnone => ⟨fun hsome => absurd hsome hnone, nofun⟩,
        fun hserves hsome => nomatch (hserves.1 hsome).1⟩
    | false =>
      obtain ⟨future, hresolved, hpending, hcancel⟩ := cancelFuture_if h.resolvable env.cancels
      rw [if_neg Bool.false_ne_true, zCreateServerSocket_eq haddrs hcancel]
      have hserves : a.Serves false env ↔ (a.socketFd.isSome → env.list = true) ∧
          ((a.options && !env.options) = false → env.list = true → a.Tidy env addrs.zipIdx) := by
        simp [Serves, haddrs]
      rw [hserves]
      by_cases hfails : ((a.options && !env.options) || !env.list) = true
      · rw [if_pos hfails]
        refine (hnoServers future hresolved).trans ?_
        obtain hoptions | hlist := Bool.or_eq_true_iff.1 hfails
        · -- a call with a `sock` has no options
          have hnone : a.socketFd = none := by
            obtain ⟨hnone, -⟩ | ⟨-, -, hfalse, -⟩ := hat
            · exact hnone
            · simp [hfalse] at hoptions
          simp [hnone, hoptions]
        · rw [Bool.not_eq_true'] at hlist
          simp [hlist]
      · rw [if_neg hfails]
        have hgoes : (a.options && !env.options) = false ∧ env.list = true := by simpa using hfails
        refine (h.serveAddresses_ok_iff (by rwa [List.length_zipIdx]) (hin future hresolved)
          hpending).trans ?_
        simp only [hgoes, true_imp_iff, imp_true_iff, true_and]

/-! ### Runs -/

theorem Inv.cancelFuture (h : a.Inv) (hcalled : a.stage ≠ .uncalled) : a.cancelFuture.Inv := by
  unfold Attempt.cancelFuture
  split
  · refine ⟨fun hun hraised hover => ?_, fun hun => absurd hun hcalled⟩
    obtain ⟨hwaiting, hlocated⟩ := h.live hun hraised hover
    refine ⟨⟨hwaiting.freed, hwaiting.resolved, hwaiting.closed, hwaiting.servers,
      hwaiting.succeeding⟩, ?_⟩
    cases hlocated with
    | host hstage hcells haddrs hfd hopened => exact .host hstage hcells haddrs hfd hopened
    | resolver hstage hcells haddrs hfd hopened => exact .resolver hstage hcells haddrs hfd hopened
    | socket addrs hstage hcells haddrs hfd => exact .socket addrs hstage hcells haddrs hfd
  · exact h

theorem AttemptOk.cancelFuture (h : a.AttemptOk) : a.cancelFuture.AttemptOk := by
  unfold Attempt.cancelFuture
  split
  · exact ⟨h.resolved, h.memory, h.sockets, h.owners, h.nothingOpen⟩
  · exact h

/-- What a step has to meet. -/
def Admissible (a : Attempt α) : Event α → Prop
  | .tryResolveServerHost cancelled host dispatched =>
    a.stage = .tryResolveServerHost → cancelled = false → ¬Loses host dispatched
  | .serverHostResolved cancelled lookup dispatched =>
    a.stage = .serverHostResolved → cancelled = false →
      ∀ addrs, lookup = some (addrs, true) → addrs ≠ [] → dispatched = true
  | .createServerSocket cancelled env => a.stage = .createServerSocket → a.Serves cancelled env
  | _ => True

variable {a' : Attempt α}

/-- **One step.** It keeps the invariant, and it leaves the attempt all right exactly if it meets the
condition. -/
theorem Inv.step (h : a.Inv) (hok : a.AttemptOk) {event : Event α} (hstep : a.step event = some a') :
    a'.Inv ∧ (a'.AttemptOk ↔ a.Admissible event) := by
  have hlive : ∀ stage, a.stage = stage → stage ≠ .uncalled → stage ≠ .raised → stage ≠ .over →
      a.Waiting ∧ a.Located := by
    rintro stage rfl hun hraised hover
    exact h.live hun hraised hover
  cases event with
  | create outcome =>
    obtain ⟨hstage, ⟨⟩⟩ := Option.ite_none_right_eq_some.1 hstep
    rw [h.uncalled hstage]
    exact ⟨(create_good outcome).1, iff_true_intro (create_good outcome).2⟩
  | tryResolveServerHost cancelled host dispatched =>
    obtain ⟨hstage, ⟨⟩⟩ := Option.ite_none_right_eq_some.1 hstep
    obtain ⟨hwaiting, hlocated⟩ := hlive _ hstage nofun nofun nofun
    obtain ⟨hinv, hiff⟩ := hwaiting.tryResolveServerHost hlocated hstage cancelled host dispatched
    exact ⟨hinv, hiff.trans (imp_iff_right hstage).symm⟩
  | serverHostResolved cancelled lookup dispatched =>
    obtain ⟨hstage, ⟨⟩⟩ := Option.ite_none_right_eq_some.1 hstep
    obtain ⟨hwaiting, hlocated⟩ := hlive _ hstage nofun nofun nofun
    obtain ⟨hinv, hiff⟩ :=
      hwaiting.serverHostResolvedCallback hlocated hstage cancelled lookup dispatched
    exact ⟨hinv, hiff.trans (imp_iff_right hstage).symm⟩
  | createServerSocket cancelled env =>
    obtain ⟨hstage, ⟨⟩⟩ := Option.ite_none_right_eq_some.1 hstep
    obtain ⟨hwaiting, hlocated⟩ := hlive _ hstage nofun nofun nofun
    have hover : (a.createServerSocket cancelled env).stage = .over := by
      unfold Attempt.createServerSocket
      split
      · rfl
      · unfold endCallback
        split <;> rfl
    exact ⟨inv_of_over (.inl hover),
      (hwaiting.createServerSocket_ok_iff hlocated hstage cancelled env).trans
        (imp_iff_right hstage).symm⟩
  | cancelFuture =>
    obtain ⟨hcalled, ⟨⟩⟩ := Option.ite_none_left_eq_some.1 hstep
    exact ⟨h.cancelFuture fun hun => hcalled (.inl hun), iff_true_intro hok.cancelFuture⟩

/-- **An attempt to create a server.** Throughout a run the future is resolved at most once, every record
and the list is freed once, every socket is closed once or has one server, and an attempt that failed
leaves no listening socket, exactly if nothing is lost on the way to the addresses, the list is not freed
twice, and `create_server_socket` serves. -/
theorem server_attempt_iff (events : List (Event α)) :
    Runs.Always step AttemptOk init events ↔ Runs.Along step Admissible init events := by
  have hinit : (init : Attempt α).Good := by
    refine ⟨⟨fun hun => absurd rfl hun, fun _ => rfl⟩, Nat.zero_le 1, rfl, .nil,
      List.forall_mem_nil _, nofun⟩
  refine Runs.always_iff_along_of_break (I := Good) hinit (fun _ h => h.2) ?_ ?_ ?_
  · intro a event a' h hadmissible hstep
    obtain ⟨hinv, hiff⟩ := h.1.step h.2 hstep
    exact ⟨hinv, hiff.2 hadmissible⟩
  · intro a event a' h hstep hok
    exact (h.1.step h.2 hstep).2.1 hok
  · intro a event hdisabled
    have hnever : ∀ {stage : Stage} {b : Attempt α} {P : Prop},
        (if a.stage = stage then some b else none) = none → a.stage = stage → P := by
      intro stage b P hnone hstage
      rw [if_pos hstage] at hnone
      exact nomatch hnone
    cases event with
    | create => trivial
    | tryResolveServerHost => exact hnever hdisabled
    | serverHostResolved => exact hnever hdisabled
    | createServerSocket => exact hnever hdisabled
    | cancelFuture => trivial

/-- The queued callback of a call with a `sock` is cancelled by the loop: the duplicate is neither closed
nor a server's. -/
theorem cancelled_duplicate_leaks :
    ¬∀ events : List (Event Unit), Runs.Always step AttemptOk init events := by
  intro hall
  have hlast := (hall [.create (.sock (.duplicated () true)), .createServerSocket true
    ⟨fun _ => 2, false, true, none, true,
      fun _ => ⟨true, true, true, true, .made, .queued, true, .queued⟩, true⟩]).last rfl
  exact absurd hlast.sockets.length_eq (by decide)

end Attempt

end Talyn.CreateServer
