import Mathlib.Tactic

/-!
# The socket of a datagram endpoint

The first half of `z_create_endpoint`: one family is chosen, a socket of it is opened, and then the
local addresses are tried until one binds and the remote ones until one connects. The kernel is a
parameter: what can be opened, bound and connected, where a socket takes addresses of its own family
only.
-/

namespace Talyn.Datagram

variable {α : Type*}

/-- What the kernel does with a socket of a family, and the family of an address. -/
structure SocketKernel (α : Type*) where
  family : α → ℕ
  canOpen : ℕ → Bool
  canBind : ℕ → α → Bool
  canConnect : ℕ → α → Bool
  bindFamily : ∀ f a, canBind f a = true → family a = f
  connectFamily : ∀ f a, canConnect f a = true → family a = f

/-- `AF_INET`. -/
def afInet : ℕ := 2

/-- How opening the socket of an endpoint can fail. -/
inductive SocketError
  /-- the head of an empty list is read -/
  | indexOutOfBounds
  /-- `socket` fails -/
  | socket
  /-- no address could be bound or connected; the socket is closed again -/
  | systemResources
  deriving DecidableEq, Repr

/-- The socket of an endpoint, and the addresses it is bound and connected to. -/
structure EndpointSocket (α : Type*) where
  family : ℕ
  bound : Option α
  connected : Option α
  deriving DecidableEq, Repr

/-- `addrs[0].any.family`. -/
def headFamily (k : SocketKernel α) (addrs : List α) : Except SocketError ℕ :=
  match addrs with
  | [] => .error .indexOutOfBounds
  | addr :: _ => .ok (k.family addr)

/-- The family: the given one, or that of the first remote address, or that of the first local one. -/
def chooseFamily (k : SocketKernel α) (family : Option ℕ)
    (localAddresses remoteAddresses : Option (List α)) : Except SocketError ℕ :=
  match family, remoteAddresses, localAddresses with
  | some family, _, _ => .ok family
  | none, some addrs, _ | none, none, some addrs => headFamily k addrs
  | none, none, none => .ok afInet

/-- The loop over the local addresses. -/
def bindFirst (k : SocketKernel α) (family : ℕ) : List α → Option α
  | [] => none
  | addr :: addrs => if k.canBind family addr then some addr else bindFirst k family addrs

/-- The loop over the remote addresses; those of another family are skipped. -/
def connectFirst (k : SocketKernel α) (family : ℕ) : List α → Option α
  | [] => none
  | addr :: addrs =>
    if k.family addr ≠ family then connectFirst k family addrs
    else if k.canConnect family addr then some addr
    else connectFirst k family addrs

/-- Try a list of addresses, if there is one: `none` where none of them will do. -/
def tryAddresses (first : List α → Option α) : Option (List α) → Option (Option α)
  | none => some none
  | some addrs => (first addrs).map some

/-- `z_create_endpoint` without a `sock`, up to the connected socket. -/
def openSocket (k : SocketKernel α) (family : Option ℕ)
    (localAddresses remoteAddresses : Option (List α)) : Except SocketError (EndpointSocket α) :=
  match chooseFamily k family localAddresses remoteAddresses with
  | .error err => .error err
  | .ok family =>
    if k.canOpen family = false then .error .socket
    else
      match tryAddresses (bindFirst k family) localAddresses with
      | none => .error .systemResources
      | some bound =>
        match tryAddresses (connectFirst k family) remoteAddresses with
        | none => .error .systemResources
        | some connected => .ok ⟨family, bound, connected⟩

/-! ## What the loops find -/

variable {k : SocketKernel α} {f : ℕ} {addrs : List α} {a : α}
  {localAddresses remoteAddresses : Option (List α)}

theorem bindFirst_isSome_iff : (bindFirst k f addrs).isSome ↔ ∃ a ∈ addrs, k.canBind f a = true := by
  induction addrs with
  | nil => simp [bindFirst]
  | cons addr addrs ih =>
    unfold bindFirst
    split
    · rename_i hbind
      simp [hbind]
    · rename_i hbind
      simp [ih, hbind]

theorem bindFirst_spec (h : bindFirst k f addrs = some a) : a ∈ addrs ∧ k.canBind f a = true := by
  induction addrs with
  | nil => exact nomatch h
  | cons addr addrs ih =>
    unfold bindFirst at h
    split at h
    · rename_i hbind
      obtain rfl := Option.some.inj h
      exact ⟨List.mem_cons_self, hbind⟩
    · exact ⟨List.mem_cons_of_mem _ (ih h).1, (ih h).2⟩

/-- Skipping the other families loses nothing. -/
theorem connectFirst_isSome_iff :
    (connectFirst k f addrs).isSome ↔ ∃ a ∈ addrs, k.canConnect f a = true := by
  induction addrs with
  | nil => simp [connectFirst]
  | cons addr addrs ih =>
    unfold connectFirst
    split
    · rename_i hfamily
      have hconnect : ¬k.canConnect f addr = true := fun h => hfamily (k.connectFamily f addr h)
      simp [ih, hconnect]
    · split
      · rename_i hconnect
        simp [hconnect]
      · rename_i hconnect
        simp [ih, hconnect]

theorem connectFirst_spec (h : connectFirst k f addrs = some a) :
    a ∈ addrs ∧ k.canConnect f a = true := by
  induction addrs with
  | nil => exact nomatch h
  | cons addr addrs ih =>
    unfold connectFirst at h
    split at h
    · exact ⟨List.mem_cons_of_mem _ (ih h).1, (ih h).2⟩
    · split at h
      · rename_i hconnect
        obtain rfl := Option.some.inj h
        exact ⟨List.mem_cons_self, hconnect⟩
      · exact ⟨List.mem_cons_of_mem _ (ih h).1, (ih h).2⟩

/-! ## When an endpoint is created -/

/-- A family will do: a socket of it can be opened, bound to a local address and connected to a remote
one, as far as they are given. -/
structure Works (k : SocketKernel α) (f : ℕ) (localAddresses remoteAddresses : Option (List α)) :
    Prop where
  opens : k.canOpen f = true
  binds : ∀ addrs, localAddresses = some addrs → ∃ a ∈ addrs, k.canBind f a = true
  connects : ∀ addrs, remoteAddresses = some addrs → ∃ a ∈ addrs, k.canConnect f a = true

/-- The socket is bound to a local address and connected to a remote one, as far as they are given, of
one family. -/
structure Joins (k : SocketKernel α) (localAddresses remoteAddresses : Option (List α))
    (s : EndpointSocket α) : Prop where
  bound : ∀ addrs, localAddresses = some addrs →
    ∃ a ∈ addrs, s.bound = some a ∧ k.family a = s.family
  connected : ∀ addrs, remoteAddresses = some addrs →
    ∃ a ∈ addrs, s.connected = some a ∧ k.family a = s.family

/-- If some family will do, there is an endpoint of one family. -/
def Serves (k : SocketKernel α) (localAddresses remoteAddresses : Option (List α)) : Prop :=
  (∃ f, Works k f localAddresses remoteAddresses) →
    ∃ s, openSocket k none localAddresses remoteAddresses = .ok s ∧
      Joins k localAddresses remoteAddresses s

theorem tryAddresses_isSome_iff {first : List α → Option α} {given : Option (List α)} :
    (tryAddresses first given).isSome ↔ ∀ addrs, given = some addrs → (first addrs).isSome := by
  cases given with
  | none => simp [tryAddresses]
  | some addrs => simp [tryAddresses]

theorem tryAddresses_spec {first : List α → Option α} {given : Option (List α)} {found : Option α}
    (h : tryAddresses first given = some found) (hgiven : given = some addrs) :
    ∃ a, found = some a ∧ first addrs = some a := by
  subst hgiven
  obtain ⟨a, ha, rfl⟩ := Option.map_eq_some_iff.1 h
  exact ⟨a, rfl, ha⟩

/-- A family will do exactly if the socket can be opened and both loops find an address. -/
theorem works_iff : Works k f localAddresses remoteAddresses ↔ k.canOpen f = true ∧
    (tryAddresses (bindFirst k f) localAddresses).isSome ∧
      (tryAddresses (connectFirst k f) remoteAddresses).isSome := by
  rw [tryAddresses_isSome_iff, tryAddresses_isSome_iff]
  simp only [bindFirst_isSome_iff, connectFirst_isSome_iff]
  exact ⟨fun h => ⟨h.opens, h.binds, h.connects⟩, fun h => ⟨h.1, h.2.1, h.2.2⟩⟩

/-- With a family chosen the socket is opened exactly if that family will do. -/
theorem openSocket_of_family (hfamily : chooseFamily k none localAddresses remoteAddresses = .ok f) :
    (∃ s, openSocket k none localAddresses remoteAddresses = .ok s) ↔
      Works k f localAddresses remoteAddresses := by
  rw [works_iff]
  unfold openSocket
  simp only [hfamily]
  cases hopen : k.canOpen f with
  | false => simp
  | true =>
    cases tryAddresses (bindFirst k f) localAddresses with
    | none => simp
    | some bound => cases tryAddresses (connectFirst k f) remoteAddresses <;> simp

/-- The socket is what the loops have found. -/
theorem joins_of_openSocket {s : EndpointSocket α}
    (h : openSocket k none localAddresses remoteAddresses = .ok s) :
    Joins k localAddresses remoteAddresses s := by
  unfold openSocket at h
  cases hfamily : chooseFamily k none localAddresses remoteAddresses with
  | error e => rw [hfamily] at h; exact nomatch h
  | ok f =>
    simp only [hfamily] at h
    split at h
    · exact nomatch h
    split at h
    · exact nomatch h
    rename_i bound hbound
    split at h
    · exact nomatch h
    rename_i connected hconnected
    obtain rfl := Except.ok.inj h
    constructor
    · intro addrs hgiven
      obtain ⟨a, rfl, hfirst⟩ := tryAddresses_spec hbound hgiven
      obtain ⟨hmem, hbind⟩ := bindFirst_spec hfirst
      exact ⟨a, hmem, rfl, k.bindFamily f a hbind⟩
    · intro addrs hgiven
      obtain ⟨a, rfl, hfirst⟩ := tryAddresses_spec hconnected hgiven
      obtain ⟨hmem, hconnect⟩ := connectFirst_spec hfirst
      exact ⟨a, hmem, rfl, k.connectFamily f a hconnect⟩

/-- Where a list is empty no family will do. -/
theorem not_works_of_chooseFamily {e : SocketError}
    (h : chooseFamily k none localAddresses remoteAddresses = .error e) :
    ¬Works k f localAddresses remoteAddresses := by
  intro hworks
  have hempty : ∀ addrs : List α, headFamily k addrs = .error e → addrs = [] := by
    intro addrs h
    cases addrs with
    | nil => rfl
    | cons addr addrs => exact nomatch h
  cases hremote : remoteAddresses with
  | some addrs =>
    rw [hremote] at h
    obtain rfl := hempty addrs h
    obtain ⟨a, ha, -⟩ := hworks.connects [] hremote
    exact nomatch ha
  | none =>
    cases hlocal : localAddresses with
    | some addrs =>
      rw [hremote, hlocal] at h
      obtain rfl := hempty addrs h
      obtain ⟨a, ha, -⟩ := hworks.binds [] hlocal
      exact nomatch ha
    | none =>
      rw [hremote, hlocal] at h
      exact nomatch h

/-- **The family of the head decides.** Without an explicit family an endpoint is created whenever some
family will do, exactly if then the family of the first remote address will do (of the first local one
where no remote address is given, and `AF_INET` where no address is given). -/
theorem openSocket_serves_iff (k : SocketKernel α) (localAddresses remoteAddresses : Option (List α)) :
    Serves k localAddresses remoteAddresses ↔
      ∀ f, Works k f localAddresses remoteAddresses →
        ∀ chosen, chooseFamily k none localAddresses remoteAddresses = .ok chosen →
          Works k chosen localAddresses remoteAddresses := by
  constructor
  · intro hserves f hworks chosen hchosen
    obtain ⟨s, hs, -⟩ := hserves ⟨f, hworks⟩
    exact (openSocket_of_family hchosen).1 ⟨s, hs⟩
  · rintro hall ⟨f, hworks⟩
    cases hchosen : chooseFamily k none localAddresses remoteAddresses with
    | error e => exact absurd hworks (not_works_of_chooseFamily hchosen)
    | ok chosen =>
      obtain ⟨s, hs⟩ := (openSocket_of_family hchosen).2 (hall f hworks chosen hchosen)
      exact ⟨s, hs, joins_of_openSocket hs⟩

/-- A kernel that binds and connects every address of the own family, where an address is its family. -/
def ownFamilyKernel : SocketKernel ℕ where
  family := id
  canOpen := fun _ => true
  canBind := fun f a => decide (a = f)
  canConnect := fun f a => decide (a = f)
  bindFamily := fun _ _ h => of_decide_eq_true h
  connectFamily := fun _ _ h => of_decide_eq_true h

/-- An IPv4 local address, and a remote host with an IPv6 address in front of an IPv4 one. -/
theorem openSocket_picks_wrong_family :
    ¬∀ (k : SocketKernel ℕ) (localAddresses remoteAddresses : Option (List ℕ)),
      Serves k localAddresses remoteAddresses := by
  intro hall
  have hworks : Works ownFamilyKernel 2 (some [2]) (some [10, 2]) := by
    refine ⟨rfl, fun addrs h => ?_, fun addrs h => ?_⟩
    · obtain rfl := Option.some.inj h
      exact ⟨2, by simp, rfl⟩
    · obtain rfl := Option.some.inj h
      exact ⟨2, by simp, rfl⟩
  obtain ⟨s, hs, -⟩ := hall ownFamilyKernel (some [2]) (some [10, 2]) ⟨2, hworks⟩
  exact nomatch hs

end Talyn.Datagram
