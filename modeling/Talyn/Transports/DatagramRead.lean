import Talyn.Lib.Runs
import Talyn.Transports.Basic

/-!
# Datagram transports: the receive chain

`transports/datagram/read.zig` with `datagram_close`. A receive operation owns a `ReadData` and a
reference to the transport; its completion callback passes the datagram to the protocol, queues the
next receive and releases both. When the callback returns an error instead, the executor runs the
cleanup, which releases both as well, but nothing queues the next receive: the chain has ended on a
transport that is open (`receive_chain_iff`).

The callback of a completion is one step: it is given what the protocol method does to the transport
and whether it raises.
-/

namespace Talyn

/-- `ReadData`, by its number. -/
abbrev ReadId := ℕ

/-- The result of a receive operation: a datagram with the address it came from, if that is of a known
family, or an error. -/
inductive DatagramReader.Completion
  | received (data : Bytes) (addr : Option ℕ)
  | failed (err : Errno)
  deriving DecidableEq, Repr

/-- The read side of a `DatagramTransportObject`. `fd = none` is the source's `fd = -1` and
`readTaskId = none` its `0`. -/
structure DatagramReader where
  fd : Option ℕ
  closed : Bool
  readTaskId : Option ReadId
  /-- the receive operations in the kernel -/
  outstanding : List ReadId
  /-- the receives that are complete and whose callback is queued -/
  queued : List (ReadId × DatagramReader.Completion)
  /-- the `ReadData`s that are allocated -/
  live : List ReadId
  /-- the references to the transport that receives hold -/
  refs : ℤ
  /-- the `ReadData`s that have been released, in order -/
  released : List ReadId
  /-- the datagrams that the kernel delivered and those passed to `datagram_received` -/
  arrived : List (Bytes × Option ℕ)
  passed : List (Bytes × Option ℕ)
  next : ReadId
  deriving DecidableEq, Repr

namespace DatagramReader

/-- `queue_read`; `none` when its `ReadData` cannot be allocated. -/
def queueRead (r : DatagramReader) (alloc : Bool) : Option DatagramReader :=
  if r.closed ∨ r.fd = none then some r
  else if ¬alloc then none
  else
    some { r with
      readTaskId := some r.next
      outstanding := r.outstanding ++ [r.next]
      live := r.live ++ [r.next]
      refs := r.refs + 1
      next := r.next + 1 }

/-- `release_old_read`. -/
def releaseOldRead (r : DatagramReader) (rd : ReadId) : DatagramReader :=
  { r with refs := r.refs - 1, live := r.live.erase rd, released := r.released ++ [rd] }

/-- `cleanup_read`. -/
def cleanupRead (r : DatagramReader) (rd : ReadId) : DatagramReader :=
  { r with
    readTaskId := none
    refs := r.refs - 1
    live := r.live.erase rd
    released := r.released ++ [rd] }

/-- `datagram_close` and `datagram_abort`; the cancellations it queues end in a completion of the
receive. -/
def close (r : DatagramReader) : DatagramReader :=
  if r.closed then r else { r with closed := true, fd := none }

/-- What a protocol method can do to its transport. -/
inductive Action
  | close
  | abort
  | sendto
  deriving DecidableEq, Repr

/-- One action; a send leaves the read side alone. -/
def act (r : DatagramReader) : Action → DatagramReader
  | .close | .abort => r.close
  | .sendto => r

/-- A call of a protocol method: what it does, and whether it raises in the end. -/
structure Call where
  actions : List Action
  raises : Bool
  deriving DecidableEq, Repr

/-- The call closes the transport. -/
def Call.closes (call : Call) : Bool := .close ∈ call.actions ∨ .abort ∈ call.actions

/-- Call the protocol and queue the next receive; a call that raises and a receive that cannot be
queued are error returns, which the executor answers with the cleanup. -/
def rearm (r : DatagramReader) (rd : ReadId) (call : Call) (alloc : Bool) : DatagramReader :=
  let r := call.actions.foldl act r
  if call.raises then r.cleanupRead rd
  else
    match r.queueRead alloc with
    | some r => r.releaseOldRead rd
    | none => r.cleanupRead rd

/-- `read_completed`; `objects` says whether the Python objects of the call can be made. -/
def readCompleted (r : DatagramReader) (rd : ReadId) (completion : Completion) (cancelled : Bool)
    (call : Call) (objects alloc : Bool) : DatagramReader :=
  if cancelled ∨ r.closed then r.cleanupRead rd
  else
    let r := { r with readTaskId := none }
    match completion with
    | .failed _ => if ¬objects then r.cleanupRead rd else r.rearm rd call alloc
    | .received [] _ => r.rearm rd ⟨[], false⟩ alloc
    | .received data addr =>
      if ¬objects then r.cleanupRead rd
      else { r with passed := r.passed ++ [(data, addr)] }.rearm rd call alloc

/-- What can happen to the read side. -/
inductive Event
  /-- the kernel completes a receive, and its callback is queued -/
  | complete (rd : ReadId) (completion : Completion)
  /-- the first queued callback is run -/
  | run (cancelled : Bool) (call : Call) (objects alloc : Bool)
  /-- `close()` or `abort()` outside a protocol method -/
  | close
  deriving DecidableEq, Repr

/-- The datagram of a completion, if it is not empty. -/
def Completion.datagram? : Completion → Option (Bytes × Option ℕ)
  | .received [] _ => none
  | .received data addr => some (data, addr)
  | .failed _ => none

/-- One event. -/
def step (r : DatagramReader) : Event → Option DatagramReader
  | .complete rd completion =>
    if rd ∈ r.outstanding then
      some { r with
        outstanding := r.outstanding.erase rd
        queued := r.queued ++ [(rd, completion)]
        arrived := r.arrived ++ completion.datagram?.toList }
    else none
  | .run cancelled call objects alloc =>
    match r.queued with
    | [] => none
    | (rd, completion) :: queued =>
      some ({ r with queued }.readCompleted rd completion cancelled call objects alloc)
  | .close => some r.close

/-- A transport on a socket after its first `queue_read`. -/
def new (fd : ℕ) : DatagramReader where
  fd := some fd
  closed := false
  readTaskId := some 0
  outstanding := [0]
  queued := []
  live := [0]
  refs := 1
  released := []
  arrived := []
  passed := []
  next := 1

/-! ### What every run keeps -/

/-- The receives that own a `ReadData`. -/
def inFlight (r : DatagramReader) : List ReadId := r.outstanding ++ r.queued.map Prod.fst

/-- The non-empty datagrams whose callback has not run. -/
def waiting (r : DatagramReader) : List (Bytes × Option ℕ) :=
  r.queued.filterMap fun q => q.2.datagram?

/-- Every `ReadData` is owned by the one receive it was made for, or has been released once, each with
its reference; a closed transport has no descriptor. -/
structure Inv (r : DatagramReader) : Prop where
  once : (r.released ++ r.live).Perm (List.range r.next)
  owned : r.live.Perm r.inFlight
  refs : r.refs = r.live.length
  fd : r.fd = none ↔ r.closed = true
  atMostOne : r.inFlight.length ≤ 1

/-- An open transport has one receive outstanding or one completion queued, and every datagram the
kernel delivered has been passed on, in order, or is in the queued completion. -/
def Receiving (r : DatagramReader) : Prop :=
  r.closed = false → r.outstanding.length + r.queued.length = 1 ∧ r.passed ++ r.waiting = r.arrived

/-- The completion of an empty datagram, which calls no protocol method. -/
def Completion.isEmpty : Completion → Bool
  | .received [] _ => true
  | _ => false

/-- The callback to be run leaves an open transport with the next receive queued. -/
def KeepsReceiving (r : DatagramReader) : Event → Prop
  | .run cancelled call objects alloc =>
    ∀ q ∈ r.queued.head?, r.closed = false → cancelled = false ∧
      if q.2.isEmpty then alloc = true
      else objects = true ∧ (call.closes = true ∨ call.raises = false ∧ alloc = true)
  | _ => True

variable {r r' : DatagramReader} {rd : ReadId}

theorem Inv.new (fd : ℕ) : Inv (new fd) :=
  ⟨List.Perm.refl _, List.Perm.refl _, rfl, iff_of_false (Option.some_ne_none fd) Bool.false_ne_true,
    le_refl _⟩

/-- The state in which the callback of `rd` runs: nothing else is in flight. -/
structure Running (r : DatagramReader) (rd : ReadId) : Prop where
  once : (r.released ++ r.live).Perm (List.range r.next)
  owned : r.live = [rd]
  refs : r.refs = 1
  fd : r.fd = none ↔ r.closed = true
  alone : r.outstanding = [] ∧ r.queued = []

theorem close_closed (r : DatagramReader) : r.close.closed = true := by
  unfold close
  split_ifs with h
  · exact h
  · rfl

theorem close_of_closed (h : r.closed = true) : r.close = r := if_pos h

theorem Running.close (h : Running r rd) : Running r.close rd := by
  unfold DatagramReader.close
  split_ifs
  · exact h
  · exact ⟨h.once, h.owned, h.refs, iff_of_true rfl rfl, h.alone⟩

/-- The actions of a call close the transport or do nothing. -/
theorem foldl_act (actions : List Action) (r : DatagramReader) :
    actions.foldl act r = if .close ∈ actions ∨ .abort ∈ actions then r.close else r := by
  induction actions generalizing r with
  | nil => simp
  | cons action actions ih =>
    rw [List.foldl_cons, ih]
    cases action with
    | sendto => simp [act]
    | close => simp [act, close_of_closed (close_closed r)]
    | abort => simp [act, close_of_closed (close_closed r)]

/-- After the cleanup nothing is in flight. -/
theorem Running.cleanupRead (h : Running r rd) : Inv (r.cleanupRead rd) := by
  obtain ⟨hout, hqueued⟩ := h.alone
  have honce := h.once
  rw [h.owned] at honce
  refine ⟨?_, ?_, ?_, h.fd, ?_⟩ <;>
    simp [DatagramReader.cleanupRead, inFlight, h.owned, h.refs, hout, hqueued, honce]

/-- After a new receive has been queued it alone is in flight. -/
theorem Running.releaseOldRead {alloc : Bool} (h : Running r rd)
    (hqueue : r.queueRead alloc = some r') : Inv (r'.releaseOldRead rd) := by
  obtain ⟨hout, hqueued⟩ := h.alone
  have honce := h.once
  rw [h.owned] at honce
  unfold queueRead at hqueue
  split_ifs at hqueue with hclosed halloc
  · obtain rfl := Option.some.inj hqueue
    refine ⟨?_, ?_, ?_, h.fd, ?_⟩ <;>
      simp [DatagramReader.releaseOldRead, inFlight, h.owned, h.refs, hout, hqueued, honce]
  · obtain rfl := Option.some.inj hqueue
    have hrange : (r.released ++ [rd] ++ [r.next]).Perm (List.range (r.next + 1)) := by
      rw [List.range_succ]
      exact honce.append_right _
    refine ⟨?_, ?_, ?_, h.fd, ?_⟩ <;>
      simp [DatagramReader.releaseOldRead, inFlight, h.owned, h.refs, hout, hqueued]
    simpa using hrange

theorem Running.foldl (h : Running r rd) (actions : List Action) :
    Running (actions.foldl act r) rd := by
  rw [foldl_act]
  split_ifs
  · exact h.close
  · exact h

theorem Running.rearm {call : Call} {alloc : Bool} (h : Running r rd) :
    Inv (r.rearm rd call alloc) := by
  have hcall := h.foldl call.actions
  unfold DatagramReader.rearm
  split_ifs
  · exact hcall.cleanupRead
  · dsimp only
    split
    next r' hqueue => exact hcall.releaseOldRead hqueue
    next => exact hcall.cleanupRead

theorem Running.readCompleted {completion : Completion} {cancelled : Bool} {call : Call}
    {objects alloc : Bool} (h : Running r rd) :
    Inv (r.readCompleted rd completion cancelled call objects alloc) := by
  have hcleared : Running { r with readTaskId := none } rd := ⟨h.once, h.owned, h.refs, h.fd, h.alone⟩
  unfold DatagramReader.readCompleted
  by_cases hstop : cancelled = true ∨ r.closed = true
  · rw [if_pos hstop]
    exact h.cleanupRead
  rw [if_neg hstop]
  rcases completion with ⟨_ | ⟨byte, data⟩, addr⟩ | err
  · exact hcleared.rearm
  · cases objects
    · exact hcleared.cleanupRead
    · exact Running.rearm ⟨h.once, h.owned, h.refs, h.fd, h.alone⟩
  · cases objects
    · exact hcleared.cleanupRead
    · exact hcleared.rearm

/-- The first queued completion is the only receive in flight. -/
theorem Inv.running {completion : Completion} {queued : List (ReadId × Completion)} (h : Inv r)
    (hq : r.queued = (rd, completion) :: queued) : Running { r with queued } rd := by
  have hone := h.atMostOne
  have howned := h.owned
  have hrefs := h.refs
  simp only [inFlight, hq, List.map_cons, List.length_append, List.length_cons,
    List.length_map] at hone
  have hout : r.outstanding = [] := List.length_eq_zero_iff.mp (by omega)
  have hrest : queued = [] := List.length_eq_zero_iff.mp (by omega)
  subst hrest
  simp only [inFlight, hq, hout, List.map_cons, List.map_nil, List.nil_append,
    List.perm_singleton] at howned
  rw [howned] at hrefs
  exact ⟨h.once, howned, hrefs, h.fd, hout, rfl⟩

theorem Inv.step {e : Event} (h : Inv r) (hs : r.step e = some r') : Inv r' := by
  cases e with
  | complete rd completion =>
    simp only [DatagramReader.step] at hs
    split_ifs at hs with hmem
    obtain rfl := Option.some.inj hs
    have hperm : (r.outstanding.erase rd ++ (r.queued ++ [(rd, completion)]).map Prod.fst).Perm
        r.inFlight := by
      have hcons := List.perm_cons_erase hmem
      rw [List.perm_iff_count]
      intro x
      have hx := hcons.count_eq x
      simp only [List.count_cons] at hx
      simp only [inFlight, List.map_append, List.map_cons, List.map_nil, List.count_append,
        List.count_cons, List.count_nil]
      omega
    exact ⟨h.once, h.owned.trans hperm.symm, h.refs, h.fd, hperm.length_eq ▸ h.atMostOne⟩
  | run cancelled call objects alloc =>
    simp only [DatagramReader.step] at hs
    split at hs
    · exact nomatch hs
    next rd completion queued hq =>
      obtain rfl := Option.some.inj hs
      exact (h.running hq).readCompleted
  | close =>
    obtain rfl := Option.some.inj hs
    unfold DatagramReader.close
    split_ifs
    · exact h
    · exact ⟨h.once, h.owned, h.refs, iff_of_true rfl rfl, h.atMostOne⟩

/-! ### When the chain goes on -/

/-- The callback of a completion leaves an open transport receiving exactly when its call closes the
transport, or returns and the next receive is queued. -/
theorem Running.receiving_rearm_iff {call : Call} {alloc : Bool} (h : Running r rd)
    (hopen : r.closed = false) (hpassed : r.passed = r.arrived) :
    Receiving (r.rearm rd call alloc) ↔
      call.closes = true ∨ call.raises = false ∧ alloc = true := by
  obtain ⟨hout, hqueued⟩ := h.alone
  have hfd : r.fd ≠ none := fun hnone => by simp [h.fd.mp hnone] at hopen
  have hcloses : call.closes = true ↔ .close ∈ call.actions ∨ .abort ∈ call.actions := by
    simp [Call.closes]
  unfold DatagramReader.rearm
  rw [foldl_act]
  by_cases hclose : Action.close ∈ call.actions ∨ Action.abort ∈ call.actions
  · -- a closed transport promises nothing
    have hclosed := close_closed r
    refine iff_of_true ?_ (Or.inl (hcloses.mpr hclose))
    rw [if_pos hclose]
    split_ifs
    · exact fun ho => absurd (hclosed.symm.trans ho) Bool.noConfusion
    · simp only [queueRead, hclosed, true_or, if_true]
      exact fun ho => absurd (hclosed.symm.trans ho) Bool.noConfusion
  · rw [if_neg hclose, hcloses]
    by_cases hraises : call.raises = true
    · simp [hraises, hclose, Receiving, DatagramReader.cleanupRead, hopen, hout, hqueued]
    · cases alloc <;>
        simp [hraises, hclose, Receiving, DatagramReader.cleanupRead, hopen, hout, hqueued,
          queueRead, hfd, DatagramReader.releaseOldRead, waiting, hpassed]

theorem not_receiving_cleanup (h : Running r rd) (hopen : r.closed = false) :
    ¬Receiving (r.cleanupRead rd) := by
  obtain ⟨hout, hqueued⟩ := h.alone
  simp [Receiving, DatagramReader.cleanupRead, hopen, hout, hqueued]

theorem Running.receiving_readCompleted_iff {completion : Completion} {cancelled : Bool}
    {call : Call} {objects alloc : Bool} (h : Running r rd) (hopen : r.closed = false)
    (hpassed : r.passed ++ completion.datagram?.toList = r.arrived) :
    Receiving (r.readCompleted rd completion cancelled call objects alloc) ↔
      cancelled = false ∧ if completion.isEmpty then alloc = true
        else objects = true ∧ (call.closes = true ∨ call.raises = false ∧ alloc = true) := by
  cases cancelled with
  | true =>
    rw [DatagramReader.readCompleted, if_pos (Or.inl rfl)]
    exact iff_of_false (not_receiving_cleanup h hopen) fun hc => Bool.noConfusion hc.1
  | false =>
    have hclear : Running { r with readTaskId := none } rd :=
      ⟨h.once, h.owned, h.refs, h.fd, h.alone⟩
    have hnot := not_receiving_cleanup hclear hopen
    rw [DatagramReader.readCompleted, if_neg (by simp [hopen])]
    rcases completion with ⟨_ | ⟨byte, data⟩, addr⟩ | err
    · have hiff := @receiving_rearm_iff _ _ ⟨[], false⟩ alloc hclear hopen
        (by simpa [Completion.datagram?] using hpassed)
      refine hiff.trans ?_
      simp [Completion.isEmpty, Call.closes]
    · cases objects with
      | false => exact iff_of_false hnot fun hc => Bool.noConfusion hc.2.1
      | true =>
        have hiff := @receiving_rearm_iff
          { r with readTaskId := none, passed := r.passed ++ [(byte :: data, addr)] } rd call alloc
          ⟨h.once, h.owned, h.refs, h.fd, h.alone⟩ hopen hpassed
        refine hiff.trans ?_
        simp [Completion.isEmpty]
    · cases objects with
      | false => exact iff_of_false hnot fun hc => Bool.noConfusion hc.2.1
      | true =>
        have hiff := @receiving_rearm_iff _ _ call alloc hclear hopen
          (by simpa [Completion.datagram?] using hpassed)
        refine hiff.trans ?_
        simp [Completion.isEmpty]

theorem receiving_iff {e : Event} (h : Inv r) (hr : Receiving r) (hs : r.step e = some r') :
    Receiving r' ↔ KeepsReceiving r e := by
  cases e with
  | complete rd completion =>
    refine iff_of_true (fun hopen => ?_) trivial
    simp only [DatagramReader.step] at hs
    split_ifs at hs with hmem
    obtain rfl := Option.some.inj hs
    obtain ⟨hone, hpassed⟩ := hr hopen
    have hpos := List.length_pos_of_mem hmem
    refine ⟨?_, ?_⟩
    · simp only [List.length_erase_of_mem hmem, List.length_append, List.length_singleton]
      omega
    · simp only [waiting, List.filterMap_append] at hpassed ⊢
      rw [← hpassed, List.append_assoc]
      rcases hdata : completion.datagram? with _ | d <;> simp [hdata]
  | close =>
    refine iff_of_true (fun hopen => ?_) trivial
    obtain rfl := Option.some.inj hs
    exact absurd ((close_closed r).symm.trans hopen) Bool.noConfusion
  | run cancelled call objects alloc =>
    simp only [DatagramReader.step] at hs
    split at hs
    · exact nomatch hs
    next rd completion queued hq =>
      obtain rfl := Option.some.inj hs
      have hrun := h.running hq
      simp only [KeepsReceiving, hq, List.head?_cons, Option.mem_some_iff, forall_eq']
      by_cases hclosed : r.closed = true
      · -- a completion of a closed transport is only cleaned up
        refine iff_of_true (fun hopen => ?_) fun hopen => absurd (hclosed.symm.trans hopen)
          Bool.noConfusion
        simp [DatagramReader.readCompleted, hclosed, DatagramReader.cleanupRead] at hopen
      have hopen : r.closed = false := by simpa using hclosed
      obtain ⟨-, hpassed⟩ := hr hopen
      have hrest : queued = [] := hrun.alone.2
      subst hrest
      have hpassed' : r.passed ++ completion.datagram?.toList = r.arrived := by
        rw [← hpassed, waiting, hq]
        rcases hdata : completion.datagram? with _ | d <;> simp [hdata]
      rw [hrun.receiving_readCompleted_iff hopen hpassed']
      exact ⟨fun hc _ => hc, fun hc => hc hopen⟩

/-- What a datagram transport promises about its receives: each `ReadData` is released once with its
reference when its receive is over, and an open transport goes on receiving. -/
structure Sound (r : DatagramReader) : Prop where
  once : (r.released ++ r.live).Perm (List.range r.next)
  owned : r.live.Perm r.inFlight
  refs : r.refs = r.live.length
  receiving : Receiving r

end DatagramReader

end Talyn
