import Talyn.Lib.Runs
import Talyn.Loop.IoUring
import Talyn.Transports.Basic

/-!
# `sock_recv` and `sock_recv_into`

`loop/python/io/socket/ops/recv.zig` and `recv_into.zig`: the calls on one socket, each made when the
future of the one before is done. A call queues a read and returns a future; `future_fast_cancel`
ends the future only, and the read stays armed. The kernel hands out the bytes of the socket to the
reads that are armed, in whatever order, so the bytes given to a read whose future has been cancelled
are lost. When `io.queue` fails the call releases everything and raises, also when the read is in the
ring: it takes bytes then that no call delivers, and its callback releases the state again
(`received_iff`).
-/

namespace Talyn

/-- What a call reads into: a buffer of its own of that length, or the buffer of the caller. -/
inductive SockRecv.Kind
  | recv (nbytes : ℕ)
  | recvInto (buffer : ℕ)
  deriving DecidableEq, Repr

/-- The result of a read; no bytes are the end of the stream. -/
inductive SockRecv.Result
  | data (chunk : Bytes)
  | error (err : Errno)
  deriving DecidableEq, Repr

/-- Where the read of a call is. -/
inductive SockRecv.Phase
  /-- no read was queued: the buffer of the caller is empty -/
  | unqueued
  | armed
  /-- the kernel has completed it, and its callback is queued -/
  | completed (result : SockRecv.Result)
  /-- its callback has been run, or it did not get into the ring -/
  | over
  deriving DecidableEq, Repr

/-- The future of a call; for `sock_recv_into` the bytes are what the buffer holds up to the number
that is the result. -/
inductive SockRecv.Outcome
  /-- the call raised and gave it up -/
  | absent
  | pending
  | result (bytes : Bytes)
  | exception
  | cancelled
  deriving DecidableEq, Repr

/-- A call, with its `SockRecvData`. -/
structure SockRecv.Call where
  kind : SockRecv.Kind
  phase : SockRecv.Phase
  future : SockRecv.Outcome
  /-- how often its state and buffer have been released -/
  releases : ℕ
  deriving DecidableEq, Repr

/-- A stream socket with the calls made on it, in order. -/
structure SockRecv where
  calls : List SockRecv.Call
  /-- the buffers of the callers -/
  memory : ℕ → Bytes
  /-- the bytes the kernel has handed out for the socket -/
  handed : Bytes
  /-- the calls that wrote into the buffer of their caller after their future was cancelled -/
  late : List ℕ

namespace SockRecv

/-- How many bytes a read can take. -/
def size (s : SockRecv) : Kind → ℕ
  | .recv nbytes => nbytes
  | .recvInto buffer => (s.memory buffer).length

/-- The buffer of the caller is empty, and its call ends without a read. -/
def immediate (s : SockRecv) : Kind → Bool
  | .recv _ => false
  | .recvInto buffer => s.memory buffer = []

/-- A call that gets to `io.queue`. The errdefers behind it release the buffer and the state, and give the
future up. -/
def Call.queue (kind : Kind) : Enqueue → Call
  | .queued => ⟨kind, .armed, .pending, 0⟩
  | .refused => ⟨kind, .over, .absent, 1⟩
  | .left => ⟨kind, .armed, .absent, 1⟩

/-- The call that `z_loop_sock_recv` and `z_loop_sock_recv_into` make. -/
def called (s : SockRecv) (kind : Kind) (queue : Enqueue) : Call :=
  if s.immediate kind then ⟨kind, .unqueued, .result [], 0⟩ else Call.queue kind queue

/-- `z_loop_sock_recv` and `z_loop_sock_recv_into`. -/
def recv (s : SockRecv) (kind : Kind) (queue : Enqueue) : SockRecv :=
  { s with calls := s.calls ++ [s.called kind queue] }

/-- The bytes of a result. -/
def Result.bytes : Result → Bytes
  | .data chunk => chunk
  | .error _ => []

/-- The kernel completes the read of a call. -/
def complete (s : SockRecv) (i : ℕ) (c : Call) (result : Result) : SockRecv :=
  let s :=
    { s with
      calls := s.calls.set i { c with phase := .completed result }
      handed := s.handed ++ result.bytes }
  match c.kind with
  | .recv _ => s
  | .recvInto buffer =>
    { s with
      memory := Function.update s.memory buffer
        (result.bytes ++ (s.memory buffer).drop result.bytes.length)
      late := if c.future = .cancelled ∧ result.bytes ≠ [] then s.late ++ [i] else s.late }

/-- What `sock_recv_callback` and `sock_recv_into_callback_with_buf` give the future; `objects` says
whether the Python object of the result can be made. -/
def settle (s : SockRecv) (c : Call) (result : Result) (cancelled objects : Bool) : Outcome :=
  if c.future ≠ .pending then c.future
  else if cancelled then .exception
  else
    match result with
    | .error _ => .exception
    | .data chunk =>
      if ¬objects then .exception
      else
        match c.kind with
        | .recv _ => .result chunk
        | .recvInto buffer => .result ((s.memory buffer).take chunk.length)

/-- What can happen to the socket. -/
inductive Event
  | call (kind : Kind) (queue : Enqueue)
  | complete (i : ℕ) (result : Result)
  /-- the callback of a completed read is run -/
  | run (i : ℕ) (cancelled objects : Bool)
  /-- the owner cancels the future of the last call -/
  | cancel
  deriving DecidableEq, Repr

/-- One event. -/
def step (s : SockRecv) : Event → Option SockRecv
  | .call kind queue =>
    if ∀ c ∈ s.calls.getLast?, c.future ≠ .pending then some (s.recv kind queue) else none
  | .complete i result =>
    match s.calls[i]? with
    | some c =>
      if c.phase = .armed ∧ result.bytes.length ≤ s.size c.kind then some (s.complete i c result)
      else none
    | none => none
  | .run i cancelled objects =>
    match s.calls[i]? with
    | some c =>
      match c.phase with
      | .completed result =>
        some { s with
          calls := s.calls.set i
            { c with
              phase := .over
              future := s.settle c result cancelled objects
              releases := c.releases + 1 } }
      | _ => none
    | none => none
  | .cancel =>
    match s.calls.getLast? with
    | some c =>
      if c.future = .pending then
        some { s with calls := s.calls.dropLast ++ [{ c with future := .cancelled }] }
      else some s
    | none => none

/-- No call yet. -/
def new (memory : ℕ → Bytes) : SockRecv := ⟨[], memory, [], []⟩

/-! ### The bytes of the calls -/

/-- The bytes that a completed read has for its callback. -/
def Call.waiting (c : Call) : Bytes :=
  match c.phase with
  | .completed (.data chunk) => chunk
  | _ => []

/-- The bytes a call has delivered, or will deliver when its callback runs. -/
def Call.bytes (c : Call) : Bytes :=
  match c.future with
  | .result bytes => bytes
  | .pending => c.waiting
  | _ => []

/-- Phase, future and releases of a call go together: as long as the read is not over and has its state,
the future is pending or was cancelled. -/
def Call.Ok (c : Call) : Prop :=
  match c.phase with
  | .armed | .completed _ => c.releases = 0 → c.future = .pending ∨ c.future = .cancelled
  | .unqueued | .over => c.future ≠ .pending

/-- Every call is consistent, and only the last can be pending. -/
structure Inv (s : SockRecv) : Prop where
  ok : ∀ c ∈ s.calls, c.Ok
  last : ∀ c ∈ s.calls.dropLast, c.future ≠ .pending

/-- The calls have delivered, in their order, what the kernel has handed out: no byte has gone to a
cancelled call, none has been written into the buffer of one, and the buffer of a completed call
holds its bytes until the callback. The state of a call has been released once if its read is over, and
not before. -/
structure Sound (s : SockRecv) : Prop where
  bytes : s.calls.flatMap Call.bytes = s.handed
  late : s.late = []
  landed : ∀ c ∈ s.calls, ∀ buffer, c.kind = .recvInto buffer → c.future = .pending →
    (s.memory buffer).take c.waiting.length = c.waiting
  once : ∀ c ∈ s.calls, c.releases = if c.phase = .over then 1 else 0

/-- The bytes of the step reach a future: `io.queue` does not fail with the read in the ring, a read is
completed with bytes only while its future is not cancelled, bytes that wait for the callback are not
given up by a cancellation, and their callback is run by the open loop and finds memory. -/
def Delivers (s : SockRecv) (e : Event) : Prop :=
  (s.step e).isSome →
    match e with
    | .call kind queue => s.immediate kind = false → queue ≠ .left
    | .complete i result => ∀ c ∈ s.calls[i]?, c.future = .cancelled → result.bytes = []
    | .run i cancelled objects =>
      ∀ c ∈ s.calls[i]?, c.future = .pending → c.waiting ≠ [] → cancelled = false ∧ objects = true
    | .cancel => ∀ c ∈ s.calls.getLast?, c.future = .pending → c.waiting = []

variable {s s' : SockRecv} {i : ℕ} {c c' : Call}

/-- A call with those before and behind it, and the list with another in its place. -/
theorem split_calls {calls : List Call} (h : calls[i]? = some c) (c' : Call) :
    ∃ before after, calls = before ++ c :: after ∧ calls.set i c' = before ++ c' :: after := by
  obtain ⟨hi, rfl⟩ := List.getElem?_eq_some_iff.mp h
  refine ⟨calls.take i, calls.drop (i + 1), ?_, ?_⟩
  · simp
  · rw [List.set_eq_take_append_cons_drop, if_pos hi]

theorem Inv.new (memory : ℕ → Bytes) : Inv (new memory) :=
  ⟨fun _ h => absurd h List.not_mem_nil, fun _ h => absurd h List.not_mem_nil⟩

theorem Sound.new (memory : ℕ → Bytes) : Sound (new memory) :=
  ⟨rfl, rfl, fun _ h => absurd h List.not_mem_nil, fun _ h => absurd h List.not_mem_nil⟩

/-- A pending call is the last. -/
theorem Inv.after_eq_nil {before after : List Call} (h : Inv s)
    (hcalls : s.calls = before ++ c :: after) (hpending : c.future = .pending) : after = [] := by
  cases after with
  | nil => rfl
  | cons a after =>
    have hlast := h.last c (by rw [hcalls, List.dropLast_append_cons]; simp)
    exact absurd hpending hlast

/-- Another call in the place of one: consistent, and pending only if that one was. -/
theorem Inv.replace {before after : List Call} (h : Inv s) (hcalls : s.calls = before ++ c :: after)
    (hok : c'.Ok) (hpending : c'.future = .pending → c.future = .pending)
    (hcalls' : s'.calls = before ++ c' :: after) : Inv s' := by
  have hok' := h.ok
  have hlast := h.last
  rw [hcalls] at hok' hlast
  constructor
  · intro x hx
    rw [hcalls'] at hx
    simp only [List.mem_append, List.mem_cons] at hx hok'
    rcases hx with hx | rfl | hx
    · exact hok' x (Or.inl hx)
    · exact hok
    · exact hok' x (Or.inr (Or.inr hx))
  · intro x hx
    rw [hcalls', List.dropLast_append_cons] at hx
    rw [List.dropLast_append_cons] at hlast
    cases after with
    | nil => exact hlast x (by simpa using hx)
    | cons a after =>
      simp only [List.dropLast_cons_cons, List.mem_append, List.mem_cons] at hx hlast
      rcases hx with hx | rfl | hx
      · exact hlast x (Or.inl hx)
      · exact fun hx => hlast c (Or.inr (Or.inl rfl)) (hpending hx)
      · exact hlast x (Or.inr (Or.inr hx))

/-- A call is consistent when it returns or raises. -/
theorem called_ok (s : SockRecv) (kind : Kind) (queue : Enqueue) : (s.called kind queue).Ok := by
  unfold called
  split_ifs
  · exact Outcome.noConfusion
  · cases queue with
    | queued => exact fun _ => Or.inl rfl
    | refused => exact Outcome.noConfusion
    | left => exact fun hreleases => absurd hreleases Nat.one_ne_zero

/-- The callback ends a future that is pending. -/
theorem settle_ne_pending (s : SockRecv) (c : Call) (result : Result) (cancelled objects : Bool) :
    s.settle c result cancelled objects ≠ .pending := by
  unfold settle
  by_cases hpending : c.future ≠ .pending
  · rw [if_pos hpending]
    exact hpending
  rw [if_neg hpending]
  cases cancelled
  · rw [if_neg Bool.false_ne_true]
    cases result with
    | error err => exact Outcome.noConfusion
    | data chunk => cases objects <;> cases c.kind <;> exact Outcome.noConfusion
  · exact Outcome.noConfusion

/-! ### What the events do -/

theorem complete_eq {result : Result} (hs : s.step (.complete i result) = some s') :
    ∃ c, s.calls[i]? = some c ∧ (c.phase = .armed ∧ result.bytes.length ≤ s.size c.kind) ∧
      s' = s.complete i c result := by
  simp only [SockRecv.step] at hs
  split at hs
  · rename_i c hc
    split_ifs at hs with hguard
    exact ⟨c, hc, hguard, (Option.some.inj hs).symm⟩
  · exact nomatch hs

theorem run_eq {cancelled objects : Bool} (hs : s.step (.run i cancelled objects) = some s') :
    ∃ c result before after, s.calls[i]? = some c ∧ c.phase = .completed result ∧
      s.calls = before ++ c :: after ∧
      s' = { s with
        calls := before ++
          { c with
            phase := .over
            future := s.settle c result cancelled objects
            releases := c.releases + 1 } :: after } := by
  simp only [SockRecv.step] at hs
  split at hs
  · rename_i c hc
    split at hs
    · rename_i result hphase
      obtain ⟨before, after, hcalls, hset⟩ := split_calls hc
        { c with
          phase := .over
          future := s.settle c result cancelled objects
          releases := c.releases + 1 }
      obtain rfl := Option.some.inj hs
      exact ⟨c, result, before, after, hc, hphase, hcalls, by rw [hset]⟩
    · exact nomatch hs
  · exact nomatch hs

theorem cancel_eq (hs : s.step .cancel = some s') :
    ∃ c, s.calls.getLast? = some c ∧ s.calls = s.calls.dropLast ++ [c] ∧
      (c.future = .pending ∧ s' = { s with calls := s.calls.dropLast ++ [{ c with future := .cancelled }] } ∨
        c.future ≠ .pending ∧ s' = s) := by
  simp only [SockRecv.step] at hs
  split at hs
  · rename_i c hc
    refine ⟨c, hc, (List.dropLast_append_getLast? c hc).symm, ?_⟩
    split_ifs at hs with hpending
    · exact .inl ⟨hpending, (Option.some.inj hs).symm⟩
    · exact .inr ⟨hpending, (Option.some.inj hs).symm⟩
  · exact nomatch hs

theorem Inv.step {e : Event} (h : Inv s) (hs : s.step e = some s') : Inv s' := by
  cases e with
  | call kind queue =>
    simp only [SockRecv.step] at hs
    split_ifs at hs with hdone
    obtain rfl := Option.some.inj hs
    constructor
    · intro c hc
      rcases List.mem_append.mp hc with hc | hc
      · exact h.ok c hc
      · obtain rfl := List.mem_singleton.mp hc
        exact called_ok s kind queue
    · intro c hc
      have hdrop : (s.recv kind queue).calls.dropLast = s.calls := List.dropLast_concat
      rw [hdrop] at hc
      rcases List.eq_nil_or_concat' s.calls with hnil | ⟨calls, last, hcalls⟩
      · rw [hnil] at hc
        exact absurd hc List.not_mem_nil
      · rw [hcalls] at hc hdone
        have hlast := h.last
        rw [hcalls, List.dropLast_concat] at hlast
        rcases List.mem_append.mp hc with hc | hc
        · exact hlast c hc
        · obtain rfl := List.mem_singleton.mp hc
          exact hdone c (by simp)
  | complete i result =>
    obtain ⟨c, hc, hguard, rfl⟩ := complete_eq hs
    obtain ⟨before, after, hcalls, hset⟩ := split_calls hc { c with phase := .completed result }
    have hok := h.ok c (List.mem_of_getElem? hc)
    rw [Call.Ok, hguard.1] at hok
    refine @Inv.replace s _ c { c with phase := .completed result } before after h hcalls hok id ?_
    rw [← hset]
    unfold SockRecv.complete
    cases c.kind <;> rfl
  | run i cancelled objects =>
    obtain ⟨c, result, before, after, hc, hphase, hcalls, rfl⟩ := run_eq hs
    have hsettled := settle_ne_pending s c result cancelled objects
    refine h.replace hcalls ?_ (fun hp => absurd hp hsettled) rfl
    exact hsettled
  | cancel =>
    obtain ⟨c, hc, hcalls, ⟨hpending, rfl⟩ | ⟨-, rfl⟩⟩ := cancel_eq hs
    · have hok := h.ok c (List.mem_of_getLast? hc)
      refine h.replace hcalls ?_ (fun hp => Outcome.noConfusion hp) rfl
      unfold Call.Ok at hok ⊢
      dsimp only
      split at hok
      · exact fun _ => Or.inr rfl
      · exact fun _ => Or.inr rfl
      · exact absurd hpending hok
      · exact absurd hpending hok
    · exact h

/-! ### When no byte is lost -/

/-- Another call in the place of one, its state released if it is over: the others are as before. -/
theorem Sound.once_replace {before after : List Call} (h : Sound s) (hcalls : s.calls = before ++ c :: after)
    (honce : c'.releases = if c'.phase = .over then 1 else 0) :
    ∀ x ∈ before ++ c' :: after, x.releases = if x.phase = .over then 1 else 0 := by
  have hold := h.once
  rw [hcalls] at hold
  intro x hx
  simp only [List.mem_append, List.mem_cons] at hx hold
  rcases hx with hx | rfl | hx
  · exact hold x (Or.inl hx)
  · exact honce
  · exact hold x (Or.inr (Or.inr hx))

/-- As long as the read of a call is not over its future is pending or was cancelled. -/
theorem Sound.future_of_not_over (hinv : Inv s) (h : Sound s) (hmem : c ∈ s.calls)
    (hphase : c.phase = .armed ∨ ∃ result, c.phase = .completed result) :
    (c.future = .pending ∨ c.future = .cancelled) ∧ c.releases = 0 := by
  have hok := hinv.ok c hmem
  have honce := h.once c hmem
  rcases hphase with hphase | ⟨result, hphase⟩
  · rw [Call.Ok, hphase] at hok
    rw [hphase, if_neg Phase.noConfusion] at honce
    exact ⟨hok honce, honce⟩
  · rw [Call.Ok, hphase] at hok
    rw [hphase, if_neg Phase.noConfusion] at honce
    exact ⟨hok honce, honce⟩

theorem flatMap_split (before after : List Call) (c : Call) :
    (before ++ c :: after).flatMap Call.bytes =
      before.flatMap Call.bytes ++ (c.bytes ++ after.flatMap Call.bytes) := by
  rw [List.flatMap_append, List.flatMap_cons]

/-- Another call in the place of one, with nothing handed out: sound exactly when both have the same
bytes. -/
theorem Sound.replace_iff {before after : List Call} (h : Sound s)
    (hcalls : s.calls = before ++ c :: after) (hpending : c'.future ≠ .pending)
    (honce : c'.releases = if c'.phase = .over then 1 else 0)
    (hcalls' : s' = { s with calls := before ++ c' :: after }) : Sound s' ↔ c'.bytes = c.bytes := by
  have hbytes := h.bytes
  have hlanded := h.landed
  rw [hcalls, flatMap_split] at hbytes
  rw [hcalls] at hlanded
  subst hcalls'
  constructor
  · intro h'
    have hbytes' := h'.bytes
    rw [flatMap_split, ← hbytes] at hbytes'
    exact List.append_cancel_right (List.append_cancel_left hbytes')
  · intro heq
    refine ⟨?_, h.late, ?_, h.once_replace hcalls honce⟩
    · rw [flatMap_split, heq]
      exact hbytes
    · intro x hx buffer hkind hx'
      simp only [List.mem_append, List.mem_cons] at hx hlanded
      rcases hx with hx | rfl | hx
      · exact hlanded x (Or.inl hx) buffer hkind hx'
      · exact absurd hx' hpending
      · exact hlanded x (Or.inr (Or.inr hx)) buffer hkind hx'

theorem bytes_of_completed {result : Result} (hphase : c.phase = .completed result)
    (hpending : c.future = .pending) : c.bytes = result.bytes ∧ c.waiting = result.bytes := by
  cases result <;> simp [Call.bytes, Call.waiting, hphase, hpending, Result.bytes]

theorem bytes_of_cancelled (h : c.future = .cancelled) : c.bytes = [] := by
  simp [Call.bytes, h]

/-- The kernel completes a read: sound exactly when no bytes go to a cancelled call. -/
theorem Sound.complete_iff {result : Result} (hinv : Inv s) (h : Sound s) (hc : s.calls[i]? = some c) (hphase : c.phase = .armed) :
    Sound (s.complete i c result) ↔ (c.future = .cancelled → result.bytes = []) := by
  obtain ⟨before, after, hcalls, hset⟩ := split_calls hc { c with phase := .completed result }
  obtain ⟨hfuture, hreleases⟩ := h.future_of_not_over hinv (List.mem_of_getElem? hc) (.inl hphase)
  have hbytes := h.bytes
  rw [hcalls, flatMap_split] at hbytes
  have hcalls' : (s.complete i c result).calls =
      before ++ { c with phase := .completed result } :: after := by
    rw [← hset]
    unfold complete
    cases c.kind <;> rfl
  have hhanded : (s.complete i c result).handed = s.handed ++ result.bytes := by
    unfold complete
    cases c.kind <;> rfl
  have honce : ∀ x ∈ (s.complete i c result).calls, x.releases = if x.phase = .over then 1 else 0 := by
    rw [hcalls']
    exact h.once_replace hcalls (by simpa using hreleases)
  rcases hfuture with hpending | hcancelled
  · -- the last call, whose future the bytes will reach
    refine iff_of_true ?_ fun hcancelled => absurd (hpending.symm.trans hcancelled)
      Outcome.noConfusion
    obtain rfl := hinv.after_eq_nil hcalls hpending
    have hold : c.bytes = [] := by simp [Call.bytes, Call.waiting, hpending, hphase]
    have hnew := @bytes_of_completed { c with phase := .completed result } result rfl hpending
    refine ⟨?_, ?_, ?_, honce⟩
    · rw [hcalls', hhanded, flatMap_split, hnew.1, ← hbytes, hold]
      simp
    · have hne : ¬(c.future = .cancelled ∧ result.bytes ≠ []) := by simp [hpending]
      unfold complete
      cases c.kind
      · exact h.late
      · simp only [if_neg hne]
        exact h.late
    · intro x hx buffer hkind hx'
      rw [hcalls'] at hx
      rcases List.mem_append.mp hx with hx | hx
      · have hlast := hinv.last x (by rw [hcalls, List.dropLast_concat]; exact hx)
        exact absurd hx' hlast
      · obtain rfl := List.mem_singleton.mp hx
        have hkind' : c.kind = .recvInto buffer := hkind
        rw [hnew.2]
        unfold complete
        rw [hkind']
        simp
  · have hold := bytes_of_cancelled hcancelled
    have hnew := @bytes_of_cancelled { c with phase := .completed result } hcancelled
    simp only [hcancelled, true_implies]
    constructor
    · intro h'
      have hbytes' := h'.bytes
      rw [hcalls', hhanded, flatMap_split, hnew, ← hbytes, hold] at hbytes'
      exact List.self_eq_append_right.mp hbytes'
    · intro hempty
      have hmemory : (s.complete i c result).memory = s.memory := by
        unfold complete
        cases c.kind <;> simp [hempty]
      refine ⟨?_, ?_, ?_, honce⟩
      · rw [hcalls', hhanded, flatMap_split, hnew, ← hbytes, hold, hempty, List.append_nil]
      · unfold complete
        cases c.kind
        · exact h.late
        · simp [hempty, h.late]
      · intro x hx buffer hkind hx'
        rw [hmemory]
        have hlanded := h.landed
        rw [hcalls] at hlanded
        rw [hcalls'] at hx
        simp only [List.mem_append, List.mem_cons] at hx hlanded
        rcases hx with hx | rfl | hx
        · exact hlanded x (Or.inl hx) buffer hkind hx'
        · exact absurd (hcancelled.symm.trans hx') Outcome.noConfusion
        · exact hlanded x (Or.inr (Or.inr hx)) buffer hkind hx'

/-- What the callback gives a pending future are the bytes that waited, when it can. -/
theorem settled_bytes_iff {result : Result} {cancelled objects : Bool} (h : Sound s)
    (hmem : c ∈ s.calls) (hphase : c.phase = .completed result)
    (hc' : c' = { c with
      phase := .over
      future := s.settle c result cancelled objects
      releases := c.releases + 1 }) (hpending : c.future = .pending) :
    c'.bytes = c.bytes ↔ (c.waiting ≠ [] → cancelled = false ∧ objects = true) := by
  obtain ⟨hbytes, hwaiting⟩ := bytes_of_completed hphase hpending
  subst hc'
  rw [hbytes, hwaiting, Call.bytes]
  dsimp only
  unfold settle
  rw [if_neg (not_not.mpr hpending)]
  cases cancelled with
  | true => simp
  | false =>
    cases result with
    | error err => simp [Result.bytes]
    | data chunk =>
      cases objects with
      | false => simp
      | true =>
        rcases hkind : c.kind with nbytes | buffer
        · simp [Result.bytes]
        · have hlanded := h.landed c hmem buffer hkind hpending
          rw [hwaiting] at hlanded
          simpa [Result.bytes] using hlanded

/-- A call is sound unless `io.queue` fails with its read in the ring. -/
theorem Sound.called_iff (h : Sound s) (kind : Kind) (queue : Enqueue) :
    Sound (s.recv kind queue) ↔ (s.immediate kind = false → queue ≠ .left) := by
  have hnew : ∀ x ∈ (s.recv kind queue).calls, x ∈ s.calls ∨ x = s.called kind queue := by
    intro x hx
    simpa [recv] using hx
  have hsound : (s.called kind queue).bytes = [] → (s.called kind queue).waiting = [] →
      ((s.called kind queue).releases = if (s.called kind queue).phase = .over then 1 else 0) →
        Sound (s.recv kind queue) := by
    intro hbytes hwaiting honce
    constructor
    · unfold recv
      rw [List.flatMap_append, List.flatMap_singleton, hbytes, List.append_nil]
      exact h.bytes
    · exact h.late
    · intro x hx buffer hkind hpending
      rcases hnew x hx with hx | rfl
      · exact h.landed x hx buffer hkind hpending
      · rw [hwaiting]
        rfl
    · intro x hx
      rcases hnew x hx with hx | rfl
      · exact h.once x hx
      · exact honce
  by_cases himmediate : s.immediate kind
  · have hcall : s.called kind queue = ⟨kind, .unqueued, .result [], 0⟩ := if_pos himmediate
    rw [hcall] at hsound
    exact iff_of_true (hsound rfl rfl rfl) fun h => absurd (h.symm.trans himmediate) Bool.false_ne_true
  · have hcall : s.called kind queue = Call.queue kind queue := if_neg himmediate
    simp only [Bool.not_eq_true _ ▸ himmediate, true_implies]
    cases queue with
    | queued =>
      rw [hcall] at hsound
      exact iff_of_true (hsound rfl rfl rfl) Enqueue.noConfusion
    | refused =>
      rw [hcall] at hsound
      exact iff_of_true (hsound rfl rfl rfl) Enqueue.noConfusion
    | left =>
      refine iff_of_false ?_ fun h => h rfl
      intro h'
      have honce := h'.once (Call.queue kind .left) (by simp [recv, hcall])
      exact Nat.one_ne_zero honce

theorem sound_iff {e : Event} (hinv : Inv s) (h : Sound s) (hs : s.step e = some s') :
    Sound s' ↔ Delivers s e := by
  have hdelivers : ∀ {P : Prop}, ((s.step e).isSome → P) ↔ P := by simp [hs]
  unfold Delivers
  rw [hdelivers]
  cases e with
  | call kind queue =>
    simp only [step] at hs
    split_ifs at hs
    obtain rfl := Option.some.inj hs
    exact h.called_iff kind queue
  | complete i result =>
    obtain ⟨c, hc, hguard, rfl⟩ := complete_eq hs
    rw [Sound.complete_iff hinv h hc hguard.1]
    simp [hc]
  | run i cancelled objects =>
    obtain ⟨c, result, before, after, hc, hphase, hcalls, rfl⟩ := run_eq hs
    have hmem := List.mem_of_getElem? hc
    obtain ⟨hfuture, hreleases⟩ := h.future_of_not_over hinv hmem (.inr ⟨result, hphase⟩)
    rw [h.replace_iff hcalls (settle_ne_pending s c result cancelled objects)
      (congrArg Nat.succ hreleases) rfl]
    simp only [hc, Option.mem_some_iff, forall_eq']
    rcases hfuture with hpending | hcancelled
    · rw [settled_bytes_iff h hmem hphase rfl hpending]
      simp [hpending]
    · refine iff_of_true ?_ fun hpending => absurd (hcancelled.symm.trans hpending)
        Outcome.noConfusion
      rw [bytes_of_cancelled hcancelled]
      refine bytes_of_cancelled ?_
      simp [settle, hcancelled]
  | cancel =>
    obtain ⟨c, hc, hcalls, hcase⟩ := cancel_eq hs
    simp only [hc, Option.mem_some_iff, forall_eq']
    obtain ⟨hpending, rfl⟩ | ⟨hpending, rfl⟩ := hcase
    · refine (h.replace_iff hcalls ?_ ?_ rfl).trans ?_
      · exact Outcome.noConfusion
      · exact h.once c (List.mem_of_getLast? hc)
      rw [bytes_of_cancelled rfl]
      have hbytes : c.bytes = c.waiting := by
        unfold Call.bytes
        rw [hpending]
      rw [hbytes]
      exact ⟨fun h _ => h.symm, fun h => (h hpending).symm⟩
    · exact iff_of_true h fun hp => absurd hp hpending

/-- A run delivers, in the order of the calls, exactly the bytes the kernel has handed out, writes
into no buffer after a cancellation and releases the state of every call whose read is over once, and of
no other, exactly when no call fails with its read in the ring, no bytes go to a cancelled call, none that
wait for their callback are given up by a cancellation, and their callback is run by the open loop and
finds memory. -/
theorem received_iff (memory : ℕ → Bytes) (es : List Event) :
    Runs.Always step Sound (new memory) es ↔ Runs.Along step Delivers (new memory) es := by
  refine Runs.always_iff_along (Inv.new memory) (Sound.new memory) (fun _ _ _ => Inv.step)
    (fun _ _ _ => sound_iff) ?_
  intro s e hs hsome
  rw [hs] at hsome
  exact absurd hsome Bool.false_ne_true

/-- A receive that timed out takes the bytes of the next one, and one into a buffer writes into it
after its cancellation. A receive that fails with its read in the ring takes the bytes of the next one too,
and its state is released twice. -/
theorem cancelled_receive_takes_bytes :
    ((Runs.exec step (new fun _ => [0]) [.call (.recv 4) .queued, .cancel, .call (.recv 4) .queued,
        .complete 0 (.data [1, 2]), .run 0 false true]).map fun s =>
          (s.handed, s.calls.map Call.bytes)) = some ([1, 2], [[], []]) ∧
      ((Runs.exec step (new fun _ => [0]) [.call (.recvInto 3) .queued, .cancel,
        .complete 0 (.data [9])]).map fun s => (s.memory 3, s.late)) = some ([9], [0]) ∧
      ((Runs.exec step (new fun _ => [0]) [.call (.recv 4) .left, .call (.recv 4) .queued,
        .complete 0 (.data [1, 2]), .run 0 false true]).map fun s =>
          (s.handed, s.calls.map Call.bytes, s.calls.map Call.releases)) =
            some ([1, 2], [[], []], [2, 0]) ∧
      ¬Runs.Always step Sound (new fun _ => [0]) [.call (.recv 4) .queued, .cancel,
        .call (.recv 4) .queued, .complete 0 (.data [1, 2]), .run 0 false true] := by
  refine ⟨by decide, by decide, by decide, fun h => ?_⟩
  exact absurd (h.last rfl).bytes (by decide)

end SockRecv

end Talyn
