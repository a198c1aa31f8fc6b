import Talyn.Transports.Pools
import Talyn.Transports.ProtocolSwitch

/-!
# Silence after `close` and `pause_reading`

Any number of stream transports, each with its reads and its records of the completion batch. The calls
that its user makes, also from the callbacks of the other transports, are events between those of the loop.
A transport remembers whether `close` or `pause_reading` has returned, and what `data_received` and
`buffer_updated` were given all the same (`broken`).

`dispatch_completion_batch` only looks at `dispatch_generation`, which neither call moves while a side of
the transport is not closed. A read outside of the batch is given to the protocol unless the transport is
closing. These are the only ways to break the silence (`Handover.Due`).
-/

namespace Talyn

namespace Handover

/-- An event that would queue a read, where `io.queue` fails and raises `exc`; `none` for the others. -/
def refuseRead (w : Handover) (exc : Exc) : Event → Option Handover
  | .transport (.resumeReading task) =>
    (w.machine.refuseRead exc (.resumeReading task)).map (w.settle 0)
  | .returned _ keepOpen task =>
    (w.machine.refuseRead exc (.returned keepOpen task)).map (settle { w with callers := w.callers.tail } 0)
  | .completed i res false _ =>
    if w.machine.frames ≠ [] ∨ w.records ≠ [] then none
    else
      let refused := fun batched => ((w.machine.stream.beginRead batched).refuseRearm exc).map fun out =>
        settle { w with reads := w.reads.eraseIdx i } 0 (.push [] out)
      match w.reads[i]? with
      | some ⟨_, _, .inFlight⟩ => if Errno.ofRes res = .canceled then refused false else none
      | some ⟨_, _, .batched _⟩ => refused true
      | _ => none
  | _ => none

/-- A failing flush leaves a read in the ring of which the transport does not know. -/
def leave (w : Handover) : Option Region → Handover
  | none => w
  | some region => { w with reads := w.reads ++ [⟨w.next, region, .inFlight⟩], next := w.next + 1 }

/-- The dispatcher passes the bytes of a record on. -/
def Live (w : Handover) (r : Record) : Prop :=
  w.machine.stream.dispatchGeneration = r.generation ∧
    match r.op, w.machine.stream.protocol.type with
    | .dataReceived, .legacy => r.source.isSome = true
    | .bufferUpdated, .buffered => True
    | _, _ => False

/-- The first record is live, or a read outside of the batch ends with data while nothing of the transport
is closed or closing. -/
def Due (w : Handover) : Event → Prop
  | .dispatched => ∃ r rest, w.records = r :: rest ∧ w.Live r
  | .completed i res cancelled _ => w.IsOpen ∧ cancelled = false ∧ 0 < res ∧
      ∃ r, w.reads[i]? = some r ∧ r.undelivered ≠ none
  | _ => False

end Handover

/-- A transport, and what the calls of its user have promised. -/
structure Silence where
  transport : Handover
  /-- `close` has returned -/
  closed : Bool
  /-- `pause_reading` has returned, and `resume_reading` was not called since -/
  paused : Bool
  /-- what was delivered after `closed` or `paused` was set -/
  broken : List Handover.Delivery

namespace Silence

/-- What can happen to a transport. -/
inductive Event
  | handover (e : Handover.Event)
  /-- an event that closes the read side, where the `CancelIO` of the read cannot be queued -/
  | uncancelled (e : Handover.Event)
  /-- `io.queue` fails for the read that an event would queue; `left` is the memory of a read that stays in
  the ring -/
  | refused (e : Handover.Event) (exc : Exc) (left : Option Handover.Region)
  /-- the argument of the callback for the first record cannot be built, and the record is skipped -/
  | skipped
  /-- that of the callback for a read outside of the batch -/
  | unbuilt (i nbytes : ℕ) (task : TaskId) (exc : Exc)
  deriving DecidableEq, Repr

/-- The event without the failure of its `CancelIO`. -/
def Event.handover? : Event → Option Handover.Event
  | .handover e | .uncancelled e => some e
  | _ => none

/-- What becomes of the transport; `none` when the event cannot happen. -/
def next (w : Handover) : Event → Option Handover
  | .handover e => w.step e
  | .uncancelled e =>
    (w.step e).bind fun v =>
      let read := w.machine.stream.read
      let s := v.machine.stream
      if s.isClosing && s.read.isClosing && !s.read.closed && !read.isClosing && !read.cancelling then
        some { v with machine.stream := { s with read := read } }
      else none
  | .refused e exc left => (w.refuseRead exc e).map (·.leave left)
  | .skipped =>
    match w.records with
    | _ :: rest => some { w with records := rest }
    | [] => none
  | .unbuilt i nbytes task exc =>
    (w.step (.completed i nbytes false task)).bind fun v =>
      if v.deliveries = w.deliveries then none
      else (v.step (.transport (.raised exc))).map fun v => { v with deliveries := w.deliveries }

/-- `close` has returned after the event. -/
def closes (s : Silence) (e : Event) : Bool :=
  match e.handover? with
  | some (.transport .close) => true
  | _ => s.closed

/-- Reading is paused after the event. On a closed transport `pause_reading` raises. -/
def pauses (s : Silence) : Event → Bool
  | .handover (.transport .pauseReading) => s.paused || !s.transport.machine.stream.closed
  | .handover (.transport (.resumeReading _)) | .refused (.transport (.resumeReading _)) _ _ => false
  | _ => s.paused

/-- One event of a transport. -/
def step (s : Silence) (e : Event) : Option Silence :=
  (next s.transport e).map fun w =>
    { transport := w
      closed := s.closes e
      paused := s.pauses e
      broken :=
        if s.closed || s.paused then s.broken ++ w.deliveries.drop s.transport.deliveries.length
        else s.broken }

/-- The arguments of a new transport. -/
structure Opening where
  protocol : Protocol
  fd : ℕ
  fixedFileIndex : ℕ
  ownsFd : Bool
  serverRef : Bool
  task : TaskId

/-- A new transport. -/
def init (o : Opening) : Silence where
  transport := .init o.protocol o.fd o.fixedFileIndex o.ownsFd o.serverRef o.task
  closed := false
  paused := false
  broken := []

/-- The condition on an event: no live record is dispatched to a transport whose `close` has returned or
that is paused, and no read outside of the batch ends there with data. -/
def Obeys (s : Silence) (e : Event) : Prop :=
  (s.step e).isSome → ∀ e', e.handover? = some e' → s.transport.Due e' →
    s.closed = false ∧ s.paused = false

/-- One event of one of the transports. -/
def stepAt {ι : Type*} [DecidableEq ι] (w : ι → Silence) (e : ι × Event) : Option (ι → Silence) :=
  ((w e.1).step e.2).map (Function.update w e.1)

end Silence

/-! ### A closed transport stays closed -/

namespace Stream

theorem IsOpen.of_keeps {s t : Stream} (h : t.IsOpen) (hk : s.Keeps t) : s.IsOpen := h.of_gate (hk.gate h)

theorem not_isOpen_transportClose (s : Stream) : ¬ s.transportClose.IsOpen := by
  intro h
  unfold transportClose at h
  split at h
  · rename_i hclosed
    rw [h.2.2.1, h.2.2.2] at hclosed
    exact nomatch hclosed
  · dsimp only at h
    split at h
    · have hb : Beside { s with isClosing := true, closed := true }
          ({ s with isClosing := true, closed := true }.cancelAndCloseFd.scheduleConnectionLostOnce) :=
        (beside_cancelAndCloseFd _).trans (beside_scheduleConnectionLostOnce _)
      exact nomatch (h.of_keeps hb.keeps).2.2.1
    · exact nomatch (h.of_keeps (beside_closeTransports _ _).keeps).2.2.1

theorem keeps_beginRead (s : Stream) (batchDispatched : Bool) : Keeps s (s.beginRead batchDispatched) := by
  unfold beginRead
  split
  · exact .same rfl rfl
  · exact .same rfl rfl

theorem keeps_refuseRearm {s : Stream} {exc : Exc} {out : Stream × Option Frame}
    (hs : s.refuseRearm exc = some out) : Keeps s out.1 := by
  obtain ⟨-, hs⟩ := Option.ite_none_left_eq_some.1 hs
  obtain rfl := Option.some.inj hs
  have ht : Keeps s { s with protocolBuffer := none } := .same rfl rfl
  exact ht.trans (keeps_failRead _ _ exc)

/-- The callback of a read passes its bytes on only while the transport is open, and not at a teardown. -/
theorem isOpen_of_readOperationCompleted {s : Stream} {data : CallbackData} {task : TaskId}
    {held : Option ℕ} (h : (s.readOperationCompleted data task).2 = some (.dataReceived held)) :
    s.IsOpen ∧ data.cancelled = false := by
  have hc : data.cancelled = false := by
    by_contra hc
    unfold readOperationCompleted at h
    dsimp only at h
    rw [if_pos (by simpa using hc)] at h
    exact nomatch h
  obtain ⟨herr, -⟩ := readOperationCompleted_delivers h
  refine ⟨?_, hc⟩
  rw [readOperationCompleted_eq hc, herr] at h
  have ho : (s.entered data).IsOpen := by
    by_contra hno
    unfold streamReadCompleted at h
    dsimp only at h
    split at h
    · rw [if_neg fun hcanceled => nomatch hcanceled.1] at h
      exact nomatch h
    · rename_i hopen
      simp only [ne_eq, not_true_eq_false, false_or, Bool.not_eq_true, Bool.or_eq_false_iff] at hopen
      exact hno ⟨hopen.1.1.1, hopen.1.1.2, hopen.1.2, hopen.2⟩
  exact ho.of_gate (entered_gate s data)

end Stream

namespace Handover

variable {w v : Handover}

theorem keeps_refuseRead {m m' : Machine} {exc : Exc} {e : Talyn.Event} (hs : m.refuseRead exc e = some m') :
    m.stream.Keeps m'.stream := by
  have hrearm : ∀ {batched : Bool}, ((m.stream.beginRead batched).refuseRearm exc).map (Machine.push []) =
      some m' → m.stream.Keeps m'.stream := by
    intro batched hs
    obtain ⟨out, hout, rfl⟩ := Option.map_eq_some_iff.1 hs
    exact (m.stream.keeps_beginRead batched).trans (Stream.keeps_refuseRearm hout)
  unfold Machine.refuseRead at hs
  split at hs
  · obtain ⟨-, hs⟩ := Option.ite_none_right_eq_some.1 hs
    obtain rfl := Option.some.inj hs
    exact .same rfl rfl
  · obtain ⟨-, hs⟩ := Option.ite_none_right_eq_some.1 hs
    exact hrearm hs
  · split at hs
    · exact hrearm hs
    · exact nomatch hs
  · obtain ⟨-, hs⟩ := Option.ite_none_right_eq_some.1 hs
    obtain rfl := Option.some.inj hs
    exact m.stream.keeps_failRead _ exc
  · rename_i site frames _
    obtain rfl := Option.some.inj hs
    exact keeps_frameRaised m.stream (.getBuffer site) exc
  · exact nomatch hs

/-! ### What an event does to the protocol -/

/-- What the callback of a read does, by what the transport makes of it. -/
theorem complete_spec (w : Handover) (i : ℕ) (r : Read) (data : CallbackData) (task : TaskId) :
    ((w.complete i r data task).IsOpen → w.IsOpen) ∧
      ∃ new, (w.complete i r data task).deliveries = w.deliveries ++ new ∧
        (new ≠ [] ↔ ∃ held, (w.machine.stream.readOperationCompleted data task).2 =
          some (.dataReceived held)) := by
  have hkeeps := w.machine.stream.keeps_readOperationCompleted data task
  unfold complete
  dsimp only
  refine ⟨fun ho => ((settle_isOpen _ _ _).1 ho).of_keeps hkeeps, ?_⟩
  rw [settle_deliveries]
  split
  · rename_i held heq
    exact ⟨_, rfl, iff_of_true (List.cons_ne_nil _ _) ⟨held, heq⟩⟩
  · rename_i hne
    exact ⟨[], (List.append_nil _).symm, iff_of_false (not_not_intro rfl) fun ⟨held, heq⟩ => hne held heq⟩

/-- The callback of a read: its bytes wait for it if the kernel stored some and they are not in a record. -/
theorem completed_cases {i : ℕ} {res : ℤ} {cancelled : Bool} {task : TaskId}
    (hs : w.step (.completed i res cancelled task) = some v) :
    ∃ r data, w.reads[i]? = some r ∧ v = w.complete i r data task ∧
      ((r.undelivered = none ∧ (data.res.toNat = 0 ∨ data.batchDispatched = true)) ∨
        (r.undelivered ≠ none ∧ ∃ nbytes : ℕ, res = nbytes ∧
          data = ⟨nbytes, .success, cancelled, false⟩)) := by
  unfold step at hs
  dsimp only at hs
  split at hs
  · exact nomatch hs
  · split at hs
    · rename_i hread
      split at hs
      · exact nomatch hs
      · rename_i hres
        refine ⟨_, _, hread, (Option.some.inj hs).symm, .inl ⟨rfl, .inl ?_⟩⟩
        exact Int.toNat_eq_zero.2 (not_lt.1 hres)
    · rename_i nbytes hread
      split at hs
      · exact nomatch hs
      · rename_i hres
        obtain rfl := not_ne_iff.1 hres
        exact ⟨_, _, hread, (Option.some.inj hs).symm, .inr ⟨nofun, nbytes, rfl, rfl⟩⟩
    · rename_i hread
      split at hs
      · exact nomatch hs
      · exact ⟨_, _, hread, (Option.some.inj hs).symm, .inl ⟨rfl, .inr rfl⟩⟩
    · exact nomatch hs

theorem delivers_completed {i : ℕ} {res : ℤ} {cancelled : Bool} {task : TaskId}
    (hs : w.step (.completed i res cancelled task) = some v) :
    ∃ new, v.deliveries = w.deliveries ++ new ∧
      (new ≠ [] ↔ w.Due (.completed i res cancelled task)) := by
  obtain ⟨r, data, hread, rfl, hdata⟩ := completed_cases hs
  obtain ⟨new, hnew, hiff⟩ := (w.complete_spec i r data task).2
  refine ⟨new, hnew, hiff.trans ⟨?_, ?_⟩⟩
  · rintro ⟨held, heq⟩
    obtain ⟨-, hn, hb⟩ := Stream.readOperationCompleted_delivers heq
    obtain ⟨ho, hc⟩ := Stream.isOpen_of_readOperationCompleted heq
    obtain ⟨-, hzero | hbatched⟩ | ⟨hu, nbytes, rfl, rfl⟩ := hdata
    · exact absurd hzero hn
    · exact nomatch hb.symm.trans hbatched
    · exact ⟨ho, hc, Int.lt_of_toNat_lt (Nat.pos_of_ne_zero hn), r, hread, hu⟩
  · rintro ⟨ho, rfl, hpos, r', hread', hu⟩
    obtain rfl := Option.some.inj (hread.symm.trans hread')
    obtain ⟨hnone, -⟩ | ⟨-, nbytes, rfl, rfl⟩ := hdata
    · exact absurd hnone hu
    · have hn : nbytes ≠ 0 := by omega
      obtain ⟨held, heq, -⟩ := Stream.readOperationCompleted_open (s := w.machine.stream) ho hn task
      exact ⟨held, heq⟩

theorem delivers_dispatched (hs : w.step .dispatched = some v) :
    ∃ new, v.deliveries = w.deliveries ++ new ∧ (new ≠ [] ↔ w.Due .dispatched) := by
  unfold step at hs
  dsimp only at hs
  split at hs
  · exact nomatch hs
  split at hs
  swap
  · exact nomatch hs
  rename_i r rest hrecords
  obtain rfl := Option.some.inj hs
  have hlive : w.Due .dispatched ↔ w.Live r := by
    constructor
    · rintro ⟨r', rest', hrecords', h⟩
      obtain rfl := (List.cons.inj (hrecords.symm.trans hrecords')).1
      exact h
    · exact fun h => ⟨r, rest, hrecords, h⟩
  rw [hlive]
  unfold dispatch Live
  dsimp only
  split
  · rename_i hgeneration
    exact ⟨[], (List.append_nil _).symm, iff_of_false (not_not_intro rfl) fun h => hgeneration h.1⟩
  · rename_i hgeneration
    have hgeneration := not_ne_iff.1 hgeneration
    split
    · rename_i hop htype hsource
      rw [hop, htype, hsource]
      exact ⟨_, rfl, iff_of_true (List.cons_ne_nil _ _) ⟨hgeneration, rfl⟩⟩
    · rename_i hop htype
      rw [hop, htype]
      exact ⟨_, rfl, iff_of_true (List.cons_ne_nil _ _) ⟨hgeneration, trivial⟩⟩
    · rename_i hbuffer hdata
      refine ⟨[], (List.append_nil _).symm, iff_of_false (not_not_intro rfl) fun h => ?_⟩
      have hlive := h.2
      split at hlive
      · rename_i hop htype
        obtain ⟨source, hsource⟩ := Option.isSome_iff_exists.1 hlive
        exact hdata source hop htype hsource
      · rename_i hop htype
        exact hbuffer hop htype
      · exact hlive

/-- The bytes that an event passes on, if any. -/
theorem delivers_step {e : Event} (hs : w.step e = some v) :
    ∃ new, v.deliveries = w.deliveries ++ new ∧ (new ≠ [] ↔ w.Due e) := by
  have hnone : v.deliveries = w.deliveries → ¬ w.Due e →
      ∃ new, v.deliveries = w.deliveries ++ new ∧ (new ≠ [] ↔ w.Due e) :=
    fun h hno => ⟨[], by rw [h, List.append_nil], iff_of_false (not_not_intro rfl) hno⟩
  cases e with
  | dispatched => exact delivers_dispatched hs
  | completed i res cancelled task => exact delivers_completed hs
  | transport e =>
    refine hnone ?_ id
    unfold step at hs
    dsimp only at hs
    split at hs
    · exact nomatch hs
    · obtain ⟨m, -, rfl⟩ := Option.map_eq_some_iff.1 hs
      exact settle_deliveries _ 0 m
  | returned memory keepOpen task =>
    refine hnone ?_ id
    unfold step at hs
    dsimp only at hs
    split at hs
    · exact nomatch hs
    · split at hs
      · obtain rfl := Option.some.inj hs
        exact settle_deliveries _ memory _
      · exact nomatch hs
  | setProtocol protocol methods =>
    obtain rfl := Option.some.inj hs
    exact hnone rfl id
  | stored i nbytes =>
    refine hnone ?_ id
    unfold step at hs
    dsimp only at hs
    split at hs
    · obtain ⟨-, hs⟩ := Option.ite_none_left_eq_some.1 hs
      obtain rfl := Option.some.inj hs
      rfl
    · exact nomatch hs
  | harvested i =>
    refine hnone ?_ id
    unfold step at hs
    dsimp only at hs
    split at hs
    · exact nomatch hs
    · split at hs
      · obtain rfl := Option.some.inj hs
        rfl
      · exact nomatch hs
  | dispatchAborted =>
    obtain rfl := Option.some.inj hs
    exact hnone rfl id

/-- No event of a transport opens it again. -/
theorem isOpen_of_step {e : Event} (hs : w.step e = some v) (hv : v.IsOpen) : w.IsOpen := by
  by_cases hout : e.outside = true
  · exact (isOpen_iff hs hout).1 hv
  cases e with
  | transport e =>
    unfold step at hs
    dsimp only at hs
    split at hs
    · exact nomatch hs
    · rename_i he
      obtain ⟨m, hm, rfl⟩ := Option.map_eq_some_iff.1 hs
      exact ((settle_isOpen _ 0 m).1 hv).of_keeps (keeps_machineStep hm (by simpa using he))
  | returned memory keepOpen task =>
    unfold step at hs
    dsimp only at hs
    split at hs
    · exact nomatch hs
    · split at hs
      · rename_i frame frames protocol type callers hframes hcallers
        obtain rfl := Option.some.inj hs
        exact ((settle_isOpen _ memory _).1 hv).of_keeps (keeps_frameReturned _ frame type keepOpen task)
      · exact nomatch hs
  | completed i res cancelled task =>
    obtain ⟨r, data, -, rfl, -⟩ := completed_cases hs
    exact (w.complete_spec i r data task).1 hv
  | _ => exact absurd rfl hout

/-- A refused read delivers nothing, and does not open the transport. -/
theorem refuseRead_spec {exc : Exc} {e : Event} (hs : w.refuseRead exc e = some v) :
    v.deliveries = w.deliveries ∧ (v.IsOpen → w.IsOpen) := by
  unfold refuseRead at hs
  split at hs
  · obtain ⟨m, hm, rfl⟩ := Option.map_eq_some_iff.1 hs
    exact ⟨settle_deliveries w 0 m, fun hv => ((settle_isOpen w 0 m).1 hv).of_keeps (keeps_refuseRead hm)⟩
  · obtain ⟨m, hm, rfl⟩ := Option.map_eq_some_iff.1 hs
    exact ⟨settle_deliveries _ 0 m, fun hv => ((settle_isOpen _ 0 m).1 hv).of_keeps (keeps_refuseRead hm)⟩
  · rename_i i _ _
    have hrefused : ∀ {batched : Bool}, (((w.machine.stream.beginRead batched).refuseRearm exc).map fun out =>
        settle { w with reads := w.reads.eraseIdx i } 0 (.push [] out)) = some v →
        v.deliveries = w.deliveries ∧ (v.IsOpen → w.IsOpen) := by
      intro batched hs
      obtain ⟨out, hout, rfl⟩ := Option.map_eq_some_iff.1 hs
      have hkeeps := (w.machine.stream.keeps_beginRead batched).trans (Stream.keeps_refuseRearm hout)
      exact ⟨settle_deliveries _ 0 _, fun hv => ((settle_isOpen _ 0 _).1 hv).of_keeps hkeeps⟩
    split at hs
    · exact nomatch hs
    · dsimp only at hs
      split at hs
      · obtain ⟨-, hs⟩ := Option.ite_none_right_eq_some.1 hs
        exact hrefused hs
      · exact hrefused hs
      · exact nomatch hs
  · exact nomatch hs

end Handover

namespace Silence

variable {w v : Handover} {s t : Silence}

/-- The bytes that an event passes on, if any; no event opens a transport again. -/
theorem next_spec {e : Event} (hs : next w e = some v) :
    (∃ new, v.deliveries = w.deliveries ++ new ∧
      (new ≠ [] ↔ ∃ e', e.handover? = some e' ∧ w.Due e')) ∧ (v.IsOpen → w.IsOpen) := by
  have hnone : e.handover? = none → v.deliveries = w.deliveries → ∃ new,
      v.deliveries = w.deliveries ++ new ∧ (new ≠ [] ↔ ∃ e', e.handover? = some e' ∧ w.Due e') :=
    fun he h => ⟨[], by rw [h, List.append_nil],
      iff_of_false (not_not_intro rfl) fun ⟨e', he', _⟩ => nomatch he.symm.trans he'⟩
  have hsome : ∀ {e' u}, e.handover? = some e' → w.step e' = some u → v.deliveries = u.deliveries →
      ∃ new, v.deliveries = w.deliveries ++ new ∧ (new ≠ [] ↔ ∃ e', e.handover? = some e' ∧ w.Due e') := by
    intro e' u he hu hv
    obtain ⟨new, hnew, hiff⟩ := Handover.delivers_step hu
    refine ⟨new, hv.trans hnew, hiff.trans ⟨fun h => ⟨e', he, h⟩, ?_⟩⟩
    rintro ⟨e'', he'', h⟩
    obtain rfl := Option.some.inj (he.symm.trans he'')
    exact h
  cases e with
  | handover e => exact ⟨hsome rfl hs rfl, Handover.isOpen_of_step hs⟩
  | uncancelled e =>
    obtain ⟨u, hu, hs⟩ := Option.bind_eq_some_iff.1 hs
    obtain ⟨hclosing, hs⟩ := Option.ite_none_right_eq_some.1 hs
    obtain rfl := Option.some.inj hs
    simp only [Bool.and_eq_true] at hclosing
    exact ⟨hsome rfl hu rfl, fun hv => nomatch hv.2.2.1.symm.trans hclosing.1.1.1.1⟩
  | refused e exc left =>
    obtain ⟨u, hu, rfl⟩ := Option.map_eq_some_iff.1 hs
    obtain ⟨hdeliveries, hopen⟩ := Handover.refuseRead_spec hu
    cases left with
    | none => exact ⟨hnone rfl hdeliveries, hopen⟩
    | some region => exact ⟨hnone rfl hdeliveries, hopen⟩
  | skipped =>
    unfold next at hs
    dsimp only at hs
    split at hs
    · obtain rfl := Option.some.inj hs
      exact ⟨hnone rfl rfl, id⟩
    · exact nomatch hs
  | unbuilt i nbytes task exc =>
    obtain ⟨u, hu, hs⟩ := Option.bind_eq_some_iff.1 hs
    obtain ⟨-, hs⟩ := Option.ite_none_left_eq_some.1 hs
    obtain ⟨x, hx, rfl⟩ := Option.map_eq_some_iff.1 hs
    exact ⟨hnone rfl rfl, fun hv => Handover.isOpen_of_step hu (Handover.isOpen_of_step hx hv)⟩

/-- `close` leaves the transport closing. -/
theorem not_isOpen_of_closes {e : Event} (hs : next s.transport e = some v) (hno : s.closed = false)
    (hc : s.closes e = true) : ¬ v.IsOpen := by
  unfold closes at hc
  split at hc
  · rename_i he
    cases e with
    | handover e =>
      obtain rfl := Option.some.inj he
      unfold next Handover.step at hs
      dsimp only at hs
      obtain ⟨-, hs⟩ := Option.ite_none_left_eq_some.1 hs
      obtain ⟨m, hm, rfl⟩ := Option.map_eq_some_iff.1 hs
      obtain rfl := Option.some.inj hm
      exact fun hv => Stream.not_isOpen_transportClose _ ((Handover.settle_isOpen _ 0 _).1 hv)
    | uncancelled e =>
      obtain ⟨u, -, hs⟩ := Option.bind_eq_some_iff.1 hs
      obtain ⟨hclosing, hs⟩ := Option.ite_none_right_eq_some.1 hs
      obtain rfl := Option.some.inj hs
      simp only [Bool.and_eq_true] at hclosing
      exact fun hv => nomatch hv.2.2.1.symm.trans hclosing.1.1.1.1
    | _ => exact nomatch he
  · exact nomatch hno.symm.trans hc

/-- A transport whose `close` has returned is not open. -/
def Inv (s : Silence) : Prop := s.closed = true → ¬ s.transport.IsOpen

theorem inv_step {e : Event} (h : s.Inv) (hs : s.step e = some t) : t.Inv := by
  obtain ⟨v, hv, rfl⟩ := Option.map_eq_some_iff.1 hs
  intro hc ho
  by_cases hclosed : s.closed = true
  · exact h hclosed ((next_spec hv).2 ho)
  · exact not_isOpen_of_closes hv (by simpa using hclosed) hc ho

/-- One event of a transport that has kept silent. -/
theorem step_spec {e : Event} (hb : s.broken = []) (hs : s.step e = some t) :
    t.broken = [] ↔ s.Obeys e := by
  have hsome : (s.step e).isSome := by rw [hs]; rfl
  obtain ⟨v, hv, rfl⟩ := Option.map_eq_some_iff.1 hs
  obtain ⟨⟨new, hnew, hiff⟩, -⟩ := next_spec hv
  dsimp only
  rw [hnew, List.drop_left, hb]
  unfold Obeys
  split
  · rename_i hdue
    rw [List.nil_append]
    constructor
    · intro hempty _ e' he hdelivers
      exact absurd hempty (hiff.2 ⟨e', he, hdelivers⟩)
    · intro hobeys
      by_contra hne
      obtain ⟨e', he, hdelivers⟩ := hiff.1 hne
      obtain ⟨hclosed, hpaused⟩ := hobeys hsome e' he hdelivers
      rw [hclosed, hpaused] at hdue
      exact nomatch hdue
  · rename_i hdue
    refine iff_of_true rfl fun _ _ _ _ => ?_
    simpa using hdue

variable {ι : Type*} [DecidableEq ι]

end Silence

end Talyn
