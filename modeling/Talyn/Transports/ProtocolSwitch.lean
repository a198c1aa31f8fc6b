import Talyn.Transports.Handover

/-!
# Bytes across a change of protocol

When the bytes of every read reach the protocol that is installed. What the functions of the transport do
to an open transport is `Keeps`: the protocol stays, and so does the generation of the batch records. All
else is the book-keeping of the reads, of the batch and of the memory, in `Inv`.
-/

namespace Talyn

namespace Stream

/-- The protocol stays, and a transport that is open afterwards was open, with the same generation. -/
structure Keeps (s t : Stream) : Prop where
  protocol : t.protocol = s.protocol
  gate : t.IsOpen → t.gate = s.gate

variable {s t u : Stream}

theorem Keeps.trans (h : Keeps s t) (h' : Keeps t u) : Keeps s u where
  protocol := h'.protocol.trans h.protocol
  gate hu := by
    have hut := h'.gate hu
    exact hut.trans (h.gate (hu.of_gate hut))

theorem Keeps.same (hp : t.protocol = s.protocol) (hg : t.gate = s.gate) : Keeps s t := ⟨hp, fun _ => hg⟩

theorem Keeps.of_closed (hp : t.protocol = s.protocol) (hc : ¬ t.IsOpen) : Keeps s t :=
  ⟨hp, fun h => absurd h hc⟩

theorem Beside.keeps (h : Beside s t) : Keeps s t := ⟨(Prod.mk.inj h.reading).1, h.gate⟩

theorem keeps_performBufferedRead (s : Stream) (task : TaskId) : Keeps s (s.performBufferedRead task) :=
  .same rfl rfl

theorem keeps_queueReadOperation (s : Stream) (site : ReadSite) (task : TaskId) :
    Keeps s (s.queueReadOperation site task).1 := by
  unfold queueReadOperation
  split
  · exact .same rfl rfl
  · split
    · exact .same rfl rfl
    · split
      · exact .same rfl rfl
      · exact .same rfl rfl

theorem keeps_transportResumeReading (s : Stream) (task : TaskId) :
    Keeps s (s.transportResumeReading task).1 := by
  unfold transportResumeReading
  split
  · exact .same rfl rfl
  · dsimp only
    split
    · exact .same rfl rfl
    · have hs : Keeps s { s with isReading := true } := .same rfl rfl
      exact hs.trans (keeps_queueReadOperation _ _ _)

theorem keeps_releaseProtocolBuffer (s : Stream) (held : Option ℕ) :
    Keeps s (s.releaseProtocolBuffer held) := by
  cases held with
  | none => exact .same rfl rfl
  | some buffer => exact .same rfl rfl

theorem keeps_finishRead (s : Stream) (held : Option ℕ) (err : Errno) :
    Keeps s (s.finishRead held err) :=
  (keeps_releaseProtocolBuffer s held).trans
    ((beside_maybeCloseFd _).trans (beside_readSettled _ err)).keeps

theorem keeps_failRead (s : Stream) (held : Option ℕ) (exc : Exc) : Keeps s (s.failRead held exc).1 := by
  unfold failRead
  dsimp only
  generalize hv : (if (s.releaseProtocolBuffer held).maybeCloseFd.read.connectionLostCallback = true then
    (s.releaseProtocolBuffer held).maybeCloseFd.closeTransports exc
    else (s.releaseProtocolBuffer held).maybeCloseFd) = v
  have hsv : Keeps s v := by
    have hs : Keeps s (s.releaseProtocolBuffer held).maybeCloseFd :=
      (keeps_releaseProtocolBuffer s held).trans (beside_maybeCloseFd _).keeps
    rw [← hv]
    split
    · exact hs.trans (beside_closeTransports _ exc).keeps
    · exact hs
  exact hsv.trans (.of_closed rfl fun h => nomatch h.1)

theorem keeps_rearmRead (s : Stream) (held : Option ℕ) (err : Errno) (task : TaskId) :
    Keeps s (s.rearmRead held err task).1 := by
  have hq := keeps_queueReadOperation s (.completion held err) task
  unfold rearmRead
  split
  · rename_i heq
    rw [heq] at hq
    exact hq.trans (keeps_finishRead _ held err)
  · rename_i heq
    rw [heq] at hq
    exact hq

theorem keeps_endOfStream (s : Stream) (held : Option ℕ) : Keeps s (s.endOfStream held) :=
  (beside_closeTransports s _).keeps.trans (keeps_finishRead _ held _)

theorem keeps_streamReadCompleted (s : Stream) (nbytes : ℕ) (err : Errno) (task : TaskId) :
    Keeps s (s.streamReadCompleted nbytes err task).1 := by
  have hs : Keeps s { s with protocolBuffer := none } := .same rfl rfl
  unfold streamReadCompleted
  dsimp only
  split
  · split
    · refine Keeps.trans ?_ (keeps_rearmRead _ _ err task)
      split
      · exact .of_closed rfl fun h => nomatch h.2.1
      · exact hs
    · refine Keeps.trans ?_ (keeps_finishRead _ _ err)
      split
      · exact .of_closed rfl fun h => nomatch h.2.1
      · exact hs
  · split
    · split
      · exact .same rfl rfl
      · exact hs.trans (keeps_endOfStream _ _)
    · split
      · exact hs.trans (keeps_rearmRead _ _ err task)
      · split
        · exact .same rfl rfl
        · exact .same rfl rfl

theorem keeps_readOperationCompleted (s : Stream) (data : CallbackData) (task : TaskId) :
    Keeps s (s.readOperationCompleted data task).1 := by
  have ht : Keeps s { s with pendingReads := s.pendingReads.tail } := .same rfl rfl
  unfold readOperationCompleted
  dsimp only
  split
  · exact ht.trans (beside_readCleanup _).keeps
  · refine Keeps.trans ?_ (keeps_streamReadCompleted _ _ _ task)
    split
    · exact .same rfl rfl
    · exact .same rfl rfl

theorem rearmRead_not_dataReceived (s : Stream) (held held' : Option ℕ) (err : Errno) (task : TaskId) :
    (s.rearmRead held err task).2 ≠ some (.dataReceived held') := by
  intro heq
  unfold rearmRead queueReadOperation at heq
  split at heq
  · exact nomatch heq
  · rename_i hq
    split at hq
    · exact nomatch hq
    · split at hq
      · exact nomatch hq
      · split at hq
        · obtain rfl := Option.some.inj (Prod.mk.inj hq).2
          exact nomatch heq
        · exact nomatch hq

theorem streamReadCompleted_delivers {nbytes : ℕ} {err : Errno} {task : TaskId} {held : Option ℕ}
    (h : (s.streamReadCompleted nbytes err task).2 = some (.dataReceived held)) :
    err = .success ∧ nbytes ≠ 0 ∧ s.read.batchDispatched = false := by
  unfold streamReadCompleted at h
  dsimp only at h
  split at h
  · generalize (if (s.read.isClosing || s.read.closed || s.isClosing || s.closed) = true then
      { s with protocolBuffer := none, read := { s.read with closed := true } } else
      { s with protocolBuffer := none }) = u at h
    split at h
    · exact absurd h (rearmRead_not_dataReceived _ _ _ _ _)
    · exact nomatch h
  · rename_i herr
    have hsuccess : err = .success := by
      by_contra hne
      exact herr (.inl hne)
    split at h
    · split at h
      · exact nomatch Option.some.inj h
      · exact nomatch h
    · rename_i hn
      split at h
      · exact absurd h (rearmRead_not_dataReceived _ _ _ _ _)
      · rename_i hb
        exact ⟨hsuccess, hn, by simpa using hb⟩

theorem streamReadCompleted_open (ho : s.IsOpen) (hb : s.read.batchDispatched = false) {nbytes : ℕ}
    (hn : nbytes ≠ 0) (task : TaskId) :
    ∃ held, (s.streamReadCompleted nbytes .success task).2 = some (.dataReceived held) ∧
      (s.streamReadCompleted nbytes .success task).1.IsOpen := by
  refine ⟨s.protocolBuffer, ?_⟩
  have hclosing : (s.read.isClosing || s.read.closed || s.isClosing || s.closed) = false := by
    rw [ho.1, ho.2.1, ho.2.2.1, ho.2.2.2]
    rfl
  unfold streamReadCompleted
  dsimp only
  rw [hclosing, if_neg (by simp), if_neg hn, if_neg (by simp [hb])]
  split
  · exact ⟨rfl, ho⟩
  · exact ⟨rfl, ho⟩

/-- The transport when the stream-level callback is called. -/
def entered (s : Stream) (data : CallbackData) : Stream :=
  let s := { s with pendingReads := s.pendingReads.tail }
  let s := if data.batchDispatched then s
    else { s with read := { s.read with blockingTaskId := 0, cancelling := false } }
  { s with read := { s.read with batchDispatched := data.batchDispatched } }

theorem entered_gate (s : Stream) (data : CallbackData) : (s.entered data).gate = s.gate := by
  unfold entered
  dsimp only
  split <;> rfl

theorem readOperationCompleted_eq {data : CallbackData} (hc : data.cancelled = false) (task : TaskId) :
    s.readOperationCompleted data task = (s.entered data).streamReadCompleted
      (if data.err = .success then data.res.toNat else 0) data.err task := by
  unfold readOperationCompleted
  dsimp only
  rw [if_neg (by simp [hc])]
  rfl

/-- A callback that passes its bytes on belongs to a successful read that was not batched. -/
theorem readOperationCompleted_delivers {data : CallbackData} {task : TaskId} {held : Option ℕ}
    (h : (s.readOperationCompleted data task).2 = some (.dataReceived held)) :
    data.err = .success ∧ data.res.toNat ≠ 0 ∧ data.batchDispatched = false := by
  have hc : data.cancelled = false := by
    by_contra hc
    unfold readOperationCompleted at h
    dsimp only at h
    rw [if_pos (by simpa using hc)] at h
    exact nomatch h
  rw [readOperationCompleted_eq hc] at h
  obtain ⟨herr, hn, hb⟩ := streamReadCompleted_delivers h
  rw [if_pos herr] at hn
  exact ⟨herr, hn, hb⟩

/-- The callback of a read on an open transport passes its bytes on, and the transport stays open. -/
theorem readOperationCompleted_open (ho : s.IsOpen) {nbytes : ℕ} (hn : nbytes ≠ 0) (task : TaskId) :
    ∃ held, (s.readOperationCompleted ⟨nbytes, .success, false, false⟩ task).2 =
        some (.dataReceived held) ∧
      (s.readOperationCompleted ⟨nbytes, .success, false, false⟩ task).1.IsOpen := by
  rw [readOperationCompleted_eq rfl]
  exact streamReadCompleted_open (ho.of_gate (entered_gate s _).symm) rfl (by simpa using hn) task

/-- A callback that is told of a teardown passes nothing on, and leaves an open transport open. -/
theorem readOperationCompleted_cancelled (ho : s.IsOpen) (data : CallbackData)
    (hc : data.cancelled = true) (task : TaskId) :
    (s.readOperationCompleted data task).2 = none ∧
      (s.readOperationCompleted data task).1.IsOpen := by
  rcases ho with ⟨h1, h2, h3, h4⟩
  unfold readOperationCompleted readCleanup maybeCloseFd
  dsimp only
  rw [if_pos hc, if_neg (by simp [h1, h2])]
  exact ⟨rfl, h1, by simp [h1, h2], h3, h4⟩

end Stream

namespace Handover

theorem keeps_frameReturned (s : Stream) (frame : Frame) (type : ProtocolType) (keepOpen : Bool)
    (task : TaskId) : s.Keeps (frameReturned s frame type keepOpen task).1 := by
  cases frame with
  | dataReceived held =>
    show s.Keeps (rearmAs s type held task).1
    unfold rearmAs
    split
    · exact s.keeps_rearmRead held .success task
    · split
      · exact s.keeps_finishRead held .success
      · split
        · have hs : s.Keeps (s.performRead task) := .same rfl rfl
          exact hs.trans (Stream.keeps_finishRead _ held .success)
        · refine Stream.Keeps.trans ?_ (Stream.beside_emit _ (e := .callExceptionHandler) nofun).keeps
          exact (s.keeps_releaseProtocolBuffer held).trans (Stream.beside_maybeCloseFd _).keeps
  | eofReceived held =>
    cases keepOpen with
    | true => exact s.keeps_finishRead held .success
    | false => exact s.keeps_endOfStream held
  | getBuffer site =>
    cases site with
    | completion held err =>
      exact (s.keeps_performBufferedRead task).trans (Stream.keeps_finishRead _ held err)
    | resume => exact s.keeps_performBufferedRead task
  | readCleanup => exact s.beside_readCleanup.keeps
  | resumeWriting midDrain => exact (s.beside_writeCallbackReturned midDrain task).keeps
  | writeCleanup => exact .same rfl rfl

theorem keeps_frameRaised (s : Stream) (frame : Frame) (exc : Exc) :
    s.Keeps (Machine.frameRaised s frame exc).1 := by
  cases frame with
  | dataReceived held => exact s.keeps_failRead held exc
  | eofReceived held => exact s.keeps_failRead held exc
  | getBuffer site =>
    cases site with
    | completion held err => exact s.keeps_failRead held exc
    | resume => exact .same rfl rfl
  | readCleanup => exact s.beside_readCleanup.keeps
  | resumeWriting midDrain => exact (s.beside_writeCallbackRaised exc).keeps
  | writeCleanup => exact .same rfl rfl

theorem keeps_machineStep {m m' : Machine} {e : Talyn.Event} (hs : m.step e = some m')
    (he : ofReads e = false) : m.stream.Keeps m'.stream := by
  cases Machine.step_cases hs with
  | write s frames data => exact (s.writes_transportWrite data).beside.keeps
  | writeLines s frames items raises => exact (s.writes_transportWriteLines items raises).beside.keeps
  | writeEof s frames => exact s.beside_transportWriteEof.keeps
  | close s frames => exact s.beside_transportClose.keeps
  | forceClose s frames exc readFails writeFails =>
    exact (s.beside_transportForceClose exc readFails writeFails).keeps
  | pauseReading s frames => exact s.beside_transportPauseReading.keeps
  | resumeReading s frames task => exact s.keeps_transportResumeReading task
  | flush s task => exact (s.writes_flushBufferedWrites task).beside.keeps
  | writeCompleted s slice rest res cancelled task hp hle =>
    exact (s.beside_completeWrite slice res cancelled task).keeps
  | raised s frame frames exc => exact keeps_frameRaised s frame exc
  | readCompleted => exact nomatch he
  | readHarvested => exact nomatch he
  | dataDispatched => exact nomatch he
  | bufferDispatched => exact nomatch he
  | batchedReadCompleted => exact nomatch he
  | returned => exact nomatch he

/-! ### The book-keeping -/

/-- The element at a position, and what replaces it. -/
theorem split_at {α : Type} {l : List α} {i : ℕ} {a : α} (h : l[i]? = some a) :
    ∃ l₁ l₂, l = l₁ ++ a :: l₂ ∧ (∀ b, l.set i b = l₁ ++ b :: l₂) ∧ l.eraseIdx i = l₁ ++ l₂ := by
  obtain ⟨hi, rfl⟩ := List.getElem?_eq_some_iff.1 h
  refine ⟨l.take i, l.drop (i + 1), ?_, fun b => ?_, List.eraseIdx_eq_take_drop_succ ..⟩
  · rw [List.getElem_cons_drop, List.take_append_drop]
  · rw [List.set_eq_take_append_cons_drop, if_pos hi]

/-- The read is not in the completion batch. -/
def Read.unharvested (r : Read) : Option ℕ :=
  match r.phase with
  | .batched _ => none
  | _ => some r.id

/-- The reads whose bytes were not taken out of the batch, or out of their callback. -/
def owners (w : Handover) : List ℕ := w.reads.filterMap Read.unharvested ++ w.records.map Record.read

/-- What holds of an open transport as long as its bytes are safe. -/
structure Inv (w : Handover) : Prop where
  sound : w.Sound
  generation : ∀ r ∈ w.records, r.generation = w.machine.stream.dispatchGeneration
  distinct : w.owners.Nodup
  below : ∀ read ∈ w.owners, read < w.next
  positive : ∀ r ∈ w.reads, ∀ nbytes, r.phase = .stored nbytes → nbytes ≠ 0
  memory : ∀ region read, w.memory region = some read → read < w.next
  places : ∃ place : ℕ → Region, (∀ r ∈ w.reads, r.unharvested ≠ none → r.region = place r.id) ∧
    (∀ r ∈ w.records, r.region = place r.read) ∧
    ∀ region read, w.memory region = some read → region = place read

/-- The transport changed, and what is not about its reads. -/
theorem Inv.congr {w v : Handover} (h : w.Inv) (hreads : v.reads = w.reads)
    (hrecords : v.records = w.records) (hmemory : v.memory = w.memory) (hstored : v.stored = w.stored)
    (hdeliveries : v.deliveries = w.deliveries) (hnext : v.next = w.next)
    (hreturned : w.returned ⊆ v.returned)
    (hgeneration : v.machine.stream.dispatchGeneration = w.machine.stream.dispatchGeneration) :
    v.Inv where
  sound := by
    refine ⟨?_, ?_, ?_, ?_⟩
    · rw [hstored, hdeliveries, awaiting, hreads, hrecords]
      exact h.sound.passed
    · rw [hdeliveries]
      intro d hd
      have := h.sound.proper d hd
      cases d with
      | dataReceived read nbytes bytes => exact this
      | bufferUpdated read nbytes region protocol =>
        obtain ⟨memory, hregion, hmem⟩ := this
        exact ⟨memory, hregion, hreturned hmem⟩
    · rw [hreads, hmemory]
      exact h.sound.intact
    · rw [hrecords, hmemory]
      exact h.sound.batch
  generation := by
    rw [hrecords, hgeneration]
    exact h.generation
  distinct := by
    rw [owners, hreads, hrecords]
    exact h.distinct
  below := by
    rw [owners, hreads, hrecords, hnext]
    exact h.below
  positive := by
    rw [hreads]
    exact h.positive
  memory := by
    rw [hmemory, hnext]
    exact h.memory
  places := by
    rw [hreads, hrecords, hmemory]
    exact h.places

/-- A read is queued. -/
theorem Inv.arm {w : Handover} (h : w.Inv) (region : Region) : (w.arm region).Inv := by
  obtain ⟨place, hplace, hrecords, hmemory⟩ := h.places
  have howners : (w.arm region).owners.Perm (w.next :: w.owners) := by
    unfold owners Handover.arm
    rw [List.filterMap_append, List.append_assoc]
    exact List.perm_middle
  have hbelow : ∀ r ∈ w.reads, r.unharvested ≠ none → r.id < w.next := by
    intro r hr hne
    refine h.below r.id (List.mem_append_left _ (List.mem_filterMap.2 ⟨r, hr, ?_⟩))
    unfold Read.unharvested at hne ⊢
    split
    · rename_i hphase
      rw [hphase] at hne
      exact absurd rfl hne
    · rfl
  refine ⟨⟨?_, h.sound.proper, ?_, h.sound.batch⟩, h.generation, ?_, ?_, ?_, ?_, ?_⟩
  · have : (w.arm region).awaiting = w.awaiting := by
      unfold awaiting Handover.arm
      rw [List.filterMap_append]
      simp [Read.undelivered]
    rw [this]
    exact h.sound.passed
  · intro r hr hne
    rcases List.mem_append.1 hr with hr | hr
    · exact h.sound.intact r hr hne
    · obtain rfl := List.mem_singleton.1 hr
      exact absurd rfl hne
  · refine howners.nodup_iff.2 (List.nodup_cons.2 ⟨fun hmem => ?_, h.distinct⟩)
    exact lt_irrefl _ (h.below _ hmem)
  · intro read hmem
    rcases List.mem_cons.1 (howners.mem_iff.1 hmem) with rfl | hmem
    · exact Nat.lt_succ_self _
    · exact Nat.lt_succ_of_lt (h.below _ hmem)
  · intro r hr nbytes hphase
    rcases List.mem_append.1 hr with hr | hr
    · exact h.positive r hr nbytes hphase
    · obtain rfl := List.mem_singleton.1 hr
      exact nomatch hphase
  · intro region' read hread
    exact Nat.lt_succ_of_lt (h.memory region' read hread)
  · -- the new read has a place of its own
    refine ⟨Function.update place w.next region, fun r hr hne => ?_, fun r hr => ?_,
      fun region' read hread => ?_⟩
    · rcases List.mem_append.1 hr with hr | hr
      · rw [Function.update_of_ne (hbelow r hr hne).ne]
        exact hplace r hr hne
      · obtain rfl := List.mem_singleton.1 hr
        show region = Function.update place w.next region w.next
        rw [Function.update_self]
    · have hlt : r.read < w.next := h.memory _ _ (h.sound.batch r hr).1
      rw [Function.update_of_ne hlt.ne]
      exact hrecords r hr
    · rw [Function.update_of_ne (h.memory region' read hread).ne]
      exact hmemory region' read hread

theorem settle_isOpen (w : Handover) (memory : ℕ) (m : Machine) :
    (w.settle memory m).IsOpen ↔ m.stream.IsOpen := by
  unfold settle
  dsimp only
  split
  · exact Iff.rfl
  · exact Iff.rfl

/-- A function of the transport ran. -/
theorem Inv.settle {w : Handover} (h : w.IsOpen → w.Inv) {memory : ℕ} {m : Machine}
    (hk : w.machine.stream.Keeps m.stream) (ho : (w.settle memory m).IsOpen) :
    (w.settle memory m).Inv := by
  have hm : m.stream.IsOpen := (settle_isOpen w memory m).1 ho
  have hgate := hk.gate hm
  have hw := h (hm.of_gate hgate)
  have hgeneration : m.stream.dispatchGeneration = w.machine.stream.dispatchGeneration := by
    simp only [Stream.gate, Prod.mk.injEq] at hgate
    exact hgate.2.2.2.2
  unfold Handover.settle
  dsimp only
  split
  · exact hw.congr rfl rfl rfl rfl rfl rfl (List.Subset.refl _) hgeneration
  · refine Inv.arm ?_ _
    exact hw.congr rfl rfl rfl rfl rfl rfl (List.Subset.refl _) hgeneration

/-! ### The events of the bytes -/

/-- The kernel stores the bytes of a read where no others wait. -/
theorem Inv.stored {w v : Handover} (h : w.Inv) {i nbytes : ℕ}
    (hs : w.step (.stored i nbytes) = some v) (hok : w.Fits (.stored i nbytes)) : v.Inv := by
  obtain ⟨place, hplace, hrecords, hmemory⟩ := h.places
  unfold step at hs
  dsimp only at hs
  split at hs
  · rename_i id region hread
    split at hs
    · exact nomatch hs
    · rename_i hn
      obtain rfl := Option.some.inj hs
      obtain ⟨hreads, hbatch⟩ := hok _ hread
      obtain ⟨l₁, l₂, hl, hset, -⟩ := split_at hread
      have hmem : (⟨id, region, .inFlight⟩ : Read) ∈ w.reads := by
        rw [hl]
        exact List.mem_append_right _ List.mem_cons_self
      have howner : id ∈ w.owners :=
        List.mem_append_left _ (List.mem_filterMap.2 ⟨_, hmem, rfl⟩)
      -- the other reads are the same
      have hother : ∀ r ∈ w.reads.set i ⟨id, region, .stored nbytes⟩,
          r = ⟨id, region, .stored nbytes⟩ ∨ r ∈ w.reads := by
        intro r hr
        rw [hset] at hr
        rw [hl]
        simp only [List.mem_append, List.mem_cons] at hr ⊢
        tauto
      have howners : (w.reads.set i ⟨id, region, .stored nbytes⟩).filterMap Read.unharvested =
          w.reads.filterMap Read.unharvested := by
        rw [hset, hl]
        simp [Read.unharvested]
      refine ⟨⟨?_, h.sound.proper, ?_, ?_⟩, h.generation, ?_, ?_, ?_, ?_, place, ?_, hrecords, ?_⟩
      · have hpassed := h.sound.passed
        rw [List.perm_iff_count] at hpassed ⊢
        intro a
        have := hpassed a
        unfold awaiting at this ⊢
        rw [hset]
        rw [hl] at this
        simp only [List.count_append, List.filterMap_append, List.filterMap_cons, Read.undelivered,
          List.count_cons, List.count_nil] at this ⊢
        omega
      · intro r hr hne
        rcases hother r hr with rfl | hr
        · exact Function.update_self ..
        · show Function.update w.memory region (some id) r.region = some r.id
          rw [Function.update_of_ne (hreads r hr hne)]
          exact h.sound.intact r hr hne
      · intro r hr
        obtain ⟨hmem', hsource⟩ := h.sound.batch r hr
        refine ⟨?_, fun hop => ?_⟩
        · show Function.update w.memory region (some id) r.region = some r.read
          rw [Function.update_of_ne (hbatch r hr)]
          exact hmem'
        · obtain ⟨source, hs, hread'⟩ := hsource hop
          refine ⟨source, hs, ?_⟩
          have hsr : source = r.region := (hmemory _ _ hread').trans (hrecords r hr).symm
          show Function.update w.memory region (some id) source = some r.read
          rw [hsr, Function.update_of_ne (hbatch r hr)]
          exact hmem'
      · have hdistinct := h.distinct
        unfold owners at hdistinct ⊢
        rw [howners]
        exact hdistinct
      · intro read hr
        have : read ∈ w.owners := by
          unfold owners at hr ⊢
          rw [howners] at hr
          exact hr
        exact h.below read this
      · intro r hr nbytes' hphase
        rcases hother r hr with rfl | hr
        · obtain rfl := Phase.stored.inj hphase
          exact hn
        · exact h.positive r hr nbytes' hphase
      · intro region' read hread'
        by_cases heq : region' = region
        · rw [heq] at hread'
          simp only [Function.update_self] at hread'
          obtain rfl := Option.some.inj hread'
          exact h.below _ howner
        · simp only [Function.update_of_ne heq] at hread'
          exact h.memory region' read hread'
      · intro r hr hne
        rcases hother r hr with rfl | hr
        · exact hplace ⟨id, region, .inFlight⟩ hmem nofun
        · exact hplace r hr hne
      · intro region' read hread'
        by_cases heq : region' = region
        · rw [heq] at hread'
          simp only [Function.update_self] at hread'
          obtain rfl := Option.some.inj hread'
          rw [heq]
          exact hplace _ hmem nofun
        · simp only [Function.update_of_ne heq] at hread'
          exact hmemory region' read hread'
  · exact nomatch hs

/-- Bytes that lie safely were not stored over others. -/
theorem fits_stored {w v : Handover} (h : w.Inv) {i nbytes : ℕ}
    (hs : w.step (.stored i nbytes) = some v) (hv : v.Sound) : w.Fits (.stored i nbytes) := by
  intro r hr
  unfold step at hs
  dsimp only at hs
  split at hs
  · rename_i id region hread
    obtain rfl := Option.some.inj (hr.symm.trans hread)
    split at hs
    · exact nomatch hs
    · obtain rfl := Option.some.inj hs
      obtain ⟨l₁, l₂, hl, hset, -⟩ := split_at hread
      have hdistinct := h.distinct
      unfold owners at hdistinct
      rw [hl] at hdistinct
      simp only [List.filterMap_append, List.filterMap_cons, Read.unharvested, List.append_assoc,
        List.cons_append] at hdistinct
      have hnot := (List.nodup_middle.1 hdistinct)
      have hnew := (List.nodup_cons.1 hnot).1
      simp only [List.mem_append, not_or] at hnew
      refine ⟨fun r' hr' hne heq => ?_, fun r' hr' heq => ?_⟩
      · have hid : r'.id ≠ id := by
          intro hid
          have hun : r'.unharvested = some id := by
            unfold Read.unharvested
            unfold Read.undelivered at hne
            split
            · rename_i hphase
              rw [hphase] at hne
              exact absurd rfl hne
            · rw [hid]
          rw [hl] at hr'
          rcases List.mem_append.1 hr' with hr' | hr'
          · exact hnew.1 (List.mem_filterMap.2 ⟨r', hr', hun⟩)
          · rcases List.mem_cons.1 hr' with rfl | hr'
            · exact absurd rfl hne
            · exact hnew.2.1 (List.mem_filterMap.2 ⟨r', hr', hun⟩)
        have hin : r' ∈ w.reads.set i ⟨id, region, .stored nbytes⟩ := by
          rw [hset]
          rw [hl] at hr'
          rcases List.mem_append.1 hr' with hr' | hr'
          · exact List.mem_append_left _ hr'
          · rcases List.mem_cons.1 hr' with rfl | hr'
            · exact absurd rfl hne
            · exact List.mem_append_right _ (List.mem_cons_of_mem _ hr')
        have := hv.intact r' hin hne
        rw [heq] at this
        simp only [Function.update_self] at this
        exact hid (Option.some.inj this).symm
      · have := (hv.batch r' hr').1
        rw [heq] at this
        simp only [Function.update_self] at this
        exact hnew.2.2 (List.mem_map.2 ⟨r', hr', (Option.some.inj this).symm⟩)
  · exact nomatch hs

/-- A successful read goes into the completion batch. -/
theorem Inv.harvested {w v : Handover} (h : w.Inv) {i : ℕ} (hs : w.step (.harvested i) = some v)
    (hok : w.Fits (.harvested i)) : v.Inv := by
  obtain ⟨place, hplace, hrecords, hmemory⟩ := h.places
  unfold step at hs
  dsimp only at hs
  split at hs
  · exact nomatch hs
  · split at hs
    · rename_i id region nbytes hread
      obtain rfl := Option.some.inj hs
      obtain ⟨l₁, l₂, hl, hset, -⟩ := split_at hread
      have hmem : (⟨id, region, .stored nbytes⟩ : Read) ∈ w.reads := by
        rw [hl]
        exact List.mem_append_right _ List.mem_cons_self
      have hintact : w.memory region = some id := h.sound.intact _ hmem nofun
      -- the record, whatever the kind of protocol
      obtain ⟨record, hrecord, hread', hregion, hkey, hgen, hsource⟩ : ∃ record : Record,
          (w.harvest i ⟨id, region, .stored nbytes⟩ nbytes).records = w.records ++ [record] ∧
          record.read = id ∧ record.region = region ∧ record.key = (id, nbytes) ∧
          record.generation = w.machine.stream.dispatchGeneration ∧
          (record.op = .dataReceived → ∃ source, record.source = some source ∧
            w.memory source = some id) := by
        cases hp : w.machine.stream.protocol.type with
        | buffered =>
          refine ⟨⟨.bufferUpdated, none, nbytes, w.machine.stream.dispatchGeneration, id, region⟩,
            by rw [harvest, hp], rfl, rfl, rfl, rfl, nofun⟩
        | legacy =>
          refine ⟨_, by rw [harvest, hp], rfl, rfl, rfl, rfl, fun _ => ⟨_, rfl, ?_⟩⟩
          rw [hok _ hread hp]
          exact hintact
      have hother : ∀ r ∈ (w.harvest i ⟨id, region, .stored nbytes⟩ nbytes).reads,
          r = ⟨id, region, .batched nbytes⟩ ∨ r ∈ w.reads := by
        intro r hr
        replace hr : r ∈ w.reads.set i ⟨id, region, .batched nbytes⟩ := hr
        rw [hset] at hr
        rw [hl]
        simp only [List.mem_append, List.mem_cons] at hr ⊢
        tauto
      have howners : (w.harvest i ⟨id, region, .stored nbytes⟩ nbytes).owners.Perm w.owners := by
        have hreads : (w.harvest i ⟨id, region, .stored nbytes⟩ nbytes).reads =
            l₁ ++ ⟨id, region, .batched nbytes⟩ :: l₂ := hset _
        rw [List.perm_iff_count]
        intro a
        unfold owners
        rw [hrecord, hreads, hl]
        simp only [List.count_append, List.filterMap_append, List.filterMap_cons, Read.unharvested,
          List.map_append, List.map_cons, List.map_nil, hread', List.count_cons, List.count_nil]
        omega
      refine ⟨⟨?_, h.sound.proper, ?_, ?_⟩, ?_, howners.nodup_iff.2 h.distinct, ?_, ?_, h.memory,
        place, ?_, ?_, hmemory⟩
      · have hpassed := h.sound.passed
        have hreads : (w.harvest i ⟨id, region, .stored nbytes⟩ nbytes).reads =
            l₁ ++ ⟨id, region, .batched nbytes⟩ :: l₂ := hset _
        have hstored : (w.harvest i ⟨id, region, .stored nbytes⟩ nbytes).stored = w.stored := rfl
        have hdeliveries :
            (w.harvest i ⟨id, region, .stored nbytes⟩ nbytes).deliveries = w.deliveries := rfl
        rw [List.perm_iff_count] at hpassed ⊢
        intro a
        have := hpassed a
        unfold awaiting at this ⊢
        rw [hstored, hdeliveries, hrecord, hreads]
        rw [hl] at this
        simp only [List.count_append, List.filterMap_append, List.filterMap_cons, Read.undelivered,
          List.map_append, List.map_cons, List.map_nil, hkey, List.count_cons, List.count_nil] at this ⊢
        omega
      · intro r hr hne
        rcases hother r hr with rfl | hr
        · exact absurd rfl hne
        · exact h.sound.intact r hr hne
      · intro r hr
        rw [hrecord] at hr
        rcases List.mem_append.1 hr with hr | hr
        · exact h.sound.batch r hr
        · obtain rfl := List.mem_singleton.1 hr
          refine ⟨?_, fun hop => ?_⟩
          · show w.memory r.region = some r.read
            rw [hregion, hread']
            exact hintact
          · rw [hread']
            exact hsource hop
      · intro r hr
        rw [hrecord] at hr
        rcases List.mem_append.1 hr with hr | hr
        · exact h.generation r hr
        · obtain rfl := List.mem_singleton.1 hr
          exact hgen
      · intro read hr
        exact h.below read (howners.mem_iff.1 hr)
      · intro r hr nbytes' hphase
        rcases hother r hr with rfl | hr
        · exact nomatch hphase
        · exact h.positive r hr nbytes' hphase
      · intro r hr hne
        rcases hother r hr with rfl | hr
        · exact absurd rfl hne
        · exact hplace r hr hne
      · intro r hr
        rw [hrecord] at hr
        rcases List.mem_append.1 hr with hr | hr
        · exact hrecords r hr
        · obtain rfl := List.mem_singleton.1 hr
          rw [hregion, hread']
          exact hmemory region id hintact
    · exact nomatch hs

theorem fits_harvested {w v : Handover} (h : w.Inv) {i : ℕ} (hs : w.step (.harvested i) = some v)
    (hv : v.Sound) : w.Fits (.harvested i) := by
  obtain ⟨place, hplace, -, hmemory⟩ := h.places
  intro r hr hp
  unfold step at hs
  dsimp only at hs
  split at hs
  · exact nomatch hs
  · split at hs
    · rename_i id region nbytes hread
      obtain rfl := Option.some.inj (hr.symm.trans hread)
      obtain rfl := Option.some.inj hs
      have hmem := List.mem_of_getElem? hread
      have hrecord : (⟨.dataReceived, some w.bufferToRead, nbytes,
          w.machine.stream.dispatchGeneration, id, region⟩ : Record) ∈
          (w.harvest i ⟨id, region, .stored nbytes⟩ nbytes).records := by
        rw [harvest, hp]
        exact List.mem_append_right _ (List.mem_singleton.2 rfl)
      obtain ⟨source, hsource, hread'⟩ := (hv.batch _ hrecord).2 rfl
      obtain rfl := Option.some.inj hsource
      exact (hmemory _ _ hread').trans (hplace _ hmem nofun).symm
    · exact nomatch hs

/-- The bytes of the first record are passed on. -/
theorem Inv.delivered {w : Handover} (h : w.Inv) {r : Record} {rest : List Record}
    (hr : w.records = r :: rest) {d : Delivery} (hkey : d.key = r.key) (hd : w.Proper d) :
    (deliver { w with records := rest } d).Inv := by
  obtain ⟨place, hplace, hrecords, hmemory⟩ := h.places
  have howners : w.owners.Perm (r.read :: (deliver { w with records := rest } d).owners) := by
    unfold owners
    rw [hr]
    exact List.perm_middle
  have hnodup := List.nodup_cons.1 (howners.nodup_iff.1 h.distinct)
  refine ⟨⟨?_, ?_, h.sound.intact, ?_⟩, ?_, hnodup.2, ?_, h.positive, h.memory, place, hplace, ?_,
    hmemory⟩
  · have hpassed := h.sound.passed
    rw [List.perm_iff_count] at hpassed ⊢
    intro a
    have := hpassed a
    unfold awaiting at this
    rw [hr] at this
    simp only [List.count_append, List.map_cons, List.count_cons] at this
    show w.stored.count a = (((w.deliveries ++ [d]).map Delivery.key) ++
      (w.reads.filterMap Read.undelivered ++ rest.map Record.key)).count a
    simp only [List.count_append, List.map_append, List.map_cons, List.map_nil, hkey, List.count_cons,
      List.count_nil]
    omega
  · intro d' hd'
    rcases List.mem_append.1 hd' with hd' | hd'
    · have := h.sound.proper d' hd'
      cases d' with
      | dataReceived => exact this
      | bufferUpdated => exact this
    · obtain rfl := List.mem_singleton.1 hd'
      cases d' with
      | dataReceived => exact hd
      | bufferUpdated => exact hd
  · intro r' hr'
    exact h.sound.batch r' (by rw [hr]; exact List.mem_cons_of_mem _ hr')
  · intro r' hr'
    exact h.generation r' (by rw [hr]; exact List.mem_cons_of_mem _ hr')
  · intro read hread
    exact h.below read (howners.mem_iff.2 (List.mem_cons_of_mem _ hread))
  · intro r' hr'
    exact hrecords r' (by rw [hr]; exact List.mem_cons_of_mem _ hr')

/-- Dropping a record loses its bytes. -/
theorem not_sound_of_dropped {w v : Handover} (h : w.Inv) (hstored : v.stored = w.stored)
    (hdeliveries : v.deliveries = w.deliveries) (hlt : v.awaiting.length < w.awaiting.length) :
    ¬ v.Sound := by
  intro hv
  have h1 := h.sound.passed.length_eq
  have h2 := hv.passed.length_eq
  rw [hstored, hdeliveries] at h2
  simp only [List.length_append] at h1 h2
  omega

theorem Inv.dispatched {w v : Handover} (h : w.Inv) (hs : w.step .dispatched = some v)
    (hok : w.Fits .dispatched) : v.Inv := by
  unfold step at hs
  dsimp only at hs
  split at hs
  · exact nomatch hs
  · split at hs
    · rename_i r rest hr
      obtain rfl := Option.some.inj hs
      have hmem : r ∈ w.records := by
        rw [hr]
        exact List.mem_cons_self
      have hfits := hok r rest hr
      obtain ⟨-, hsource⟩ := h.sound.batch r hmem
      unfold dispatch
      dsimp only
      rw [if_neg (by simp [h.generation r hmem])]
      unfold FitsRecord at hfits
      cases hop : r.op with
      | dataReceived =>
        rw [hop] at hfits
        obtain ⟨source, hs, hread⟩ := hsource hop
        dsimp only at hfits
        rw [hfits, hs]
        exact h.delivered hr rfl hread
      | bufferUpdated =>
        rw [hop] at hfits
        dsimp only at hfits
        rw [hfits.1]
        exact h.delivered hr rfl hfits.2
    · exact nomatch hs

theorem fits_dispatched {w v : Handover} (h : w.Inv) (hs : w.step .dispatched = some v)
    (hv : v.Sound) : w.Fits .dispatched := by
  intro r rest hr
  unfold step at hs
  dsimp only at hs
  split at hs
  · exact nomatch hs
  · rw [hr] at hs
    obtain rfl := Option.some.inj hs
    have hmem : r ∈ w.records := by
      rw [hr]
      exact List.mem_cons_self
    have hdropped : ¬ Sound { w with records := rest } := by
      refine not_sound_of_dropped h rfl rfl ?_
      unfold awaiting
      rw [hr]
      simp
    unfold dispatch at hv
    dsimp only at hv
    rw [if_neg (by simp [h.generation r hmem])] at hv
    unfold FitsRecord
    cases hop : r.op with
    | dataReceived =>
      cases hp : w.machine.stream.protocol.type with
      | legacy => rfl
      | buffered =>
        rw [hop, hp] at hv
        exact absurd hv hdropped
    | bufferUpdated =>
      cases hp : w.machine.stream.protocol.type with
      | legacy =>
        rw [hop, hp] at hv
        exact absurd hv hdropped
      | buffered =>
        rw [hop, hp] at hv
        refine ⟨rfl, ?_⟩
        exact hv.proper _ (List.mem_append_right _ (List.mem_singleton.2 rfl))

theorem fits_dispatchAborted {w v : Handover} (h : w.Inv) (hs : w.step .dispatchAborted = some v)
    (hv : v.Sound) : w.Fits .dispatchAborted := by
  obtain rfl := Option.some.inj hs
  by_contra hne
  have hpos : 0 < w.records.length := List.length_pos_iff.2 hne
  have hdropped : ¬ Sound { w with records := [] } := by
    refine not_sound_of_dropped h rfl rfl ?_
    show (w.reads.filterMap Read.undelivered ++ []).length < w.awaiting.length
    unfold awaiting
    simp only [List.length_append, List.length_map, List.length_nil]
    omega
  exact hdropped hv

/-- A read is forgotten; its bytes are accounted for. -/
theorem Inv.erase {w : Handover} (h : w.Inv) (i : ℕ) {ds : List Delivery}
    (hpassed : w.stored.Perm (ds.map Delivery.key ++
      ((w.reads.eraseIdx i).filterMap Read.undelivered ++ w.records.map Record.key)))
    (hproper : ∀ d ∈ ds, w.Proper d) :
    Inv { w with reads := w.reads.eraseIdx i, deliveries := ds } := by
  obtain ⟨place, hplace, hrecords, hmemory⟩ := h.places
  have hsub : ∀ r ∈ w.reads.eraseIdx i, r ∈ w.reads := fun r hr => List.mem_of_mem_eraseIdx hr
  have howners : ((w.reads.eraseIdx i).filterMap Read.unharvested ++
      w.records.map Record.read).Sublist w.owners :=
    (List.eraseIdx_sublist ..).filterMap _ |>.append_right _
  refine ⟨⟨hpassed, fun d hd => ?_, fun r hr => h.sound.intact r (hsub r hr), h.sound.batch⟩,
    h.generation, h.distinct.sublist howners, fun read hread => h.below read (howners.subset hread),
    fun r hr => h.positive r (hsub r hr), h.memory, place, fun r hr => hplace r (hsub r hr), hrecords,
    hmemory⟩
  have := hproper d hd
  cases d with
  | dataReceived => exact this
  | bufferUpdated => exact this

/-- What a completion on an open transport makes of the bytes of its read. -/
theorem Inv.complete {w : Handover} (h : w.IsOpen → w.Inv) {i : ℕ} {r : Read}
    (hr : w.reads[i]? = some r) {data : CallbackData} {task : TaskId}
    (hout : ∀ held, (w.machine.stream.readOperationCompleted data task).2 = some (.dataReceived held) →
      w.IsOpen → r.undelivered = some (r.id, data.res.toNat) ∧ w.FitsRead r.region)
    (hnot : (∀ held, (w.machine.stream.readOperationCompleted data task).2 ≠
      some (.dataReceived held)) → w.IsOpen → r.undelivered = none)
    (hv : (w.complete i r data task).IsOpen) : (w.complete i r data task).Inv := by
  obtain ⟨l₁, l₂, hl, -, herase⟩ := split_at hr
  have hkeeps := w.machine.stream.keeps_readOperationCompleted data task
  -- nothing is passed on
  have hsilent : w.IsOpen → r.undelivered = none → Inv { w with reads := w.reads.eraseIdx i } := by
    intro ho hu
    refine (h ho).erase i ?_ (h ho).sound.proper
    have hpassed := (h ho).sound.passed
    unfold awaiting at hpassed
    rw [herase]
    rw [hl] at hpassed
    simpa [List.filterMap_append, List.filterMap_cons, hu] using hpassed
  -- the bytes are passed on
  have hdelivered : ∀ d : Delivery, d.key = (r.id, data.res.toNat) → w.IsOpen →
      r.undelivered = some (r.id, data.res.toNat) → w.Proper d →
      (deliver { w with reads := w.reads.eraseIdx i } d).Inv := by
    intro d hkey ho hu hd
    refine (h ho).erase i ?_ ?_
    · have hpassed := (h ho).sound.passed
      unfold awaiting at hpassed
      rw [herase]
      rw [hl] at hpassed
      rw [List.perm_iff_count] at hpassed ⊢
      intro a
      have := hpassed a
      simp only [List.count_append, List.filterMap_append, List.filterMap_cons, hu, List.map_append,
        List.map_cons, List.map_nil, hkey, List.count_cons, List.count_nil] at this ⊢
      omega
    · intro d' hd'
      rcases List.mem_append.1 hd' with hd' | hd'
      · exact (h ho).sound.proper d' hd'
      · obtain rfl := List.mem_singleton.1 hd'
        exact hd
  have hintact : w.IsOpen → r.undelivered ≠ none → w.memory r.region = some r.id :=
    fun ho hu => (h ho).sound.intact r (List.mem_of_getElem? hr) hu
  unfold Handover.complete at hv ⊢
  dsimp only at hv ⊢
  split at hv
  · rename_i held heq
    refine Inv.settle (fun ho => ?_) hkeeps hv
    obtain ⟨hu, hfits⟩ := hout held heq ho
    have hbytes := hintact ho (by rw [hu]; exact nofun)
    unfold FitsRead at hfits
    cases hp : w.machine.stream.protocol.type with
    | legacy =>
      rw [hp] at hfits
      dsimp only at hfits
      refine hdelivered _ rfl ho hu ?_
      show w.memory w.bufferToRead = some r.id
      rw [hfits]
      exact hbytes
    | buffered =>
      rw [hp] at hfits
      exact hdelivered _ rfl ho hu hfits
  · rename_i hne
    refine Inv.settle (fun ho => ?_) hkeeps hv
    exact hsilent ho (hnot (fun held heq => hne held heq) ho)

theorem Inv.completed {w v : Handover} (h : w.IsOpen → w.Inv) {i : ℕ} {res : ℤ} {cancelled : Bool}
    {task : TaskId} (hs : w.step (.completed i res cancelled task) = some v)
    (hok : w.IsOpen → w.Fits (.completed i res cancelled task)) (hv : v.IsOpen) : v.Inv := by
  unfold step at hs
  dsimp only at hs
  split at hs
  · exact nomatch hs
  · split at hs
    · rename_i id region hread
      split at hs
      · exact nomatch hs
      · rename_i hres
        obtain rfl := Option.some.inj hs
        refine Inv.complete h hread (fun held hheld _ => ?_) (fun _ _ => rfl) hv
        exact absurd (Int.toNat_eq_zero.2 (not_lt.1 hres))
          (Stream.readOperationCompleted_delivers hheld).2.1
    · rename_i id region nbytes hread
      split at hs
      · exact nomatch hs
      · rename_i hres
        obtain rfl := not_ne_iff.1 hres
        obtain rfl := Option.some.inj hs
        refine Inv.complete h hread (fun held hheld ho => ?_) (fun hne ho => ?_) hv
        · exact ⟨rfl, (hok ho _ hread nofun).2⟩
        · have hn := (h ho).positive _ (List.mem_of_getElem? hread) nbytes rfl
          obtain ⟨held, hheld, -⟩ := Stream.readOperationCompleted_open ho hn task
          rw [(hok ho _ hread nofun).1] at hne
          exact absurd hheld (hne held)
    · rename_i id region nbytes hread
      split at hs
      · exact nomatch hs
      · obtain rfl := Option.some.inj hs
        refine Inv.complete h hread (fun held hheld _ => ?_) (fun _ _ => rfl) hv
        exact nomatch (Stream.readOperationCompleted_delivers hheld).2.2
    · exact nomatch hs

theorem settle_deliveries (w : Handover) (memory : ℕ) (m : Machine) :
    (w.settle memory m).deliveries = w.deliveries := by
  unfold settle
  dsimp only
  split <;> rfl

theorem settle_stored (w : Handover) (memory : ℕ) (m : Machine) :
    (w.settle memory m).stored = w.stored := by
  unfold settle
  dsimp only
  split <;> rfl

theorem settle_returned (w : Handover) (memory : ℕ) (m : Machine) :
    (w.settle memory m).returned = w.returned := by
  unfold settle
  dsimp only
  split <;> rfl

theorem settle_awaiting (w : Handover) (memory : ℕ) (m : Machine) :
    (w.settle memory m).awaiting = w.awaiting := by
  unfold settle
  dsimp only
  split
  · rfl
  · unfold awaiting Handover.arm
    rw [List.filterMap_append]
    simp [Read.undelivered]

theorem fits_completed {w v : Handover} (h : w.Inv) (ho : w.IsOpen) {i : ℕ} {res : ℤ}
    {cancelled : Bool} {task : TaskId} (hs : w.step (.completed i res cancelled task) = some v)
    (hv : v.IsOpen → v.Sound) : w.Fits (.completed i res cancelled task) := by
  obtain ⟨place, hplace, -, hmemory⟩ := h.places
  intro r hr hu
  unfold step at hs
  dsimp only at hs
  split at hs
  · exact nomatch hs
  · split at hs
    · rename_i id region hread
      obtain rfl := Option.some.inj (hr.symm.trans hread)
      exact absurd rfl hu
    · rename_i id region nbytes hread
      obtain rfl := Option.some.inj (hr.symm.trans hread)
      split at hs
      · exact nomatch hs
      · rename_i hres
        obtain rfl := not_ne_iff.1 hres
        obtain rfl := Option.some.inj hs
        obtain ⟨l₁, l₂, hl, -, herase⟩ := split_at hread
        have hmem := List.mem_of_getElem? hread
        have hn := h.positive _ hmem nbytes rfl
        unfold Handover.complete at hv
        dsimp only at hv
        cases cancelled with
        | true =>
          -- the teardown drops the bytes
          obtain ⟨hnone, hopen⟩ := Stream.readOperationCompleted_cancelled (s := w.machine.stream) ho
            ⟨nbytes, .success, true, false⟩ rfl task
          rw [hnone] at hv
          have hsound := hv ((settle_isOpen _ _ _).2 hopen)
          refine absurd hsound (not_sound_of_dropped h ?_ ?_ ?_)
          · exact settle_stored _ _ _
          · exact settle_deliveries _ _ _
          · rw [settle_awaiting]
            unfold awaiting
            rw [herase, hl]
            simp [List.filterMap_append, Read.undelivered]
        | false =>
          refine ⟨rfl, ?_⟩
          obtain ⟨held, hheld, hopen⟩ := Stream.readOperationCompleted_open (s := w.machine.stream) ho
            hn task
          rw [hheld] at hv
          have hsound := hv ((settle_isOpen _ _ _).2 hopen)
          unfold FitsRead
          cases hp : w.machine.stream.protocol.type with
          | legacy =>
            rw [hp] at hsound
            have := hsound.proper (.dataReceived id (nbytes : ℤ).toNat (w.memory w.bufferToRead)) (by
              rw [settle_deliveries]
              exact List.mem_append_right _ (List.mem_singleton.2 rfl))
            exact (hmemory _ _ this).trans (hplace _ hmem nofun).symm
          | buffered =>
            rw [hp] at hsound
            have := hsound.proper (.bufferUpdated id (nbytes : ℤ).toNat region w.protocol) (by
              rw [settle_deliveries]
              exact List.mem_append_right _ (List.mem_singleton.2 rfl))
            unfold Proper at this
            dsimp only at this
            rw [settle_returned] at this
            exact this
    · rename_i id region nbytes hread
      obtain rfl := Option.some.inj (hr.symm.trans hread)
      exact absurd rfl hu
    · exact nomatch hs

/-! ### Runs -/

theorem dispatch_isOpen (w : Handover) (r : Record) (rest : List Record) :
    (w.dispatch r rest).IsOpen ↔ w.IsOpen := by
  unfold dispatch
  dsimp only
  split
  · exact Iff.rfl
  · split <;> exact Iff.rfl

/-- No function of the transport runs. -/
def Event.outside : Event → Bool
  | .transport _ | .returned .. | .completed .. => false
  | _ => true

/-- The events of the kernel and of the batch open and close nothing. -/
theorem isOpen_iff {w v : Handover} {e : Event} (hs : w.step e = some v) (he : e.outside = true) :
    v.IsOpen ↔ w.IsOpen := by
  cases e with
  | transport e => exact nomatch he
  | returned memory keepOpen task => exact nomatch he
  | setProtocol protocol methods =>
    obtain rfl := Option.some.inj hs
    exact Iff.rfl
  | stored i nbytes =>
    unfold step at hs
    dsimp only at hs
    split at hs
    · split at hs
      · exact nomatch hs
      · obtain rfl := Option.some.inj hs
        exact Iff.rfl
    · exact nomatch hs
  | harvested i =>
    unfold step at hs
    dsimp only at hs
    split at hs
    · exact nomatch hs
    · split at hs
      · obtain rfl := Option.some.inj hs
        exact Iff.rfl
      · exact nomatch hs
  | dispatched =>
    unfold step at hs
    dsimp only at hs
    split at hs
    · exact nomatch hs
    · split at hs
      · obtain rfl := Option.some.inj hs
        exact dispatch_isOpen w _ _
      · exact nomatch hs
  | dispatchAborted =>
    obtain rfl := Option.some.inj hs
    exact Iff.rfl
  | completed i res cancelled task => exact nomatch he

theorem inv_step {w v : Handover} {e : Event} (h : w.IsOpen → w.Inv) (hok : w.Meets e)
    (hs : w.step e = some v) (hv : v.IsOpen) : v.Inv := by
  have hfits : w.IsOpen → w.Fits e := fun ho => hok ho (by rw [hs]; rfl)
  cases e with
  | transport e =>
    unfold step at hs
    dsimp only at hs
    split at hs
    · exact nomatch hs
    · rename_i he
      obtain ⟨m, hm, rfl⟩ := Option.map_eq_some_iff.1 hs
      refine Inv.settle (fun ho => ?_) (keeps_machineStep hm (by simpa using he)) hv
      exact (h ho).congr rfl rfl rfl rfl rfl rfl (List.Subset.refl _) rfl
  | returned memory keepOpen task =>
    unfold step at hs
    dsimp only at hs
    split at hs
    · exact nomatch hs
    · split at hs
      · rename_i frame frames protocol type callers hframes hcallers
        obtain rfl := Option.some.inj hs
        refine Inv.settle (fun ho => ?_) (keeps_frameReturned _ frame type keepOpen task) hv
        refine (h ho).congr rfl rfl rfl rfl rfl rfl ?_ rfl
        dsimp only
        split
        · exact List.subset_append_left _ _
        · exact List.Subset.refl _
      · exact nomatch hs
  | setProtocol protocol methods =>
    obtain rfl := Option.some.inj hs
    exact (h hv).congr rfl rfl rfl rfl rfl rfl (List.Subset.refl _) rfl
  | stored i nbytes =>
    have ho := (isOpen_iff hs rfl).1 hv
    exact (h ho).stored hs (hfits ho)
  | harvested i =>
    have ho := (isOpen_iff hs rfl).1 hv
    exact (h ho).harvested hs (hfits ho)
  | dispatched =>
    have ho := (isOpen_iff hs rfl).1 hv
    exact (h ho).dispatched hs (hfits ho)
  | dispatchAborted =>
    obtain rfl := Option.some.inj hs
    exact (h hv).congr rfl (hfits hv).symm rfl rfl rfl rfl (List.Subset.refl _) rfl
  | completed i res cancelled task => exact Inv.completed h hs hfits hv

/-- An event after which no bytes are lost met its condition. -/
theorem meets_of_sound {w v : Handover} {e : Event} (h : w.IsOpen → w.Inv) (hs : w.step e = some v)
    (hv : v.IsOpen → v.Sound) : w.Meets e := by
  intro ho _
  cases e with
  | transport e => trivial
  | returned memory keepOpen task => trivial
  | setProtocol protocol methods => trivial
  | stored i nbytes => exact fits_stored (h ho) hs (hv ((isOpen_iff hs rfl).2 ho))
  | harvested i => exact fits_harvested (h ho) hs (hv ((isOpen_iff hs rfl).2 ho))
  | dispatched => exact fits_dispatched (h ho) hs (hv ((isOpen_iff hs rfl).2 ho))
  | dispatchAborted =>
    exact fits_dispatchAborted (h ho) hs (hv ((isOpen_iff hs rfl).2 ho))
  | completed i res cancelled task => exact fits_completed (h ho) ho hs hv

theorem inv_init (protocol : Protocol) (fd fixedFileIndex : ℕ) (ownsFd serverRef : Bool)
    (task : TaskId) : (init protocol fd fixedFileIndex ownsFd serverRef task).Inv := by
  unfold init
  refine Inv.arm ?_ _
  exact ⟨⟨.refl _, nofun, nofun, nofun⟩, nofun, List.nodup_nil, nofun, nofun, nofun,
    fun _ => .internal, nofun, nofun, nofun⟩

end Handover

end Talyn
