import Talyn.Ssl.Protocol

/-!
# TLS over a stream transport: the order of the plaintext

Every byte passed to `write` carries its position, so that what the SSL object took can be compared with
what was written. All functions but `write` keep the bytes that were taken, followed by the write buffer
(`Keeps`). `write` puts new bytes behind both, unless it offers them to the SSL object while the write
buffer holds older ones. Where the SSL object takes views of wider items whole or not at all
(`TakesWhole`), `write_keeps_order` says that this is the only way out of order. Where it takes some of
the bytes of such a view, the wrapper takes the number of bytes for one of items, and loses bytes.
-/

namespace Talyn.Ssl

/-- The bytes the SSL object took. -/
def Effect.taken : Effect → Chunk
  | .accepted c => c
  | _ => []

/-- The bytes the SSL object took so far. -/
def accepted (trace : List Effect) : Chunk := trace.flatMap Effect.taken

@[simp] theorem accepted_nil : accepted [] = [] := rfl

@[simp] theorem accepted_cons (e : Effect) (es : List Effect) :
    accepted (e :: es) = e.taken ++ accepted es := rfl

@[simp] theorem accepted_append (es fs : List Effect) :
    accepted (es ++ fs) = accepted es ++ accepted fs := List.flatMap_append

/-- A call of `SSLObject.write`: the view it was offered, and how it ended. -/
abbrev Offer := View (UInt8 × ℕ) × WriteResult

/-- The SSL object takes the bytes of a view of wider items all or none. -/
def Offer.Whole (o : Offer) : Prop :=
  o.1.itemSize = 1 ∨ ∀ n, o.2 = .accepted n → n = 0 ∨ o.1.elems.length ≤ n

/-- The calls of `SSLObject.write` in the loop of `_flush_write_buffer`. -/
def flushOffers {σ : Type*} (M : SslObject σ) (s : σ) : List (View (UInt8 × ℕ)) → List Offer
  | [] => []
  | data :: rest =>
    let r := M.write s (Chunk.bytes data.elems)
    match r.1 with
    | .wantRead | .wantWrite | .error => [(data, r.1)]
    | .accepted written =>
      if _h : written < data.len then
        if _h0 : written = 0 then [(data, r.1)]
        else (data, r.1) :: flushOffers M r.2 (data.drop written :: rest)
      else (data, r.1) :: flushOffers M r.2 rest
termination_by buffer => bufferSize buffer
decreasing_by
  · have hpos := View.len_pos _h
    have hskip : 0 < written * data.itemSize := Nat.mul_pos (Nat.pos_of_ne_zero _h0) data.itemSize_pos
    simp only [bufferSize, List.map_cons, View.elems_drop, List.length_drop, List.sum_cons]
    omega
  · simp only [bufferSize, List.map_cons, List.sum_cons]
    omega

/-- The first view is offered in any case. -/
theorem mem_flushOffers {σ : Type*} (M : SslObject σ) (s : σ) (data : View (UInt8 × ℕ))
    (rest : List (View (UInt8 × ℕ))) :
    (data, (M.write s (Chunk.bytes data.elems)).1) ∈ flushOffers M s (data :: rest) := by
  unfold flushOffers
  dsimp only
  split
  · simp [*]
  · simp [*]
  · simp [*]
  · split_ifs
    · simp [*]
    · simp [*]
    · simp [*]

/-- Items and bytes of a view that the SSL object takes whole or not at all. -/
theorem Offer.Whole.take_drop {data : View (UInt8 × ℕ)} {n : ℕ}
    (h : Whole (data, .accepted n)) (hlt : n < data.len) :
    data.elems.take n ++ (data.drop n).elems = data.elems := by
  rcases h with hone | hall
  · have hone : data.itemSize = 1 := hone
    rw [View.elems_drop, hone, Nat.mul_one, List.take_append_drop]
  · rcases hall n rfl with rfl | hle
    · simp
    · -- there are at most as many items as bytes
      have hmul := data.len_mul
      have hlen := Nat.le_mul_of_pos_right data.len data.itemSize_pos
      have hle : data.elems.length ≤ n := hle
      omega

theorem Offer.Whole.take_eq {data : View (UInt8 × ℕ)} {n : ℕ}
    (h : Whole (data, .accepted n)) (hge : data.len ≤ n) : data.elems.take n = data.elems := by
  have hmul := data.len_mul
  rcases h with hone | hall
  · have hone : data.itemSize = 1 := hone
    rw [hone, Nat.mul_one] at hmul
    exact List.take_of_length_le (by omega)
  · rcases hall n rfl with rfl | hle
    · rw [Nat.le_zero.1 hge, Nat.zero_mul] at hmul
      exact List.take_of_length_le hmul.ge
    · exact List.take_of_length_le hle

/-- The bytes of a write buffer. -/
def bufferBytes (buffer : List (View (UInt8 × ℕ))) : Chunk := buffer.flatMap View.elems

@[simp] theorem bufferBytes_nil : bufferBytes [] = [] := rfl

@[simp] theorem bufferBytes_cons (v : View (UInt8 × ℕ)) (buffer : List (View (UInt8 × ℕ))) :
    bufferBytes (v :: buffer) = v.elems ++ bufferBytes buffer := rfl

@[simp] theorem bufferBytes_append (buffer buffer' : List (View (UInt8 × ℕ))) :
    bufferBytes (buffer ++ buffer') = bufferBytes buffer ++ bufferBytes buffer' := List.flatMap_append

/-- The flush moves bytes from the front of the buffer to the SSL object. -/
theorem accepted_flushLoop {σ : Type*} {M : SslObject σ} (hM : ∀ s d, (M.write s d).1 ≠ .error) (s : σ)
    (buffer : List (View (UInt8 × ℕ))) (hwhole : ∀ o ∈ flushOffers M s buffer, Offer.Whole o) :
    accepted (flushLoop M s buffer).2.2 ++ bufferBytes (flushLoop M s buffer).2.1 =
      bufferBytes buffer := by
  fun_induction flushLoop M s buffer with
  | case1 => rfl
  | case2 s data rest t h => simp [Effect.taken]
  | case3 s data rest t h => simp [Effect.taken]
  | case4 s data rest t h => exact absurd (congrArg Prod.fst h) (hM _ _)
  | case5 s data rest t h => simp [Effect.taken]
  | case6 s data rest written t h hlt h0 t' buffer es hrec ih =>
    have hoffer := hwhole _ (mem_flushOffers M s data rest)
    unfold flushOffers at hwhole
    simp only [h, hlt, h0, ↓reduceDIte] at hwhole hoffer
    have hrest := ih fun o ho => hwhole o (List.mem_cons_of_mem _ ho)
    rw [hrec] at hrest
    simp only [accepted_cons, Effect.taken, List.append_assoc]
    rw [hrest, bufferBytes_cons, bufferBytes_cons, ← List.append_assoc, hoffer.take_drop hlt]
  | case7 s data rest written t h hlt t' buffer es hrec ih =>
    have hoffer := hwhole _ (mem_flushOffers M s data rest)
    unfold flushOffers at hwhole
    simp only [h, hlt, ↓reduceDIte] at hwhole hoffer
    have hrest := ih fun o ho => hwhole o (List.mem_cons_of_mem _ ho)
    rw [hrec] at hrest
    simp only [accepted_cons, Effect.taken, List.append_assoc]
    rw [hrest, bufferBytes_cons, hoffer.take_eq (Nat.le_of_not_lt hlt)]

namespace Connection

variable {σ : Type*} {M : SslObject σ}

/-- The SSL object took a prefix of what was written, and no byte twice. -/
def InOrder (c : Connection σ) : Prop :=
  accepted c.trace <+: c.written ∧ ((accepted c.trace).map Prod.snd).Nodup

/-- The calls of `SSLObject.write` in an event. -/
def offers (M : SslObject σ) (c : Connection σ) : Event → List Offer
  | .write data =>
    if c.paused then [] else [(data.zipIdx c.written.length, (M.write c.sslobj data.elems).1)]
  | .close => if c.closing then [] else flushOffers M c.sslobj c.writeBuffer
  | .bufferUpdated d =>
    if c.cls.shutsDown && c.closing then flushOffers M (M.feed c.sslobj d) c.writeBuffer else []
  | .returned _ =>
    match c.frames with
    | .resuming :: _ | .eofReceived :: _ => flushOffers M c.sslobj c.writeBuffer
    | _ => []
  | .timeout | .pauseWriting | .resumeWriting => []

/-- The SSL object takes the views of wider items whole or not at all. -/
def TakesWhole (M : SslObject σ) (c : Connection σ) (e : Event) : Prop :=
  ∀ o ∈ c.offers M e, Offer.Whole o

/-- `write` is called while the write buffer holds bytes, and the SSL object takes some of the new
ones. -/
def Overtakes (M : SslObject σ) (c : Connection σ) (data : View UInt8) : Prop :=
  c.paused = false ∧ bufferBytes c.writeBuffer ≠ [] ∧ data.elems ≠ [] ∧
    ∃ n > 0, (M.write c.sslobj data.elems).1 = .accepted n

/-- No `write` overtakes the write buffer in this event. -/
def NotOvertaking (M : SslObject σ) (c : Connection σ) (e : Event) : Prop :=
  ∀ data, e = .write data → c.hs = true → ¬ c.Overtakes M data

/-- The bytes the SSL object took, followed by the write buffer, are those that were written. -/
structure Ordered (c : Connection σ) : Prop where
  bytes : accepted c.trace ++ bufferBytes c.writeBuffer = c.written
  positions : c.written.map Prod.snd = List.range c.written.length

theorem Ordered.inOrder {c : Connection σ} (h : c.Ordered) : c.InOrder := by
  have hpre : accepted c.trace <+: c.written := ⟨_, h.bytes⟩
  refine ⟨hpre, ?_⟩
  have hsub := hpre.sublist.map Prod.snd
  rw [h.positions] at hsub
  exact hsub.nodup List.nodup_range

/-- Nothing is written, and what the SSL object took, followed by the write buffer, stays the same. -/
structure Keeps (c c' : Connection σ) : Prop where
  bytes : accepted c'.trace ++ bufferBytes c'.writeBuffer = accepted c.trace ++ bufferBytes c.writeBuffer
  written : c'.written = c.written

theorem Keeps.refl (c : Connection σ) : Keeps c c := ⟨rfl, rfl⟩

theorem Keeps.trans {c d e : Connection σ} (h : Keeps c d) (h' : Keeps d e) : Keeps c e :=
  ⟨h'.bytes.trans h.bytes, h'.written.trans h.written⟩

theorem Ordered.of_keeps {c c' : Connection σ} (h : c.Ordered) (hk : Keeps c c') : c'.Ordered :=
  ⟨by rw [hk.bytes, hk.written]; exact h.bytes, by rw [hk.written]; exact h.positions⟩

theorem keeps_flushWriteBuffer (hM : ∀ s d, (M.write s d).1 ≠ .error) (c : Connection σ)
    (hwhole : ∀ o ∈ flushOffers M c.sslobj c.writeBuffer, Offer.Whole o) :
    Keeps c (c.flushWriteBuffer M) := by
  have h := accepted_flushLoop hM c.sslobj c.writeBuffer hwhole
  refine ⟨?_, rfl⟩
  simp only [flushWriteBuffer, emit, accepted_append, accepted_cons, accepted_nil, Effect.taken,
    List.append_nil, List.append_assoc, h]

theorem keeps_startShutdown (hM : ∀ s d, (M.write s d).1 ≠ .error) (c : Connection σ)
    (hwhole : ∀ o ∈ flushOffers M c.sslobj c.writeBuffer, Offer.Whole o) :
    Keeps c (c.startShutdown M) :=
  ⟨(keeps_flushWriteBuffer hM c hwhole).bytes, (keeps_flushWriteBuffer hM c hwhole).written⟩

theorem accepted_quiet {es : List Effect} (h : ∀ e ∈ es, e.movesPlaintext = false) :
    accepted es = [] := by
  refine List.flatMap_eq_nil_iff.2 fun e he => ?_
  cases e with
  | accepted c => exact nomatch h _ he
  | refused | fatal | flushed | unwrapped | forceClosed | connectionMade | dataReceived | eofReceived =>
    rfl

theorem Quiet.keeps {c c' : Connection σ} (h : Quiet c c') : Keeps c c' := by
  obtain ⟨es, ht, hes⟩ := h.trace
  refine ⟨?_, h.kept.2.1⟩
  rw [ht, h.kept.1, accepted_append, accepted_quiet hes, List.append_nil]

theorem keeps_close (hM : ∀ s d, (M.write s d).1 ≠ .error) (c : Connection σ)
    (hwhole : c.TakesWhole M .close) : Keeps c (c.close M) := by
  unfold close
  unfold TakesWhole offers at hwhole
  dsimp only at hwhole
  split
  · exact .refl c
  · rename_i hopen
    rw [if_neg hopen] at hwhole
    exact .trans (d := { c with closing := true }) ⟨rfl, rfl⟩ (keeps_startShutdown hM _ hwhole)

theorem keeps_bufferUpdated (hM : ∀ s d, (M.write s d).1 ≠ .error) (c : Connection σ)
    (d : List UInt8) (hwhole : c.TakesWhole M (.bufferUpdated d)) : Keeps c (c.bufferUpdated M d) := by
  unfold bufferUpdated
  unfold TakesWhole offers at hwhole
  dsimp only at hwhole ⊢
  split
  · rename_i hshuts
    rw [if_pos hshuts] at hwhole
    exact .trans (d := push { c with sslobj := M.feed c.sslobj d, interrupted := false } _)
      ⟨rfl, rfl⟩ (keeps_startShutdown hM _ hwhole)
  · split
    · exact .trans (d := push { c with sslobj := M.feed c.sslobj d, interrupted := false } _)
        ⟨rfl, rfl⟩ (quiet_handshake _).keeps
    · exact .trans (d := push { c with sslobj := M.feed c.sslobj d, interrupted := false } _)
        ⟨rfl, rfl⟩ (quiet_readAll _).keeps

theorem keeps_resumeWriting (c : Connection σ) : Keeps c c.resumeWriting := by
  unfold resumeWriting
  dsimp only
  split
  · exact ⟨rfl, rfl⟩
  · exact ⟨rfl, rfl⟩

theorem keeps_pauseWriting (c : Connection σ) : Keeps c c.pauseWriting := by
  unfold pauseWriting
  split
  · exact ⟨rfl, rfl⟩
  · exact ⟨rfl, rfl⟩

theorem keeps_returned (hM : ∀ s d, (M.write s d).1 ≠ .error) {c c' : Connection σ} {raised : Bool}
    (hwhole : c.TakesWhole M (.returned raised)) (h : c.returned M raised = some c') : Keeps c c' := by
  unfold returned at h
  unfold TakesWhole offers at hwhole
  split at h
  · exact nomatch h
  · rename_i f frames hf
    rw [hf] at hwhole
    have hpop : Keeps c { c with frames := frames } := ⟨rfl, rfl⟩
    cases f with
    | shutdown => exact Option.some.inj h ▸ hpop.trans (quiet_finishShutdown _).keeps
    | resuming => exact Option.some.inj h ▸ hpop.trans (keeps_flushWriteBuffer hM _ hwhole)
    | received gotEof => exact Option.some.inj h ▸ hpop.trans (quiet_readEnd _ _).keeps
    | reading =>
      dsimp only at h
      split at h
      · exact Option.some.inj h ▸ ⟨rfl, rfl⟩
      · exact Option.some.inj h ▸ hpop.trans (quiet_readNext _).keeps
    | eofReceived => exact Option.some.inj h ▸ hpop.trans (keeps_startShutdown hM _ hwhole)
    | updated start stranded finished => exact Option.some.inj h ▸ ⟨rfl, rfl⟩
    | resumed start => exact Option.some.inj h ▸ ⟨rfl, rfl⟩

/-! ### Writing -/

theorem zipIdx_positions {l : Chunk} (h : l.map Prod.snd = List.range l.length) (data : List UInt8) :
    (l ++ data.zipIdx l.length).map Prod.snd =
      List.range (l ++ data.zipIdx l.length).length := by
  have hsucc := List.range'_append_1 (s := 0) (m := l.length) (n := data.length)
  rw [Nat.zero_add] at hsucc
  rw [List.map_append, h, List.zipIdx_map_snd, List.length_append, List.length_zipIdx,
    List.range_eq_range', List.range_eq_range', hsucc]

/-- A `write` that does not overtake puts its bytes behind all others. -/
theorem Ordered.write (hM : ∀ s d, (M.write s d).1 ≠ .error) {c : Connection σ} (h : c.Ordered)
    {data : View UInt8} (hwhole : c.TakesWhole M (.write data)) (hno : ¬ c.Overtakes M data) :
    (c.write M data).Ordered := by
  have hpos := zipIdx_positions h.positions data.elems
  have hb := h.bytes
  unfold TakesWhole offers at hwhole
  unfold Connection.write
  dsimp only at hwhole ⊢
  split
  · exact ⟨by simp [← hb], hpos⟩
  · rename_i hpaused
    rw [if_neg hpaused] at hwhole
    have hoffer := hwhole _ List.mem_cons_self
    have hview : (data.zipIdx c.written.length).len = data.len := by simp [View.len, View.zipIdx]
    split
    · exact ⟨by simp [emit, Effect.taken, ← hb], hpos⟩
    · exact ⟨by simp [emit, Effect.taken, ← hb], hpos⟩
    · rename_i s hw
      exact absurd (congrArg Prod.fst hw) (hM _ _)
    · rename_i written s hw
      rw [hw] at hoffer
      have hn : data.elems = [] ∨ written = 0 ∨ bufferBytes c.writeBuffer = [] := by
        by_contra! hcon
        obtain ⟨hd, h0, hbuf⟩ := hcon
        exact hno ⟨by simpa using hpaused, hbuf, hd, written, by omega, by rw [hw]⟩
      have htaken : accepted c.trace ++ (data.elems.zipIdx c.written.length).take written ++
          bufferBytes c.writeBuffer = accepted c.trace ++ bufferBytes c.writeBuffer ++
          (data.elems.zipIdx c.written.length).take written := by
        rcases hn with hnil | rfl | hbuf
        · simp [hnil]
        · simp
        · simp [hbuf]
      split
      · rename_i hlt
        have hsplit := hoffer.take_drop (hview ▸ hlt)
        refine ⟨?_, hpos⟩
        simp only [emit, accepted_append, accepted_cons, accepted_nil, Effect.taken, List.append_nil,
          bufferBytes_append, bufferBytes_cons, bufferBytes_nil]
        rw [View.elems_zipIdx] at hsplit
        rw [← List.append_assoc, View.elems_zipIdx, htaken, List.append_assoc, hsplit, hb]
      · rename_i hge
        have hall := hoffer.take_eq (hview ▸ Nat.le_of_not_lt hge)
        rw [View.elems_zipIdx] at hall
        rw [hall] at htaken
        refine ⟨?_, hpos⟩
        simp only [emit, accepted_append, accepted_cons, accepted_nil, Effect.taken, List.append_nil,
          View.elems_zipIdx]
        rw [hall, htaken, hb]

/-- A `write` that overtakes breaks the order. -/
theorem Ordered.not_inOrder_write {c : Connection σ} (h : c.Ordered) {data : View UInt8}
    (ho : c.Overtakes M data) : ¬ (c.write M data).InOrder := by
  obtain ⟨hpaused, hbuf, hdata, n, hn, hw⟩ := ho
  obtain ⟨b, rest, hbr⟩ := List.exists_cons_of_ne_nil hbuf
  obtain ⟨d, ds, hds⟩ := List.exists_cons_of_ne_nil hdata
  -- the first byte of the buffer is older than the first one that the SSL object takes
  have hold : b.2 < c.written.length := by
    have hmem : b.2 ∈ c.written.map Prod.snd := by
      rw [← h.bytes, hbr]
      simp
    rw [h.positions] at hmem
    simpa using hmem
  have hwritten : (c.write M data).written = c.written ++ data.elems.zipIdx c.written.length := by
    unfold Connection.write
    simp only [hpaused, Bool.false_eq_true, ↓reduceIte]
    split
    · rfl
    · rfl
    · rfl
    · split
      · rfl
      · rfl
  have htaken : ∃ es, accepted (c.write M data).trace =
      accepted c.trace ++ (d, c.written.length) :: es := by
    unfold Connection.write
    simp only [hpaused, Bool.false_eq_true, ↓reduceIte]
    rcases hres : M.write c.sslobj data.elems with ⟨r, s⟩
    rw [hres] at hw
    obtain rfl : r = .accepted n := hw
    dsimp only
    obtain ⟨n, rfl⟩ := Nat.exists_eq_succ_of_ne_zero hn.ne'
    split
    · exact ⟨(ds.zipIdx (c.written.length + 1)).take n, by simp [emit, Effect.taken, hds]⟩
    · exact ⟨(ds.zipIdx (c.written.length + 1)).take n, by simp [emit, Effect.taken, hds]⟩
  rintro ⟨⟨tail, htail⟩, -⟩
  obtain ⟨es, hes⟩ := htaken
  rw [hes, hwritten] at htail
  generalize c.written.length = k at *
  rw [← h.bytes, hbr, List.append_assoc, List.append_assoc, List.append_cancel_left_eq] at htail
  have hhead := congrArg List.head? htail
  simp only [List.cons_append, List.head?_cons] at hhead
  have hb : b.2 = k := by rw [← Option.some.inj hhead]
  omega

theorem Ordered.step (hM : ∀ s d, (M.write s d).1 ≠ .error) {c c' : Connection σ} {e : Event}
    (h : c.Ordered) (hwhole : c.TakesWhole M e) (hok : c.NotOvertaking M e)
    (hs : c.step M e = some c') : c'.Ordered := by
  have h0 : Ordered { c with ended := none } := h.of_keeps ⟨rfl, rfl⟩
  unfold Connection.step at hs
  cases e with
  | bufferUpdated d =>
    dsimp only at hs
    split at hs
    · exact Option.some.inj hs ▸ h0.of_keeps (keeps_bufferUpdated hM _ d hwhole)
    · exact nomatch hs
  | write data =>
    dsimp only at hs
    split at hs
    · rename_i hhs
      exact Option.some.inj hs ▸ h0.write hM hwhole (hok data rfl hhs)
    · exact nomatch hs
  | close =>
    dsimp only at hs
    split at hs
    · exact Option.some.inj hs ▸ h0.of_keeps (keeps_close hM _ hwhole)
    · exact nomatch hs
  | timeout =>
    dsimp only at hs
    split at hs
    · exact Option.some.inj hs ▸ h0.of_keeps ⟨by simp [emit, Effect.taken], rfl⟩
    · exact nomatch hs
  | pauseWriting => exact Option.some.inj hs ▸ h0.of_keeps (keeps_pauseWriting _)
  | resumeWriting => exact Option.some.inj hs ▸ h0.of_keeps (keeps_resumeWriting _)
  | returned raised => exact h0.of_keeps (keeps_returned hM hwhole hs)

theorem ordered_connectionMade (cls : ProtocolClass) (s : σ) (early : List UInt8) :
    (connectionMade M cls s early).Ordered :=
  Ordered.of_keeps (c := new M cls s early) ⟨rfl, rfl⟩ (quiet_handshake _).keeps

/-- **The plaintext stays in order.** Where the SSL object takes every view of wider items whole or not at
all, it stays in order in exactly the runs in which no `write` overtakes the write buffer. -/
theorem write_keeps_order (M : SslObject σ) (hM : ∀ s d, (M.write s d).1 ≠ .error)
    (cls : ProtocolClass) (s : σ) (early : List UInt8) (es : List Event)
    (hwhole : Runs.Along (step M) (TakesWhole M) (connectionMade M cls s early) es) :
    Runs.Always (step M) InOrder (connectionMade M cls s early) es ↔
      Runs.Along (step M) (NotOvertaking M) (connectionMade M cls s early) es := by
  refine Runs.always_iff_along_within (I := Ordered) hwhole (ordered_connectionMade cls s early)
    (fun c h => h.inOrder) (fun c e c' h hw hok hs => h.step hM hw hok hs) ?_ ?_
  · rintro c e c' h - hs hin data rfl hhs hover
    unfold Connection.step at hs
    dsimp only at hs
    rw [if_pos hhs] at hs
    rw [← Option.some.inj hs] at hin
    have h0 : Ordered { c with ended := none } := h.of_keeps ⟨rfl, rfl⟩
    exact h0.not_inOrder_write hover hin
  · rintro c e hnone data rfl hhs
    unfold Connection.step at hnone
    simp [hhs] at hnone

/-- Bytes that are written one by one are taken whole. -/
theorem takesWhole_ofBytes (c : Connection σ) (d : List UInt8) :
    c.TakesWhole M (.write (.ofBytes d)) := by
  intro o ho
  unfold offers at ho
  dsimp only at ho
  split at ho
  · exact absurd ho List.not_mem_nil
  · obtain rfl := List.mem_singleton.1 ho
    exact .inl rfl

theorem write_keeps_order_refused :
    Runs.Always (step scripted) InOrder (connectionMade scripted .client [none, none] [])
        [.write (.ofBytes [1]), .write (.ofBytes [2])] ↔
      Runs.Along (step scripted) (NotOvertaking scripted)
        (connectionMade scripted .client [none, none] [])
        [.write (.ofBytes [1]), .write (.ofBytes [2])] :=
  write_keeps_order scripted scripted_write _ _ _ _
    ⟨takesWhole_ofBytes _ _, fun _ _ => ⟨takesWhole_ofBytes _ _, fun _ _ => trivial⟩⟩

/-- Two items of four bytes each. -/
def twoWords : View UInt8 where
  elems := [1, 0, 0, 0, 2, 0, 0, 0]
  itemSize := 4
  itemSize_pos := Nat.succ_pos 3
  dvd_length := ⟨2, rfl⟩

/-- The SSL object wants to read before it takes the first byte, and takes the second one; or it takes four
bytes of two items, which the wrapper takes for all of them. -/
theorem write_overtakes :
    (¬ ∀ (es : List Event), Runs.Always (step scripted) InOrder
      (connectionMade scripted .client [none, some 1] []) es) ∧
    ¬ ∀ (es : List Event), Runs.Always (step scripted) InOrder
      (connectionMade scripted .client [some 4, some 1] []) es := by
  constructor
  · intro h
    have hrun := h [.write (.ofBytes [1]), .write (.ofBytes [2])]
    have hlast := ((hrun.2 _ rfl).2 _ rfl).1
    exact absurd hlast (by decide)
  · intro h
    have hrun := h [.write twoWords, .write (.ofBytes [3])]
    have hlast := ((hrun.2 _ rfl).2 _ rfl).1
    exact absurd hlast (by decide)

end Connection

end Talyn.Ssl
