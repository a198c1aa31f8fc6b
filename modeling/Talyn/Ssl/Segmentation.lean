import Talyn.Ssl.Shutdown

/-!
# TLS over a stream transport: how the stream is cut

What the application protocol receives is compared with the plaintext that the bytes received so far
decrypt to. `Decryption` is what is assumed of the SSL object for that; it can no longer be read from once
the shutdown was attempted or it has failed. `_r` reads until nothing is left. So plaintext can only stay
behind in two ways: `_h` does not go on to read when the handshake is done, and an exception of
`data_received` ends the loop of the UNIX server.
-/

namespace Talyn.Ssl

/-- The bytes that `read` returns. -/
def ReadResult.bytes : ReadResult → List UInt8
  | .data d => d
  | _ => []

/-- The SSL object decrypts a stream: the results of the handshake and of reading depend on the bytes of
its incoming BIO. -/
structure Decryption {σ : Type*} (M : SslObject σ) where
  /-- the bytes written to the incoming BIO -/
  received : σ → List UInt8
  /-- the plaintext returned by `read` -/
  taken : σ → List UInt8
  /-- the shutdown was not attempted, and there was no fatal error -/
  alive : σ → Prop
  established : List UInt8 → Prop
  /-- the application data in a stream -/
  plaintext : List UInt8 → List UInt8
  plaintext_early : ∀ b, ¬ established b → plaintext b = []
  /-- a new object -/
  start : σ
  start_new : alive start ∧ taken start = []
  feed : ∀ s d, received (M.feed s d) = received s ++ d ∧ taken (M.feed s d) = taken s ∧
    (alive s → alive (M.feed s d))
  doHandshake : ∀ s, received (M.doHandshake s).2 = received s ∧
    taken (M.doHandshake s).2 = taken s ∧
    (alive s → (M.doHandshake s).1 ≠ .error → alive (M.doHandshake s).2)
  doHandshake_done : ∀ s, alive s → established (received s) → (M.doHandshake s).1 = .done
  read : ∀ s, received (M.read s).2 = received s ∧
    taken (M.read s).2 = taken s ++ (M.read s).1.bytes ∧ (alive s → alive (M.read s).2)
  /-- `read` returns as long as there is something to decrypt -/
  read_all : ∀ s, alive s → (M.read s).1.bytes = [] → taken s = plaintext (received s)
  write : ∀ s d, received (M.write s d).2 = received s ∧ taken (M.write s d).2 = taken s ∧
    (alive s → (M.write s d).1 ≠ .error → alive (M.write s d).2)
  unwrap : ∀ s, received (M.unwrap s).2 = received s ∧ taken (M.unwrap s).2 = taken s

/-- An SSL object whose handshake takes one byte; the rest of the stream is its own plaintext. Its state
is what it received, and how many bytes of the plaintext were read. -/
def plain : SslObject (List UInt8 × ℕ) where
  feed s d := (s.1 ++ d, min s.2 s.1.tail.length)
  doHandshake s := (if s.1 = [] then .wantRead else .done, s)
  read s :=
    if s.2 < s.1.tail.length then (.data (s.1.tail.drop s.2), (s.1, s.1.tail.length))
    else (.wantRead, s)
  write s d := (.accepted d.length, s)
  unwrap s := (.done, s)
  backlog s := s.1.tail.length - s.2
  read_backlog := by
    intro s d t _ h
    split at h
    · obtain ⟨-, rfl⟩ := Prod.mk.inj h
      dsimp only
      omega
    · exact nomatch (Prod.mk.inj h).1

/-- What `plain` decrypts. -/
def plainDecryption : Decryption plain where
  received s := s.1
  taken s := s.1.tail.take s.2
  alive _ := True
  established b := b ≠ []
  plaintext b := b.tail
  plaintext_early b hb := by simp [not_not.1 hb]
  start := ([], 0)
  start_new := ⟨trivial, rfl⟩
  feed s d := by
    refine ⟨rfl, ?_, id⟩
    rcases s with ⟨_ | ⟨b, r⟩, n⟩
    · simp [plain]
    · simp [plain, List.take_append_of_le_length]
  doHandshake s := ⟨rfl, rfl, fun _ _ => trivial⟩
  doHandshake_done s _ h := if_neg h
  read s := by
    unfold plain
    dsimp only
    split
    · exact ⟨rfl, List.take_length.trans (List.take_append_drop s.2 s.1.tail).symm, id⟩
    · exact ⟨rfl, (List.append_nil _).symm, id⟩
  read_all s _ h := by
    unfold plain at h
    dsimp only at h
    split at h
    · rename_i hlt
      have hempty := List.drop_eq_nil_iff.1 h
      omega
    · rename_i hge
      exact List.take_of_length_le (by omega)
  write s d := ⟨rfl, rfl, fun _ _ => trivial⟩
  unwrap s := ⟨rfl, rfl⟩

/-- The data passed to `data_received`. -/
def Effect.data : Effect → List UInt8
  | .dataReceived d => d
  | _ => []

/-- The frame belongs neither to `buffer_updated` nor to the loop of `_r`. -/
def Frame.still : Frame → Bool
  | .updated _ _ _ | .reading => false
  | _ => true

/-- The frame is that of a `buffer_updated` that completed the handshake. -/
def Frame.finished : Frame → Bool
  | .updated _ _ finished => finished
  | _ => false

/-- The plaintext the application protocol received. -/
def delivered (trace : List Effect) : List UInt8 := trace.flatMap Effect.data

theorem delivered_append (es fs : List Effect) :
    delivered (es ++ fs) = delivered es ++ delivered fs := List.flatMap_append

/-- The bytes of the incoming stream in a list of events. -/
def inbound (es : List Event) : List UInt8 :=
  es.flatMap fun
    | .bufferUpdated d => d
    | _ => []

section Loops

variable {σ : Type*} {M : SslObject σ} (D : Decryption M)

/-- Flushing does not read. -/
theorem decryption_flushLoop (s : σ) (buffer : List (View (UInt8 × ℕ))) :
    D.received (flushLoop M s buffer).1 = D.received s ∧
      D.taken (flushLoop M s buffer).1 = D.taken s ∧
      (D.alive s → .fatal ∉ (flushLoop M s buffer).2.2 → D.alive (flushLoop M s buffer).1) ∧
      ∀ e ∈ (flushLoop M s buffer).2.2, e.data = [] ∧ ∀ r, e ≠ .unwrapped r := by
  have hwrite := D.write
  -- a write that took something, and what the rest of the loop does after it
  have hnext : ∀ {s t t' : σ} {data : Chunk} {es : List Effect}, (D.alive s → D.alive t) →
      ((D.alive t → .fatal ∉ es → D.alive t') ∧ ∀ e ∈ es, e.data = [] ∧ ∀ r, e ≠ .unwrapped r) →
      (D.alive s → .fatal ∉ Effect.accepted data :: es → D.alive t') ∧
        ∀ e ∈ Effect.accepted data :: es, e.data = [] ∧ ∀ r, e ≠ .unwrapped r := by
    intro s t t' data es hst ⟨ha, he⟩
    refine ⟨fun hs hno => ha (hst hs) fun hmem => hno (List.mem_cons_of_mem _ hmem), ?_⟩
    rintro e (_ | ⟨_, hmem⟩)
    · exact ⟨rfl, nofun⟩
    · exact he e hmem
  fun_induction flushLoop M s buffer with
  | case1 => exact ⟨rfl, rfl, fun h _ => h, by simp⟩
  | case2 s data rest t h =>
    obtain ⟨hr, ht, ha⟩ := h ▸ hwrite s (Chunk.bytes data.elems)
    exact ⟨hr, ht, fun hs _ => ha hs (by simp), by simp [Effect.data]⟩
  | case3 s data rest t h =>
    obtain ⟨hr, ht, ha⟩ := h ▸ hwrite s (Chunk.bytes data.elems)
    exact ⟨hr, ht, fun hs _ => ha hs (by simp), by simp [Effect.data]⟩
  | case4 s data rest t h =>
    obtain ⟨hr, ht, -⟩ := h ▸ hwrite s (Chunk.bytes data.elems)
    exact ⟨hr, ht, fun _ hno => absurd (List.mem_singleton.2 rfl) hno, by simp [Effect.data]⟩
  | case5 s data rest t h =>
    obtain ⟨hr, ht, ha⟩ := h ▸ hwrite s (Chunk.bytes data.elems)
    exact ⟨hr, ht, fun hs _ => ha hs (by simp), by simp [Effect.data]⟩
  | case6 s data rest written t h hlt h0 t' buffer es hrec ih =>
    obtain ⟨hr, ht, ha⟩ := h ▸ hwrite s (Chunk.bytes data.elems)
    rw [hrec] at ih
    obtain ⟨hr', ht', ha', he'⟩ := ih
    exact ⟨hr'.trans hr, ht'.trans ht, hnext (fun hs => ha hs (by simp)) ⟨ha', he'⟩⟩
  | case7 s data rest written t h hlt t' buffer es hrec ih =>
    obtain ⟨hr, ht, ha⟩ := h ▸ hwrite s (Chunk.bytes data.elems)
    rw [hrec] at ih
    obtain ⟨hr', ht', ha', he'⟩ := ih
    exact ⟨hr'.trans hr, ht'.trans ht, hnext (fun hs => ha hs (by simp)) ⟨ha', he'⟩⟩

/-- `_r` reads everything there is. -/
theorem decryption_readLoop (s : σ) :
    D.received (readLoop M s).2.2 = D.received s ∧
      D.taken (readLoop M s).2.2 = D.taken s ++ (readLoop M s).1 ∧
      (D.alive s → D.alive (readLoop M s).2.2 ∧
        D.taken (readLoop M s).2.2 = D.plaintext (D.received s)) := by
  have hread := D.read
  have hall := D.read_all
  fun_induction readLoop M s with
  | case1 s t h =>
    obtain ⟨hr, ht, ha⟩ := h ▸ hread s
    refine ⟨hr, ht, fun hs => ⟨ha hs, ht.trans ?_⟩⟩
    rw [← hall s hs (by rw [h]; rfl)]
    exact List.append_nil _
  | case2 s t h =>
    obtain ⟨hr, ht, ha⟩ := h ▸ hread s
    refine ⟨hr, ht, fun hs => ⟨ha hs, ht.trans ?_⟩⟩
    rw [← hall s hs (by rw [h]; rfl)]
    exact List.append_nil _
  | case3 s t h =>
    obtain ⟨hr, ht, ha⟩ := h ▸ hread s
    refine ⟨hr, ht, fun hs => ⟨ha hs, ht.trans ?_⟩⟩
    rw [← hall s hs (by rw [h]; rfl)]
    exact List.append_nil _
  | case4 s d t h hd chunks gotEof u hrec ih =>
    obtain ⟨hr, ht, ha⟩ := h ▸ hread s
    rw [hrec] at ih
    obtain ⟨ihr, iht, iha⟩ := ih
    refine ⟨ihr.trans hr, ?_, fun hs => ?_⟩
    · rw [iht, ht, List.append_assoc]
      rfl
    · obtain ⟨ihalive, ihtaken⟩ := iha (ha hs)
      exact ⟨ihalive, by rw [ihtaken, hr]⟩

end Loops

namespace Connection

variable {σ : Type*} {M : SslObject σ}

/-- The connection is neither closing nor has it failed. -/
def Open (c : Connection σ) : Prop :=
  c.closing = false ∧ c.failed = false ∧ .fatal ∉ c.trace ∧ ∀ r, .unwrapped r ∉ c.trace

/-- When `buffer_updated` returns on an open connection, all that can be decrypted was delivered. -/
def Delivered (D : Decryption M) (c : Connection σ) : Prop :=
  ∀ start stranded finished, c.ended = some (.updated start stranded finished) → c.Open →
    delivered c.trace = D.plaintext (D.received c.sslobj)

/-- The condition on an event: a `buffer_updated` that returns on an open connection did not complete the
handshake with application data in the same chunk, and no exception of `data_received` left plaintext
behind in it. -/
def LeavesNothing (D : Decryption M) (c : Connection σ) (e : Event) : Prop :=
  ∀ raised start stranded finished frames, e = .returned raised →
    c.frames = .updated start stranded finished :: frames → c.Open →
      (finished = true → D.plaintext (D.received c.sslobj) = []) ∧
        (c.interrupted = true → D.taken c.sslobj = D.plaintext (D.received c.sslobj))

/-- A `buffer_updated` is at the bottom of the stack. -/
def Bottom : List Frame → Prop
  | [] => True
  | .updated _ _ _ :: frames => frames = []
  | _ :: frames => Bottom frames

/-- What has been read was delivered, and what a `buffer_updated` on an open connection has not read yet
comes from the handshake, an exception, or a loop that goes on. -/
structure Reading (D : Decryption M) (c : Connection σ) : Prop where
  delivered : delivered c.trace = D.taken c.sslobj
  alive : c.Open → D.alive c.sslobj
  early : c.hs = false → D.taken c.sslobj = [] ∧ .reading ∉ c.frames
  bottom : Bottom c.frames
  /-- nothing was read since the handshake -/
  fresh : ∀ start stranded, .updated start stranded true ∈ c.frames →
    D.taken c.sslobj = [] ∧ .reading ∉ c.frames
  call : ∀ start stranded finished, .updated start stranded finished ∈ c.frames → c.Open →
    finished = true ∨ c.interrupted = true ∨ .reading ∈ c.frames ∨
      D.taken c.sslobj = D.plaintext (D.received c.sslobj)

/-! ### What does not read -/

/-- Nothing is read, and an open connection was open before. -/
structure Still (D : Decryption M) (c c' : Connection σ) : Prop where
  received : D.received c'.sslobj = D.received c.sslobj
  taken : D.taken c'.sslobj = D.taken c.sslobj
  delivered : Ssl.delivered c'.trace = Ssl.delivered c.trace
  flags : c'.hs = c.hs ∧ c'.interrupted = c.interrupted
  opened : c'.Open → c.Open ∧ (D.alive c.sslobj → D.alive c'.sslobj)
  frames : ∃ fs, c'.frames = fs ++ c.frames ∧ ∀ f ∈ fs, f.still = true

variable {D : Decryption M}

theorem bottom_append {fs frames : List Frame} (h : ∀ f ∈ fs, ∀ start stranded finished,
    f ≠ .updated start stranded finished) (hb : Bottom frames) : Bottom (fs ++ frames) := by
  induction fs with
  | nil => exact hb
  | cons f fs ih =>
    have hrest := ih fun g hg => h g (List.mem_cons_of_mem _ hg)
    cases f with
    | updated start stranded finished => exact absurd rfl (h _ (List.mem_cons_self ..) _ _ _)
    | resumed start => exact hrest
    | shutdown | resuming | received gotEof | reading | eofReceived => exact hrest

theorem Reading.still {c c' : Connection σ} (h : c.Reading D) (hs : Still D c c') : c'.Reading D := by
  obtain ⟨fs, hfs, hstill⟩ := hs.frames
  have hno : ∀ f ∈ fs, ∀ start stranded finished, f ≠ .updated start stranded finished := by
    rintro f hf start stranded finished rfl
    exact nomatch hstill _ hf
  refine ⟨?_, fun ho => ?_, fun hhs => ?_, ?_, fun start stranded hmem => ?_,
    fun start stranded finished hmem ho => ?_⟩
  · rw [hs.delivered, hs.taken]
    exact h.delivered
  · exact (hs.opened ho).2 (h.alive (hs.opened ho).1)
  · obtain ⟨htaken, hno⟩ := h.early (hs.flags.1.symm.trans hhs)
    refine ⟨hs.taken.trans htaken, fun hmem => ?_⟩
    rw [hfs, List.mem_append] at hmem
    exact hmem.elim (fun hm => nomatch hstill _ hm) hno
  · rw [hfs]
    exact bottom_append hno h.bottom
  · rw [hfs, List.mem_append] at hmem
    obtain ⟨htaken, hloop⟩ := h.fresh start stranded
      (hmem.resolve_left fun hm => hno _ hm _ _ _ rfl)
    refine ⟨hs.taken.trans htaken, fun hm => ?_⟩
    rw [hfs, List.mem_append] at hm
    exact hm.elim (fun hm => nomatch hstill _ hm) hloop
  · rw [hfs, List.mem_append] at hmem
    have hcall := h.call start stranded finished
      (hmem.resolve_left fun hm => hno _ hm _ _ _ rfl) (hs.opened ho).1
    rw [hs.taken, hs.flags.2, hs.received, hfs]
    obtain hf | hi | hr | ht := hcall
    · exact .inl hf
    · exact .inr (.inl hi)
    · exact .inr (.inr (.inl (List.mem_append_right _ hr)))
    · exact .inr (.inr (.inr ht))

theorem Still.refl (c : Connection σ) : Still D c c :=
  ⟨rfl, rfl, rfl, ⟨rfl, rfl⟩, fun h => ⟨h, id⟩, [], rfl, by simp⟩

theorem Still.trans {c d e : Connection σ} (h : Still D c d) (h' : Still D d e) : Still D c e := by
  obtain ⟨fs, hfs, hstill⟩ := h.frames
  obtain ⟨gs, hgs, hstill'⟩ := h'.frames
  refine ⟨h'.received.trans h.received, h'.taken.trans h.taken, h'.delivered.trans h.delivered,
    ⟨h'.flags.1.trans h.flags.1, h'.flags.2.trans h.flags.2⟩, fun ho => ?_, gs ++ fs, ?_, ?_⟩
  · obtain ⟨hd, ha'⟩ := h'.opened ho
    obtain ⟨hc, ha⟩ := h.opened hd
    exact ⟨hc, fun hs => ha' (ha hs)⟩
  · rw [hgs, hfs, List.append_assoc]
  · intro f hf
    obtain hf | hf := List.mem_append.1 hf
    · exact hstill' f hf
    · exact hstill f hf

theorem still_push (c : Connection σ) {f : Frame} (hf : f.still = true) : Still D c (c.push f) :=
  ⟨rfl, rfl, rfl, ⟨rfl, rfl⟩, fun h => ⟨h, id⟩, [f], rfl, by simpa using hf⟩

theorem open_of_append {c c' : Connection σ} {es : List Effect} (ht : c'.trace = c.trace ++ es)
    (hc : c'.closing = false → c.closing = false) (hf : c'.failed = c.failed) (h : c'.Open) :
    c.Open := by
  obtain ⟨hclosing, hfailed, hfatal, hunwrapped⟩ := h
  rw [ht] at hfatal hunwrapped
  exact ⟨hc hclosing, hf.symm.trans hfailed, fun hm => hfatal (List.mem_append_left _ hm),
    fun r hm => hunwrapped r (List.mem_append_left _ hm)⟩

theorem open_of_emit (c : Connection σ) (es : List Effect) (h : (c.emit es).Open) : c.Open :=
  @open_of_append _ c (c.emit es) es rfl id rfl h

theorem delivered_eq {c c' : Connection σ} {es : List Effect} (ht : c'.trace = c.trace ++ es)
    (hes : ∀ e ∈ es, e.data = []) : Ssl.delivered c'.trace = Ssl.delivered c.trace := by
  rw [ht, delivered_append, show Ssl.delivered es = [] from List.flatMap_eq_nil_iff.2 hes,
    List.append_nil]

/-- Only the SSL object changes, by an operation that does not read, and the trace grows. -/
theorem Still.of_sslobj {c c' : Connection σ} {es : List Effect} (ht : c'.trace = c.trace ++ es)
    (hes : ∀ e ∈ es, e.data = [])
    (hc : c'.hs = c.hs ∧ c'.interrupted = c.interrupted ∧ c'.failed = c.failed ∧ c'.frames = c.frames ∧
      (c'.closing = false → c.closing = false))
    (hs : D.received c'.sslobj = D.received c.sslobj ∧ D.taken c'.sslobj = D.taken c.sslobj)
    (ha : c'.Open → D.alive c.sslobj → D.alive c'.sslobj) : Still D c c' :=
  ⟨hs.1, hs.2, delivered_eq ht hes, ⟨hc.1, hc.2.1⟩,
    fun ho => ⟨open_of_append ht hc.2.2.2.2 hc.2.2.1 ho, ha ho⟩, [], hc.2.2.2.1, by simp⟩

theorem still_flushWriteBuffer (c : Connection σ) : Still D c (c.flushWriteBuffer M) := by
  obtain ⟨hr, ht, ha, he⟩ := decryption_flushLoop D c.sslobj c.writeBuffer
  refine .of_sslobj rfl ?_ ⟨rfl, rfl, rfl, rfl, id⟩ ⟨hr, ht⟩ fun ho hs => ha hs fun hm => ho.2.2.1 ?_
  · intro e hmem
    obtain hmem | hmem := List.mem_append.1 hmem
    · exact (he e hmem).1
    · rw [List.mem_singleton.1 hmem]
      rfl
  · exact List.mem_append_right _ (List.mem_append_left _ hm)

theorem still_startShutdown (c : Connection σ) : Still D c (c.startShutdown M) :=
  (still_flushWriteBuffer c).trans (still_push _ rfl)

theorem still_finishShutdown (c : Connection σ) : Still D c (c.finishShutdown M) := by
  obtain ⟨hr, ht⟩ := D.unwrap c.sslobj
  unfold finishShutdown
  split_ifs
  · exact .refl c
  · rcases hu : M.unwrap c.sslobj with ⟨r, s⟩
    rw [hu] at hr ht
    have hunwrapped : ∀ timer, Still D c
        (emit { c with sslobj := s, timer := timer } [.unwrapped r]) := by
      intro timer
      refine .of_sslobj rfl (by simp [Effect.data]) ⟨rfl, rfl, rfl, rfl, id⟩ ⟨hr, ht⟩ fun ho => ?_
      exact absurd (by simp [emit]) (ho.2.2.2 r)
    have hclosed : ∀ timer, Still D c
        (emit (emit { c with sslobj := s, timer := timer } [.unwrapped r]) [.forceClosed]) := by
      intro timer
      refine (hunwrapped timer).trans (.of_sslobj rfl (by simp [Effect.data]) ⟨rfl, rfl, rfl, rfl, id⟩
        ⟨rfl, rfl⟩ fun _ => id)
    cases r with
    | done => exact hclosed _
    | error => exact hclosed _
    | wantRead =>
      dsimp only
      split
      · exact hclosed _
      · exact hunwrapped _
    | wantWrite =>
      dsimp only
      split
      · exact hclosed _
      · exact hunwrapped _

theorem still_write (c : Connection σ) (data : View UInt8) : Still D c (c.write M data) := by
  obtain ⟨hr, ht, ha⟩ := D.write c.sslobj data.elems
  unfold Connection.write
  dsimp only
  split
  · exact .of_sslobj (List.append_nil _).symm (by simp) ⟨rfl, rfl, rfl, rfl, id⟩ ⟨rfl, rfl⟩ fun _ => id
  · split
    · rename_i hw
      rw [hw] at hr ht ha
      exact .of_sslobj rfl (by simp [Effect.data]) ⟨rfl, rfl, rfl, rfl, id⟩ ⟨hr, ht⟩
        fun _ hs => ha hs (by simp)
    · rename_i hw
      rw [hw] at hr ht ha
      exact .of_sslobj rfl (by simp [Effect.data]) ⟨rfl, rfl, rfl, rfl, id⟩ ⟨hr, ht⟩
        fun _ hs => ha hs (by simp)
    · rename_i hw
      rw [hw] at hr ht
      exact .of_sslobj rfl (by simp [Effect.data]) ⟨rfl, rfl, rfl, rfl, id⟩ ⟨hr, ht⟩
        fun ho => absurd (by simp [emit]) ho.2.2.1
    · rename_i hw
      rw [hw] at hr ht ha
      split
      · exact .of_sslobj rfl (by simp [Effect.data]) ⟨rfl, rfl, rfl, rfl, id⟩ ⟨hr, ht⟩
          fun _ hs => ha hs (by simp)
      · exact .of_sslobj rfl (by simp [Effect.data]) ⟨rfl, rfl, rfl, rfl, id⟩ ⟨hr, ht⟩
          fun _ hs => ha hs (by simp)

theorem still_close (c : Connection σ) : Still D c (c.close M) := by
  unfold close
  split
  · exact .refl c
  · have hclosing : Still D c { c with closing := true } :=
      .of_sslobj (List.append_nil _).symm (by simp) ⟨rfl, rfl, rfl, rfl, nofun⟩ ⟨rfl, rfl⟩ fun _ => id
    exact hclosing.trans (still_startShutdown _)

theorem still_pauseWriting (c : Connection σ) : Still D c c.pauseWriting := by
  unfold pauseWriting
  split
  · exact .of_sslobj (List.append_nil _).symm (by simp) ⟨rfl, rfl, rfl, rfl, id⟩ ⟨rfl, rfl⟩ fun _ => id
  · exact .refl c

theorem still_resumeWriting (c : Connection σ) : Still D c c.resumeWriting := by
  unfold resumeWriting
  dsimp only
  split
  · have hpaused : Still D (c.push (.resumed c.trace.length))
        { c.push (.resumed c.trace.length) with paused := false } :=
      .of_sslobj (List.append_nil _).symm (by simp) ⟨rfl, rfl, rfl, rfl, id⟩ ⟨rfl, rfl⟩ fun _ => id
    exact ((still_push c rfl).trans hpaused).trans (still_push _ rfl)
  · exact still_push c rfl

theorem still_readEnd (c : Connection σ) (gotEof : Bool) : Still D c (c.readEnd gotEof) := by
  unfold readEnd
  split
  · have heof : Still D c (c.emit [.eofReceived]) :=
      .of_sslobj rfl (by simp [Effect.data]) ⟨rfl, rfl, rfl, rfl, id⟩ ⟨rfl, rfl⟩ fun _ => id
    exact heof.trans (still_push _ rfl)
  · exact .refl c

/-! ### Reading -/

/-- What is read is delivered, and nothing is left to read, or the loop goes on. -/
structure Reads (D : Decryption M) (c c' : Connection σ) : Prop where
  received : D.received c'.sslobj = D.received c.sslobj
  delivered : Ssl.delivered c.trace = D.taken c.sslobj →
    Ssl.delivered c'.trace = D.taken c'.sslobj
  flags : c'.hs = c.hs
  opened : c'.Open → c.Open ∧ (D.alive c.sslobj → D.alive c'.sslobj ∧
    (.reading ∈ c'.frames ∨ D.taken c'.sslobj = D.plaintext (D.received c.sslobj)))
  frames : ∃ fs, c'.frames = fs ++ c.frames ∧
    ∀ f ∈ fs, ∀ start stranded finished, f ≠ .updated start stranded finished

theorem Reads.still {c d e : Connection σ} (h : Reads D c d) (h' : Still D d e) : Reads D c e := by
  obtain ⟨fs, hfs, hno⟩ := h.frames
  obtain ⟨gs, hgs, hstill⟩ := h'.frames
  refine ⟨h'.received.trans h.received, fun hd => ?_, h'.flags.1.trans h.flags, fun ho => ?_,
    gs ++ fs, ?_, ?_⟩
  · rw [h'.delivered, h'.taken]
    exact h.delivered hd
  · obtain ⟨hod, ha'⟩ := h'.opened ho
    obtain ⟨hoc, ha⟩ := h.opened hod
    refine ⟨hoc, fun hs => ⟨ha' (ha hs).1, ?_⟩⟩
    rw [h'.taken, hgs]
    exact (ha hs).2.imp_left fun hm => List.mem_append_right _ hm
  · rw [hgs, hfs, List.append_assoc]
  · rintro f hf start stranded finished rfl
    obtain hf | hf := List.mem_append.1 hf
    · exact nomatch hstill _ hf
    · exact hno _ hf _ _ _ rfl

theorem reads_readNext (c : Connection σ) : Reads D c (c.readNext M) := by
  obtain ⟨hr, ht, ha⟩ := D.read c.sslobj
  have hall := D.read_all c.sslobj
  -- the loop ends
  have hend : ∀ s, D.received s = D.received c.sslobj → D.taken s = D.taken c.sslobj →
      (D.alive c.sslobj → D.alive s) → (M.read c.sslobj).1.bytes = [] →
      Reads D c { c with sslobj := s } := by
    intro s hr ht ha hb
    refine ⟨hr, fun hd => hd.trans ht.symm, rfl, fun ho => ⟨ho, fun hs => ⟨ha hs, .inr ?_⟩⟩, [], rfl,
      by simp⟩
    exact ht.trans (hall hs hb)
  unfold readNext
  split
  · rename_i s h
    rw [h] at hr ht ha
    exact hend s hr (by simpa [ReadResult.bytes] using ht) ha (by rw [h]; rfl)
  · rename_i s h
    rw [h] at hr ht ha
    exact hend s hr (by simpa [ReadResult.bytes] using ht) ha (by rw [h]; rfl)
  · rename_i d s h
    rw [h] at hr ht ha
    split
    · rename_i hd
      subst hd
      exact hend s hr (by simpa [ReadResult.bytes] using ht) ha (by rw [h]; rfl)
    · refine ⟨hr, fun hd => ?_, rfl, fun ho => ⟨?_, fun hs => ?_⟩, [.reading], rfl, by simp⟩
      · show Ssl.delivered (c.trace ++ [.dataReceived d]) = D.taken s
        rw [delivered_append, hd, ht]
        simp [Ssl.delivered, Effect.data, ReadResult.bytes]
      · exact open_of_emit c [.dataReceived d] ho
      · exact ⟨ha hs, .inl (List.mem_cons_self ..)⟩

/-- `_r` of the other classes has nothing for `data_received`. -/
theorem reads_empty (c : Connection σ) (h : (readLoop M c.sslobj).1 = []) :
    Reads D c { c with sslobj := (readLoop M c.sslobj).2.2 } := by
  obtain ⟨hr, ht, ha⟩ := decryption_readLoop D c.sslobj
  rw [h, List.append_nil] at ht
  refine ⟨hr, fun hd => hd.trans ht.symm, rfl, fun ho => ⟨ho, fun hs => ?_⟩, [], rfl, by simp⟩
  exact ⟨(ha hs).1, .inr (ha hs).2⟩

/-- `_r` of the other classes calls `data_received` once, with all it has read. -/
theorem reads_chunks (c : Connection σ) :
    Reads D c (emit { c with sslobj := (readLoop M c.sslobj).2.2 }
      [.dataReceived (readLoop M c.sslobj).1]) := by
  obtain ⟨hr, ht, ha⟩ := decryption_readLoop D c.sslobj
  refine ⟨hr, fun hd => ?_, rfl, fun ho => ⟨?_, fun hs => ?_⟩, [], rfl, by simp⟩
  · show Ssl.delivered (c.trace ++ [.dataReceived _]) = D.taken (readLoop M c.sslobj).2.2
    rw [delivered_append, hd, ht]
    simp [Ssl.delivered, Effect.data]
  · exact open_of_emit c [.dataReceived _] ho
  · exact ⟨(ha hs).1, .inr (ha hs).2⟩

theorem reads_readAll (c : Connection σ) : Reads D c (c.readAll M) := by
  unfold readAll
  split
  · exact reads_readNext c
  · split
    · rename_i hfailed
      exact ⟨rfl, id, rfl, fun ho => (nomatch ho.2.1.symm.trans hfailed), [], rfl, by simp⟩
    · dsimp only
      split
      · rename_i hempty
        exact reads_empty c hempty
      · exact (reads_chunks c).still (still_push _ rfl)
  all_goals
    dsimp only
    split
    · rename_i hempty
      exact (reads_empty c hempty).still (still_readEnd _ _)
    · exact (reads_chunks c).still (still_push _ rfl)

/-! ### The methods of the classes -/

/-- The handshake reads nothing; it is done as soon as the bytes for it are there. -/
theorem handshake_cases (c : Connection σ) :
    D.received (c.handshake M).sslobj = D.received c.sslobj ∧
      D.taken (c.handshake M).sslobj = D.taken c.sslobj ∧
      delivered (c.handshake M).trace = delivered c.trace ∧ (c.handshake M).frames = c.frames ∧
      (c.handshake M).interrupted = c.interrupted ∧
      ((c.handshake M).Open → c.Open ∧ (D.alive c.sslobj → D.alive (c.handshake M).sslobj ∧
        ((M.doHandshake c.sslobj).1 = .done ∨ D.plaintext (D.received c.sslobj) = []))) := by
  obtain ⟨hr, ht, ha⟩ := D.doHandshake c.sslobj
  have hdone := D.doHandshake_done c.sslobj
  have hwant : (M.doHandshake c.sslobj).1 ≠ .done → D.alive c.sslobj →
      D.plaintext (D.received c.sslobj) = [] :=
    fun hne hs => D.plaintext_early _ fun he => hne (hdone hs he)
  unfold handshake
  split
  · rename_i h
    rw [h] at hr ht ha hwant
    exact ⟨hr, ht, rfl, rfl, rfl, fun ho => ⟨ho, fun hs =>
      ⟨ha hs (by simp), .inr (hwant (by simp) hs)⟩⟩⟩
  · rename_i h
    rw [h] at hr ht ha hwant
    exact ⟨hr, ht, rfl, rfl, rfl, fun ho => ⟨ho, fun hs =>
      ⟨ha hs (by simp), .inr (hwant (by simp) hs)⟩⟩⟩
  · rename_i h
    rw [h] at hr ht
    exact ⟨hr, ht, rfl, rfl, rfl, fun ho => nomatch ho.2.1⟩
  · rename_i h
    rw [h] at hr ht ha
    dsimp only
    split
    · refine ⟨hr, ht, ?_, rfl, rfl, fun ho => ⟨open_of_emit c [.connectionMade] ho, fun hs =>
        ⟨ha hs (by simp), .inl (by rw [h])⟩⟩⟩
      exact delivered_eq (c := c) rfl (by simp [Effect.data])
    · exact ⟨hr, ht, rfl, rfl, rfl, fun ho => ⟨ho, fun hs =>
        ⟨ha hs (by simp), .inl (by rw [h])⟩⟩⟩

/-- A call of `buffer_updated`, from the outside of Python calls. -/
theorem Reading.bufferUpdated {c : Connection σ} (h : c.Reading D) (hf : c.frames = [])
    (d : List UInt8) : (c.bufferUpdated M d).Reading D := by
  obtain ⟨hr, ht, ha⟩ := D.feed c.sslobj d
  have hdelivered := h.delivered.trans ht.symm
  have hearly : c.hs = false → D.taken (M.feed c.sslobj d) = [] :=
    fun hhs => ht.trans (h.early hhs).1
  unfold Connection.bufferUpdated
  generalize hst : (!(c.cls.shutsDown && c.closing) && !c.paused && decide (c.writeBuffer ≠ [])) = st
  dsimp only
  rw [hst]
  have hbase : ∀ finished, Bottom (Frame.updated c.trace.length st finished :: c.frames) :=
    fun finished => hf
  split
  · -- a connection that is closing is not open
    rename_i hclosing
    refine Reading.still ?_ (still_startShutdown _)
    refine ⟨hdelivered, fun ho => ha (h.alive ho), fun hhs => ⟨hearly hhs, ?_⟩, hbase _,
      fun _ _ hmem => ?_, fun _ _ _ _ ho => ?_⟩
    · simp [Connection.push, hf]
    · simp [Connection.push, hf] at hmem
    simp only [Bool.and_eq_true] at hclosing
    cases ho.1.symm.trans hclosing.2
  · split
    · rename_i hhs
      have hhs : c.hs = false := by simpa using hhs
      generalize hfin : decide ((M.doHandshake (M.feed c.sslobj d)).1 = .done) = finished
      obtain ⟨hr', ht', hd', hf', hi', ho'⟩ := handshake_cases (M := M) (D := D)
        (Connection.push { c with sslobj := M.feed c.sslobj d, interrupted := false }
          (.updated c.trace.length st finished))
      have htaken := ht'.trans (hearly hhs)
      have hloop : Frame.reading ∉ Frame.updated c.trace.length st finished :: c.frames := by simp [hf]
      refine ⟨?_, fun ho => ?_, fun _ => ⟨htaken, hf' ▸ hloop⟩, ?_,
        fun _ _ _ => ⟨htaken, hf' ▸ hloop⟩, fun start stranded fin hmem ho => ?_⟩
      · rw [hd', ht']
        exact hdelivered
      · exact ((ho' ho).2 (ha (h.alive (ho' ho).1))).1
      · rw [hf']
        exact hbase finished
      · rw [hf'] at hmem
        obtain ⟨hopen, hrest⟩ := ho' ho
        obtain hdone | hplain := (hrest (ha (h.alive hopen))).2
        · left
          obtain he | hmem := List.mem_cons.1 hmem
          · obtain ⟨-, -, rfl⟩ := Frame.updated.inj he
            rw [← hfin]
            exact decide_eq_true hdone
          · rw [hf] at hmem
            cases hmem
        · right; right; right
          rw [htaken, hr']
          exact hplain.symm
    · rename_i hhs
      have hreads := reads_readAll (M := M) (D := D)
        (Connection.push { c with sslobj := M.feed c.sslobj d, interrupted := false }
          (.updated c.trace.length st false))
      obtain ⟨fs, hfs, hno⟩ := hreads.frames
      refine ⟨hreads.delivered hdelivered, fun ho => ?_, fun hhs' => ?_, ?_, fun _ _ hmem => ?_,
        fun start stranded fin _ ho => ?_⟩
      · exact ((hreads.opened ho).2 (ha (h.alive (hreads.opened ho).1))).1
      · have hno : c.hs = false := hreads.flags.symm.trans hhs'
        exact absurd hno (by simpa using hhs)
      · rw [hfs]
        exact bottom_append hno (hbase false)
      · rw [hfs, List.mem_append] at hmem
        have hlast := hmem.resolve_left fun hm => hno _ hm _ _ _ rfl
        simp [Connection.push, hf] at hlast
      · rw [hreads.received]
        exact .inr (.inr ((hreads.opened ho).2 (ha (h.alive (hreads.opened ho).1))).2)

theorem Reading.pop {c : Connection σ} (h : c.Reading D) {f : Frame} {frames : List Frame}
    (hf : c.frames = f :: frames) (hr : f ≠ .reading) : Reading D { c with frames := frames } := by
  have hb := h.bottom
  rw [hf] at hb
  have hsub : ∀ {g : Frame}, g ∈ frames → g ∈ c.frames := by
    intro g hg
    rw [hf]
    exact List.mem_cons_of_mem _ hg
  refine ⟨h.delivered, h.alive, fun hhs => ⟨(h.early hhs).1, fun hm => (h.early hhs).2 (hsub hm)⟩, ?_,
    fun start stranded hmem => ?_, fun start stranded finished hmem ho => ?_⟩
  · cases f with
    | updated start stranded finished =>
      obtain rfl : frames = [] := hb
      trivial
    | shutdown | resuming | received gotEof | reading | eofReceived | resumed start => exact hb
  · obtain ⟨htaken, hloop⟩ := h.fresh start stranded (hsub hmem)
    exact ⟨htaken, fun hm => hloop (hsub hm)⟩
  · have hcall := h.call start stranded finished (hsub hmem) ho
    rw [hf, List.mem_cons] at hcall
    obtain hf | hi | (he | hm) | ht := hcall
    · exact .inl hf
    · exact .inr (.inl hi)
    · exact absurd he.symm hr
    · exact .inr (.inr (.inl hm))
    · exact .inr (.inr (.inr ht))

theorem Reading.of_ended {c : Connection σ} (h : c.Reading D) (ended : Option Frame) :
    Reading D { c with ended := ended } :=
  ⟨h.delivered, h.alive, h.early, h.bottom, h.fresh, h.call⟩

theorem Reading.returned {c c' : Connection σ} {raised : Bool} (h : c.Reading D)
    (hs : c.returned M raised = some c') : c'.Reading D := by
  unfold Connection.returned at hs
  split at hs
  · exact nomatch hs
  · rename_i f frames hf
    cases f with
    | shutdown =>
      obtain rfl := Option.some.inj hs
      exact (h.pop hf (by simp)).still (still_finishShutdown _)
    | resuming =>
      obtain rfl := Option.some.inj hs
      exact (h.pop hf (by simp)).still (still_flushWriteBuffer _)
    | received gotEof =>
      obtain rfl := Option.some.inj hs
      exact (h.pop hf (by simp)).still (still_readEnd _ _)
    | reading =>
      have hb := h.bottom
      rw [hf] at hb
      have hloop : .reading ∈ c.frames := by
        rw [hf]
        exact List.mem_cons_self ..
      have hhs : c.hs ≠ false := fun hhs => (h.early hhs).2 hloop
      have hfresh : ∀ start stranded, .updated start stranded true ∉ frames := by
        intro start stranded hm
        exact (h.fresh start stranded (by rw [hf]; exact List.mem_cons_of_mem _ hm)).2 hloop
      dsimp only at hs
      split at hs
      · obtain rfl := Option.some.inj hs
        exact ⟨h.delivered, h.alive, fun hno => absurd hno hhs, hb,
          fun _ _ hm => absurd hm (hfresh _ _), fun _ _ _ _ _ => .inr (.inl rfl)⟩
      · obtain rfl := Option.some.inj hs
        have hreads := reads_readNext (M := M) (D := D) { c with frames := frames }
        obtain ⟨fs, hfs, hno⟩ := hreads.frames
        refine ⟨hreads.delivered h.delivered, fun ho => ?_,
          fun hno => absurd (hreads.flags.symm.trans hno) hhs, ?_, fun start stranded hm => ?_,
          fun start stranded fin _ ho => ?_⟩
        · exact ((hreads.opened ho).2 (h.alive (hreads.opened ho).1)).1
        · rw [hfs]
          exact bottom_append hno hb
        · rw [hfs, List.mem_append] at hm
          exact absurd (hm.resolve_left fun hm => hno _ hm _ _ _ rfl) (hfresh _ _)
        · rw [hreads.received]
          exact .inr (.inr ((hreads.opened ho).2 (h.alive (hreads.opened ho).1)).2)
    | eofReceived =>
      obtain rfl := Option.some.inj hs
      exact (h.pop hf (by simp)).still (still_startShutdown _)
    | updated start stranded finished =>
      obtain rfl := Option.some.inj hs
      exact (h.pop hf (by simp)).of_ended _
    | resumed start =>
      obtain rfl := Option.some.inj hs
      exact (h.pop hf (by simp)).of_ended _

theorem Reading.step {c c' : Connection σ} {e : Event} (h : c.Reading D)
    (hs : c.step M e = some c') : c'.Reading D := by
  have h0 := h.of_ended none
  unfold Connection.step at hs
  cases e with
  | bufferUpdated d =>
    dsimp only at hs
    split at hs
    · rename_i hf
      obtain rfl := Option.some.inj hs
      exact h0.bufferUpdated hf d
    · exact nomatch hs
  | write data =>
    dsimp only at hs
    split at hs
    · obtain rfl := Option.some.inj hs
      exact h0.still (still_write _ _)
    · exact nomatch hs
  | close =>
    dsimp only at hs
    split at hs
    · obtain rfl := Option.some.inj hs
      exact h0.still (still_close _)
    · exact nomatch hs
  | timeout =>
    dsimp only at hs
    split at hs
    · obtain rfl := Option.some.inj hs
      exact h0.still (.of_sslobj rfl (by simp [Effect.data]) ⟨rfl, rfl, rfl, rfl, id⟩ ⟨rfl, rfl⟩
        fun _ => id)
    · exact nomatch hs
  | pauseWriting =>
    obtain rfl := Option.some.inj hs
    exact h0.still (still_pauseWriting _)
  | resumeWriting =>
    obtain rfl := Option.some.inj hs
    exact h0.still (still_resumeWriting _)
  | returned raised => exact h0.returned hs

/-- A call of `buffer_updated` that ends has delivered everything exactly when it leaves nothing. -/
theorem Reading.delivered_iff {c c' : Connection σ} {e : Event} (h : c.Reading D)
    (hs : c.step M e = some c') : c'.Delivered D ↔ c.LeavesNothing D e := by
  constructor
  · rintro hd raised start stranded finished frames rfl hf ho
    have hs' : some { c with frames := frames, ended := some (.updated start stranded finished) } =
        some c' := by
      rw [← hs]
      simp [Connection.step, Connection.returned, hf]
    obtain rfl := Option.some.inj hs'
    have hplain := h.delivered.symm.trans (hd start stranded finished rfl ho)
    have hmem : .updated start stranded finished ∈ c.frames := by
      rw [hf]
      exact List.mem_cons_self ..
    refine ⟨fun hfin => ?_, fun _ => hplain⟩
    subst hfin
    exact hplain.symm.trans (h.fresh _ _ hmem).1
  · intro hok start stranded finished hended ho
    obtain ⟨raised, frames, rfl, hf, -, rfl⟩ := step_ended hs hended
    have hmem : .updated start stranded finished ∈ c.frames := by
      rw [hf]
      exact List.mem_cons_self ..
    obtain ⟨hfin, hint⟩ := hok raised start stranded finished frames rfl hf ho
    refine h.delivered.trans ?_
    obtain hf' | hi | hr | ht := h.call _ _ _ hmem ho
    · subst hf'
      rw [(h.fresh _ _ hmem).1]
      exact (hfin rfl).symm
    · exact hint hi
    · have hb := h.bottom
      rw [hf] at hb hr
      obtain rfl : frames = [] := hb
      simp at hr
    · exact ht

theorem reading_connectionMade (D : Decryption M) (cls : ProtocolClass) (early : List UInt8) :
    (connectionMade M cls D.start early).Reading D := by
  obtain ⟨halive, htaken⟩ := D.start_new
  obtain ⟨-, hft, hfa⟩ := D.feed D.start early
  have hnew : D.alive (new M cls D.start early).sslobj ∧
      D.taken (new M cls D.start early).sslobj = [] := by
    unfold new
    dsimp only
    split
    · exact ⟨hfa halive, hft.trans htaken⟩
    · exact ⟨halive, htaken⟩
  obtain ⟨-, ht, hd, hf, -, ho⟩ := handshake_cases (M := M) (D := D) (new M cls D.start early)
  have hframes : (connectionMade M cls D.start early).frames = [] := hf
  have htaken' : D.taken (connectionMade M cls D.start early).sslobj = [] := ht.trans hnew.2
  refine ⟨hd.trans htaken'.symm, fun hopen => ((ho hopen).2 hnew.1).1, fun _ => ⟨htaken', ?_⟩, ?_,
    fun _ _ hm => ?_, fun _ _ _ hm _ => ?_⟩
  · simp [hframes]
  · rw [hframes]
    trivial
  · simp [hframes] at hm
  · simp [hframes] at hm

theorem received_bufferUpdated (c : Connection σ) (d : List UInt8) :
    D.received (c.bufferUpdated M d).sslobj = D.received c.sslobj ++ d := by
  obtain ⟨hr, -, -⟩ := D.feed c.sslobj d
  unfold Connection.bufferUpdated
  dsimp only
  split
  · exact (still_startShutdown _).received.trans hr
  · split
    · exact (handshake_cases _).1.trans hr
    · exact (reads_readAll _).received.trans hr

theorem received_returned {c c' : Connection σ} {raised : Bool}
    (hs : c.returned M raised = some c') : D.received c'.sslobj = D.received c.sslobj := by
  unfold Connection.returned at hs
  split at hs
  · exact nomatch hs
  · rename_i f frames hf
    cases f with
    | shutdown =>
      obtain rfl := Option.some.inj hs
      exact (still_finishShutdown { c with frames := frames }).received
    | resuming =>
      obtain rfl := Option.some.inj hs
      exact (still_flushWriteBuffer { c with frames := frames }).received
    | received gotEof =>
      obtain rfl := Option.some.inj hs
      exact (still_readEnd { c with frames := frames } _).received
    | reading =>
      dsimp only at hs
      split at hs
      · obtain rfl := Option.some.inj hs
        rfl
      · obtain rfl := Option.some.inj hs
        exact (reads_readNext { c with frames := frames }).received
    | eofReceived =>
      obtain rfl := Option.some.inj hs
      exact (still_startShutdown { c with frames := frames }).received
    | updated start stranded finished =>
      obtain rfl := Option.some.inj hs
      rfl
    | resumed start =>
      obtain rfl := Option.some.inj hs
      rfl

/-- The SSL object receives the bytes that come in, and no others. -/
theorem received_step {c c' : Connection σ} {e : Event} (hs : c.step M e = some c') :
    D.received c'.sslobj = D.received c.sslobj ++ inbound [e] := by
  unfold Connection.step at hs
  cases e with
  | bufferUpdated d =>
    dsimp only at hs
    split at hs
    · obtain rfl := Option.some.inj hs
      rw [received_bufferUpdated]
      simp [inbound]
    · exact nomatch hs
  | write data =>
    dsimp only at hs
    split at hs
    · obtain rfl := Option.some.inj hs
      simpa [inbound] using (still_write (D := D) { c with ended := none } data).received
    · exact nomatch hs
  | close =>
    dsimp only at hs
    split at hs
    · obtain rfl := Option.some.inj hs
      simpa [inbound] using (still_close (D := D) { c with ended := none }).received
    · exact nomatch hs
  | timeout =>
    dsimp only at hs
    split at hs
    · obtain rfl := Option.some.inj hs
      simp [inbound, emit]
    · exact nomatch hs
  | pauseWriting =>
    obtain rfl := Option.some.inj hs
    simpa [inbound] using (still_pauseWriting (D := D) { c with ended := none }).received
  | resumeWriting =>
    obtain rfl := Option.some.inj hs
    simpa [inbound] using (still_resumeWriting (D := D) { c with ended := none }).received
  | returned raised => simpa [inbound] using received_returned (D := D) hs

theorem received_exec {c c' : Connection σ} {es : List Event}
    (hs : Runs.exec (step M) c es = some c') :
    D.received c'.sslobj = D.received c.sslobj ++ inbound es := by
  induction es generalizing c with
  | nil =>
    obtain rfl : c = c' := by simpa using hs
    simp [inbound]
  | cons e es ih =>
    obtain ⟨d, hd, hrest⟩ := Option.bind_eq_some_iff.1 hs
    rw [ih hrest, received_step hd, List.append_assoc]
    simp [inbound]

/-- A call of `buffer_updated` has just returned on an open connection. -/
def Returned (c : Connection σ) : Prop :=
  c.Open ∧ ∃ start stranded finished, c.ended = some (.updated start stranded finished)

theorem delivered_of_leavesNothing (D : Decryption M) (cls : ProtocolClass) (early : List UInt8)
    (es : List Event) :
    Runs.Always (step M) (Delivered D) (connectionMade M cls D.start early) es ↔
      Runs.Along (step M) (LeavesNothing D) (connectionMade M cls D.start early) es := by
  refine Runs.always_iff_along (reading_connectionMade D cls early) ?_
    (fun _ _ _ h hs => h.step hs) (fun _ _ _ h _ hs => h.delivered_iff hs) ?_
  · rintro start stranded finished hended
    have hnone := (quiet_handshake (M := M) (new M cls D.start early)).kept.2.2.2.2
    exact nomatch hended.symm.trans hnone
  · rintro c e hnone raised start stranded finished frames rfl hf
    unfold Connection.step Connection.returned at hnone
    simp [hf] at hnone

/-- **The cuts do not matter** in the runs in which no chunk completes the handshake and carries
application data as well, and no exception of `data_received` ends a loop early: these are the runs in
which every `buffer_updated` on an open connection delivers all there is, and two of them that received
the same stream have delivered the same plaintext. -/
theorem delivered_independent_of_cuts (M : SslObject σ) (D : Decryption M) (cls : ProtocolClass)
    (early : List UInt8) :
    (∀ es, Runs.Always (step M) (Delivered D) (connectionMade M cls D.start early) es ↔
      Runs.Along (step M) (LeavesNothing D) (connectionMade M cls D.start early) es) ∧
    ∀ es es' c c',
      Runs.Along (step M) (LeavesNothing D) (connectionMade M cls D.start early) es →
      Runs.Along (step M) (LeavesNothing D) (connectionMade M cls D.start early) es' →
      Runs.exec (step M) (connectionMade M cls D.start early) es = some c →
      Runs.exec (step M) (connectionMade M cls D.start early) es' = some c' →
      inbound es = inbound es' → c.Returned → c'.Returned →
        Ssl.delivered c.trace = Ssl.delivered c'.trace := by
  refine ⟨delivered_of_leavesNothing D cls early, ?_⟩
  rintro es es' c c' hal hal' hes hes' hin ⟨ho, _, _, _, hended⟩ ⟨ho', _, _, _, hended'⟩
  have hd := ((delivered_of_leavesNothing D cls early es).2 hal).last hes
  have hd' := ((delivered_of_leavesNothing D cls early es').2 hal').last hes'
  rw [hd _ _ _ hended ho, hd' _ _ _ hended' ho', received_exec hes, received_exec hes', hin]

/-- Nothing stays behind when nothing was interrupted and no handshake was completed. -/
theorem leavesNothing_of_frames {D : Decryption M} {c : Connection σ} (hi : c.interrupted = false)
    (hf : c.frames.any Frame.finished = false) (e : Event) : c.LeavesNothing D e := by
  rintro raised start stranded finished frames - hframes -
  refine ⟨fun hfin => ?_, fun hint => nomatch hi.symm.trans hint⟩
  rw [hframes, List.any_cons, Bool.or_eq_false_iff] at hf
  exact nomatch hfin.symm.trans hf.1

/-- Two bytes after the handshake, in one chunk. -/
def oneChunk : List Event :=
  [.bufferUpdated [22], .returned false, .bufferUpdated [65, 66], .returned false, .returned false]

/-- The same in two chunks. -/
def twoChunks : List Event :=
  [.bufferUpdated [22], .returned false, .bufferUpdated [65], .returned false, .returned false,
    .bufferUpdated [66], .returned false, .returned false]

theorem delivered_independent_of_cuts_plain :
    (∀ es, Runs.Always (step plain) (Delivered plainDecryption)
        (connectionMade plain .server ([], 0) []) es ↔
      Runs.Along (step plain) (LeavesNothing plainDecryption)
        (connectionMade plain .server ([], 0) []) es) ∧
    ∃ c c', Runs.exec (step plain) (connectionMade plain .unixServer ([], 0) []) oneChunk = some c ∧
      Runs.exec (step plain) (connectionMade plain .unixServer ([], 0) []) twoChunks = some c' ∧
      Ssl.delivered c.trace = Ssl.delivered c'.trace ∧ Ssl.delivered c.trace = [65, 66] := by
  have hempty : ∀ c : Connection (List UInt8 × ℕ), c.interrupted = false → c.sslobj.1.tail = [] →
      ∀ e, c.LeavesNothing plainDecryption e := by
    rintro c hi ht e raised start stranded finished frames - - -
    exact ⟨fun _ => ht, fun hint => nomatch hi.symm.trans hint⟩
  have hone : Runs.Along (step plain) (LeavesNothing plainDecryption)
      (connectionMade plain .unixServer ([], 0) []) oneChunk := by
    refine .cons rfl (hempty _ rfl rfl _) (.cons rfl (hempty _ rfl rfl _) ?_)
    refine .cons rfl (hempty _ rfl rfl _) (.cons rfl (leavesNothing_of_frames rfl rfl _) ?_)
    exact .cons rfl (leavesNothing_of_frames rfl rfl _) trivial
  have htwo : Runs.Along (step plain) (LeavesNothing plainDecryption)
      (connectionMade plain .unixServer ([], 0) []) twoChunks := by
    refine .cons rfl (hempty _ rfl rfl _) (.cons rfl (hempty _ rfl rfl _) ?_)
    refine .cons rfl (hempty _ rfl rfl _) (.cons rfl (leavesNothing_of_frames rfl rfl _) ?_)
    refine .cons rfl (leavesNothing_of_frames rfl rfl _) ?_
    refine .cons rfl (leavesNothing_of_frames rfl rfl _) (.cons rfl (leavesNothing_of_frames rfl rfl _) ?_)
    exact .cons rfl (leavesNothing_of_frames rfl rfl _) trivial
  have hunwrapped : ∀ r, Effect.unwrapped r ∉ [Effect.connectionMade, .dataReceived [65, 66]] := by simp
  have hunwrapped' : ∀ r, Effect.unwrapped r ∉
      [Effect.connectionMade, .dataReceived [65], .dataReceived [66]] := by simp
  have hcuts := (delivered_independent_of_cuts plain plainDecryption .unixServer []).2 oneChunk twoChunks
    _ _ hone htwo rfl rfl rfl ⟨⟨rfl, rfl, by decide, hunwrapped⟩, _, _, _, rfl⟩
    ⟨⟨rfl, rfl, by decide, hunwrapped'⟩, _, _, _, rfl⟩
  exact ⟨(delivered_independent_of_cuts plain plainDecryption .server []).1, _, _, rfl, rfl, hcuts, rfl⟩

/-- The byte after the handshake comes in the same chunk and is not delivered. -/
theorem first_record_stays :
    ¬ ∀ es, Runs.Always (step plain) (Delivered plainDecryption)
      (connectionMade plain .server ([], 0) []) es := by
  intro h
  have hrun := h [.bufferUpdated [22, 65], .returned false]
  have hclosed : ∀ r, Effect.unwrapped r ∉ [Effect.connectionMade] := by simp
  have hlast := ((hrun.2 _ rfl).2 _ rfl) _ _ _ rfl ⟨rfl, rfl, by decide, hclosed⟩
  exact absurd hlast (by decide)

end Connection

end Talyn.Ssl
