import Talyn.Ssl.WriteOrder

/-!
# TLS over a stream transport: plaintext that waits

What the SSL object did not take waits in the write buffer, and a shutdown waits for the write buffer.
A call of `buffer_updated` or `resume_writing` serves the buffer when it leaves it empty, or when the SSL
object refused its head during the call. Calls can be nested: `Settled` goes through the stack and says of
each call whether it has served the buffer yet. A waiting `resume_writing` will flush, and with it serve
all the calls below it.
-/

namespace Talyn.Ssl

/-- The length of the trace when the call began. -/
def Frame.start : Frame → ℕ
  | .updated start _ _ | .resumed start => start
  | _ => 0

theorem Frame.start_of_plain {f : Frame} (hf : f.plain = true) : f.start = 0 := by
  cases f with
  | updated start stranded finished => exact nomatch hf
  | resumed start => exact nomatch hf
  | shutdown | resuming | received gotEof | reading | eofReceived => rfl

/-- What is left after a flush was refused. -/
theorem flushLoop_refused {σ : Type*} {M : SslObject σ} (hM : ∀ s d, (M.write s d).1 ≠ .error) (s : σ)
    (buffer : List (View (UInt8 × ℕ))) :
    (flushLoop M s buffer).2.1 = [] ∨ ∃ data rest, (flushLoop M s buffer).2.1 = data :: rest ∧
      .refused data ∈ (flushLoop M s buffer).2.2 := by
  fun_induction flushLoop M s buffer with
  | case1 => exact .inl rfl
  | case2 s data rest t h => exact .inr ⟨data, rest, rfl, by simp⟩
  | case3 s data rest t h => exact .inr ⟨data, rest, rfl, by simp⟩
  | case4 s data rest t h => exact absurd (congrArg Prod.fst h) (hM _ _)
  | case5 s data rest t h => exact .inr ⟨data, rest, rfl, by simp⟩
  | case6 s data rest written t h hlt h0 t' buffer es hrec ih =>
    rw [hrec] at ih
    obtain he | ⟨d, r, hb, hmem⟩ := ih
    · exact .inl he
    · exact .inr ⟨d, r, hb, List.mem_cons_of_mem _ hmem⟩
  | case7 s data rest written t h hlt t' buffer es hrec ih =>
    rw [hrec] at ih
    obtain he | ⟨d, r, hb, hmem⟩ := ih
    · exact .inl he
    · exact .inr ⟨d, r, hb, List.mem_cons_of_mem _ hmem⟩

namespace Connection

variable {σ : Type*} {M : SslObject σ}

/-- The write buffer is empty, or the SSL object refused its head after the trace had this length. -/
def Served (c : Connection σ) (start : ℕ) : Prop :=
  c.writeBuffer = [] ∨ ∃ data rest, c.writeBuffer = data :: rest ∧ .refused data ∈ c.trace.drop start

/-- The shutdown was attempted. -/
def Unwrapped (c : Connection σ) : Prop := ∃ r, .unwrapped r ∈ c.trace

/-- No plaintext is stranded, and no shutdown is forgotten: a call that ended while writing is not paused
has served the write buffer, and between the calls a transport that is closing, with an empty write buffer
and writing not paused, has attempted the shutdown. -/
structure Attended (c : Connection σ) : Prop where
  served : ∀ f, c.ended = some f → c.paused = false → c.Served f.start
  unwrapped : c.frames = [] → c.closing = true → c.writeBuffer = [] → c.paused = false → c.Unwrapped

/-- The condition on an event: a `resume_writing` that the class does not have finds no plaintext; a
`buffer_updated` that found plaintext and does not flush it ends paused, or after `close`, the end of the
stream or a `resume_writing` flushed it; and the flush of `resume_writing` does not empty the write buffer
for which a shutdown waits. -/
def FollowsUp (M : SslObject σ) (c : Connection σ) : Event → Prop
  | .resumeWriting => c.cls.followsWriting = true ∨ c.writeBuffer = []
  | .returned _ =>
    match c.frames with
    | .updated start stranded _ :: _ =>
      stranded = true → c.paused = true ∨ .flushed ∈ c.trace.drop start
    | .resuming :: frames =>
      c.closing = true → c.Unwrapped ∨ .shutdown ∈ frames ∨
        (flushLoop M c.sslobj c.writeBuffer).2.1 ≠ []
    | _ => True
  | _ => True

/-- The call has served the write buffer, unless writing is paused or the call found plaintext that it
does not flush. -/
def Good (c : Connection σ) : Frame → Prop
  | .updated start stranded _ =>
    c.paused = true ∨ c.Served start ∨ (stranded = true ∧ .flushed ∉ c.trace.drop start)
  | .resumed start => c.paused = true ∨ c.Served start
  | _ => True

/-- All calls above the first `resume_writing` that has not flushed yet have served the buffer. -/
def Settled (c : Connection σ) : List Frame → Prop
  | [] => True
  | .resuming :: _ => True
  | f :: frames => c.Good f ∧ c.Settled frames

theorem Good.of_plain {c : Connection σ} {f : Frame} (h : f.plain = true) : c.Good f := by
  cases f with
  | updated start stranded finished => exact nomatch h
  | resumed start => exact nomatch h
  | shutdown => trivial
  | resuming => trivial
  | received gotEof => trivial
  | reading => trivial
  | eofReceived => trivial

theorem settled_cons {c : Connection σ} {f : Frame} {frames : List Frame} (hf : c.Good f)
    (h : c.Settled frames) : c.Settled (f :: frames) := by
  cases f with
  | resuming => trivial
  | updated start stranded finished => exact ⟨hf, h⟩
  | resumed start => exact ⟨hf, h⟩
  | shutdown => exact ⟨hf, h⟩
  | received gotEof => exact ⟨hf, h⟩
  | reading => exact ⟨hf, h⟩
  | eofReceived => exact ⟨hf, h⟩

theorem Settled.tail {c : Connection σ} {f : Frame} {frames : List Frame} (h : c.Settled (f :: frames))
    (hf : f ≠ .resuming) : c.Good f ∧ c.Settled frames := by
  cases f with
  | resuming => exact absurd rfl hf
  | updated start stranded finished => exact h
  | resumed start => exact h
  | shutdown => exact h
  | received gotEof => exact h
  | reading => exact h
  | eofReceived => exact h

theorem settled_of_good {c : Connection σ} {frames : List Frame} (h : ∀ f ∈ frames, c.Good f) :
    c.Settled frames := by
  induction frames with
  | nil => trivial
  | cons f frames ih =>
    exact settled_cons (h f (List.mem_cons_self ..)) (ih fun g hg => h g (List.mem_cons_of_mem _ hg))

theorem Settled.mono {c c' : Connection σ} {frames : List Frame} (h : c.Settled frames)
    (himp : ∀ f ∈ frames, c.Good f → c'.Good f) : c'.Settled frames := by
  induction frames with
  | nil => trivial
  | cons f frames ih =>
    by_cases hf : f = .resuming
    · subst hf
      trivial
    · obtain ⟨hgood, hrest⟩ := h.tail hf
      exact settled_cons (himp f (List.mem_cons_self ..) hgood)
        (ih hrest fun g hg => himp g (List.mem_cons_of_mem _ hg))

/-- All calls on the stack began before now. -/
def Begun (c : Connection σ) : Prop := ∀ f ∈ c.frames, f.start ≤ c.trace.length

/-- What carries over from one event to the next. -/
structure Waiting (c : Connection σ) : Prop where
  settled : c.Settled c.frames
  begun : c.Begun
  /-- a shutdown that was not attempted waits for the write buffer, or goes on -/
  shutdown : c.closing = true → c.Unwrapped ∨ c.writeBuffer ≠ [] ∨ .shutdown ∈ c.frames

theorem Waiting.attended {c : Connection σ} (h : c.Waiting)
    (hserved : ∀ f, c.ended = some f → c.paused = false → c.Served f.start) : c.Attended := by
  refine ⟨hserved, fun hframes hclosing hbuffer _ => ?_⟩
  obtain hu | hb | hs := h.shutdown hclosing
  · exact hu
  · exact absurd hbuffer hb
  · rw [hframes] at hs
    exact nomatch hs

/-! ### What leaves the write buffer alone -/

theorem Served.extend {c c' : Connection σ} {start : ℕ} (h : c.Served start)
    (hb : c'.writeBuffer = c.writeBuffer) {es : List Effect} (ht : c'.trace = c.trace ++ es)
    (hs : start ≤ c.trace.length) : c'.Served start := by
  unfold Served
  rw [hb, ht, List.drop_append_of_le_length hs]
  obtain he | ⟨d, r, hd, hmem⟩ := h
  · exact .inl he
  · exact .inr ⟨d, r, hd, List.mem_append_left _ hmem⟩

theorem Unwrapped.extend {c c' : Connection σ} (h : c.Unwrapped) {es : List Effect}
    (ht : c'.trace = c.trace ++ es) : c'.Unwrapped := by
  obtain ⟨r, hr⟩ := h
  exact ⟨r, by rw [ht]; exact List.mem_append_left _ hr⟩

theorem Quiet.good {c c' : Connection σ} (h : Quiet c c') {f : Frame} (hs : f.start ≤ c.trace.length)
    (hf : c.Good f) : c'.Good f := by
  obtain ⟨es, ht, hes⟩ := h.trace
  cases f with
  | updated start stranded finished =>
    obtain hp | hserved | ⟨hst, hfl⟩ := hf
    · exact .inl (h.kept.2.2.1.trans hp)
    · exact .inr (.inl (hserved.extend h.kept.1 ht hs))
    · refine .inr (.inr ⟨hst, ?_⟩)
      change start ≤ c.trace.length at hs
      rw [ht, List.drop_append_of_le_length hs, List.mem_append, not_or]
      exact ⟨hfl, fun hmem => nomatch hes _ hmem⟩
  | resumed start =>
    obtain hp | hserved := hf
    · exact .inl (h.kept.2.2.1.trans hp)
    · exact .inr (hserved.extend h.kept.1 ht hs)
  | shutdown | resuming | received gotEof | reading | eofReceived => trivial

theorem Quiet.settled {c c' : Connection σ} (h : Quiet c c') (hs : c.Settled c.frames)
    (hb : c.Begun) : c'.Settled c'.frames := by
  obtain ⟨fs, hfs, hplain⟩ := h.frames
  rw [hfs]
  clear hfs
  induction fs with
  | nil => exact hs.mono fun f hf => h.good (hb f hf)
  | cons f fs ih =>
    exact settled_cons (.of_plain (hplain f (List.mem_cons_self ..)))
      (ih fun g hg => hplain g (List.mem_cons_of_mem _ hg))

theorem Quiet.begun {c c' : Connection σ} (h : Quiet c c') (hb : c.Begun) : c'.Begun := by
  obtain ⟨es, ht, -⟩ := h.trace
  obtain ⟨fs, hfs, hplain⟩ := h.frames
  intro f hf
  rw [hfs, List.mem_append] at hf
  rw [ht, List.length_append]
  obtain hf | hf := hf
  · rw [Frame.start_of_plain (hplain f hf)]
    exact Nat.zero_le _
  · exact Nat.le_add_right_of_le (hb f hf)

theorem Waiting.quiet {c c' : Connection σ} (hw : c.Waiting) (h : Quiet c c') : c'.Waiting := by
  obtain ⟨es, ht, -⟩ := h.trace
  obtain ⟨fs, hfs, -⟩ := h.frames
  refine ⟨h.settled hw.settled hw.begun, h.begun hw.begun, fun hclosing => ?_⟩
  rw [h.kept.1, hfs]
  obtain hu | hb | hs := hw.shutdown (h.kept.2.2.2.1.symm.trans hclosing)
  · exact .inl (hu.extend ht)
  · exact .inr (.inl hb)
  · exact .inr (.inr (List.mem_append_right _ hs))

/-- The end of `_start_shutdown` attempts the shutdown, or still waits for the write buffer. -/
theorem finishShutdown_unwrapped (c : Connection σ) :
    (c.finishShutdown M).Unwrapped ∨ (c.finishShutdown M).writeBuffer ≠ [] := by
  unfold finishShutdown
  split_ifs with hb
  · exact .inr hb
  · left
    rcases M.unwrap c.sslobj with ⟨r, s⟩
    refine ⟨r, ?_⟩
    cases r with
    | done => simp [emit]
    | error => simp [emit]
    | wantRead =>
      dsimp only
      split
      · simp [emit]
      · simp [emit]
    | wantWrite =>
      dsimp only
      split
      · simp [emit]
      · simp [emit]

/-! ### Putting calls on the stack -/

theorem Settled.push {c : Connection σ} {frames : List Frame} (h : c.Settled frames) (f : Frame) :
    (c.push f).Settled frames := by
  refine h.mono fun g _ hg => ?_
  cases g with
  | updated start stranded finished => exact hg
  | resumed start => exact hg
  | shutdown | resuming | received gotEof | reading | eofReceived => trivial

theorem Begun.push {c : Connection σ} (hb : c.Begun) {f : Frame} (hf : f.start ≤ c.trace.length) :
    (c.push f).Begun := by
  intro g hg
  obtain rfl | hg := List.mem_cons.1 hg
  · exact hf
  · exact hb g hg

theorem Waiting.push {c : Connection σ} (h : c.Waiting) {f : Frame} (hgood : (c.push f).Good f)
    (hf : f.start ≤ c.trace.length) : (c.push f).Waiting := by
  refine ⟨settled_cons hgood (h.settled.push f), h.begun.push hf, fun hclosing => ?_⟩
  obtain hu | hne | hs := h.shutdown hclosing
  · exact .inl hu
  · exact .inr (.inl hne)
  · exact .inr (.inr (List.mem_cons_of_mem _ hs))

/-! ### Flushing -/

theorem served_flush (hM : ∀ s d, (M.write s d).1 ≠ .error) (c : Connection σ) {start : ℕ}
    (hs : start ≤ c.trace.length) : (c.flushWriteBuffer M).Served start := by
  obtain he | ⟨data, rest, hb, hmem⟩ := flushLoop_refused hM c.sslobj c.writeBuffer
  · exact .inl he
  · refine .inr ⟨data, rest, hb, ?_⟩
    show _ ∈ List.drop start (c.trace ++ _)
    rw [List.drop_append_of_le_length hs]
    exact List.mem_append_right _ (List.mem_append_left _ hmem)

theorem begun_flush {c : Connection σ} (hb : c.Begun) : (c.flushWriteBuffer M).Begun := by
  intro f hf
  refine (hb f hf).trans ?_
  show _ ≤ (c.trace ++ _).length
  rw [List.length_append]
  exact Nat.le_add_right _ _

theorem settled_flush (hM : ∀ s d, (M.write s d).1 ≠ .error) {c : Connection σ} (hb : c.Begun) :
    (c.flushWriteBuffer M).Settled c.frames := by
  refine settled_of_good fun f hf => ?_
  have hserved := served_flush hM c (hb f hf)
  cases f with
  | updated start stranded finished => exact .inr (.inl hserved)
  | resumed start => exact .inr hserved
  | shutdown | resuming | received gotEof | reading | eofReceived => trivial

/-- A shutdown begins with a flush, and nothing is waiting but the shutdown itself. -/
theorem waiting_startShutdown (hM : ∀ s d, (M.write s d).1 ≠ .error) {c : Connection σ}
    (hb : c.Begun) : (c.startShutdown M).Waiting := by
  refine ⟨settled_cons trivial ((settled_flush hM hb).push .shutdown), ?_, fun _ => ?_⟩
  · exact (begun_flush hb).push (Nat.zero_le _)
  · exact .inr (.inr (List.mem_cons_self ..))

theorem waiting_flush (hM : ∀ s d, (M.write s d).1 ≠ .error) {c : Connection σ} (hb : c.Begun)
    (hshutdown : c.closing = true → c.Unwrapped ∨ .shutdown ∈ c.frames ∨
      (flushLoop M c.sslobj c.writeBuffer).2.1 ≠ []) : (c.flushWriteBuffer M).Waiting := by
  refine ⟨settled_flush hM hb, begun_flush hb, fun hclosing => ?_⟩
  obtain hu | hs | hne := hshutdown hclosing
  · exact .inl (hu.extend rfl)
  · exact .inr (.inr hs)
  · exact .inr (.inl hne)

theorem Waiting.close (hM : ∀ s d, (M.write s d).1 ≠ .error) {c : Connection σ} (h : c.Waiting) :
    (c.close M).Waiting := by
  unfold Connection.close
  split
  · exact h
  · exact waiting_startShutdown hM h.begun

/-! ### Writing -/

/-- What `write` does to the write buffer and the trace: the chunk goes behind the others while writing
is paused, is taken, or leaves a rest that was refused. -/
theorem write_cases (hM : ∀ s d, (M.write s d).1 ≠ .error) (c : Connection σ) (data : View UInt8) :
    ∃ es, (c.write M data).trace = c.trace ++ es ∧ .flushed ∉ es ∧
      ((c.write M data).writeBuffer = c.writeBuffer ∨ ∃ rest,
        (c.write M data).writeBuffer = c.writeBuffer ++ [rest] ∧
          (c.paused = true ∨ .refused rest ∈ es)) := by
  unfold Connection.write
  dsimp only
  split
  · rename_i hp
    exact ⟨[], (List.append_nil _).symm, by simp, .inr ⟨_, rfl, .inl hp⟩⟩
  · split
    · exact ⟨_, rfl, by simp, .inr ⟨_, rfl, .inr (by simp)⟩⟩
    · exact ⟨_, rfl, by simp, .inr ⟨_, rfl, .inr (by simp)⟩⟩
    · rename_i hw
      exact absurd (congrArg Prod.fst hw) (hM _ _)
    · split
      · exact ⟨_, rfl, by simp, .inr ⟨_, rfl, .inr (by simp)⟩⟩
      · exact ⟨_, rfl, by simp, .inl rfl⟩

/-- Bytes that are written while writing is not paused do not hide the head of the write buffer. -/
theorem Served.write (hM : ∀ s d, (M.write s d).1 ≠ .error) {c : Connection σ} {start : ℕ}
    (h : c.Served start) (hs : start ≤ c.trace.length) (hp : c.paused = false) (data : View UInt8) :
    (c.write M data).Served start := by
  obtain ⟨es, ht, -, hb⟩ := write_cases hM c data
  unfold Served
  rw [ht, List.drop_append_of_le_length hs]
  obtain hsame | ⟨rest, happ, hrefused⟩ := hb
  · rw [hsame]
    obtain he | ⟨d, r, hd, hmem⟩ := h
    · exact .inl he
    · exact .inr ⟨d, r, hd, List.mem_append_left _ hmem⟩
  · rw [happ]
    obtain he | ⟨d, r, hd, hmem⟩ := h
    · have hrest := hrefused.resolve_left (by simp [hp])
      exact .inr ⟨rest, [], by rw [he]; rfl, List.mem_append_right _ hrest⟩
    · exact .inr ⟨d, r ++ [rest], by rw [hd]; rfl, List.mem_append_left _ hmem⟩

theorem Good.write (hM : ∀ s d, (M.write s d).1 ≠ .error) {c : Connection σ} {f : Frame}
    (hf : c.Good f) (hs : f.start ≤ c.trace.length) (data : View UInt8) :
    (c.write M data).Good f := by
  obtain ⟨es, ht, hfl, -⟩ := write_cases hM c data
  have hkept := write_kept (M := M) c data
  cases hp : c.paused with
  | true =>
    have hp' := hkept.1.trans hp
    cases f with
    | updated start stranded finished => exact .inl hp'
    | resumed start => exact .inl hp'
    | shutdown | resuming | received gotEof | reading | eofReceived => trivial
  | false =>
    cases f with
    | updated start stranded finished =>
      obtain hpt | hserved | ⟨hst, hno⟩ := hf
      · exact nomatch hp.symm.trans hpt
      · exact .inr (.inl (hserved.write hM hs hp data))
      · refine .inr (.inr ⟨hst, ?_⟩)
        change start ≤ c.trace.length at hs
        rw [ht, List.drop_append_of_le_length hs, List.mem_append, not_or]
        exact ⟨hno, hfl⟩
    | resumed start =>
      obtain hpt | hserved := hf
      · exact nomatch hp.symm.trans hpt
      · exact .inr (hserved.write hM hs hp data)
    | shutdown | resuming | received gotEof | reading | eofReceived => trivial

theorem Waiting.write (hM : ∀ s d, (M.write s d).1 ≠ .error) {c : Connection σ} (h : c.Waiting)
    (data : View UInt8) : (c.write M data).Waiting := by
  obtain ⟨es, ht, -, hb⟩ := write_cases hM c data
  obtain ⟨-, hclosing, hframes, -⟩ := write_kept (M := M) c data
  refine ⟨?_, ?_, fun hc => ?_⟩
  · rw [hframes]
    exact h.settled.mono fun f hf hgood => hgood.write hM (h.begun f hf) data
  · intro f hf
    rw [hframes] at hf
    rw [ht, List.length_append]
    exact Nat.le_add_right_of_le (h.begun f hf)
  · rw [hframes]
    obtain hu | hne | hs := h.shutdown (hclosing.symm.trans hc)
    · exact .inl (hu.extend ht)
    · right; left
      obtain hsame | ⟨rest, happ, -⟩ := hb
      · rw [hsame]
        exact hne
      · simp [happ]
    · exact .inr (.inr hs)

/-! ### The methods of the classes -/

theorem Waiting.pauseWriting {c : Connection σ} (h : c.Waiting) : c.pauseWriting.Waiting := by
  unfold Connection.pauseWriting
  split
  · refine ⟨h.settled.mono fun f _ hf => ?_, h.begun, h.shutdown⟩
    cases f with
    | updated start stranded finished => exact .inl rfl
    | resumed start => exact .inl rfl
    | shutdown | resuming | received gotEof | reading | eofReceived => trivial
  · exact h

theorem Waiting.resumeWriting {c : Connection σ} (h : c.Waiting)
    (hok : c.cls.followsWriting = true ∨ c.writeBuffer = []) : c.resumeWriting.Waiting := by
  unfold Connection.resumeWriting
  dsimp only
  split
  · refine ⟨trivial, (h.begun.push (f := .resumed c.trace.length) le_rfl).push (Nat.zero_le _), ?_⟩
    intro hclosing
    obtain hu | hne | hs := h.shutdown hclosing
    · exact .inl hu
    · exact .inr (.inl hne)
    · exact .inr (.inr (List.mem_cons_of_mem _ (List.mem_cons_of_mem _ hs)))
  · rename_i hcls
    exact h.push (.inr (.inl (hok.resolve_left hcls))) le_rfl

theorem Waiting.bufferUpdated (hM : ∀ s d, (M.write s d).1 ≠ .error) {c : Connection σ}
    (h : c.Waiting) (d : List UInt8) : (c.bufferUpdated M d).Waiting := by
  have hfed : Waiting { c with sslobj := M.feed c.sslobj d, interrupted := false } :=
    h.quiet (.of_sslobj ⟨rfl, rfl, rfl, rfl, rfl⟩ rfl rfl)
  -- a call that finds plaintext and does not flush it is marked as such
  have hcall : ∀ finished, (c.cls.shutsDown && c.closing) = false →
      Waiting (Connection.push { c with sslobj := M.feed c.sslobj d, interrupted := false }
        (.updated c.trace.length
          (!(c.cls.shutsDown && c.closing) && !c.paused && decide (c.writeBuffer ≠ [])) finished)) := by
    intro finished hno
    refine hfed.push ?_ le_rfl
    cases hp : c.paused with
    | true => exact .inl rfl
    | false =>
      by_cases hb : c.writeBuffer = []
      · exact .inr (.inl (.inl hb))
      · exact .inr (.inr ⟨by simp [hno, hb], by simp [Connection.push]⟩)
  unfold Connection.bufferUpdated
  dsimp only
  split
  · exact waiting_startShutdown hM (hfed.begun.push le_rfl)
  · rename_i hno
    split
    · exact (hcall _ (by simpa using hno)).quiet (quiet_handshake _)
    · exact (hcall _ (by simpa using hno)).quiet (quiet_readAll _)

theorem Waiting.of_ended {c : Connection σ} (h : c.Waiting) (ended : Option Frame) :
    Waiting { c with ended := ended } := by
  refine ⟨h.settled.mono fun g _ hg => ?_, h.begun, h.shutdown⟩
  cases g with
  | updated start stranded finished => exact hg
  | resumed start => exact hg
  | shutdown | resuming | received gotEof | reading | eofReceived => trivial

theorem Waiting.pop {c : Connection σ} (h : c.Waiting) {f : Frame} {frames : List Frame}
    (hf : c.frames = f :: frames) (hr : f ≠ .resuming) (hs : f ≠ .shutdown) :
    Waiting { c with frames := frames } := by
  have hset := h.settled
  rw [hf] at hset
  refine ⟨(hset.tail hr).2.mono fun g _ hg => ?_, fun g hg => h.begun g ?_, fun hclosing => ?_⟩
  · cases g with
    | updated start stranded finished => exact hg
    | resumed start => exact hg
    | shutdown | resuming | received gotEof | reading | eofReceived => trivial
  · rw [hf]
    exact List.mem_cons_of_mem _ hg
  · obtain hu | hne | hmem := h.shutdown hclosing
    · exact .inl hu
    · exact .inr (.inl hne)
    · rw [hf] at hmem
      exact .inr (.inr ((List.mem_cons.1 hmem).resolve_left fun he => hs he.symm))

/-- The method that goes on keeps what is waiting. -/
theorem Waiting.returned (hM : ∀ s d, (M.write s d).1 ≠ .error) {c c' : Connection σ}
    {raised : Bool} (h : c.Waiting) (hok : c.FollowsUp M (.returned raised))
    (hs : c.returned M raised = some c') : c'.Waiting := by
  unfold Connection.returned at hs
  unfold FollowsUp at hok
  split at hs
  · exact nomatch hs
  · rename_i f frames hf
    dsimp only at hok
    rw [hf] at hok
    have hpop := fun hr hs => h.pop hf hr hs
    have hbegun : Begun { c with frames := frames } :=
      fun g hg => h.begun g (by rw [hf]; exact List.mem_cons_of_mem _ hg)
    cases f with
    | shutdown =>
      obtain rfl := Option.some.inj hs
      have hq := quiet_finishShutdown (M := M) { c with frames := frames }
      have hset := h.settled
      rw [hf] at hset
      have hset' : Settled { c with frames := frames } frames := by
        refine (hset.tail (by simp)).2.mono fun g _ hg => ?_
        cases g with
        | updated start stranded finished => exact hg
        | resumed start => exact hg
        | shutdown | resuming | received gotEof | reading | eofReceived => trivial
      refine ⟨hq.settled hset' hbegun, hq.begun hbegun, fun _ => ?_⟩
      exact (finishShutdown_unwrapped _).imp_right .inl
    | resuming =>
      obtain rfl := Option.some.inj hs
      exact waiting_flush hM hbegun hok
    | received gotEof =>
      obtain rfl := Option.some.inj hs
      exact (hpop (by simp) (by simp)).quiet (quiet_readEnd _ _)
    | reading =>
      dsimp only at hs
      split at hs
      · obtain rfl := Option.some.inj hs
        exact (hpop (by simp) (by simp)).quiet (.of_sslobj ⟨rfl, rfl, rfl, rfl, rfl⟩ rfl rfl)
      · obtain rfl := Option.some.inj hs
        exact (hpop (by simp) (by simp)).quiet (quiet_readNext _)
    | eofReceived =>
      obtain rfl := Option.some.inj hs
      exact waiting_startShutdown hM hbegun
    | updated start stranded finished =>
      obtain rfl := Option.some.inj hs
      exact (hpop (by simp) (by simp)).of_ended _
    | resumed start =>
      obtain rfl := Option.some.inj hs
      exact (hpop (by simp) (by simp)).of_ended _

/-- A call that ends has served the write buffer. -/
theorem Waiting.served {c c' : Connection σ} {e : Event} (h : c.Waiting) (hok : c.FollowsUp M e)
    (hs : c.step M e = some c') {f : Frame} (hf : c'.ended = some f) (hp : c'.paused = false) :
    c'.Served f.start := by
  obtain ⟨raised, frames, rfl, hframes, hplain, rfl⟩ := step_ended hs hf
  have hset := h.settled
  rw [hframes] at hset
  simp only [FollowsUp, hframes] at hok
  cases f with
  | updated start stranded finished =>
    obtain hpt | hserved | ⟨hst, hfl⟩ := (hset.tail (by simp)).1
    · exact nomatch hp.symm.trans hpt
    · exact hserved
    · obtain hpt | hmem := hok hst
      · exact nomatch hp.symm.trans hpt
      · exact absurd hmem hfl
  | resumed start =>
    obtain hpt | hserved := (hset.tail (by simp)).1
    · exact nomatch hp.symm.trans hpt
    · exact hserved
  | shutdown | resuming | received gotEof | reading | eofReceived => exact nomatch hplain

theorem Waiting.step (hM : ∀ s d, (M.write s d).1 ≠ .error) {c c' : Connection σ} {e : Event}
    (h : c.Waiting) (hok : c.FollowsUp M e) (hs : c.step M e = some c') : c'.Waiting := by
  have h0 := h.of_ended none
  unfold Connection.step at hs
  cases e with
  | bufferUpdated d =>
    dsimp only at hs
    split at hs
    · exact Option.some.inj hs ▸ h0.bufferUpdated hM d
    · exact nomatch hs
  | write data =>
    dsimp only at hs
    split at hs
    · exact Option.some.inj hs ▸ h0.write hM data
    · exact nomatch hs
  | close =>
    dsimp only at hs
    split at hs
    · exact Option.some.inj hs ▸ h0.close hM
    · exact nomatch hs
  | timeout =>
    dsimp only at hs
    split at hs
    · obtain rfl := Option.some.inj hs
      exact h0.quiet (.of_emit ⟨rfl, rfl, rfl, rfl, rfl⟩ rfl (by simp [Effect.movesPlaintext]) rfl)
    · exact nomatch hs
  | pauseWriting => exact Option.some.inj hs ▸ h0.pauseWriting
  | resumeWriting => exact Option.some.inj hs ▸ h0.resumeWriting hok
  | returned raised => exact h0.returned hM hok hs

theorem waiting_connectionMade (cls : ProtocolClass) (s : σ) (early : List UInt8) :
    (connectionMade M cls s early).Waiting := by
  have hnew : (new M cls s early).Waiting := ⟨trivial, by simp [Begun, new], nofun⟩
  exact hnew.quiet (quiet_handshake _)

/-- **Nothing waits forever.** In every run whose events follow up, no plaintext is stranded and no
shutdown is forgotten. -/
theorem attended_of_followsUp (M : SslObject σ) (hM : ∀ s d, (M.write s d).1 ≠ .error)
    (cls : ProtocolClass) (s : σ) (early : List UInt8) (es : List Event)
    (h : Runs.Along (step M) (FollowsUp M) (connectionMade M cls s early) es) :
    Runs.Always (step M) Attended (connectionMade M cls s early) es := by
  refine Runs.always_of_along (I := fun c => c.Waiting ∧
    ∀ f, c.ended = some f → c.paused = false → c.Served f.start) h ?_ ?_ ?_
  · refine ⟨waiting_connectionMade cls s early, fun f hf => ?_⟩
    have hended := (quiet_handshake (M := M) (new M cls s early)).kept.2.2.2.2
    exact nomatch hended.symm.trans hf
  · exact fun c hc => hc.1.attended hc.2
  · exact fun c e c' hc hok hs => ⟨hc.1.step hM hok hs, fun f hf hp => hc.1.served hok hs hf hp⟩

theorem attended_of_followsUp_close :
    Runs.Always (step scripted) Attended (connectionMade scripted .client [none] [])
      [.write (.ofBytes [1]), .close, .returned false] := by
  refine attended_of_followsUp scripted scripted_write _ _ _ _ ⟨trivial, fun c hc => ?_⟩
  obtain rfl := Option.some.inj hc
  refine ⟨trivial, fun c hc => ⟨?_, fun _ _ => trivial⟩⟩
  obtain rfl := Option.some.inj hc
  trivial

/-- The SSL object wants to read before it takes a byte; the data that comes in does not make the wrapper
offer the byte again. -/
theorem inbound_data_strands :
    ¬ ∀ es : List Event, Runs.Always (step scripted) Attended
      (connectionMade scripted .client [none] []) es := by
  intro h
  have hread : ∀ c : Connection (List (Option ℕ)), c.cls = .client → c.readAll scripted = c := by
    rintro ⟨cls⟩ rfl
    simp [readAll, readLoop_scripted, readEnd]
  let c := (connectionMade scripted .client [none] []).write scripted (.ofBytes [1])
  have hupdated := ((h [.write (.ofBytes [1]), .bufferUpdated [22], .returned false]).2 c rfl).2
    (c.push (.updated 2 true false)) (congrArg some (hread (c.push (.updated 2 true false)) rfl))
  obtain hempty | ⟨data, rest, hbuffer, hmem⟩ := (hupdated.2 _ rfl).served _ rfl rfl
  · exact nomatch hempty
  · exact nomatch hmem

end Connection

end Talyn.Ssl
