import Talyn.Lib.Runs

/-!
# TLS over a stream transport

The class `_SSLTransportWrapper` of `loop.py` and the five protocol classes that it writes through: `_SP`
of `start_tls`, `SP` of the two clients and `SSP` of the two servers. They are copies of one another, so
they are one machine here, with the methods in which they differ behind a `match` on the class.

The `ssl.SSLObject` is a parameter, as are the calls of the application: it can call the wrapper at any
time after the handshake, also inside of a method of its protocol. A method of the classes that goes on
after such a call waits on the stack of frames. The raw transport is open, and takes what is written
to it; writing to it can call `pause_writing` and `resume_writing`.

`write` takes any buffer object that has a length, and whose bytes stay what they are while the wrapper
holds it. The wrapper counts and slices its `memoryview` by the items of the first dimension, while the
SSL object counts bytes: a `View` is a list of bytes that is divided into items.
-/

namespace Talyn.Ssl

/-- A `memoryview`: its bytes, and how many of them are one item of its first dimension. -/
structure View (α : Type*) where
  elems : List α
  itemSize : ℕ
  itemSize_pos : 0 < itemSize
  dvd_length : itemSize ∣ elems.length
  deriving DecidableEq

namespace View

variable {α : Type*}

/-- A view of single bytes. -/
def ofBytes (elems : List α) : View α := ⟨elems, 1, Nat.one_pos, Nat.one_dvd _⟩

/-- `len`: the number of items. -/
def len (v : View α) : ℕ := v.elems.length / v.itemSize

/-- The slice from item `n` on. -/
def drop (v : View α) (n : ℕ) : View α where
  elems := v.elems.drop (n * v.itemSize)
  itemSize := v.itemSize
  itemSize_pos := v.itemSize_pos
  dvd_length := by
    rw [List.length_drop]
    exact Nat.dvd_sub v.dvd_length (Nat.dvd_mul_left _ n)

/-- Number the bytes. -/
def zipIdx (v : View α) (start : ℕ) : View (α × ℕ) where
  elems := v.elems.zipIdx start
  itemSize := v.itemSize
  itemSize_pos := v.itemSize_pos
  dvd_length := by
    rw [List.length_zipIdx]
    exact v.dvd_length

theorem len_mul (v : View α) : v.len * v.itemSize = v.elems.length := Nat.div_mul_cancel v.dvd_length

theorem len_pos {v : View α} {n : ℕ} (h : n < v.len) : 0 < v.elems.length := by
  rw [← v.len_mul]
  exact Nat.mul_pos (Nat.zero_lt_of_lt h) v.itemSize_pos

@[simp] theorem elems_drop (v : View α) (n : ℕ) :
    (v.drop n).elems = v.elems.drop (n * v.itemSize) := rfl

@[simp] theorem elems_zipIdx (v : View α) (start : ℕ) :
    (v.zipIdx start).elems = v.elems.zipIdx start := rfl

end View

/-- How `do_handshake` and `unwrap` end. -/
inductive Result
  | done
  | wantRead
  | wantWrite
  | error
  deriving DecidableEq, Repr

/-- How `SSLObject.read` ends; `error` is any other `SSLError`, the end of the stream included. -/
inductive ReadResult
  | data (d : List UInt8)
  | wantRead
  | error
  deriving DecidableEq, Repr

/-- How `SSLObject.write` ends: the number of bytes it took, or what it raised. -/
inductive WriteResult
  | accepted (n : ℕ)
  | wantRead
  | wantWrite
  | error
  deriving DecidableEq, Repr

/-- An `ssl.SSLObject` with its two memory BIOs, by what its methods do to its state. Reading comes to
an end: `backlog` bounds the plaintext that can still be read. -/
structure SslObject (σ : Type*) where
  /-- `write` of the incoming BIO -/
  feed : σ → List UInt8 → σ
  doHandshake : σ → Result × σ
  read : σ → ReadResult × σ
  write : σ → List UInt8 → WriteResult × σ
  unwrap : σ → Result × σ
  backlog : σ → ℕ
  read_backlog : ∀ s d t, d ≠ [] → read s = (.data d, t) → backlog t < backlog s

/-- An SSL object whose handshake is done at once, with nothing to read. Its state lists how the next
calls of `write` end: by the number of bytes taken, or in `SSLWantReadError`. -/
def scripted : SslObject (List (Option ℕ)) where
  feed s _ := s
  doHandshake s := (.done, s)
  read s := (.wantRead, s)
  write s data :=
    match s with
    | [] => (.accepted data.length, [])
    | none :: s => (.wantRead, s)
    | some n :: s => (.accepted n, s)
  unwrap s := (.done, s)
  backlog _ := 0
  read_backlog := by
    intro s d t _ h
    exact nomatch h

theorem scripted_write (s : List (Option ℕ)) (data : List UInt8) :
    (scripted.write s data).1 ≠ .error := by
  unfold scripted
  rcases s with _ | ⟨_ | n, s⟩
  · exact nofun
  · exact nofun
  · exact nofun

/-- The protocol classes of `loop.py`. -/
inductive ProtocolClass
  | startTls
  | client
  | unixClient
  | server
  | unixServer
  deriving DecidableEq, Repr

/-- The class has `pause_writing` and `resume_writing`. -/
def ProtocolClass.followsWriting : ProtocolClass → Bool
  | .unixServer => false
  | _ => true

/-- `buffer_updated` goes on with the shutdown of a wrapper that is closing. -/
def ProtocolClass.shutsDown : ProtocolClass → Bool
  | .unixServer => false
  | _ => true

/-- The application protocol is told of the connection once the handshake is done. -/
def ProtocolClass.connects : ProtocolClass → Bool
  | .startTls => false
  | _ => true

/-- Bytes with their positions among all the bytes that were passed to `write`. -/
abbrev Chunk := List (UInt8 × ℕ)

/-- The bytes of a chunk. -/
def Chunk.bytes (c : Chunk) : List UInt8 := c.map Prod.fst

/-- What the SSL object and the application protocol see. -/
inductive Effect
  /-- the SSL object took these bytes -/
  | accepted (c : Chunk)
  /-- the SSL object was offered this view and took nothing of it -/
  | refused (v : View (UInt8 × ℕ))
  /-- a fatal error of the SSL object -/
  | fatal
  /-- `_flush_write_buffer` -/
  | flushed
  /-- the shutdown was attempted -/
  | unwrapped (r : Result)
  | forceClosed
  | connectionMade
  | dataReceived (d : List UInt8)
  | eofReceived
  deriving DecidableEq

/-- The effect is one of `write` and `_flush_write_buffer`. -/
def Effect.movesPlaintext : Effect → Bool
  | .accepted _ | .refused _ | .fatal | .flushed => true
  | _ => false

/-- A method that waits for a call of the application protocol or of the raw transport. -/
inductive Frame
  /-- `_start_shutdown` after its flush -/
  | shutdown
  /-- `resume_writing` before its flush -/
  | resuming
  /-- `_r` in `data_received` -/
  | received (gotEof : Bool)
  /-- `_r` of the UNIX server in `data_received` -/
  | reading
  /-- `_r` in `eof_received` -/
  | eofReceived
  /-- a call of `buffer_updated`: the length of the trace at its start, whether it found plaintext that
  it does not flush, and whether it completed the handshake -/
  | updated (start : ℕ) (stranded finished : Bool)
  /-- a call of `resume_writing` -/
  | resumed (start : ℕ)
  deriving DecidableEq, Repr

/-- The frame is neither a call of `buffer_updated` nor one of `resume_writing`. -/
def Frame.plain : Frame → Bool
  | .updated _ _ _ | .resumed _ => false
  | _ => true

/-- A TLS connection: the fields of the protocol object and of its wrapper. -/
structure Connection (σ : Type*) where
  cls : ProtocolClass
  sslobj : σ
  /-- `_hs`: the handshake is done -/
  hs : Bool
  /-- `_ssl_writing_paused` -/
  paused : Bool
  closing : Bool
  /-- the handshake has failed -/
  failed : Bool
  writeBuffer : List (View (UInt8 × ℕ))
  /-- `_shutdown_timeout_handle` -/
  timer : Bool
  frames : List Frame
  /-- the bytes passed to `write`, in call order -/
  written : Chunk
  /-- a call of `data_received` raised and left plaintext unread -/
  interrupted : Bool
  /-- the call of `buffer_updated` or `resume_writing` that ended last, by its frame -/
  ended : Option Frame
  trace : List Effect

namespace Connection

variable {σ : Type*} (M : SslObject σ)

/-- Record effects. -/
def emit (c : Connection σ) (es : List Effect) : Connection σ := { c with trace := c.trace ++ es }

/-- Wait for a call. -/
def push (c : Connection σ) (f : Frame) : Connection σ := { c with frames := f :: c.frames }

/-- The wrapper of a new connection; `early` is what `start_tls` found in the read buffers. -/
def new (cls : ProtocolClass) (s : σ) (early : List UInt8) : Connection σ where
  cls := cls
  sslobj := if cls = .startTls then M.feed s early else s
  hs := false
  paused := false
  closing := false
  failed := false
  writeBuffer := []
  timer := false
  frames := []
  written := []
  interrupted := false
  ended := none
  trace := []

end Connection

/-- The number of bytes of a buffer and of its views. -/
def bufferSize (buffer : List (View (UInt8 × ℕ))) : ℕ := (buffer.map (·.elems.length + 1)).sum

/-- The loop of `_flush_write_buffer`: the SSL object, the buffer that is left, and what happened. -/
def flushLoop {σ : Type*} (M : SslObject σ) (s : σ) :
    List (View (UInt8 × ℕ)) → σ × List (View (UInt8 × ℕ)) × List Effect
  | [] => (s, [], [])
  | data :: rest =>
    match M.write s (Chunk.bytes data.elems) with
    | (.wantRead, s) | (.wantWrite, s) => (s, data :: rest, [.refused data])
    | (.error, s) => (s, rest, [.fatal])
    | (.accepted written, s) =>
      -- bytes against items
      if _h : written < data.len then
        if _h0 : written = 0 then (s, data :: rest, [.refused data])
        else
          let (s, buffer, es) := flushLoop M s (data.drop written :: rest)
          (s, buffer, .accepted (data.elems.take written) :: es)
      else
        let (s, buffer, es) := flushLoop M s rest
        (s, buffer, .accepted (data.elems.take written) :: es)
termination_by buffer => bufferSize buffer
decreasing_by
  · have hpos := View.len_pos _h
    have hskip : 0 < written * data.itemSize := Nat.mul_pos (Nat.pos_of_ne_zero _h0) data.itemSize_pos
    simp only [bufferSize, List.map_cons, View.elems_drop, List.length_drop, List.sum_cons]
    omega
  · simp only [bufferSize, List.map_cons, List.sum_cons]
    omega

/-- The loop of `_r`: what was read, and whether the loop ended on anything but `SSLWantReadError`. -/
def readLoop {σ : Type*} (M : SslObject σ) (s : σ) : List UInt8 × Bool × σ :=
  match _h : M.read s with
  | (.wantRead, s) => ([], false, s)
  | (.error, s) => ([], true, s)
  | (.data d, t) =>
    if _hd : d = [] then ([], true, t)
    else
      let (chunks, gotEof, s) := readLoop M t
      (d ++ chunks, gotEof, s)
termination_by M.backlog s
decreasing_by exact M.read_backlog s d t _hd _h

theorem readLoop_scripted (s : List (Option ℕ)) : readLoop scripted s = ([], false, s) := by
  rw [readLoop]
  rfl

namespace Connection

variable {σ : Type*} (M : SslObject σ)

/-! ### The wrapper -/

/-- `_flush_write_buffer`. -/
def flushWriteBuffer (c : Connection σ) : Connection σ :=
  let (s, buffer, es) := flushLoop M c.sslobj c.writeBuffer
  { c with sslobj := s, writeBuffer := buffer }.emit (es ++ [Effect.flushed])

/-- `_start_shutdown`, which waits while `_flush_write_buffer` writes to the raw transport. -/
def startShutdown (c : Connection σ) : Connection σ := (c.flushWriteBuffer M).push .shutdown

/-- `_start_shutdown` after its flush. -/
def finishShutdown (c : Connection σ) : Connection σ :=
  if c.writeBuffer ≠ [] then c
  else
    let (r, s) := M.unwrap c.sslobj
    let c := { c with sslobj := s }.emit [.unwrapped r]
    match r with
    | .wantRead | .wantWrite =>
      if c.timer then { c with timer := false }.emit [.forceClosed] else { c with timer := true }
    | .done | .error => { c with timer := false }.emit [.forceClosed]

/-- `write`. -/
def write (c : Connection σ) (data : View UInt8) : Connection σ :=
  let view := data.zipIdx c.written.length
  let c := { c with written := c.written ++ view.elems }
  if c.paused then { c with writeBuffer := c.writeBuffer ++ [view] }
  else
    match M.write c.sslobj data.elems with
    | (.wantRead, s) | (.wantWrite, s) =>
      { c with sslobj := s, writeBuffer := c.writeBuffer ++ [view] }.emit [.refused view]
    | (.error, s) => { c with sslobj := s }.emit [.fatal]
    | (.accepted written, s) =>
      -- bytes against items
      if written < data.len then
        { c with sslobj := s, writeBuffer := c.writeBuffer ++ [view.drop written] }.emit
          [.accepted (view.elems.take written), .refused (view.drop written)]
      else { c with sslobj := s }.emit [.accepted (view.elems.take written)]

/-- `close`. -/
def close (c : Connection σ) : Connection σ :=
  if c.closing then c else { c with closing := true }.startShutdown M

/-! ### The protocol classes -/

/-- `_h`. -/
def handshake (c : Connection σ) : Connection σ :=
  match M.doHandshake c.sslobj with
  | (.wantRead, s) | (.wantWrite, s) => { c with sslobj := s }
  | (.error, s) => { c with sslobj := s, failed := true }
  | (.done, s) =>
    let c := { c with sslobj := s, hs := true }
    if c.cls.connects then c.emit [.connectionMade] else c

/-- `connection_made` of a new connection. -/
def connectionMade (cls : ProtocolClass) (s : σ) (early : List UInt8) : Connection σ :=
  (new M cls s early).handshake M

/-- `_r` of the UNIX server, one turn of its loop. -/
def readNext (c : Connection σ) : Connection σ :=
  match M.read c.sslobj with
  | (.wantRead, s) | (.error, s) => { c with sslobj := s }
  | (.data d, s) =>
    if d = [] then { c with sslobj := s }
    else ({ c with sslobj := s }.emit [.dataReceived d]).push .reading

/-- The end of `_r`: `eof_received` and the shutdown, in the classes that look for the end. -/
def readEnd (c : Connection σ) (gotEof : Bool) : Connection σ :=
  if gotEof then (c.emit [.eofReceived]).push .eofReceived else c

/-- `_r`. -/
def readAll (c : Connection σ) : Connection σ :=
  match c.cls with
  | .unixServer => c.readNext M
  | .startTls =>
    -- `_running` is cleared when the handshake fails
    if c.failed then c
    else
      let (chunks, _, s) := readLoop M c.sslobj
      let c := { c with sslobj := s }
      if chunks = [] then c else (c.emit [.dataReceived chunks]).push (.received false)
  | .client | .unixClient | .server =>
    let (chunks, gotEof, s) := readLoop M c.sslobj
    let c := { c with sslobj := s }
    if chunks = [] then c.readEnd gotEof
    else (c.emit [.dataReceived chunks]).push (.received gotEof)

/-- `buffer_updated`. -/
def bufferUpdated (c : Connection σ) (d : List UInt8) : Connection σ :=
  let c := { c with sslobj := M.feed c.sslobj d, interrupted := false }
  let shutsDown := c.cls.shutsDown && c.closing
  let stranded := !shutsDown && !c.paused && decide (c.writeBuffer ≠ [])
  if shutsDown then (c.push (.updated c.trace.length stranded false)).startShutdown M
  else if !c.hs then
    let finished := decide ((M.doHandshake c.sslobj).1 = .done)
    (c.push (.updated c.trace.length stranded finished)).handshake M
  else (c.push (.updated c.trace.length stranded false)).readAll M

/-- `pause_writing`; the application protocol is called last. -/
def pauseWriting (c : Connection σ) : Connection σ :=
  if c.cls.followsWriting then { c with paused := true } else c

/-- `resume_writing`, up to the call of the application protocol. -/
def resumeWriting (c : Connection σ) : Connection σ :=
  let c := c.push (.resumed c.trace.length)
  if c.cls.followsWriting then { c with paused := false }.push .resuming else c

/-- The call that the method on top of the stack waits for ends. -/
def returned (c : Connection σ) (raised : Bool) : Option (Connection σ) :=
  match c.frames with
  | [] => none
  | f :: frames =>
    let c := { c with frames := frames }
    match f with
    | .shutdown => some (c.finishShutdown M)
    | .resuming => some (c.flushWriteBuffer M)
    -- an exception of `data_received` leaves `_r`, but not that of `start_tls`, which looks for no end
    | .received gotEof => some (c.readEnd (gotEof && !raised))
    | .reading => if raised then some { c with interrupted := true } else some (c.readNext M)
    | .eofReceived => some (c.startShutdown M)
    | .updated start stranded finished => some { c with ended := some (.updated start stranded finished) }
    | .resumed start => some { c with ended := some (.resumed start) }

end Connection

/-- What can happen to a connection. -/
inductive Event
  /-- the raw transport has read -/
  | bufferUpdated (d : List UInt8)
  /-- the application calls the wrapper -/
  | write (data : View UInt8)
  | close
  /-- the timer of the shutdown -/
  | timeout
  /-- the raw transport reports on its write buffer -/
  | pauseWriting
  | resumeWriting
  /-- the call that the method on top of the stack waits for ends -/
  | returned (raised : Bool)
  deriving DecidableEq

namespace Connection

variable {σ : Type*} (M : SslObject σ)

/-- One event; `none` when it cannot happen. The loop calls `buffer_updated` outside of Python calls, and
the application gets the wrapper when the handshake is done. -/
def step (c : Connection σ) (e : Event) : Option (Connection σ) :=
  let c := { c with ended := none }
  match e with
  | .bufferUpdated d => if c.frames = [] then some (c.bufferUpdated M d) else none
  | .write data => if c.hs then some (c.write M data) else none
  | .close => if c.hs then some (c.close M) else none
  | .timeout => if c.timer then some ({ c with timer := false }.emit [.forceClosed]) else none
  | .pauseWriting => some c.pauseWriting
  | .resumeWriting => some c.resumeWriting
  | .returned raised => c.returned M raised

/-! ### What leaves the write buffer alone -/

variable {M}

/-- The write buffer and the flags stay, nothing is written, flushed or offered to the SSL object, and at
most some frames of other calls are put on the stack. -/
structure Quiet (c c' : Connection σ) : Prop where
  kept : c'.writeBuffer = c.writeBuffer ∧ c'.written = c.written ∧ c'.paused = c.paused ∧
    c'.closing = c.closing ∧ c'.ended = c.ended
  trace : ∃ es, c'.trace = c.trace ++ es ∧ ∀ e ∈ es, e.movesPlaintext = false
  frames : ∃ fs, c'.frames = fs ++ c.frames ∧ ∀ f ∈ fs, f.plain = true

theorem Quiet.of_sslobj {c c' : Connection σ}
    (hc : c'.writeBuffer = c.writeBuffer ∧ c'.written = c.written ∧ c'.paused = c.paused ∧
      c'.closing = c.closing ∧ c'.ended = c.ended)
    (ht : c'.trace = c.trace) (hf : c'.frames = c.frames) : Quiet c c' :=
  ⟨hc, ⟨[], by simp [ht], by simp⟩, [], hf, by simp⟩

theorem Quiet.of_emit {c c' : Connection σ} {es : List Effect}
    (hc : c'.writeBuffer = c.writeBuffer ∧ c'.written = c.written ∧ c'.paused = c.paused ∧
      c'.closing = c.closing ∧ c'.ended = c.ended)
    (ht : c'.trace = c.trace ++ es) (hes : ∀ e ∈ es, e.movesPlaintext = false)
    (hf : c'.frames = c.frames) : Quiet c c' :=
  ⟨hc, ⟨es, ht, hes⟩, [], hf, by simp⟩

theorem Quiet.of_push {c c' : Connection σ} {es : List Effect} {f : Frame}
    (hc : c'.writeBuffer = c.writeBuffer ∧ c'.written = c.written ∧ c'.paused = c.paused ∧
      c'.closing = c.closing ∧ c'.ended = c.ended)
    (ht : c'.trace = c.trace ++ es) (hes : ∀ e ∈ es, e.movesPlaintext = false)
    (hf : c'.frames = f :: c.frames) (hplain : f.plain = true) : Quiet c c' :=
  ⟨hc, ⟨es, ht, hes⟩, [f], hf, by simpa using hplain⟩

theorem Quiet.refl (c : Connection σ) : Quiet c c := .of_sslobj ⟨rfl, rfl, rfl, rfl, rfl⟩ rfl rfl

theorem quiet_handshake (c : Connection σ) : Quiet c (c.handshake M) := by
  unfold handshake
  split
  · exact .of_sslobj ⟨rfl, rfl, rfl, rfl, rfl⟩ rfl rfl
  · exact .of_sslobj ⟨rfl, rfl, rfl, rfl, rfl⟩ rfl rfl
  · exact .of_sslobj ⟨rfl, rfl, rfl, rfl, rfl⟩ rfl rfl
  · dsimp only
    split
    · exact .of_emit ⟨rfl, rfl, rfl, rfl, rfl⟩ rfl (by simp [Effect.movesPlaintext]) rfl
    · exact .of_sslobj ⟨rfl, rfl, rfl, rfl, rfl⟩ rfl rfl

theorem quiet_readNext (c : Connection σ) : Quiet c (c.readNext M) := by
  unfold readNext
  split
  · exact .of_sslobj ⟨rfl, rfl, rfl, rfl, rfl⟩ rfl rfl
  · exact .of_sslobj ⟨rfl, rfl, rfl, rfl, rfl⟩ rfl rfl
  · split
    · exact .of_sslobj ⟨rfl, rfl, rfl, rfl, rfl⟩ rfl rfl
    · exact .of_push ⟨rfl, rfl, rfl, rfl, rfl⟩ rfl (by simp [Effect.movesPlaintext]) rfl rfl

theorem quiet_readEnd (c : Connection σ) (gotEof : Bool) : Quiet c (c.readEnd gotEof) := by
  unfold readEnd
  split
  · exact .of_push ⟨rfl, rfl, rfl, rfl, rfl⟩ rfl (by simp [Effect.movesPlaintext]) rfl rfl
  · exact .refl c

theorem quiet_readAll (c : Connection σ) : Quiet c (c.readAll M) := by
  have hread : ∀ s, Quiet c { c with sslobj := s } :=
    fun s => .of_sslobj ⟨rfl, rfl, rfl, rfl, rfl⟩ rfl rfl
  have hend : ∀ s gotEof, Quiet c (readEnd { c with sslobj := s } gotEof) := by
    intro s gotEof
    unfold readEnd
    split
    · exact .of_push ⟨rfl, rfl, rfl, rfl, rfl⟩ rfl (by simp [Effect.movesPlaintext]) rfl rfl
    · exact hread s
  have hreceived : ∀ s d gotEof, Quiet c ((emit { c with sslobj := s } [.dataReceived d]).push
      (.received gotEof)) :=
    fun s d gotEof => .of_push ⟨rfl, rfl, rfl, rfl, rfl⟩ rfl (by simp [Effect.movesPlaintext]) rfl rfl
  unfold readAll
  split
  · exact quiet_readNext c
  · dsimp only
    split
    · exact .refl c
    · split
      · exact hread _
      · exact hreceived _ _ _
  all_goals
    dsimp only
    split
    · exact hend _ _
    · exact hreceived _ _ _

theorem quiet_finishShutdown (c : Connection σ) : Quiet c (c.finishShutdown M) := by
  unfold finishShutdown
  split_ifs
  · exact .refl c
  · have hunwrapped : ∀ s r timer, Quiet c (emit { c with sslobj := s, timer := timer } [.unwrapped r]) :=
      fun s r timer => .of_emit ⟨rfl, rfl, rfl, rfl, rfl⟩ rfl (by simp [Effect.movesPlaintext]) rfl
    have hclosed : ∀ s r timer, Quiet c
        (emit (emit { c with sslobj := s, timer := timer } [.unwrapped r]) [.forceClosed]) :=
      fun s r timer => .of_emit ⟨rfl, rfl, rfl, rfl, rfl⟩
        (show _ = c.trace ++ [Effect.unwrapped r, .forceClosed] by simp [emit])
        (by simp [Effect.movesPlaintext]) rfl
    rcases M.unwrap c.sslobj with ⟨r, s⟩
    cases r with
    | done => exact hclosed _ _ _
    | error => exact hclosed _ _ _
    | wantRead =>
      dsimp only
      split
      · exact hclosed _ _ _
      · exact hunwrapped _ _ _
    | wantWrite =>
      dsimp only
      split
      · exact hclosed _ _ _
      · exact hunwrapped _ _ _

/-! ### The end of a call -/

theorem write_kept (c : Connection σ) (data : View UInt8) :
    (c.write M data).paused = c.paused ∧ (c.write M data).closing = c.closing ∧
      (c.write M data).frames = c.frames ∧ (c.write M data).ended = c.ended := by
  unfold Connection.write
  dsimp only
  split
  · exact ⟨rfl, rfl, rfl, rfl⟩
  · split
    · exact ⟨rfl, rfl, rfl, rfl⟩
    · exact ⟨rfl, rfl, rfl, rfl⟩
    · exact ⟨rfl, rfl, rfl, rfl⟩
    · split
      · exact ⟨rfl, rfl, rfl, rfl⟩
      · exact ⟨rfl, rfl, rfl, rfl⟩

theorem ended_bufferUpdated (c : Connection σ) (d : List UInt8) :
    (c.bufferUpdated M d).ended = c.ended := by
  unfold Connection.bufferUpdated
  dsimp only
  split
  · rfl
  · split
    · exact (quiet_handshake _).kept.2.2.2.2
    · exact (quiet_readAll _).kept.2.2.2.2

theorem ended_close (c : Connection σ) : (c.close M).ended = c.ended := by
  unfold close
  split
  · rfl
  · rfl

/-- A call of `buffer_updated` or `resume_writing` ends by returning, and nothing else happens then. -/
theorem step_ended {c c' : Connection σ} {e : Event} {f : Frame} (hs : c.step M e = some c')
    (hf : c'.ended = some f) : ∃ raised frames, e = .returned raised ∧ c.frames = f :: frames ∧
      f.plain = false ∧ c' = { c with frames := frames, ended := some f } := by
  have hnone : ∀ {P : Prop}, c'.ended = none → P := fun hno => nomatch hno.symm.trans hf
  unfold step at hs
  cases e with
  | bufferUpdated d =>
    dsimp only at hs
    split at hs
    · exact hnone (Option.some.inj hs ▸ ended_bufferUpdated _ _)
    · exact nomatch hs
  | write data =>
    dsimp only at hs
    split at hs
    · exact hnone (Option.some.inj hs ▸ (write_kept _ _).2.2.2)
    · exact nomatch hs
  | close =>
    dsimp only at hs
    split at hs
    · exact hnone (Option.some.inj hs ▸ ended_close _)
    · exact nomatch hs
  | timeout =>
    dsimp only at hs
    split at hs
    · exact hnone (Option.some.inj hs ▸ rfl)
    · exact nomatch hs
  | pauseWriting =>
    refine hnone (Option.some.inj hs ▸ ?_)
    unfold pauseWriting
    split
    · rfl
    · rfl
  | resumeWriting =>
    refine hnone (Option.some.inj hs ▸ ?_)
    unfold resumeWriting
    dsimp only
    split
    · rfl
    · rfl
  | returned raised =>
    dsimp only at hs
    unfold returned at hs
    split at hs
    · exact nomatch hs
    · rename_i g frames hg
      cases g with
      | shutdown => exact hnone (Option.some.inj hs ▸ (quiet_finishShutdown _).kept.2.2.2.2)
      | resuming => exact hnone (Option.some.inj hs ▸ rfl)
      | received gotEof => exact hnone (Option.some.inj hs ▸ (quiet_readEnd _ _).kept.2.2.2.2)
      | reading =>
        dsimp only at hs
        split at hs
        · exact hnone (Option.some.inj hs ▸ rfl)
        · exact hnone (Option.some.inj hs ▸ (quiet_readNext _).kept.2.2.2.2)
      | eofReceived => exact hnone (Option.some.inj hs ▸ rfl)
      | updated start stranded finished =>
        obtain rfl := Option.some.inj hs
        obtain rfl := Option.some.inj hf
        exact ⟨raised, frames, rfl, hg, rfl, rfl⟩
      | resumed start =>
        obtain rfl := Option.some.inj hs
        obtain rfl := Option.some.inj hf
        exact ⟨raised, frames, rfl, hg, rfl, rfl⟩

end Connection

end Talyn.Ssl
