import Talyn.Lib.Loops
import Talyn.Loop.FsWatcher

/-!
# The walk over the inotify buffer

`on_inotify_event` of `src/loop/fs_watcher.zig`, turn by turn: a read, or one event of the buffer that
was read. What must not happen (an index behind the bytes received, a cast of a misaligned pointer, an
overflow of the 32-bit sum of the header's size and `len`) is a `WalkFault`. What the callbacks do to
the list of watchers is a script.

`pending` holds addresses only: a watcher is looked up in the list by its address before it is read, and
may be another one than that of the snapshot.
-/

namespace Talyn

/-- What the walk must not do. -/
inductive WalkFault
  | outOfBounds
  | misaligned
  | overflow
  deriving DecidableEq, Repr

/-- The bytes one read has received. -/
abbrev Buffer := List UInt8

namespace Buffer

/-- An index into the bytes received. -/
def byteAt (buf : Buffer) (i : ℕ) : Except WalkFault ℕ :=
  match buf[i]? with
  | some b => .ok b.toNat
  | none => .error .outOfBounds

/-- A `u32` of the header, in the byte order of the machine. -/
def readU32 (buf : Buffer) (i : ℕ) : Except WalkFault ℕ := do
  let b₀ ← buf.byteAt i
  let b₁ ← buf.byteAt (i + 1)
  let b₂ ← buf.byteAt (i + 2)
  let b₃ ← buf.byteAt (i + 3)
  return b₀ + 256 * b₁ + 65536 * b₂ + 16777216 * b₃

end Buffer

/-- An `i32` with the bits of a `u32`. -/
def toI32 (n : ℕ) : ℤ := if n < 2 ^ 31 then n else n - 2 ^ 32

/-- `inotify_event` without the name. -/
structure InotifyEvent where
  wd : ℤ
  mask : BitVec 32
  cookie : ℕ
  len : ℕ
  deriving DecidableEq, Repr

namespace InotifyEvent

/-- `@sizeOf(inotify_event)`. -/
def headerSize : ℕ := 16

/-- `@ptrCast(@alignCast(&buf[pos]))` and the fields behind it; the buffer itself is aligned. -/
def read (buf : Buffer) (pos : ℕ) : Except WalkFault InotifyEvent :=
  if pos % 4 ≠ 0 then .error .misaligned
  else do
    let wd ← buf.readU32 pos
    let mask ← buf.readU32 (pos + 4)
    let cookie ← buf.readU32 (pos + 8)
    let len ← buf.readU32 (pos + 12)
    return ⟨toI32 wd, BitVec.ofNat 32 mask, cookie, len⟩

/-- `@sizeOf(inotify_event) + event.len`, a sum of 32 bits. -/
def total (event : InotifyEvent) : Except WalkFault ℕ :=
  if headerSize + event.len < 2 ^ 32 then .ok (headerSize + event.len) else .error .overflow

/-- The name behind the header, up to its first zero. -/
def nameOf (buf : Buffer) (pos len : ℕ) : List UInt8 :=
  ((buf.drop (pos + headerSize)).take len).takeWhile (· ≠ 0)

/-- The name, where the event lies within the bytes received. -/
def nameAt (buf : Buffer) (pos len : ℕ) : Except WalkFault (List UInt8) :=
  if pos + headerSize + len ≤ buf.length then .ok (nameOf buf pos len) else .error .outOfBounds

/-- `PyUnicode_FromStringAndSize` decodes the name. -/
def isUtf8 (name : List UInt8) : Bool := (ByteArray.mk name.toArray).validateUTF8

end InotifyEvent

/-- What `read` returns. -/
inductive InotifyRead
  | bytes (buf : Buffer)
  | wouldBlock
  | failed
  deriving DecidableEq, Repr

/-- A call a callback makes; its allocations and its `io.queue` succeed, and the descriptor of the
inotify instance is open already. -/
inductive WatchCall
  | add (mask : BitVec 32) (callback id : ℕ) (inode : Option ℕ) (wd address : ℕ)
  | remove (wd callback : ℕ)
  deriving DecidableEq, Repr

/-- What happens around the walk: the reads (after them nothing is there to read), the calls of each
callback and the id of the wait that is queued at the end. -/
structure WalkScript where
  reads : List InotifyRead
  callbacks : ℕ → List WatchCall
  rearm : ℕ

/-- The watcher has the event's `wd` and a mask that intersects its mask. -/
def Watcher.Wants (watcher : Watcher) (event : InotifyEvent) : Prop :=
  watcher.wd = event.wd ∧ watcher.mask &&& event.mask ≠ 0

instance (watcher : Watcher) (event : InotifyEvent) : Decidable (watcher.Wants event) :=
  inferInstanceAs (Decidable (_ ∧ _))

/-- One turn of the loop over `pending`: whose address it was, who was registered then, and whose callback
`dispatch_event` called. -/
structure OfferTurn where
  target : Watcher
  registered : List Watcher
  offered : Option Watcher
  deriving DecidableEq, Repr

/-- An event of the buffer, the watchers registered when it was reached, and the turns of the loop
over them. -/
structure EventVisit where
  event : InotifyEvent
  name : List UInt8
  snapshot : List Watcher
  turns : List OfferTurn
  deriving DecidableEq, Repr

/-- The watchers the event was offered to. -/
def EventVisit.offers (v : EventVisit) : List Watcher := v.turns.filterMap (·.offered)

/-- The variables of `on_inotify_event`; `place` is the buffer and `pos` while it is walked over. -/
structure InotifyCursor where
  self : FSWatcher
  /-- how many callbacks have run -/
  called : ℕ
  log : List EventVisit
  reads : List InotifyRead
  place : Option (Buffer × ℕ)
  deriving DecidableEq, Repr

namespace FSWatcher

/-- A call of a callback. -/
def call (self : FSWatcher) : WatchCall → FSWatcher
  | .add mask callback id inode wd address =>
    (self.addWatch mask callback ⟨none, some id, inode, wd, some address, true⟩).2
  | .remove wd callback => self.removeWatch wd callback

/-- One turn of `for (pending)`; `dispatch_event` fails in front of the callback where the name cannot be
decoded. -/
def offer (script : WalkScript) (event : InotifyEvent) (name : List UInt8) (self : FSWatcher) (called : ℕ)
    (target : Watcher) : FSWatcher × ℕ × OfferTurn :=
  match self.watchers.find? fun live => live.address = target.address with
  | none => (self, called, ⟨target, self.watchers, none⟩)
  | some watcher =>
    if watcher.Wants event ∧ InotifyEvent.isUtf8 name then
      ((script.callbacks called).foldl call self, called + 1, ⟨target, self.watchers, some watcher⟩)
    else (self, called, ⟨target, self.watchers, none⟩)

/-- `for (pending)`. -/
def offerAll (script : WalkScript) (event : InotifyEvent) (name : List UInt8) :
    FSWatcher → ℕ → List Watcher → FSWatcher × ℕ × List OfferTurn
  | self, called, [] => (self, called, [])
  | self, called, target :: pending =>
    let (self, called, turn) := offer script event name self called target
    let (self, called, turns) := offerAll script event name self called pending
    (self, called, turn :: turns)

/-- One turn of the loops of `on_inotify_event`; leaving them it tells whether `read` has failed. -/
def walkTurn (script : WalkScript) (c : InotifyCursor) :
    Except WalkFault (InotifyCursor ⊕ InotifyCursor × Bool) :=
  match c.place with
  | none =>
    match c.reads with
    | [] | .wouldBlock :: _ => return .inr (c, false)
    | .failed :: _ => return .inr (c, true)
    | .bytes buf :: reads =>
      if buf.length = 0 then return .inr (c, false)
      else return .inl { c with reads := reads, place := some (buf, 0) }
  | some (buf, pos) =>
    if pos < buf.length then
      let remaining := buf.length - pos
      if remaining < InotifyEvent.headerSize then return .inl { c with place := none }
      else do
        let event ← InotifyEvent.read buf pos
        let total ← event.total
        if total > remaining then return .inl { c with place := none }
        else do
          let name ← InotifyEvent.nameAt buf pos event.len
          let (self, called, turns) := offerAll script event name c.self c.called c.self.watchers
          return .inl { c with
            self := self
            called := called
            log := c.log ++ [⟨event, name, c.self.watchers, turns⟩]
            place := some (buf, pos + total) }
    else return .inl { c with place := none }

/-- Where `on_inotify_event` begins: the wait is over. -/
def walkStart (script : WalkScript) (self : FSWatcher) : InotifyCursor :=
  ⟨self.dropTaskId, 0, [], script.reads, none⟩

/-! ## What the buffers hold -/

/-- The bytes that are read before `read` has nothing more to give. -/
def received : List InotifyRead → List Buffer
  | .bytes buf :: reads => if buf.length = 0 then [] else buf :: received reads
  | _ => []

/-- The number in four bytes. -/
def u32At (buf : Buffer) (i : ℕ) : ℕ :=
  (buf.getD i 0).toNat + 256 * (buf.getD (i + 1) 0).toNat + 65536 * (buf.getD (i + 2) 0).toNat +
    16777216 * (buf.getD (i + 3) 0).toNat

/-- The header at a place. -/
def headerAt (buf : Buffer) (pos : ℕ) : InotifyEvent :=
  ⟨toI32 (u32At buf pos), BitVec.ofNat 32 (u32At buf (pos + 4)), u32At buf (pos + 8),
    u32At buf (pos + 12)⟩

/-- The event at a place lies within the bytes received. -/
def Complete (buf : Buffer) (header : ℕ × InotifyEvent) : Prop :=
  header.1 + InotifyEvent.headerSize + header.2.len ≤ buf.length

instance (buf : Buffer) : DecidablePred (Complete buf) := fun _ => inferInstanceAs (Decidable (_ ≤ _))

/-- The complete headers, each behind the complete event before it, with their places. -/
def headers (buf : Buffer) (pos : ℕ) : List (ℕ × InotifyEvent) :=
  if pos + InotifyEvent.headerSize ≤ buf.length then
    (pos, headerAt buf pos) ::
      if Complete buf (pos, headerAt buf pos) then
        headers buf (pos + InotifyEvent.headerSize + (headerAt buf pos).len)
      else []
  else []
termination_by buf.length - pos
decreasing_by
  simp only [InotifyEvent.headerSize] at *
  omega

/-- The complete events before the first truncated one. -/
def completeEvents (buf : Buffer) (pos : ℕ) : List InotifyEvent :=
  ((headers buf pos).filter fun header => Complete buf header).map Prod.snd

/-- The walk can look at a header: it is aligned, and its size and `len` have a sum of 32 bits. -/
def Readable (header : ℕ × InotifyEvent) : Prop :=
  header.1 % 4 = 0 ∧ InotifyEvent.headerSize + header.2.len < 2 ^ 32

instance : DecidablePred Readable := fun _ => inferInstanceAs (Decidable (_ ∧ _))

variable {buf : Buffer} {pos i : ℕ}

/-- Less than a header is left. -/
theorem headers_of_short (h : ¬pos + InotifyEvent.headerSize ≤ buf.length) :
    headers buf pos = [] := by
  rw [headers, if_neg h]

/-- The event is truncated. -/
theorem headers_of_truncated (h : pos + InotifyEvent.headerSize ≤ buf.length)
    (hcut : ¬Complete buf (pos, headerAt buf pos)) :
    headers buf pos = [(pos, headerAt buf pos)] := by
  rw [headers, if_pos h, if_neg hcut]

/-- The event is complete. -/
theorem headers_of_complete (h : Complete buf (pos, headerAt buf pos)) :
    headers buf pos = (pos, headerAt buf pos) ::
      headers buf (pos + InotifyEvent.headerSize + (headerAt buf pos).len) := by
  have hheader : pos + InotifyEvent.headerSize ≤ buf.length := by
    unfold Complete at h
    omega
  rw [headers, if_pos hheader, if_pos h]

theorem completeEvents_of_short (h : ¬pos + InotifyEvent.headerSize ≤ buf.length) :
    completeEvents buf pos = [] := by
  simp [completeEvents, headers_of_short h]

theorem completeEvents_of_truncated (h : pos + InotifyEvent.headerSize ≤ buf.length)
    (hcut : ¬Complete buf (pos, headerAt buf pos)) : completeEvents buf pos = [] := by
  simp [completeEvents, headers_of_truncated h hcut, hcut]

theorem completeEvents_of_complete (h : Complete buf (pos, headerAt buf pos)) :
    completeEvents buf pos = headerAt buf pos ::
      completeEvents buf (pos + InotifyEvent.headerSize + (headerAt buf pos).len) := by
  simp [completeEvents, headers_of_complete h, h]

/-! ## One turn -/

theorem byteAt_eq (h : i < buf.length) : buf.byteAt i = .ok (buf.getD i 0).toNat := by
  simp [Buffer.byteAt, List.getElem?_eq_getElem h]

theorem readU32_eq (h : i + 4 ≤ buf.length) : buf.readU32 i = .ok (u32At buf i) := by
  rw [Buffer.readU32, byteAt_eq (by omega), byteAt_eq (by omega), byteAt_eq (by omega),
    byteAt_eq (by omega)]
  rfl

/-- A header within the bytes received is read, if it is aligned. -/
theorem read_eq (h : pos + InotifyEvent.headerSize ≤ buf.length) :
    InotifyEvent.read buf pos =
      if pos % 4 = 0 then .ok (headerAt buf pos) else .error .misaligned := by
  unfold InotifyEvent.headerSize at h
  unfold InotifyEvent.read
  by_cases haligned : pos % 4 = 0
  · rw [if_pos haligned, if_neg (not_not.2 haligned), readU32_eq (by omega), readU32_eq (by omega),
      readU32_eq (by omega), readU32_eq (by omega)]
    rfl
  · rw [if_neg haligned, if_pos haligned]

/-- What a turn does. -/
inductive TurnOf (script : WalkScript) (c : InotifyCursor) :
    InotifyCursor ⊕ InotifyCursor × Bool → Prop
  /-- there is nothing more to read -/
  | leave (failed : Bool) (hplace : c.place = none) (hreads : received c.reads = []) :
      TurnOf script c (.inr (c, failed))
  /-- a buffer is filled -/
  | fill {buf : Buffer} {reads : List InotifyRead} (hplace : c.place = none)
      (hread : c.reads = .bytes buf :: reads) (hreads : received c.reads = buf :: received reads) :
      TurnOf script c (.inl { c with reads := reads, place := some (buf, 0) })
  /-- no complete event is left in the buffer -/
  | leaveBuffer {buf : Buffer} {pos : ℕ} (hplace : c.place = some (buf, pos))
      (hevents : completeEvents buf pos = []) (hreadable : ∀ h ∈ headers buf pos, Readable h) :
      TurnOf script c (.inl { c with place := none })
  /-- an event is offered -/
  | event {buf : Buffer} {pos : ℕ} (name : List UInt8) (hplace : c.place = some (buf, pos))
      (hcomplete : Complete buf (pos, headerAt buf pos)) (hreadable : Readable (pos, headerAt buf pos))
      (hname : name = InotifyEvent.nameOf buf pos (headerAt buf pos).len) :
      TurnOf script c (.inl { c with
        self := (offerAll script (headerAt buf pos) name c.self c.called c.self.watchers).1
        called := (offerAll script (headerAt buf pos) name c.self c.called c.self.watchers).2.1
        log := c.log ++ [⟨headerAt buf pos, name, c.self.watchers,
          (offerAll script (headerAt buf pos) name c.self c.called c.self.watchers).2.2⟩]
        place := some (buf, pos + InotifyEvent.headerSize + (headerAt buf pos).len) })

/-- Between two buffers a turn reads, and can always be made. -/
theorem walkTurn_of_none (script : WalkScript) {c : InotifyCursor} (hplace : c.place = none) :
    ∃ x, walkTurn script c = .ok x ∧ TurnOf script c x := by
  unfold walkTurn
  rw [hplace]
  dsimp only
  split
  · rename_i hreads
    exact ⟨_, rfl, .leave false hplace (by rw [hreads]; rfl)⟩
  · rename_i hreads
    exact ⟨_, rfl, .leave false hplace (by rw [hreads]; rfl)⟩
  · rename_i hreads
    exact ⟨_, rfl, .leave true hplace (by rw [hreads]; rfl)⟩
  · rename_i buf reads hreads
    split
    · rename_i hempty
      exact ⟨_, rfl, .leave false hplace (by rw [hreads, received, if_pos hempty])⟩
    · rename_i hempty
      exact ⟨_, rfl, .fill hplace hreads (by rw [hreads, received, if_neg hempty])⟩

/-- Where no header is left, a turn leaves the buffer. -/
theorem walkTurn_of_short (script : WalkScript) {c : InotifyCursor} (hplace : c.place = some (buf, pos))
    (hshort : ¬pos + InotifyEvent.headerSize ≤ buf.length) :
    ∃ x, walkTurn script c = .ok x ∧ TurnOf script c x := by
  refine ⟨_, ?_, .leaveBuffer hplace (completeEvents_of_short hshort)
    (by rw [headers_of_short hshort]; nofun)⟩
  unfold walkTurn
  rw [hplace]
  dsimp only
  split
  · have hleft : buf.length - pos < InotifyEvent.headerSize := by omega
    rw [if_pos hleft]
    rfl
  · rfl

/-- A turn that looks at a header: it is offered, or the event is truncated. -/
theorem walkTurn_of_header (script : WalkScript) {c : InotifyCursor} (hplace : c.place = some (buf, pos))
    (hheader : pos + InotifyEvent.headerSize ≤ buf.length) :
    (∃ fault, walkTurn script c = .error fault ∧ ¬Readable (pos, headerAt buf pos)) ∨
      ∃ x, walkTurn script c = .ok x ∧ TurnOf script c x := by
  have hlt : pos < buf.length := by
    unfold InotifyEvent.headerSize at hheader
    omega
  have hlong : ¬buf.length - pos < InotifyEvent.headerSize := by omega
  unfold walkTurn
  rw [hplace]
  dsimp only
  rw [if_pos hlt, if_neg hlong, read_eq hheader]
  by_cases haligned : pos % 4 = 0
  swap
  · rw [if_neg haligned]
    exact .inl ⟨_, rfl, fun h => haligned h.1⟩
  rw [if_pos haligned]
  by_cases hlen : InotifyEvent.headerSize + (headerAt buf pos).len < 2 ^ 32
  swap
  · refine .inl ⟨.overflow, ?_, fun h => hlen h.2⟩
    have htotal : (headerAt buf pos).total = .error .overflow := if_neg hlen
    simp only [bind, Except.bind, htotal]
  have htotal : (headerAt buf pos).total = .ok (InotifyEvent.headerSize + (headerAt buf pos).len) :=
    if_pos hlen
  right
  by_cases hcomplete : Complete buf (pos, headerAt buf pos)
  · refine ⟨_, ?_, .event _ hplace hcomplete ⟨haligned, hlen⟩ rfl⟩
    have hfit : ¬InotifyEvent.headerSize + (headerAt buf pos).len > buf.length - pos := by
      have hle : pos + InotifyEvent.headerSize + (headerAt buf pos).len ≤ buf.length := hcomplete
      omega
    have hname : InotifyEvent.nameAt buf pos (headerAt buf pos).len =
        .ok (InotifyEvent.nameOf buf pos (headerAt buf pos).len) := if_pos hcomplete
    simp only [bind, Except.bind, htotal, if_neg hfit, hname, Nat.add_assoc]
    rfl
  · refine ⟨_, ?_, .leaveBuffer hplace (completeEvents_of_truncated hheader hcomplete) ?_⟩
    · have hcut : InotifyEvent.headerSize + (headerAt buf pos).len > buf.length - pos := by
        have hlt : ¬pos + InotifyEvent.headerSize + (headerAt buf pos).len ≤ buf.length := hcomplete
        omega
      simp only [bind, Except.bind, htotal, if_pos hcut]
      rfl
    · rw [headers_of_truncated hheader hcomplete]
      rintro h hh
      rw [List.mem_singleton.1 hh]
      exact ⟨haligned, hlen⟩

/-- A turn cannot be made only if the header it looks at cannot be. -/
theorem walkTurn_cases (script : WalkScript) (c : InotifyCursor) :
    (∃ fault buf pos, walkTurn script c = .error fault ∧ c.place = some (buf, pos) ∧
        ∃ h ∈ headers buf pos, ¬Readable h) ∨
      ∃ x, walkTurn script c = .ok x ∧ TurnOf script c x := by
  cases hplace : c.place with
  | none => exact .inr (walkTurn_of_none script hplace)
  | some place =>
    obtain ⟨buf, pos⟩ := place
    by_cases hheader : pos + InotifyEvent.headerSize ≤ buf.length
    · refine (walkTurn_of_header script hplace hheader).imp_left ?_
      rintro ⟨fault, hfault, hnot⟩
      have hmem : (pos, headerAt buf pos) ∈ headers buf pos := by
        rw [headers, if_pos hheader]
        exact List.mem_cons_self
      exact ⟨fault, buf, pos, hfault, rfl, _, hmem, hnot⟩
    · exact .inr (walkTurn_of_short script hplace hheader)

/-! ## The watchers during the walk -/

/-- While the walk goes on the fd stays open, and at most one wait is queued; `armed` is how many had
been queued before it. -/
structure Walking (armed : ℕ) (fs : FSWatcher) : Prop where
  distinct : fs.Distinct
  opened : fs.inotifyFd.isSome
  once : fs.armed = armed + if fs.inotifyTaskId.isSome then 1 else 0

/-- The wait and the fd are as before. -/
structure SameWait (fs fs' : FSWatcher) : Prop where
  inotifyFd : fs'.inotifyFd = fs.inotifyFd
  inotifyTaskId : fs'.inotifyTaskId = fs.inotifyTaskId
  armed : fs'.armed = fs.armed

variable {self self' : FSWatcher} {armed : ℕ} {script : WalkScript} {event : InotifyEvent}
  {c c' : InotifyCursor}

theorem Walking.of_same (h : Walking armed self) (hsame : SameWait self self')
    (hdistinct : self'.Distinct) :
    Walking armed self' where
  distinct := hdistinct
  opened := by rw [hsame.inotifyFd]; exact h.opened
  once := by rw [hsame.armed, hsame.inotifyTaskId]; exact h.once

theorem SameWait.release (h : SameWait self self') (wd : ℕ) : SameWait self (self'.release wd) := by
  unfold FSWatcher.release
  split
  · exact h
  · exact ⟨h.inotifyFd, h.inotifyTaskId, h.armed⟩

theorem SameWait.register (h : SameWait self self') (wd : ℕ) (mask : BitVec 32) (callback : ℕ)
    (env : AddEnv) : SameWait self (self'.register wd mask callback env).2 := by
  unfold FSWatcher.register
  cases env.create with
  | none => exact h.release wd
  | some wish =>
    cases env.append with
    | true => exact ⟨h.inotifyFd, h.inotifyTaskId, h.armed⟩
    | false =>
      have hcreated : SameWait self { self' with created := self'.created + 1 } :=
        ⟨h.inotifyFd, h.inotifyTaskId, h.armed⟩
      exact hcreated.release wd

/-- A callback may queue the wait, and then nobody queues another. -/
theorem Walking.call (h : Walking armed self) (call : WatchCall) : Walking armed (self.call call) := by
  cases call with
  | remove wd callback =>
    refine h.of_same ?_ (h.distinct.removeWatch wd callback)
    show SameWait self (self.removeWatch wd callback)
    obtain ⟨-, hv⟩ | ⟨watchers, -, -, -, -, hv⟩ := self.removeWatch_cases wd callback
    · rw [hv]
      exact ⟨rfl, rfl, rfl⟩
    · have htaken : SameWait self { self with watchers := watchers } := ⟨rfl, rfl, rfl⟩
      rw [hv]
      exact htaken.release wd
  | add mask callback id inode wd address =>
    have hdistinct := h.distinct.addWatch mask callback ⟨none, some id, inode, wd, some address, true⟩
    obtain ⟨fd, hfd⟩ := Option.isSome_iff_exists.1 h.opened
    -- the wait is there or is queued now
    have hopened : ∃ opened, self.ensureInotify ⟨none, some id, inode, wd, some address, true⟩ =
        .ok opened ∧ opened.inotifyFd.isSome ∧
        opened.armed = armed + if opened.inotifyTaskId.isSome then 1 else 0 := by
      unfold ensureInotify
      rw [hfd]
      dsimp only
      unfold startInotifyRead
      have honce := h.once
      split
      · exact ⟨self, rfl, h.opened, honce⟩
      · rename_i hnone
        rw [if_neg hnone] at honce
        exact ⟨_, rfl, h.opened, by simp [honce]⟩
    obtain ⟨opened, hok, hfd', honce'⟩ := hopened
    have hsame : SameWait opened
        (self.addWatch mask callback ⟨none, some id, inode, wd, some address, true⟩).2 := by
      unfold addWatch
      rw [hok]
      dsimp only
      split
      · exact ⟨rfl, rfl, rfl⟩
      · rename_i wd kernel hanswer
        have hasked : SameWait opened { opened with kernel := kernel } := ⟨rfl, rfl, rfl⟩
        exact hasked.register wd mask callback _
    refine ⟨hdistinct, ?_, ?_⟩
    · show (self.addWatch mask callback ⟨none, some id, inode, wd, some address, true⟩).2.inotifyFd.isSome
      rw [hsame.inotifyFd]
      exact hfd'
    · show (self.addWatch mask callback ⟨none, some id, inode, wd, some address, true⟩).2.armed =
        armed + if (self.addWatch mask callback
          ⟨none, some id, inode, wd, some address, true⟩).2.inotifyTaskId.isSome then 1 else 0
      rw [hsame.armed, hsame.inotifyTaskId]
      exact honce'

theorem Walking.calls (h : Walking armed self) (calls : List WatchCall) :
    Walking armed (calls.foldl FSWatcher.call self) := by
  induction calls generalizing self with
  | nil => exact h
  | cons call calls ih => exact ih (h.call call)

end FSWatcher

/-- A turn of the loop over `pending` looks the address up in the list and offers the event to the
watcher that lies there, if it wants it. -/
structure OfferTurn.Sound (event : InotifyEvent) (t : OfferTurn) : Prop where
  addresses : (t.registered.map (·.address)).Nodup
  offered : t.offered = (t.registered.find? fun live => live.address = t.target.address).filter
    fun w => w.Wants event

namespace FSWatcher

variable {self self' : FSWatcher} {armed : ℕ} {script : WalkScript} {event : InotifyEvent}

/-- Where the name cannot be decoded, nobody is offered the event. -/
theorem offerAll_of_not_utf8 (script : WalkScript) (event : InotifyEvent) {name : List UInt8}
    (hname : InotifyEvent.isUtf8 name = false) (self : FSWatcher) (called : ℕ) (pending : List Watcher) :
    offerAll script event name self called pending =
      (self, called, pending.map fun target => ⟨target, self.watchers, none⟩) := by
  induction pending with
  | nil => rfl
  | cons target pending ih =>
    have hoffer : offer script event name self called target = (self, called, ⟨target, self.watchers, none⟩) := by
      unfold offer
      split
      · rfl
      · rw [if_neg (by simp [hname])]
    simp only [offerAll, hoffer, ih, List.map_cons]

theorem offer_sound (script : WalkScript) (event : InotifyEvent) {name : List UInt8}
    (hname : InotifyEvent.isUtf8 name = true) (h : Walking armed self) (called : ℕ) (target : Watcher) :
    Walking armed (offer script event name self called target).1 ∧
      (offer script event name self called target).2.2.target = target ∧
      (offer script event name self called target).2.2.Sound event := by
  unfold offer
  cases hfind : self.watchers.find? fun live => live.address = target.address with
  | none => exact ⟨h, rfl, h.distinct.addresses, by rw [hfind]; rfl⟩
  | some watcher =>
    dsimp only
    split
    · rename_i hwants
      exact ⟨h.calls _, rfl, h.distinct.addresses, by simp [hfind, Option.filter, hwants.1]⟩
    · rename_i hwants
      have hnot : ¬watcher.Wants event := fun hw => hwants ⟨hw, hname⟩
      exact ⟨h, rfl, h.distinct.addresses, by simp [hfind, Option.filter, hnot]⟩

theorem offerAll_sound (script : WalkScript) (event : InotifyEvent) {name : List UInt8}
    (hname : InotifyEvent.isUtf8 name = true) (h : Walking armed self) (called : ℕ) (pending : List Watcher) :
    Walking armed (offerAll script event name self called pending).1 ∧
      (offerAll script event name self called pending).2.2.map (·.target) = pending ∧
      ∀ t ∈ (offerAll script event name self called pending).2.2, t.Sound event := by
  induction pending generalizing self called with
  | nil => exact ⟨h, rfl, nofun⟩
  | cons target pending ih =>
    obtain ⟨hself, htarget, hsound⟩ := offer_sound script event hname h called target
    obtain ⟨hrest, htargets, hsounds⟩ := ih hself (offer script event name self called target).2.1
    refine ⟨hrest, ?_, ?_⟩
    · simp only [offerAll, List.map_cons, htarget, htargets]
    · intro t ht
      obtain rfl | ht := List.mem_cons.1 ht
      · exact hsound
      · exact hsounds t ht

end FSWatcher

namespace OfferTurn

variable {event : InotifyEvent} {t : OfferTurn} {turns : List OfferTurn} {w : Watcher}

/-- Whoever is offered the event is registered, wants it and lies at the address of the turn. -/
theorem Sound.of_offered (h : t.Sound event) (hw : t.offered = some w) :
    w ∈ t.registered ∧ w.address = t.target.address ∧ w.Wants event := by
  rw [h.offered, Option.filter_eq_some_iff] at hw
  obtain ⟨hfind, hwants⟩ := hw
  exact ⟨List.mem_of_find?_eq_some hfind, by simpa using List.find?_some hfind, by simpa using hwants⟩

/-- The watcher of the snapshot is offered the event exactly if it is still registered and wants it. -/
theorem Sound.offered_target_iff (h : t.Sound event) :
    t.offered = some t.target ↔ t.target ∈ t.registered ∧ t.target.Wants event := by
  constructor
  · intro hw
    obtain ⟨hmem, -, hwants⟩ := h.of_offered hw
    exact ⟨hmem, hwants⟩
  · rintro ⟨hmem, hwants⟩
    have hfind : (t.registered.find? fun live => live.address = t.target.address) =
        some t.target := by
      cases hlook : t.registered.find? fun live => live.address = t.target.address with
      | none => simpa using List.find?_eq_none.1 hlook t.target hmem
      | some live =>
        have haddress : live.address = t.target.address := by simpa using List.find?_some hlook
        exact congrArg some (List.inj_on_of_nodup_map h.addresses (List.mem_of_find?_eq_some hlook)
          hmem haddress)
    rw [h.offered, hfind]
    simp [hwants]

/-- Among turns for different addresses a watcher is offered the event in its own turn only. -/
theorem count_offers (hsound : ∀ t ∈ turns, t.Sound event)
    (hnodup : (turns.map fun t => t.target.address).Nodup) (ht : t ∈ turns) :
    (turns.filterMap (·.offered)).count t.target =
      if t.target ∈ t.registered ∧ t.target.Wants event then 1 else 0 := by
  have hother : ∀ t' : OfferTurn, t'.Sound event → t'.target.address ≠ t.target.address →
      t'.offered ≠ some t.target := fun t' ht' hne hoffered =>
    hne (ht'.of_offered hoffered).2.1.symm
  induction turns with
  | nil => exact nomatch ht
  | cons head turns ih =>
    rw [List.map_cons, List.nodup_cons] at hnodup
    have hcons : (List.filterMap (·.offered) (head :: turns)).count t.target =
        (if head.offered = some t.target then 1 else 0) +
          (turns.filterMap (·.offered)).count t.target := by
      cases hhead : head.offered with
      | none => simp [hhead]
      | some w =>
        simp only [List.filterMap_cons, hhead, List.count_cons, beq_iff_eq, Option.some.injEq]
        omega
    rw [hcons]
    obtain rfl | ht := List.mem_cons.1 ht
    · have hzero : (turns.filterMap (·.offered)).count t.target = 0 := by
        refine List.count_eq_zero.2 fun hmem => ?_
        obtain ⟨t', ht', hoffered⟩ := List.mem_filterMap.1 hmem
        refine hother t' (hsound t' (List.mem_cons_of_mem _ ht')) (fun haddress => ?_) hoffered
        exact hnodup.1 (List.mem_map.2 ⟨t', ht', haddress⟩)
      have hiff := (hsound t List.mem_cons_self).offered_target_iff
      simp only [hzero, hiff]
      rfl
    · have hne : head.offered ≠ some t.target := by
        refine hother head (hsound head List.mem_cons_self) fun haddress => ?_
        exact hnodup.1 (List.mem_map.2 ⟨t, ht, haddress.symm⟩)
      rw [if_neg hne, zero_add]
      exact ih (fun t' ht' => hsound t' (List.mem_cons_of_mem _ ht')) hnodup.2 ht

end OfferTurn

/-- The watchers registered when the event was reached have a turn each, and every turn is sound. -/
structure EventVisit.Sound (v : EventVisit) : Prop where
  addresses : (v.snapshot.map (·.address)).Nodup
  targets : v.turns.map (·.target) = v.snapshot
  turns : ∀ t ∈ v.turns, t.Sound v.event

/-- Each watcher of the snapshot is offered the event once if it is still registered at its turn and
wants it, and otherwise not at all. -/
theorem EventVisit.Sound.count_offers {v : EventVisit} (h : v.Sound) {t : OfferTurn}
    (ht : t ∈ v.turns) : v.offers.count t.target =
      if t.target ∈ t.registered ∧ t.target.Wants v.event then 1 else 0 := by
  refine OfferTurn.count_offers h.turns ?_ ht
  have hmap : (v.turns.map fun t => t.target.address) = v.snapshot.map (·.address) := by
    rw [← h.targets, List.map_map]
    rfl
  rw [hmap]
  exact h.addresses

namespace InotifyCursor

open FSWatcher

/-- The complete events that are still to be reached. -/
def todo (c : InotifyCursor) : List InotifyEvent :=
  (match c.place with
    | none => []
    | some (buf, pos) => completeEvents buf pos) ++
    (received c.reads).flatMap fun buf => completeEvents buf 0

/-- The headers that are left in the buffer. -/
def ahead : Option (Buffer × ℕ) → List (ℕ × InotifyEvent)
  | none => []
  | some (buf, pos) => headers buf pos

/-- The walk can look at every header that is still to be reached. -/
def Clear (c : InotifyCursor) : Prop :=
  (∀ h ∈ ahead c.place, Readable h) ∧ ∀ buf ∈ received c.reads, ∀ h ∈ headers buf 0, Readable h

/-- How much a read brings. -/
def readSize : InotifyRead → ℕ
  | .bytes buf => buf.length + 2
  | _ => 0

/-- The bytes that are still to be passed, and the reads. -/
def measure (c : InotifyCursor) : ℕ :=
  (c.reads.map readSize).sum + match c.place with
    | none => 0
    | some (buf, pos) => buf.length - pos + 1

variable {armed : ℕ} {events : List InotifyEvent} {script : WalkScript} {c c' : InotifyCursor}
  {failed : Bool}

/-- The invariant of the loops, for the events of all buffers and the waits queued before. -/
structure Sound (armed : ℕ) (events : List InotifyEvent) (c : InotifyCursor) : Prop where
  walking : Walking armed c.self
  visits : ∀ v ∈ c.log, v.Sound
  events : c.log.map (·.event) ++ c.todo = events

/-- The name of an event that is reached and that somebody wants can be decoded. -/
def Named (c : InotifyCursor) : Prop :=
  ∀ buf pos, c.place = some (buf, pos) → Complete buf (pos, headerAt buf pos) →
    (∃ w ∈ c.self.watchers, w.Wants (headerAt buf pos)) →
      InotifyEvent.isUtf8 (InotifyEvent.nameOf buf pos (headerAt buf pos).len) = true

theorem Sound.turn (h : c.Sound armed events) (hnamed : c.Named) (hturn : TurnOf script c (.inl c')) :
    c'.Sound armed events := by
  have hevents := h.events
  unfold todo at hevents
  cases hturn with
  | fill hplace hread hreads =>
    refine ⟨h.walking, h.visits, ?_⟩
    rw [hplace, hreads] at hevents
    simpa [todo] using hevents
  | leaveBuffer hplace hdone hreadable =>
    refine ⟨h.walking, h.visits, ?_⟩
    rw [hplace] at hevents
    simpa [todo, hdone] using hevents
  | @event buf pos name hplace hcomplete hreadable hname =>
    obtain ⟨hself, htargets, hturns⟩ :
        Walking armed (offerAll script (headerAt buf pos) name c.self c.called c.self.watchers).1 ∧
          (offerAll script (headerAt buf pos) name c.self c.called c.self.watchers).2.2.map (·.target) =
            c.self.watchers ∧
          ∀ t ∈ (offerAll script (headerAt buf pos) name c.self c.called c.self.watchers).2.2,
            t.Sound (headerAt buf pos) := by
      cases hutf8 : InotifyEvent.isUtf8 name with
      | true => exact offerAll_sound script (headerAt buf pos) hutf8 h.walking c.called c.self.watchers
      | false =>
        -- nobody wants the event
        rw [offerAll_of_not_utf8 script (headerAt buf pos) hutf8]
        refine ⟨h.walking, by simp [Function.comp_def], fun t ht => ?_⟩
        obtain ⟨target, -, rfl⟩ := List.mem_map.1 ht
        refine ⟨h.walking.distinct.addresses, ?_⟩
        have hnone : ∀ w ∈ c.self.watchers, ¬w.Wants (headerAt buf pos) := fun w hw hwants =>
          Bool.false_ne_true (hutf8.symm.trans (hname ▸ hnamed buf pos hplace hcomplete ⟨w, hw, hwants⟩))
        symm
        rw [Option.filter_eq_none_iff]
        intro w hw
        simpa using hnone w (List.mem_of_find?_eq_some hw)
    refine ⟨hself, fun v hv => ?_, ?_⟩
    · obtain hv | hv := List.mem_append.1 hv
      · exact h.visits v hv
      · rw [List.mem_singleton.1 hv]
        exact ⟨h.walking.distinct.addresses, htargets, hturns⟩
    · rw [hplace] at hevents
      simpa [todo, completeEvents_of_complete hcomplete] using hevents

/-- What has been logged stays. -/
theorem mem_log_turn (hturn : TurnOf script c (.inl c')) {v : EventVisit} (hv : v ∈ c.log) : v ∈ c'.log := by
  cases hturn with
  | fill _ _ _ | leaveBuffer _ _ _ => exact hv
  | event _ _ _ _ _ => exact List.mem_append_left _ hv

/-- An event whose name cannot be decoded is kept from those that want it. -/
theorem unnamed_turn (hnamed : ¬c.Named) (hturn : TurnOf script c (.inl c')) :
    ∃ v ∈ c'.log, ∃ t ∈ v.turns, v.offers.count t.target = 0 ∧ t.target ∈ t.registered ∧ t.target.Wants v.event := by
  have hbad := hnamed
  simp only [Named, not_forall, Bool.not_eq_true] at hbad
  obtain ⟨buf, pos, hplace, hcomplete, ⟨w, hw, hwants⟩, hutf8⟩ := hbad
  cases hturn with
  | fill hnone _ _ => cases hplace.symm.trans hnone
  | leaveBuffer hplace' hevents _ =>
    obtain ⟨rfl, rfl⟩ := Prod.mk.inj (Option.some.inj (hplace.symm.trans hplace'))
    rw [completeEvents_of_complete hcomplete] at hevents
    cases hevents
  | event name hplace' _ _ hname =>
    obtain ⟨rfl, rfl⟩ := Prod.mk.inj (Option.some.inj (hplace.symm.trans hplace'))
    subst hname
    refine ⟨_, List.mem_append_right _ (List.mem_singleton_self _), ⟨w, c.self.watchers, none⟩, ?_, ?_, hw, hwants⟩
    · rw [offerAll_of_not_utf8 script _ hutf8]
      exact List.mem_map.2 ⟨w, hw, rfl⟩
    · simp [EventVisit.offers, offerAll_of_not_utf8 script _ hutf8, List.filterMap_map]

/-- A turn looks at a header it can look at, and passes it. -/
theorem clear_iff_turn (hturn : TurnOf script c (.inl c')) : c.Clear ↔ c'.Clear := by
  unfold Clear
  cases hturn with
  | fill hplace hread hreads =>
    rw [hplace, hreads]
    simp [ahead]
  | leaveBuffer hplace hdone hreadable =>
    rw [hplace]
    simpa [ahead] using fun _ => hreadable
  | event name hplace hcomplete hreadable hname =>
    rw [hplace]
    simp only [ahead, headers_of_complete hcomplete, List.forall_mem_cons, hreadable, true_and]

theorem measure_turn (hturn : TurnOf script c (.inl c')) : c'.measure < c.measure := by
  unfold measure
  cases hturn with
  | fill hplace hread hreads =>
    simp only [hplace, hread, List.map_cons, List.sum_cons, readSize]
    omega
  | leaveBuffer hplace hdone hreadable =>
    simp only [hplace]
    omega
  | event name hplace hcomplete hreadable hname =>
    unfold Complete InotifyEvent.headerSize at hcomplete
    simp only [hplace, InotifyEvent.headerSize]
    dsimp only at hcomplete
    omega

/-- The loops are left when everything has been read. -/
theorem done_of_leave (hturn : TurnOf script c (.inr (c', failed))) :
    c' = c ∧ c.todo = [] ∧ c.Clear := by
  cases hturn with
  | leave failed hplace hreads => simp [todo, Clear, ahead, hplace, hreads]

/-- A turn that cannot be made looks at a header it must not look at. -/
theorem turn_of_clear (script : WalkScript) (h : c.Clear) :
    ∃ x, walkTurn script c = .ok x ∧ TurnOf script c x := by
  obtain ⟨fault, buf, pos, -, hplace, header, hmem, hbad⟩ | hturn := walkTurn_cases script c
  · have hahead : header ∈ ahead c.place := by rw [hplace]; exact hmem
    exact absurd (h.1 header hahead) hbad
  · exact hturn

theorem turnOf_of_turn {x : InotifyCursor ⊕ InotifyCursor × Bool}
    (h : walkTurn script c = .ok x) : TurnOf script c x := by
  obtain ⟨fault, -, -, herror, -⟩ | ⟨x', hx', hturn⟩ := walkTurn_cases script c
  · exact nomatch h.symm.trans herror
  · obtain rfl := Except.ok.inj (h.symm.trans hx')
    exact hturn

end InotifyCursor

namespace FSWatcher

variable {self : FSWatcher} {script : WalkScript} {c : InotifyCursor} {n : ℕ} {failed : Bool}

/-- What the walk has done when its loops are left. The deferred block runs then. -/
structure Delivered (script : WalkScript) (fs : FSWatcher) (c : InotifyCursor) : Prop where
  /-- the complete events of each buffer before its first truncated one were reached, in their order -/
  events : c.log.map (·.event) = (received script.reads).flatMap fun buf => completeEvents buf 0
  /-- every watcher registered when an event was reached had its turn -/
  targets : ∀ v ∈ c.log, v.turns.map (·.target) = v.snapshot
  /-- it was offered the event once if it was still registered then and wanted it -/
  once : ∀ v ∈ c.log, ∀ t ∈ v.turns, v.offers.count t.target =
    if t.target ∈ t.registered ∧ t.target.Wants v.event then 1 else 0
  /-- nobody was offered an event who was not registered -/
  registered : ∀ v ∈ c.log, ∀ t ∈ v.turns, ∀ w, t.offered = some w → w ∈ t.registered
  /-- one wait is queued if there is a watcher left and the fd is open -/
  armed : (c.self.rearm (some script.rearm)).watchers ≠ [] →
    (c.self.rearm (some script.rearm)).inotifyFd.isSome →
    (c.self.rearm (some script.rearm)).armed = fs.armed + 1

/-- The loops of `on_inotify_event` are left, and every event has been delivered. -/
def Handles (script : WalkScript) (self : FSWatcher) : Prop :=
  ∃ n c failed, Loops.Ends (walkTurn script) n (walkStart script self) (c, failed) ∧
    Delivered script self c

/-- At the end one wait is queued, by a callback or by the deferred block. -/
theorem Walking.rearm {armed : ℕ} (h : Walking armed self) (id : ℕ) (hne : self.watchers ≠ []) :
    (self.rearm (some id)).armed = armed + 1 := by
  have honce := h.once
  have hlength := List.length_pos_iff.2 hne
  unfold FSWatcher.rearm
  cases htask : self.inotifyTaskId with
  | none =>
    rw [if_pos ⟨h.opened, rfl, hlength⟩]
    simp [honce, htask]
  | some id =>
    rw [if_neg (fun hopen => nomatch hopen.2.1)]
    simp [honce, htask]

theorem delivered_of_sound (h : c.Sound self.armed
      ((received script.reads).flatMap fun buf => completeEvents buf 0)) (hdone : c.todo = []) :
    Delivered script self c where
  events := by
    have hevents := h.events
    rwa [hdone, List.append_nil] at hevents
  targets := fun v hv => (h.visits v hv).targets
  once := fun v hv t ht => (h.visits v hv).count_offers ht
  registered := fun v hv t ht w hw => (((h.visits v hv).turns t ht).of_offered hw).1
  armed := fun hne _ => by
    rw [(c.self.rearm_same _).watchers] at hne
    exact h.walking.rearm script.rearm hne

/-- The wait that is complete was armed, so the fd is open when the walk begins. -/
theorem sound_start (hdistinct : self.Distinct) (hwait : self.inotifyTaskId.isSome) :
    (walkStart script self).Sound self.armed
      ((received script.reads).flatMap fun buf => completeEvents buf 0) where
  walking := ⟨hdistinct.of_same self.dropTaskId_same, hdistinct.opened hwait, rfl⟩
  visits := nofun
  events := rfl

theorem distinct_of_exec {acts : List Act} (h : Runs.exec step init acts = some self) : self.Distinct :=
  Runs.Always.last (Runs.always_of_step distinct_init fun _ _ _ hdistinct hs => hdistinct.step hs) h

/-- **The walk over the buffer.** When the wait of a watcher list that any calls have led to is
complete, `on_inotify_event` delivers every event, whatever the callbacks do, exactly if every header it
gets to is aligned and has a `len` that can be added to the size of the header, and the name of every event
that a registered watcher wants when it is reached can be decoded. -/
theorem on_inotify_event_iff {acts : List Act} (hacts : Runs.exec step init acts = some self)
    (hwait : self.inotifyTaskId.isSome) (script : WalkScript) :
    Handles script self ↔ (∀ buf ∈ received script.reads, ∀ h ∈ headers buf 0, Readable h) ∧
      ∀ m u, Loops.Turns (walkTurn script) m (walkStart script self) u → u.Named := by
  constructor
  · rintro ⟨n, c, failed, ⟨t, hturns, hlast⟩, hdelivered⟩
    have hleave := InotifyCursor.done_of_leave (InotifyCursor.turnOf_of_turn hlast)
    have hclear := hleave.2.2
    -- a header that must not be looked at stays ahead of the walk
    have hstart : (walkStart script self).Clear := by
      by_contra hbad
      exact hturns.invariant (I := fun c => ¬c.Clear) hbad (fun u v hu hturn hv =>
        hu ((InotifyCursor.clear_iff_turn (InotifyCursor.turnOf_of_turn hturn)).2 hv)) hclear
    refine ⟨hstart.2, fun m u hu => by_contra fun hbad => ?_⟩
    -- the event lies on the way to the end, and nobody gets it behind the turn that passes it
    obtain ⟨k, hrest⟩ := hturns.rest hlast hu
    cases hrest with
    | refl =>
      refine hbad fun buf pos hplace _ _ => ?_
      cases InotifyCursor.turnOf_of_turn hlast with
      | leave _ hnone _ => cases hplace.symm.trans hnone
    | next hnext hrest =>
      obtain ⟨v, hv, turn, hturn, hzero, hwanted⟩ :=
        InotifyCursor.unnamed_turn hbad (InotifyCursor.turnOf_of_turn hnext)
      have hlog : v ∈ t.log := hrest.invariant (I := fun c => v ∈ c.log) hv fun u₁ u₂ hu₁ h₁₂ =>
        InotifyCursor.mem_log_turn (InotifyCursor.turnOf_of_turn h₁₂) hu₁
      have honce := hdelivered.once v (hleave.1 ▸ hlog) turn hturn
      rw [hzero, if_pos hwanted] at honce
      cases honce
  · rintro ⟨hreadable, hnamed⟩
    have hstart : (walkStart script self).Clear := ⟨nofun, hreadable⟩
    obtain ⟨n, -, ⟨c, failed⟩, t, hturns, hlast⟩ :=
      Loops.ends_of_measure InotifyCursor.measure hstart fun u hu => by
        obtain ⟨x, hx, hturn⟩ := InotifyCursor.turn_of_clear script hu
        refine ⟨x, hx, ?_⟩
        rintro v rfl
        exact ⟨(InotifyCursor.clear_iff_turn hturn).1 hu, InotifyCursor.measure_turn hturn⟩
    obtain ⟨hsound, -⟩ := hturns.invariant (I := fun u => u.Sound self.armed
        ((received script.reads).flatMap fun buf => completeEvents buf 0) ∧
          ∃ m, Loops.Turns (walkTurn script) m (walkStart script self) u)
      ⟨sound_start (distinct_of_exec hacts) hwait, 0, .refl _⟩ (by
        rintro u v ⟨hu, m, hm⟩ hturn
        exact ⟨hu.turn (hnamed m u hm) (InotifyCursor.turnOf_of_turn hturn), m + 1, hm.snoc hturn⟩)
    obtain ⟨rfl, hdone, -⟩ := InotifyCursor.done_of_leave (InotifyCursor.turnOf_of_turn hlast)
    exact ⟨n, c, failed, ⟨c, hturns, hlast⟩, delivered_of_sound hsound hdone⟩

/-- One watcher of `IN_CREATE`. -/
def watched : FSWatcher := (init.addWatch 0x100 1 ⟨some 5, some 7, some 3, 1, some 100, true⟩).2

/-- The header of an event of `IN_CREATE` whose `len` is that. -/
def createHeader (b₀ b₁ b₂ b₃ : UInt8) : Buffer :=
  [1, 0, 0, 0, 0, 1, 0, 0, 0, 0, 0, 0, b₀, b₁, b₂, b₃]

/-- An event without a name whose callback takes the watcher off the list. -/
theorem on_inotify_event_removes :
    Handles ⟨[.bytes (createHeader 0 0 0 0)], fun _ => [.remove 1 1], 8⟩ watched := by
  have hreached : Runs.exec step init [.add 0x100 1 ⟨some 5, some 7, some 3, 1, some 100, true⟩] =
      some watched := rfl
  refine (on_inotify_event_iff hreached rfl _).2 ⟨?_, fun m u hu buf pos hplace hcomplete _ => ?_⟩
  · intro buf hbuf
    obtain rfl := List.mem_singleton.1 hbuf
    have hcomplete : Complete (createHeader 0 0 0 0) (0, headerAt (createHeader 0 0 0 0) 0) := by
      decide
    rw [headers_of_complete hcomplete, headers_of_short (by decide)]
    intro h hh
    rw [List.mem_singleton.1 hh]
    decide
  · -- only the header fits into a buffer of 16 bytes
    have hsize : (∀ buf ∈ received u.reads, buf.length = 16) ∧ ∀ buf pos, u.place = some (buf, pos) → buf.length = 16 :=
      hu.invariant (I := fun u => (∀ buf ∈ received u.reads, buf.length = 16) ∧
          ∀ buf pos, u.place = some (buf, pos) → buf.length = 16)
        ⟨by simp [walkStart, received, createHeader], by simp [walkStart]⟩ fun v v' hv hturn => by
          cases InotifyCursor.turnOf_of_turn hturn with
          | fill _ hread hreads =>
            rw [hreads] at hv
            refine ⟨fun buf hbuf => hv.1 buf (List.mem_cons_of_mem _ hbuf), fun buf pos hplace => ?_⟩
            obtain ⟨rfl, -⟩ := Prod.mk.inj (Option.some.inj hplace)
            exact hv.1 _ List.mem_cons_self
          | leaveBuffer _ _ _ => exact ⟨hv.1, by simp⟩
          | event _ hplace _ _ _ =>
            refine ⟨hv.1, fun buf pos hnext => ?_⟩
            obtain ⟨rfl, -⟩ := Prod.mk.inj (Option.some.inj hnext)
            exact hv.2 _ _ hplace
    have hlen : (headerAt buf pos).len = 0 := by
      have hlength := hsize.2 buf pos hplace
      simp only [Complete, InotifyEvent.headerSize] at hcomplete
      omega
    rw [hlen, InotifyEvent.nameOf, List.take_zero, List.takeWhile_nil]
    decide

/-- A `len` of 4294967280 bytes: the sum overflows. -/
theorem on_inotify_event_overflows :
    ¬∀ (acts : List Act) (self : FSWatcher), Runs.exec step init acts = some self →
      self.inotifyTaskId.isSome → ∀ script, Handles script self := by
  intro hall
  obtain ⟨n, c, failed, ⟨t, hturns, hlast⟩, -⟩ :=
    hall [.add 0x100 1 ⟨some 5, some 7, some 3, 1, some 100, true⟩] watched rfl rfl
      ⟨[.bytes (createHeader 0xf0 0xff 0xff 0xff)], fun _ => [], 8⟩
  cases hturns with
  | refl => exact nomatch hlast
  | next hfirst hturns =>
    obtain rfl := Sum.inl.inj (Except.ok.inj hfirst)
    cases hturns with
    | refl => exact nomatch hlast
    | next hsecond => exact nomatch hsecond

end FSWatcher

end Talyn
