import Talyn.Lib.Runs

/-!
# Path watchers

`FSWatcher` of `src/loop/fs_watcher.zig`: the list of registered watchers and the inotify instance
behind it. The kernel keeps one watch for each inode, so watchers of one path share a descriptor and
its mask; `add_watch` changes that mask before its own allocations and `remove_watch` looks through the
list to decide whether the kernel's watch goes.

What the surroundings answer (`inotify_init1`, the I/O queue, the inode a path leads to, the allocator)
is an argument of each call. The allocator and the kernel never hand out an address or a descriptor
that is in use (`unused`).
-/

namespace Talyn

/-- `IN_ALL_EVENTS`, the bits of a mask that select events. -/
def inAllEvents : BitVec 32 := 0x00000fff

/-- `IN_EXCL_UNLINK`: no events of children that are unlinked. -/
def inExclUnlink : BitVec 32 := 0x04000000

/-- `IN_ONESHOT`: the watch goes with the first event that is reported for it. -/
def inOneshot : BitVec 32 := 0x80000000

/-- `IN_MASK_CREATE`: only add a watch for an inode that has none. -/
def inMaskCreate : BitVec 32 := 0x10000000

/-- `IN_MASK_ADD`: add to the mask of a watch that exists. -/
def inMaskAdd : BitVec 32 := 0x20000000

/-- A mask has a flag. -/
def hasFlag (mask flag : BitVec 32) : Bool := mask &&& flag != 0

/-- What a watch keeps of a mask: the events it asks for, and two flags. -/
def eventsOf (mask : BitVec 32) : BitVec 32 := mask &&& (inAllEvents ||| inExclUnlink ||| inOneshot)

/-- What the caller wishes for if nobody uses it, and otherwise something nobody uses. -/
def unused (wish : ℕ) (used : List ℕ) : ℕ := if wish ∈ used then used.sum + 1 else wish

theorem unused_not_mem (wish : ℕ) (used : List ℕ) : unused wish used ∉ used := by
  unfold unused
  split
  · intro hmem
    have := List.single_le_sum (fun _ _ => Nat.zero_le _) _ hmem
    omega
  · assumption

/-- A watch of the inotify instance. -/
structure KernelWatch where
  inode : ℕ
  wd : ℕ
  mask : BitVec 32
  deriving DecidableEq, Repr

namespace KernelWatch

/-- The kernel's mask contains the mask. -/
def Covers (kw : KernelWatch) (mask : BitVec 32) : Prop := eventsOf mask ||| kw.mask = kw.mask

instance (kw : KernelWatch) (mask : BitVec 32) : Decidable (kw.Covers mask) :=
  inferInstanceAs (Decidable (_ = _))

/-- What another `inotify_add_watch` makes of a watch. -/
def setMask (kw : KernelWatch) (mask : BitVec 32) : KernelWatch :=
  { kw with mask := if hasFlag mask inMaskAdd then kw.mask ||| eventsOf mask else eventsOf mask }

variable (kw : KernelWatch) (mask : BitVec 32)

@[simp] theorem setMask_inode : (kw.setMask mask).inode = kw.inode := rfl

@[simp] theorem setMask_wd : (kw.setMask mask).wd = kw.wd := rfl

/-- Whoever sets the mask is covered. -/
theorem covers_setMask : (kw.setMask mask).Covers mask := by
  unfold Covers setMask
  dsimp only
  split
  · rw [← BitVec.or_assoc, BitVec.or_comm _ kw.mask, BitVec.or_assoc, BitVec.or_self]
  · exact BitVec.or_self

/-- With `IN_MASK_ADD` whatever was covered stays so. -/
theorem covers_setMask_of_add {kw : KernelWatch} {mask mask' : BitVec 32} (h : kw.Covers mask')
    (hadd : hasFlag mask inMaskAdd = true) : (kw.setMask mask).Covers mask' := by
  have h' : eventsOf mask' ||| kw.mask = kw.mask := h
  simp only [Covers, setMask, hadd, if_true]
  rw [← BitVec.or_assoc, h']

/-- Without it the new mask decides. -/
theorem covers_setMask_of_replace {kw : KernelWatch} {mask mask' : BitVec 32}
    (hadd : hasFlag mask inMaskAdd = false) :
    (kw.setMask mask).Covers mask' ↔ eventsOf mask' ||| eventsOf mask = eventsOf mask := by
  simp [Covers, setMask, hadd]

end KernelWatch

/-- `inotify_add_watch` for an inode: the descriptor and the watches there are then, or `none` where
`IN_MASK_CREATE` refuses. -/
def inotifyAddWatch (kernel : List KernelWatch) (inode : ℕ) (mask : BitVec 32) (wish : ℕ) :
    Option (ℕ × List KernelWatch) :=
  match kernel.find? fun kw => kw.inode = inode with
  | some kw =>
    if hasFlag mask inMaskCreate then none
    else some (kw.wd, kernel.map fun kw => if kw.inode = inode then kw.setMask mask else kw)
  | none =>
    let wd := unused wish (kernel.map (·.wd))
    some (wd, kernel ++ [⟨inode, wd, eventsOf mask⟩])

/-- `inotify_rm_watch`. -/
def inotifyRmWatch (kernel : List KernelWatch) (wd : ℕ) : List KernelWatch :=
  kernel.filter fun kw => kw.wd ≠ wd

/-- The kernel reports an event for a watch. -/
def inotifyReport (kernel : List KernelWatch) (wd : ℕ) : List KernelWatch :=
  kernel.filter fun kw => ¬(kw.wd = wd ∧ hasFlag kw.mask inOneshot)

/-- `Watcher`. `address` is where it lies and `serial` its number among all watchers ever created. -/
structure Watcher where
  address : ℕ
  serial : ℕ
  callback : ℕ
  mask : BitVec 32
  wd : ℕ
  deriving DecidableEq, Repr

/-- `FSWatcher`, with the kernel's side of it. -/
structure FSWatcher where
  inotifyFd : Option ℕ
  inotifyTaskId : Option ℕ
  watchers : List Watcher
  /-- the watches of the inotify instance -/
  kernel : List KernelWatch
  /-- how many waits have been queued -/
  armed : ℕ
  /-- how many watchers have been created -/
  created : ℕ
  deriving DecidableEq, Repr

/-- How `add_watch` can fail. -/
inductive AddError
  | systemResources
  | queueFailed
  | outOfMemory
  deriving DecidableEq, Repr

/-- What the surroundings answer to a call of `add_watch`. -/
structure AddEnv where
  /-- `inotify_init1`: a descriptor or its failing -/
  init1 : Option ℕ
  /-- `io.queue`: the id of the wait or its failing -/
  queue : Option ℕ
  /-- the inode the path leads to, unless the kernel refuses the call -/
  inode : Option ℕ
  /-- the descriptor the kernel is about to give to a new watch -/
  wd : ℕ
  /-- `allocator.create`: where the watcher will lie -/
  create : Option ℕ
  /-- `watchers.append` finds room -/
  append : Bool
  deriving DecidableEq, Repr

namespace FSWatcher

/-- `init`. -/
def init : FSWatcher := ⟨none, none, [], [], 0, 0⟩

/-- `start_inotify_read`. -/
def startInotifyRead (self : FSWatcher) (queue : Option ℕ) : Except AddError FSWatcher :=
  if self.inotifyTaskId.isSome then .ok self
  else match queue with
    | none => .error .queueFailed
    | some id => .ok { self with inotifyTaskId := some id, armed := self.armed + 1 }

/-- `ensure_inotify`; where it fails a descriptor just opened is closed again and nothing has
changed. -/
def ensureInotify (self : FSWatcher) (env : AddEnv) : Except AddError FSWatcher :=
  match self.inotifyFd with
  | some _ => self.startInotifyRead env.queue
  | none =>
    match env.init1 with
    | none => .error .systemResources
    | some fd => do
      let self ← self.startInotifyRead env.queue
      return { self with inotifyFd := some fd }

/-- Some registered watcher has the descriptor. -/
def Watched (self : FSWatcher) (wd : ℕ) : Prop := ∃ w ∈ self.watchers, w.wd = wd

instance (self : FSWatcher) (wd : ℕ) : Decidable (self.Watched wd) :=
  inferInstanceAs (Decidable (∃ _, _))

/-- Give up the kernel's watch if no registered watcher has its descriptor: the scan of
`remove_watch` and of the `errdefer` of `add_watch`. -/
def release (self : FSWatcher) (wd : ℕ) : FSWatcher :=
  if self.Watched wd then self else { self with kernel := inotifyRmWatch self.kernel wd }

/-- The part of `add_watch` after the kernel has answered. -/
def register (self : FSWatcher) (wd : ℕ) (mask : BitVec 32) (callback : ℕ) (env : AddEnv) :
    Except AddError ℕ × FSWatcher :=
  match env.create with
  | none => (.error .outOfMemory, self.release wd)
  | some wish =>
    let watcher : Watcher :=
      ⟨unused wish (self.watchers.map (·.address)), self.created, callback, mask, wd⟩
    let self := { self with created := self.created + 1 }
    if env.append then (.ok wd, { self with watchers := self.watchers ++ [watcher] })
    else (.error .outOfMemory, self.release wd)

/-- `add_watch`. -/
def addWatch (self : FSWatcher) (mask : BitVec 32) (callback : ℕ) (env : AddEnv) :
    Except AddError ℕ × FSWatcher :=
  match self.ensureInotify env with
  | .error err => (.error err, self)
  | .ok self =>
    match env.inode.bind fun inode => inotifyAddWatch self.kernel inode mask env.wd with
    | none => (.error .systemResources, self)
    | some (wd, kernel) => { self with kernel := kernel }.register wd mask callback env

/-- `ArrayList.swapRemove`: the last item takes the place of the one removed. -/
def swapRemove {α : Type*} (items : List α) (i : ℕ) : List α :=
  match items.getLast? with
  | none => []
  | some last => (items.set i last).dropLast

theorem swapRemove_perm {α : Type*} {items : List α} {i : ℕ} (hi : i < items.length) :
    items.Perm (items[i] :: swapRemove items i) := by
  obtain ⟨front, last, rfl⟩ : ∃ front last, items = front ++ [last] :=
    ⟨items.dropLast, items.getLast (List.ne_nil_of_length_pos (by omega)),
      (List.dropLast_append_getLast _).symm⟩
  have hswap : swapRemove (front ++ [last]) i = ((front ++ [last]).set i last).dropLast := by
    simp [swapRemove]
  rw [hswap]
  have hlength : (front ++ [last]).length = front.length + 1 := by simp
  by_cases hlast : i = front.length
  · subst hlast
    simp
  · have hfront : i < front.length := by omega
    rw [List.set_append_left _ _ hfront, List.dropLast_concat, List.getElem_append_left hfront]
    -- the last item takes the place of the one removed
    refine (List.perm_append_singleton last front).trans ?_
    refine ((List.getElem_cons_eraseIdx_perm hfront).symm.cons last).trans ?_
    refine (List.Perm.swap _ _ _).trans ?_
    exact ((List.set_perm_cons_eraseIdx hfront last).symm).cons _

/-- `remove_watch`. -/
def removeWatch (self : FSWatcher) (wd callback : ℕ) : FSWatcher :=
  match self.watchers.findIdx? fun w => w.wd = wd ∧ w.callback = callback with
  | none => self
  | some i => { self with watchers := swapRemove self.watchers i }.release wd

/-- `on_inotify_event` forgets the wait that is complete. -/
def dropTaskId (self : FSWatcher) : FSWatcher := { self with inotifyTaskId := none }

/-- The deferred block of `on_inotify_event`; where the queue fails the id stays 0. -/
def rearm (self : FSWatcher) (queue : Option ℕ) : FSWatcher :=
  if self.inotifyFd.isSome ∧ self.inotifyTaskId = none ∧ 0 < self.watchers.length then
    match queue with
    | none => self
    | some id => { self with inotifyTaskId := some id, armed := self.armed + 1 }
  else self

/-- A call, an event that the kernel reports, or what `on_inotify_event` does to the record itself. -/
inductive Act
  | add (mask : BitVec 32) (callback : ℕ) (env : AddEnv)
  | remove (wd callback : ℕ)
  | report (wd : ℕ)
  | dropTaskId
  | rearm (queue : Option ℕ)
  deriving DecidableEq, Repr

/-- One step of a run. -/
def step (self : FSWatcher) : Act → Option FSWatcher
  | .add mask callback env => some (self.addWatch mask callback env).2
  | .remove wd callback => some (self.removeWatch wd callback)
  | .report wd => some { self with kernel := inotifyReport self.kernel wd }
  | .dropTaskId => some self.dropTaskId
  | .rearm queue => some (self.rearm queue)

/-! ## What each call does -/

/-- What `ensure_inotify` leaves alone. -/
structure SameTables (fs fs' : FSWatcher) : Prop where
  watchers : fs'.watchers = fs.watchers
  kernel : fs'.kernel = fs.kernel
  created : fs'.created = fs.created
  opened : (fs.inotifyTaskId.isSome → fs.inotifyFd.isSome) →
    fs'.inotifyTaskId.isSome → fs'.inotifyFd.isSome

theorem SameTables.refl (self : FSWatcher) : SameTables self self := ⟨rfl, rfl, rfl, id⟩

/-- `add_watch` gets as far as asking the kernel. -/
def Asks (self : FSWatcher) (env : AddEnv) : Prop :=
  (self.inotifyFd.isSome ∨ env.init1.isSome) ∧ (self.inotifyTaskId.isSome ∨ env.queue.isSome)

instance (self : FSWatcher) (env : AddEnv) : Decidable (self.Asks env) :=
  inferInstanceAs (Decidable (_ ∧ _))

variable {self self' : FSWatcher} {mask : BitVec 32} {callback wd inode wish : ℕ} {env : AddEnv}

/-- A wait is queued unless there is one. -/
theorem startInotifyRead_cases (self : FSWatcher) (queue : Option ℕ) :
    (self.inotifyTaskId = none ∧ queue = none ∧
        self.startInotifyRead queue = .error .queueFailed) ∨
      (self.inotifyTaskId.isSome ∨ queue.isSome) ∧
        ∃ id armed, self.startInotifyRead queue =
          .ok { self with inotifyTaskId := some id, armed := armed } := by
  unfold startInotifyRead
  cases hid : self.inotifyTaskId with
  | some id =>
    refine .inr ⟨.inl rfl, id, self.armed, ?_⟩
    rw [if_pos Option.isSome_some, ← hid]
  | none =>
    cases queue with
    | none => exact .inl ⟨rfl, rfl, rfl⟩
    | some id => exact .inr ⟨.inr rfl, id, self.armed + 1, rfl⟩

theorem ensureInotify_cases (self : FSWatcher) (env : AddEnv) :
    (¬self.Asks env ∧ ∃ err, self.ensureInotify env = .error err) ∨
      self.Asks env ∧ ∃ self', self.ensureInotify env = .ok self' ∧ SameTables self self' := by
  unfold ensureInotify Asks
  cases hfd : self.inotifyFd with
  | some fd =>
    dsimp only
    obtain ⟨hid, hqueue, herror⟩ | ⟨hqueued, id, armed, hok⟩ :=
      self.startInotifyRead_cases env.queue
    · exact .inl ⟨by simp [hid, hqueue], _, herror⟩
    · exact .inr ⟨⟨.inl rfl, hqueued⟩, _, hok, rfl, rfl, rfl, fun _ _ => by simp [hfd]⟩
  | none =>
    cases hinit : env.init1 with
    | none => exact .inl ⟨by simp, _, rfl⟩
    | some fd =>
      dsimp only
      obtain ⟨hid, hqueue, herror⟩ | ⟨hqueued, id, armed, hok⟩ :=
        self.startInotifyRead_cases env.queue
      · exact .inl ⟨by simp [hid, hqueue], _, by rw [herror]; rfl⟩
      · refine .inr ⟨⟨.inr rfl, hqueued⟩,
          { self with inotifyFd := some fd, inotifyTaskId := some id, armed := armed }, ?_, rfl, rfl,
          rfl, fun _ _ => rfl⟩
        rw [hok]
        rfl

/-- The kernel knows the inode and refuses or changes the mask, or it has a new watch. -/
theorem inotifyAddWatch_cases (kernel : List KernelWatch) (inode wish : ℕ) (mask : BitVec 32) :
    (∃ kw ∈ kernel, kw.inode = inode ∧
        ((hasFlag mask inMaskCreate = true ∧ inotifyAddWatch kernel inode mask wish = none) ∨
          hasFlag mask inMaskCreate = false ∧ inotifyAddWatch kernel inode mask wish = some (kw.wd,
            kernel.map fun kw => if kw.inode = inode then kw.setMask mask else kw))) ∨
      (∀ kw ∈ kernel, kw.inode ≠ inode) ∧ ∃ wd, (∀ kw ∈ kernel, kw.wd ≠ wd) ∧
        inotifyAddWatch kernel inode mask wish =
          some (wd, kernel ++ [⟨inode, wd, eventsOf mask⟩]) := by
  unfold inotifyAddWatch
  cases hfind : kernel.find? fun kw => kw.inode = inode with
  | some kw =>
    have hinode : kw.inode = inode := by simpa using List.find?_some hfind
    refine .inl ⟨kw, List.mem_of_find?_eq_some hfind, hinode, ?_⟩
    cases hcreate : hasFlag mask inMaskCreate with
    | true => exact .inl ⟨rfl, rfl⟩
    | false => exact .inr ⟨rfl, rfl⟩
  | none =>
    refine .inr ⟨by simpa using hfind, _, fun kw hkw hwd => ?_, rfl⟩
    exact unused_not_mem wish _ (List.mem_map.2 ⟨kw, hkw, hwd⟩)

/-- What `add_watch` leaves behind: the kernel was not asked or refused, or it has answered and the
watcher is registered, or the watch is given up again. -/
theorem addWatch_cases (self : FSWatcher) (mask : BitVec 32) (callback : ℕ) (env : AddEnv) :
    (SameTables self (self.addWatch mask callback env).2 ∧ ∀ inode, self.Asks env →
        env.inode = some inode → inotifyAddWatch self.kernel inode mask env.wd = none) ∨
      ∃ inode wd kernel opened, self.Asks env ∧ env.inode = some inode ∧
        inotifyAddWatch self.kernel inode mask env.wd = some (wd, kernel) ∧
        SameTables self opened ∧
        ((∃ wish, (self.addWatch mask callback env).2 =
            { opened with
              kernel := kernel
              created := self.created + 1
              watchers := self.watchers ++ [⟨unused wish (self.watchers.map (·.address)),
                self.created, callback, mask, wd⟩] }) ∨
          ∃ created ≥ self.created, (self.addWatch mask callback env).2 =
            { opened with kernel := kernel, created := created }.release wd) := by
  unfold addWatch
  obtain ⟨hasks, err, herr⟩ | ⟨hasks, opened, hopened, hsame⟩ := self.ensureInotify_cases env
  · rw [herr]
    exact .inl ⟨.refl self, fun _ h => absurd h hasks⟩
  rw [hopened]
  dsimp only
  rw [hsame.kernel]
  cases hanswer : env.inode.bind fun inode => inotifyAddWatch self.kernel inode mask env.wd with
  | none =>
    refine .inl ⟨hsame, fun inode _ hinode => ?_⟩
    rwa [hinode] at hanswer
  | some answer =>
    obtain ⟨wd, kernel⟩ := answer
    obtain ⟨inode, hinode, hadd⟩ := Option.bind_eq_some_iff.1 hanswer
    refine .inr ⟨inode, wd, kernel, opened, hasks, hinode, hadd, hsame, ?_⟩
    unfold register
    cases env.create with
    | none => exact .inr ⟨opened.created, hsame.created.ge, rfl⟩
    | some wish =>
      cases env.append with
      | true =>
        refine .inl ⟨wish, ?_⟩
        simp only [hsame.watchers, hsame.created, if_true]
      | false =>
        refine .inr ⟨opened.created + 1, by rw [hsame.created]; omega, ?_⟩
        simp

/-! ## The invariant -/

/-- The kernel has a watch of that descriptor. -/
def HasWatch (self : FSWatcher) (wd : ℕ) : Prop := ∃ kw ∈ self.kernel, kw.wd = wd

/-- What the allocator and the kernel keep apart. -/
structure Distinct (fs : FSWatcher) : Prop where
  inodes : (fs.kernel.map (·.inode)).Nodup
  wds : (fs.kernel.map (·.wd)).Nodup
  addresses : (fs.watchers.map (·.address)).Nodup
  serials : (fs.watchers.map (·.serial)).Nodup
  fresh : ∀ w ∈ fs.watchers, w.serial < fs.created
  opened : fs.inotifyTaskId.isSome → fs.inotifyFd.isSome

/-- The kernel watches for the registered watchers and for nobody else. -/
def Watches (fs : FSWatcher) : Prop := ∀ wd, fs.HasWatch wd ↔ fs.Watched wd

theorem distinct_init : init.Distinct where
  inodes := List.nodup_nil
  wds := List.nodup_nil
  addresses := List.nodup_nil
  serials := List.nodup_nil
  fresh := nofun
  opened := nofun

theorem watches_init : init.Watches := fun _ => ⟨nofun, nofun⟩

@[simp] theorem release_watchers (self : FSWatcher) (wd : ℕ) :
    (self.release wd).watchers = self.watchers := by
  unfold release; split <;> rfl

theorem mem_release_kernel {kw : KernelWatch} :
    kw ∈ (self.release wd).kernel ↔ kw ∈ self.kernel ∧ (kw.wd = wd → self.Watched wd) := by
  unfold release
  split
  · rename_i hwatched
    exact ⟨fun h => ⟨h, fun _ => hwatched⟩, fun h => h.1⟩
  · rename_i hwatched
    simp [inotifyRmWatch, hwatched]

theorem Distinct.release (h : self.Distinct) (wd : ℕ) : (self.release wd).Distinct := by
  unfold FSWatcher.release
  split
  · exact h
  · exact ⟨h.inodes.sublist (List.filter_sublist.map _), h.wds.sublist (List.filter_sublist.map _),
      h.addresses, h.serials, h.fresh, h.opened⟩

/-- Giving a descriptor up makes the kernel watch for it exactly if a watcher is registered. -/
theorem watches_release (hothers : ∀ wd', wd' ≠ wd → (self.HasWatch wd' ↔ self.Watched wd'))
    (hwd : self.Watched wd → self.HasWatch wd) : (self.release wd).Watches := by
  intro wd'
  have hwatched : (self.release wd).Watched wd' ↔ self.Watched wd' := by
    simp [Watched]
  rw [hwatched]
  constructor
  · rintro ⟨kw, hkw, rfl⟩
    obtain ⟨hmem, hkept⟩ := mem_release_kernel.1 hkw
    by_cases hsame : kw.wd = wd
    · rw [hsame]
      exact hkept hsame
    · exact (hothers _ hsame).1 ⟨kw, hmem, rfl⟩
  · intro hw
    by_cases hsame : wd' = wd
    · subst hsame
      obtain ⟨kw, hkw, rfl⟩ := hwd hw
      exact ⟨kw, mem_release_kernel.2 ⟨hkw, fun _ => hw⟩, rfl⟩
    · obtain ⟨kw, hkw, rfl⟩ := (hothers _ hsame).2 hw
      exact ⟨kw, mem_release_kernel.2 ⟨hkw, fun h => absurd h hsame⟩, rfl⟩

theorem Distinct.of_same (h : self.Distinct) (hsame : SameTables self self') : self'.Distinct where
  inodes := by rw [hsame.kernel]; exact h.inodes
  wds := by rw [hsame.kernel]; exact h.wds
  addresses := by rw [hsame.watchers]; exact h.addresses
  serials := by rw [hsame.watchers]; exact h.serials
  fresh := by rw [hsame.watchers, hsame.created]; exact h.fresh
  opened := hsame.opened h.opened

theorem Watches.of_same (h : self.Watches) (hsame : SameTables self self') : self'.Watches := by
  intro wd
  rw [HasWatch, Watched, hsame.kernel, hsame.watchers]
  exact h wd

/-- The kernel's tables after it has answered: the descriptor has a watch, and the others have one as
before. -/
theorem inotifyAddWatch_tables {kernel kernel' : List KernelWatch}
    (hinodes : (kernel.map (·.inode)).Nodup) (hwds : (kernel.map (·.wd)).Nodup)
    (h : inotifyAddWatch kernel inode mask wish = some (wd, kernel')) :
    (kernel'.map (·.inode)).Nodup ∧ (kernel'.map (·.wd)).Nodup ∧ (∃ kw ∈ kernel', kw.wd = wd) ∧
      ∀ wd', wd' ≠ wd → ((∃ kw ∈ kernel', kw.wd = wd') ↔ ∃ kw ∈ kernel, kw.wd = wd') := by
  obtain ⟨kw, hkw, hinode, ⟨-, hnone⟩ | ⟨-, hsome⟩⟩ | ⟨hnew, wd', hfresh, hsome⟩ :=
    inotifyAddWatch_cases kernel inode wish mask
  · exact nomatch hnone.symm.trans h
  · obtain ⟨rfl, rfl⟩ := Prod.mk.inj (Option.some.inj (hsome.symm.trans h))
    have hmap : ∀ (f : KernelWatch → ℕ), (∀ kw, f (kw.setMask mask) = f kw) →
        (kernel.map fun kw => if kw.inode = inode then kw.setMask mask else kw).map f =
          kernel.map f := by
      intro f hf
      rw [List.map_map]
      refine List.map_congr_left fun kw _ => ?_
      dsimp only [Function.comp]
      split
      · exact hf kw
      · rfl
    have hwatch : ∀ wd', (∃ kw ∈ kernel.map fun kw => if kw.inode = inode then kw.setMask mask else kw,
        kw.wd = wd') ↔ ∃ kw ∈ kernel, kw.wd = wd' := by
      intro wd'
      rw [← List.mem_map, ← List.mem_map, hmap (·.wd) fun kw => kw.setMask_wd mask]
    rw [hmap (·.inode) fun kw => kw.setMask_inode mask, hmap (·.wd) fun kw => kw.setMask_wd mask]
    exact ⟨hinodes, hwds, (hwatch _).2 ⟨kw, hkw, rfl⟩, fun wd' _ => hwatch wd'⟩
  · obtain ⟨rfl, rfl⟩ := Prod.mk.inj (Option.some.inj (hsome.symm.trans h))
    refine ⟨?_, ?_, ⟨_, List.mem_append_right _ (List.mem_singleton_self _), rfl⟩, fun wd hne => ?_⟩
    · rw [List.map_append, List.map_singleton]
      refine List.nodup_append.2 ⟨hinodes, List.nodup_singleton _, ?_⟩
      simpa using hnew
    · rw [List.map_append, List.map_singleton]
      refine List.nodup_append.2 ⟨hwds, List.nodup_singleton _, ?_⟩
      simpa using hfresh
    · simp [or_and_right, exists_or, hne.symm]

theorem Distinct.addWatch (h : self.Distinct) (mask : BitVec 32) (callback : ℕ) (env : AddEnv) :
    (self.addWatch mask callback env).2.Distinct := by
  obtain ⟨hsame, -⟩ | ⟨inode, wd, kernel, opened, -, -, hadd, hsame, hdone⟩ :=
    self.addWatch_cases mask callback env
  · exact h.of_same hsame
  obtain ⟨hinodes, hwds, -, -⟩ := inotifyAddWatch_tables h.inodes h.wds hadd
  have hopened := h.of_same hsame
  obtain ⟨wish, hv⟩ | ⟨created, hcreated, hv⟩ := hdone
  · rw [hv]
    refine ⟨hinodes, hwds, ?_, ?_, ?_, hopened.opened⟩
    · rw [List.map_append, List.map_singleton]
      refine List.nodup_append.2 ⟨h.addresses, List.nodup_singleton _, ?_⟩
      rintro a ha _ hb rfl
      rw [List.mem_singleton.1 hb] at ha
      exact unused_not_mem _ _ ha
    · rw [List.map_append, List.map_singleton]
      refine List.nodup_append.2 ⟨h.serials, List.nodup_singleton _, ?_⟩
      rintro a ha _ hb rfl
      obtain ⟨w, hw, hserial⟩ := List.mem_map.1 ha
      have hlt := h.fresh w hw
      have hlast : a = self.created := List.mem_singleton.1 hb
      omega
    · intro w hw
      obtain hw | hw := List.mem_append.1 hw
      · exact Nat.lt_succ_of_lt (h.fresh w hw)
      · rw [List.mem_singleton.1 hw]
        exact Nat.lt_succ_self _
  · rw [hv]
    have hanswered : Distinct { opened with kernel := kernel, created := created } := by
      refine ⟨hinodes, hwds, hopened.addresses, hopened.serials, fun w hw => ?_, hopened.opened⟩
      rw [hsame.watchers] at hw
      exact (h.fresh w hw).trans_le hcreated
    exact hanswered.release wd

theorem Watches.addWatch (h : self.Watches) (hdistinct : self.Distinct) (mask : BitVec 32) (callback : ℕ)
    (env : AddEnv) : (self.addWatch mask callback env).2.Watches := by
  obtain ⟨hsame, -⟩ | ⟨inode, wd, kernel, opened, -, -, hadd, hsame, hdone⟩ :=
    self.addWatch_cases mask callback env
  · exact h.of_same hsame
  obtain ⟨-, -, hwatch, hothers⟩ := inotifyAddWatch_tables hdistinct.inodes hdistinct.wds hadd
  obtain ⟨wish, hv⟩ | ⟨created, -, hv⟩ := hdone
  · rw [hv]
    intro wd'
    have hbefore := h wd'
    simp only [HasWatch, Watched, List.mem_append, List.mem_singleton, or_and_right, exists_or,
      exists_eq_left] at hbefore ⊢
    by_cases hne : wd' = wd
    · subst hne
      exact iff_of_true hwatch (.inr rfl)
    · rw [hothers wd' hne, hbefore]
      simp [Ne.symm hne]
  · rw [hv]
    refine watches_release (fun wd' hne => ?_) fun _ => hwatch
    refine (hothers wd' hne).trans ((h wd').trans ?_)
    rw [Watched, Watched, hsame.watchers]

/-- What `remove_watch` takes off the list: the first watcher of that descriptor and callback, or
nothing where there is none. -/
theorem removeWatch_cases (self : FSWatcher) (wd callback : ℕ) :
    ((∀ w ∈ self.watchers, w.wd = wd → w.callback ≠ callback) ∧
        self.removeWatch wd callback = self) ∨
      ∃ watchers w, self.watchers.Perm (w :: watchers) ∧ w.wd = wd ∧ w.callback = callback ∧
        self.removeWatch wd callback = { self with watchers := watchers }.release wd := by
  unfold removeWatch
  cases hfind : self.watchers.findIdx? fun w => w.wd = wd ∧ w.callback = callback with
  | none =>
    refine .inl ⟨fun w hw hwd hcallback => ?_, rfl⟩
    have hall := List.findIdx?_eq_none_iff.1 hfind w hw
    simp [hwd, hcallback] at hall
  | some i =>
    obtain ⟨hi, hw, -⟩ := List.findIdx?_eq_some_iff_getElem.1 hfind
    have hmatch : self.watchers[i].wd = wd ∧ self.watchers[i].callback = callback := by
      simpa using hw
    exact .inr ⟨_, _, swapRemove_perm hi, hmatch.1, hmatch.2, rfl⟩

theorem Distinct.removeWatch (h : self.Distinct) (wd callback : ℕ) : (self.removeWatch wd callback).Distinct := by
  obtain ⟨-, hv⟩ | ⟨watchers, w, hperm, -, -, hv⟩ := self.removeWatch_cases wd callback
  · rwa [hv]
  have haddresses := (hperm.map (·.address)).nodup_iff.1 h.addresses
  have hserials := (hperm.map (·.serial)).nodup_iff.1 h.serials
  have htaken : Distinct { self with watchers := watchers } :=
    ⟨h.inodes, h.wds, (List.nodup_cons.1 haddresses).2, (List.nodup_cons.1 hserials).2,
      fun w' hw' => h.fresh w' (hperm.mem_iff.2 (List.mem_cons_of_mem _ hw')), h.opened⟩
  rw [hv]
  exact htaken.release wd

theorem Watches.removeWatch (h : self.Watches) (wd callback : ℕ) : (self.removeWatch wd callback).Watches := by
  obtain ⟨-, hv⟩ | ⟨watchers, w, hperm, hwd, -, hv⟩ := self.removeWatch_cases wd callback
  · rwa [hv]
  have hmem : ∀ w', w' ∈ self.watchers ↔ w' = w ∨ w' ∈ watchers := fun w' => by
    rw [hperm.mem_iff, List.mem_cons]
  rw [hv]
  refine watches_release (fun wd' hne => ?_) ?_
  · refine (h wd').trans ?_
    simp only [Watched, hmem, or_and_right, exists_or, exists_eq_left, hwd, Ne.symm hne, false_or]
  · rintro ⟨w', hw', rfl⟩
    exact (h w'.wd).2 ⟨w', (hmem w').2 (.inr hw'), rfl⟩

theorem rearm_same (self : FSWatcher) (queue : Option ℕ) : SameTables self (self.rearm queue) := by
  unfold rearm
  split
  · rename_i hopen
    cases queue with
    | none => exact .refl self
    | some id => exact ⟨rfl, rfl, rfl, fun _ _ => hopen.1⟩
  · exact .refl self

theorem dropTaskId_same (self : FSWatcher) : SameTables self self.dropTaskId :=
  ⟨rfl, rfl, rfl, fun _ => nofun⟩

theorem Distinct.step {act : Act} (h : self.Distinct) (hs : self.step act = some self') : self'.Distinct := by
  cases act with
  | add mask callback env =>
    obtain rfl := Option.some.inj hs
    exact h.addWatch mask callback env
  | remove wd callback =>
    obtain rfl := Option.some.inj hs
    exact h.removeWatch wd callback
  | report wd =>
    obtain rfl := Option.some.inj hs
    exact ⟨h.inodes.sublist (List.filter_sublist.map _), h.wds.sublist (List.filter_sublist.map _),
      h.addresses, h.serials, h.fresh, h.opened⟩
  | dropTaskId =>
    obtain rfl := Option.some.inj hs
    exact h.of_same self.dropTaskId_same
  | rearm queue =>
    obtain rfl := Option.some.inj hs
    exact h.of_same (self.rearm_same queue)

/-! ## Whose events are reported -/

/-- The kernel reports to each watch what the watchers registered for it ask for. -/
def Covered (self : FSWatcher) : Prop :=
  ∀ kw ∈ self.kernel, ∀ w ∈ self.watchers, w.wd = kw.wd → kw.Covers w.mask

/-- There is a watch for the descriptors of the registered watchers only, and it covers them all. -/
structure Served (fs : FSWatcher) : Prop where
  watched : fs.Watches
  covered : fs.Covered

/-- If the call reaches an inode that is watched already and is not refused, it adds to the mask or its
own mask contains those of all watchers of that inode; and no event is reported for a watch that goes with it. -/
def Keeps (self : FSWatcher) : Act → Prop
  | .add mask _ env => self.Asks env → ∀ kw ∈ self.kernel, env.inode = some kw.inode →
      hasFlag mask inMaskCreate = false → hasFlag mask inMaskAdd = true ∨
        ∀ w ∈ self.watchers, w.wd = kw.wd → eventsOf w.mask ||| eventsOf mask = eventsOf mask
  | .report wd => ∀ kw ∈ self.kernel, kw.wd = wd → hasFlag kw.mask inOneshot = false
  | _ => True

/-- What `add_watch` makes of the tables once the kernel has answered. -/
theorem addWatch_tables {kernel : List KernelWatch} {opened : FSWatcher}
    (hsame : SameTables self opened)
    (hdone : (∃ wish, self' = { opened with
            kernel := kernel
            created := self.created + 1
            watchers := self.watchers ++ [⟨unused wish (self.watchers.map (·.address)),
              self.created, callback, mask, wd⟩] }) ∨
          ∃ created ≥ self.created,
            self' = { opened with kernel := kernel, created := created }.release wd) :
    (∀ kw ∈ self'.kernel, kw ∈ kernel) ∧ (∀ kw ∈ kernel, self.Watched kw.wd → kw ∈ self'.kernel) ∧
      (∀ w ∈ self'.watchers, w ∈ self.watchers ∨ w.wd = wd ∧ w.mask = mask) ∧
      ∀ w ∈ self.watchers, w ∈ self'.watchers := by
  obtain ⟨wish, rfl⟩ | ⟨created, -, rfl⟩ := hdone
  · refine ⟨fun _ h => h, fun _ h _ => h, fun w hw => ?_, fun w hw => List.mem_append_left _ hw⟩
    obtain hw | hw := List.mem_append.1 hw
    · exact .inl hw
    · rw [List.mem_singleton.1 hw]
      exact .inr ⟨rfl, rfl⟩
  · refine ⟨fun kw hkw => (mem_release_kernel.1 hkw).1, fun kw hkw hwatched => ?_, fun w hw => ?_,
      fun w hw => ?_⟩
    · refine mem_release_kernel.2 ⟨hkw, fun hwd => ?_⟩
      rw [← hwd, Watched, hsame.watchers]
      exact hwatched
    · rw [release_watchers, hsame.watchers] at hw
      exact .inl hw
    · rw [release_watchers, hsame.watchers]
      exact hw

/-- **One call.** `add_watch` leaves the registered watchers covered exactly if it keeps their events. -/
theorem addWatch_covered_iff (h : self.Distinct) (hserved : self.Served) (mask : BitVec 32)
    (callback : ℕ) (env : AddEnv) :
    (self.addWatch mask callback env).2.Covered ↔ self.Keeps (.add mask callback env) := by
  obtain ⟨hsame, hrefused⟩ | ⟨inode, wd, kernel, opened, hasks, hinode, hadd, hsame, hdone⟩ :=
    self.addWatch_cases mask callback env
  · refine iff_of_true ?_ fun hasks kw hkw hinode hcreate => ?_
    · rw [Covered, hsame.kernel, hsame.watchers]
      exact hserved.covered
    · have hnone := hrefused kw.inode hasks hinode
      obtain ⟨_, _, _, ⟨hflag, -⟩ | ⟨-, hsome⟩⟩ | ⟨hnew, -⟩ :=
        inotifyAddWatch_cases self.kernel kw.inode env.wd mask
      · exact absurd (hcreate.symm.trans hflag) Bool.false_ne_true
      · exact nomatch hnone.symm.trans hsome
      · exact absurd rfl (hnew kw hkw)
  obtain ⟨hkernel, hkept, hwatchers, hold⟩ := addWatch_tables hsame hdone
  obtain ⟨kw, hkw, hkwInode, ⟨-, hnone⟩ | ⟨hcreate, hsome⟩⟩ | ⟨hnew, wd', hfresh, hsome⟩ :=
    inotifyAddWatch_cases self.kernel inode env.wd mask
  · exact nomatch hnone.symm.trans hadd
  · -- the inode has a watch: its mask is set
    obtain ⟨rfl, rfl⟩ := Prod.mk.inj (Option.some.inj (hsome.symm.trans hadd))
    constructor
    · intro hafter _ kw' hkw' hinode' _
      obtain rfl : kw' = kw := List.inj_on_of_nodup_map h.inodes hkw' hkw
        ((Option.some.inj (hinode'.symm.trans hinode)).trans hkwInode.symm)
      refine or_iff_not_imp_left.2 fun hadd w hw hwd => ?_
      have hset : kw'.setMask mask ∈ (self.addWatch mask callback env).2.kernel := by
        refine hkept _ (List.mem_map.2 ⟨kw', hkw', if_pos hkwInode⟩) ⟨w, hw, hwd⟩
      exact (KernelWatch.covers_setMask_of_replace (Bool.eq_false_iff.2 hadd)).1
        (hafter _ hset w (hold w hw) hwd)
    · intro hkeeps kw' hkw' w hw hwd
      obtain ⟨kw₀, hkw₀, rfl⟩ := List.mem_map.1 (hkernel kw' hkw')
      by_cases hset : kw₀.inode = inode
      · obtain rfl : kw₀ = kw := List.inj_on_of_nodup_map h.inodes hkw₀ hkw (hset.trans hkwInode.symm)
        rw [if_pos hset] at hwd ⊢
        obtain hw | ⟨-, rfl⟩ := hwatchers w hw
        · cases hflag : hasFlag mask inMaskAdd with
          | true => exact KernelWatch.covers_setMask_of_add (hserved.covered kw₀ hkw₀ w hw hwd) hflag
          | false =>
            refine (KernelWatch.covers_setMask_of_replace hflag).2 ?_
            have hmasks := hkeeps hasks kw₀ hkw₀ (by rw [hset]; exact hinode) hcreate
            rw [hflag] at hmasks
            exact hmasks.resolve_left Bool.false_ne_true w hw hwd
        · exact kw₀.covers_setMask _
      · rw [if_neg hset] at hwd ⊢
        obtain hw | ⟨hnew, -⟩ := hwatchers w hw
        · exact hserved.covered kw₀ hkw₀ w hw hwd
        · obtain rfl : kw₀ = kw := List.inj_on_of_nodup_map h.wds hkw₀ hkw (hwd.symm.trans hnew)
          exact absurd hkwInode hset
  · -- the inode gets a watch of its own
    obtain ⟨rfl, rfl⟩ := Prod.mk.inj (Option.some.inj (hsome.symm.trans hadd))
    refine iff_of_true (fun kw hkw w hw hwd => ?_) fun _ kw hkw hinode' => ?_
    · obtain hkw | hkw := List.mem_append.1 (hkernel kw hkw)
      · obtain hw | ⟨hnew, -⟩ := hwatchers w hw
        · exact hserved.covered kw hkw w hw hwd
        · exact absurd (hwd.symm.trans hnew) (hfresh kw hkw)
      · obtain rfl := List.mem_singleton.1 hkw
        obtain hw | ⟨-, rfl⟩ := hwatchers w hw
        · obtain ⟨kw, hkw, hkwWd⟩ := (hserved.watched _).2 ⟨w, hw, hwd⟩
          exact absurd hkwWd (hfresh kw hkw)
        · exact BitVec.or_self
    · exact absurd (Option.some.inj (hinode'.symm.trans hinode)) (hnew kw hkw)

theorem removeWatch_covered (hcovered : self.Covered) (wd callback : ℕ) :
    (self.removeWatch wd callback).Covered := by
  obtain ⟨-, hv⟩ | ⟨watchers, w, hperm, -, -, hv⟩ := self.removeWatch_cases wd callback
  · rwa [hv]
  · rw [hv]
    intro kw hkw w' hw'
    rw [release_watchers] at hw'
    exact hcovered kw (mem_release_kernel.1 hkw).1 w' (hperm.mem_iff.2 (List.mem_cons_of_mem _ hw'))

/-- **One event.** A registered watcher is left without a watch exactly if the watch goes with its first event. -/
theorem report_served_iff (h : self.Distinct) (hserved : self.Served) (wd : ℕ) :
    ({ self with kernel := inotifyReport self.kernel wd } : FSWatcher).Served ↔ self.Keeps (.report wd) := by
  constructor
  · intro hafter kw hkw hwd
    have hwatched : self.Watched wd := (hserved.watched wd).1 ⟨kw, hkw, hwd⟩
    obtain ⟨kw', hkw', hwd'⟩ := (hafter.watched wd).2 hwatched
    obtain ⟨hmem, hstays⟩ := List.mem_filter.1 hkw'
    obtain rfl : kw' = kw := List.inj_on_of_nodup_map h.wds hmem hkw (hwd'.trans hwd.symm)
    simpa [hwd] using hstays
  · intro hkeeps
    have hkernel : inotifyReport self.kernel wd = self.kernel := by
      refine List.filter_eq_self.2 fun kw hkw => ?_
      rw [decide_eq_true_eq, not_and]
      exact fun hwd => Bool.eq_false_iff.1 (hkeeps kw hkw hwd)
    rw [hkernel]
    exact hserved

/-- **The kernel's watches serve the registered watchers** throughout a run, whatever fails in it,
exactly if every call that reaches a watched inode keeps the events of the others and no watch goes with an event. -/
theorem kernel_covers_iff (acts : List Act) :
    Runs.Always step Served init acts ↔ Runs.Along step Keeps init acts := by
  refine Runs.always_iff_along distinct_init ⟨watches_init, nofun⟩ (fun u act v h hs => h.step hs)
    (fun u act v h hserved hs => ?_) fun u act hs => ?_
  · have hsame : ∀ {v : FSWatcher}, SameTables u v → v.Served := by
      intro v hsame
      refine ⟨hserved.watched.of_same hsame, ?_⟩
      rw [Covered, hsame.kernel, hsame.watchers]
      exact hserved.covered
    cases act with
    | add mask callback env =>
      obtain rfl := Option.some.inj hs
      have hwatched := hserved.watched.addWatch h mask callback env
      exact Iff.trans ⟨fun h => h.covered, fun h => ⟨hwatched, h⟩⟩ (addWatch_covered_iff h hserved mask callback env)
    | remove wd callback =>
      obtain rfl := Option.some.inj hs
      exact iff_of_true ⟨hserved.watched.removeWatch wd callback, removeWatch_covered hserved.covered wd callback⟩
        trivial
    | report wd =>
      obtain rfl := Option.some.inj hs
      exact report_served_iff h hserved wd
    | dropTaskId =>
      obtain rfl := Option.some.inj hs
      exact iff_of_true (hsame u.dropTaskId_same) trivial
    | rearm queue =>
      obtain rfl := Option.some.inj hs
      exact iff_of_true (hsame (u.rearm_same queue)) trivial
  · cases act <;> cases hs

/-- `IN_MODIFY` and then `IN_DELETE` for the same directory: the first watcher's events stop. -/
theorem kernel_forgets : ¬∀ acts : List Act, Runs.Always step Served init acts := by
  intro hall
  have hlast := (hall [.add 0x2 1 ⟨some 5, some 7, some 3, 1, some 100, true⟩,
    .add 0x200 2 ⟨none, none, some 3, 2, some 200, true⟩]).last rfl
  have hcovers := hlast.covered ⟨3, 1, 0x200⟩ (by decide) ⟨100, 0, 1, 0x2, 1⟩ (by decide) rfl
  revert hcovers
  decide

end FSWatcher

end Talyn
