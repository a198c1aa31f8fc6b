import Talyn.Lib.Runs
import Talyn.Dns.CacheInvariant

/-!
# Nothing destroyed is used

Every operation of the resolver keeps `HeapOk`: the entry points with all their error paths, the
completions of a lookup, and the callbacks that read the cache again. After `deinit` there are no
records, and a lookup that is still served leaves them alone (`Drained`).

The run theorem states the pointers of records and control data as a whole, `PointersOk`.
-/

namespace Talyn.Dns

namespace Lookup

/-! ### Lookups that fail to start -/

/-- A control data released before it had servers. -/
theorem inv_controlRelease_empty (record : Record) :
    Inv none (controlRelease { servers := [], userCallbacks := [], record := some record }) := by
  have heq : controlRelease { servers := [], userCallbacks := [], record := some record } =
      { servers := [], userCallbacks := [], released := true, record := some ⟨.none, 0⟩,
        destroyed := true, trace := [.released] } := rfl
  rw [heq]
  refine ⟨⟨nofun, nofun, nofun, nofun, rfl, nofun⟩, ⟨rfl, fun _ => ⟨[], rfl, by simp⟩, nofun, rfl,
    nofun, nofun, ?_, rfl⟩, by simp⟩
  intro r hr hp
  obtain rfl := Option.some.inj hr
  exact nomatch hp

theorem disown_eq {l : Lookup} (hl : Started l) : DNS.disown l =
    { l with userCallbacks := [], recordEvicted := true, record := some ⟨.none, 0⟩ } := by
  have hrec : l.record = some ⟨.pending, 9223372036854775807⟩ := congrArg Control.record hl.control
  simp [DNS.disown, discardRecord, setRecord, hrec]

/-- A control data released because the first send failed. -/
theorem inv_controlRelease_unsent {l : Lookup} (hl : Started l) :
    Inv none { { DNS.disown l with servers := [] }.controlRelease with record := none } := by
  have hcontrol := hl.control
  simp only [Lookup.control, Control.mk.injEq, true_and] at hcontrol
  obtain ⟨hres, -, hrel, -, -, huaf, -⟩ := hcontrol
  have heq : { { DNS.disown l with servers := [] }.controlRelease with record := none } =
      { l with
        userCallbacks := [], recordEvicted := true, servers := [], record := none,
        released := true, destroyed := true, trace := [.released] } := by
    simp [disown_eq hl, controlRelease, hrel, hres, dispatchAll, emit, hl.trace]
  rw [heq]
  refine ⟨⟨by simp, by simp, by simp, by simp, hl.tasksFinished, by simp⟩,
    ⟨rfl, fun _ => ⟨[], rfl, by simp⟩, by simp, ?_, by simp, fun _ => rfl, by simp, huaf⟩, ?_⟩
  · simp [dispatched]
  · simp [hl.tasksFinished]

/-- The first servers of a started lookup. -/
theorem Started.take {l : Lookup} (hl : Started l) {sent : ℕ} (hpos : 0 < sent) :
    Started { l with userCallbacks := [], servers := l.servers.take sent } := by
  have hcontrol := hl.control
  simp only [Lookup.control, Control.mk.injEq, true_and] at hcontrol
  refine ⟨?_, ?_, ?_, hl.tasksFinished, hl.trace⟩
  · intro i hi
    replace hi : i < (l.servers.take sent).length := hi
    rw [List.length_take] at hi
    obtain ⟨fd, n, queries, hq, he⟩ := hl.server i (by omega)
    refine ⟨fd, n, queries, hq, ?_⟩
    rw [← he, Lookup.server, Lookup.server, List.getD_eq_getElem?_getD, List.getD_eq_getElem?_getD,
      List.getElem?_take, if_pos (by omega)]
  · rw [List.length_take]
    exact Nat.lt_min.2 ⟨hpos, hl.nonempty⟩
  · simp [Lookup.control, hcontrol]

/-- Closing the sockets of the servers keeps the invariant. -/
theorem Inv.cancelUnfinished {l m : Lookup} (hm : Inv none m) (hrel : m.released = false)
    (hl : { l with record := none } = m) :
    Inv none { l.cancelUnfinished with record := none } := by
  subst hl
  have hcontrol := control_cancelUnfinished l
  have hcounts := Prod.mk.inj (counts_cancelUnfinished l)
  obtain ⟨hd, hr⟩ := cancelUnfinished_trace l
  have hservers : ServersOk none l :=
    hm.servers.congr rfl rfl (fun _ => rfl) fun _ => rfl
  refine ⟨hservers.cancelUnfinished.congr rfl rfl (fun _ => rfl) fun _ => rfl, ?_, ?_⟩
  · refine hm.control.congr hrel ?_ hr hd
    simp only [Lookup.control, Control.mk.injEq] at hcontrol ⊢
    simp [hcontrol]
  · have hreleased : l.cancelUnfinished.released = l.released := congrArg Control.released hcontrol
    show l.cancelUnfinished.released = true ↔
      l.cancelUnfinished.tasksFinished = l.cancelUnfinished.servers.length
    rw [hreleased, hcounts.1, hcounts.2]
    exact hm.released

/-- A lookup of which only some first sends were queued. -/
theorem inv_cancelUnfinished_sent {l : Lookup} (hl : Started l) {sent : ℕ} (hpos : 0 < sent) :
    Inv none { { DNS.disown l with servers := l.servers.take sent }.cancelUnfinished with
      record := none } := by
  have hstarted := hl.take hpos
  have hinv := hstarted.inv
  have hcontrol := hstarted.control
  simp only [Lookup.control, Control.mk.injEq, true_and] at hcontrol
  obtain ⟨hres, hev, hrel, hrec, hdes, -⟩ := hcontrol
  have hm := hinv.evictRecord hrec
  unfold evictRecord at hm
  dsimp only at hm
  rw [touch_of_alive (show Lookup.destroyed { l with userCallbacks := [], servers := _ } = false
    from hdes)] at hm
  rw [disown_eq hl]
  exact hm.cancelUnfinished hrel rfl

/-! ### Completions and the record -/

/-- A completion neither destroys the record nor hears of its end. -/
theorem completion_record {l t : Lookup} {e : Event} (he : e.completes = true)
    (hs : l.step e = some t) :
    t.recordEvicted = l.recordEvicted ∧ t.record.isSome = l.record.isSome := by
  have hsetRecord : ∀ (l : Lookup) (r : Record), (l.setRecord r).recordEvicted = l.recordEvicted ∧
      (l.setRecord r).record.isSome = l.record.isSome := by
    intro l r
    unfold setRecord
    split <;> simp [*]
  have htouch : ∀ l : Lookup, l.touch.recordEvicted = l.recordEvicted ∧ l.touch.record = l.record := by
    intro l
    unfold touch
    split <;> exact ⟨rfl, rfl⟩
  refine completion_keeps (I := fun t => t.recordEvicted = l.recordEvicted ∧
    t.record.isSome = l.record.isSome) ⟨rfl, rfl⟩ (fun _ _ _ _ h => h) ?_ ?_ ?_ he hs
  · intro l' h
    rw [(htouch l').1, (htouch l').2]
    exact h
  · intro l' i h
    have hfinish := control_cancel ((l'.touch).setServer i
      { (l'.touch).server i with finished := true }) i
    have hfin : (l'.touch.finishServer i).recordEvicted = l.recordEvicted ∧
        (l'.touch.finishServer i).record.isSome = l.record.isSome := by
      have hev := congrArg Control.recordEvicted hfinish
      have hrec := congrArg Control.record hfinish
      replace hev : (l'.touch.finishServer i).recordEvicted = l'.touch.recordEvicted := hev
      replace hrec : (l'.touch.finishServer i).record = l'.touch.record := hrec
      rw [hev, hrec, (htouch l').1, (htouch l').2]
      exact h
    unfold release
    dsimp only
    split
    · rw [(htouch l').1, (htouch l').2]
      exact h
    split
    · unfold controlRelease
      split
      · exact hfin
      simp only [emit]
      split
      · exact hfin
      split
      · exact hfin
      · obtain ⟨hev, hrec⟩ := hsetRecord { l'.touch.finishServer i with released := true } ⟨.none, 0⟩
        exact ⟨hev.trans hfin.1, hrec.trans hfin.2⟩
    · exact hfin
  · intro l' i cause dupe now h
    have hcontrol := control_cancelUnfinished { l'.touch with resolved := true }
    have hev : { l'.touch with resolved := true }.cancelUnfinished.recordEvicted = l.recordEvicted :=
      (congrArg Control.recordEvicted hcontrol).trans ((htouch l').1.trans h.1)
    have hrec : { l'.touch with resolved := true }.cancelUnfinished.record.isSome =
        l.record.isSome :=
      (congrArg (fun c => (Control.record c).isSome) hcontrol).trans
        ((congrArg Option.isSome (htouch l').2).trans h.2)
    unfold markResolved
    split
    · rw [(htouch l').1, (htouch l').2]
      exact h
    dsimp only
    split
    · exact ⟨hev, hrec⟩
    · rename_i l'' hsetup
      obtain ⟨-, rfl⟩ | ⟨-, r, -, rfl⟩ := setupRecord_cases hsetup
      · exact ⟨hev, hrec⟩
      · obtain ⟨hev', hrec'⟩ := hsetRecord { l'.touch with resolved := true }.cancelUnfinished r
        exact ⟨hev'.trans hev, hrec'.trans hrec⟩

end Lookup

namespace DNS

variable {s : Setup} {w : DNS}

namespace HeapOk

/-! ### The entry points -/

/-- The calls, the ready queue and what callbacks saw do not matter. -/
theorem congr {detached : List ℕ} {held : Option ℕ} (h : HeapOk s detached held w)
    (requests : List Request) (ready : List Dispatched) (ran : List (CallbackId × Seen)) :
    HeapOk s detached held { w with requests := requests, ready := ready, ran := ran } :=
  ⟨h.entries, h.cached, h.alive, h.nodup, h.fresh, h.owner, h.back, h.allocated, h.lookups, h.setup,
    h.safe⟩

theorem failPrepare {r : ℕ} {record : Record} (h : HeapOk s [] (some r) w) :
    HeapOk s [] none (w.failPrepare r record) :=
  h.addControl rfl nofun rfl (Lookup.inv_controlRelease_empty record)

theorem failQueue {r sent : ℕ} {l : Lookup} (h : HeapOk s [] (some r) w) (hl : l.Started) :
    HeapOk s [] none (w.failQueue r l sent) := by
  have hcontrol := hl.control
  simp only [Lookup.control, Lookup.Control.mk.injEq, true_and] at hcontrol
  obtain ⟨hres, -, hrel, -⟩ := hcontrol
  unfold DNS.failQueue
  split
  · have hinv := Lookup.inv_controlRelease_unsent hl
    have heq : { disown l with servers := [] }.controlRelease.record = some ⟨.none, 0⟩ ∧
        { disown l with servers := [] }.controlRelease.recordEvicted = true := by
      simp [Lookup.disown_eq hl, Lookup.controlRelease, hrel, hres, Lookup.dispatchAll, Lookup.emit]
    exact h.addControl heq.1 (by simp) (if_pos heq.2) hinv
  · rename_i hsent
    have hinv := Lookup.inv_cancelUnfinished_sent hl (Nat.pos_of_ne_zero hsent)
    have hctl := Lookup.control_cancelUnfinished { disown l with servers := l.servers.take sent }
    have hrec : { disown l with servers := l.servers.take sent }.cancelUnfinished.record =
        some ⟨.none, 0⟩ := by
      rw [Lookup.disown_eq hl] at hctl ⊢
      exact congrArg Lookup.Control.record hctl
    have hev : { disown l with servers := l.servers.take sent }.cancelUnfinished.recordEvicted =
        true := congrArg Lookup.Control.recordEvicted hctl
    exact h.addControl hrec (by simp) (if_pos hev) hinv

/-- `queue`, on all its paths. -/
theorem queue {slot : ℕ} {hostname : Datagram} {callback : CallbackId} {ipv6Supported : Bool}
    {questionType : Option QuestionType} {env : QueueEnv} (h : HeapOk s [] none w)
    (hslot : slot = s.getCacheSlot hostname) :
    HeapOk s [] none (w.queue s slot hostname callback ipv6Supported questionType env).1 := by
  unfold DNS.queue
  split
  · exact h
  dsimp only
  split
  · rename_i w' hcreate
    exact h.createRecord_none hcreate
  rename_i w' r hcreate
  obtain ⟨rfl, hw'⟩ := h.createRecord_some (some w.nextRecord) hslot (.inl ⟨rfl, rfl⟩) hcreate
  split
  · exact hw'.failPrepare
  rename_i l hl
  have hstarted := Lookup.queue_started hl
  have hcontrol := hstarted.control
  simp only [Lookup.control, Lookup.Control.mk.injEq, true_and] at hcontrol
  obtain ⟨-, hev, -, hrec, -⟩ := hcontrol
  have hadd : HeapOk s [] none (w'.addControl l w.nextRecord) :=
    hw'.addControl hrec (fun _ => hev) ((if_neg (by simp [hev])).trans hrec.symm) hstarted.inv
  split
  · split
    · exact hw'.failPrepare
    · exact hadd
  · split
    · exact hw'.failQueue hstarted
    · exact hadd
  · exact hw'.failPrepare
  · exact hadd

/-- A record `Cache.get` returns is alive. -/
theorem cacheGet_some {slot r : ℕ} {hostname : Datagram} {now : ℤ} {w' : DNS}
    (h : HeapOk s [] none w) (hget : w.cacheGet slot hostname now = (w', some r)) :
    ∃ cell, w'.records r = some cell ∧ w.records r = some cell ∧ cell.hostname = hostname ∧
      now ≤ cell.record.expireAt ∧ (hostname, r) ∈ (w.cacheEntries slot).entries := by
  have hfst := (w.cacheEntries slot).get_fst hostname
  unfold DNS.cacheGet at hget
  split at hget
  · exact nomatch (Prod.mk.inj hget).2
  rename_i r' c heq
  rw [heq] at hfst
  have hmem := Lru.find?_eq_some.1 hfst.symm
  obtain ⟨-, -, cell, hcell, hname⟩ := h.entries slot _ hmem
  rw [hcell] at hget
  dsimp only at hget
  split at hget
  · exact nomatch (Prod.mk.inj hget).2
  · rename_i hlive
    obtain ⟨rfl, hr⟩ := Prod.mk.inj hget
    obtain rfl := Option.some.inj hr
    exact ⟨cell, hcell, hcell, hname, Int.not_lt.1 hlive, hmem⟩

theorem attachOrQueue {slot r : ℕ} {hostname : Datagram} {callback : CallbackId}
    {ipv6Supported : Bool} {questionType : Option QuestionType} {env : CallEnv}
    (h : HeapOk s [] none w) (hslot : slot = s.getCacheSlot hostname) (hr : (w.records r).isSome) :
    HeapOk s [] none
      (w.attachOrQueue s slot r hostname callback ipv6Supported questionType env).1 := by
  have happend := h.appendCallback hr callback env.append
  unfold DNS.attachOrQueue
  split <;> rename_i w' heq <;> rw [heq] at happend
  · exact happend
  · exact happend
  · exact happend.queue hslot

theorem seed {slot : ℕ} {hostname : Datagram} {addresses : List Address} {env : CallEnv}
    (h : HeapOk s [] none w) (hslot : slot = s.getCacheSlot hostname) :
    HeapOk s [] none (w.seed slot hostname addresses env).1 := by
  unfold DNS.seed
  split
  · exact h
  split
  · rename_i w' hcreate
    exact h.createRecord_none hcreate
  · rename_i w' r hcreate
    exact (h.createRecord_some none hslot (.inr ⟨rfl, by simp⟩) hcreate).2

theorem lookup {hostname : Datagram} {callback : Option CallbackId} {env : CallEnv}
    (h : HeapOk s [] none w) : HeapOk s [] none (w.lookup s hostname callback env).1 := by
  unfold DNS.lookup
  split
  · exact h
  dsimp only
  have hget := h.cacheGet (s.getCacheSlot (lowerString hostname)) (lowerString hostname) env.now
  split
  · rename_i w' heq
    rw [heq] at hget
    split
    · exact hget
    split
    · exact hget
    · exact hget.queue rfl
    · exact hget.seed rfl
  · rename_i w' r heq
    rw [heq] at hget
    obtain ⟨cell, hcell, -⟩ := h.cacheGet_some heq
    split
    · exact hget
    split
    · exact hget
    · exact hget.attachOrQueue rfl (Option.isSome_iff_exists.2 ⟨cell, hcell⟩)

theorem reverseLookup {address : Address} {callback : CallbackId} {env : CallEnv}
    (h : HeapOk s [] none w) : HeapOk s [] none (w.reverseLookup s address callback env).1 := by
  unfold DNS.reverseLookup
  dsimp only
  have hget := h.cacheGet (s.getCacheSlot (buildReverseName address)) (buildReverseName address)
    env.now
  split
  · rename_i w' heq
    rw [heq] at hget
    exact hget.queue rfl
  · rename_i w' r heq
    rw [heq] at hget
    obtain ⟨cell, hcell, -⟩ := h.cacheGet_some heq
    split
    · split
      · exact hget.congr _ _ _
      · exact hget
    · exact hget.attachOrQueue rfl (Option.isSome_iff_exists.2 ⟨cell, hcell⟩)

theorem readBack {request : Request} {env : CallEnv} (h : HeapOk s [] none w) :
    HeapOk s [] none (w.readBack s request env).1 := by
  unfold DNS.readBack
  split
  · have hget := h.cacheGet (s.getCacheSlot request.name) request.name env.now
    split <;> rename_i heq <;> rw [heq] at hget
    · exact hget
    · split <;> exact hget
  · have hl : HeapOk s [] none (w.lookup s request.name none env).1 := h.lookup
    split <;> rename_i heq <;> rw [heq] at hl <;> exact hl

theorem runCallback {index : ℕ} {env : CallEnv} {w' : DNS} (h : HeapOk s [] none w)
    (hs : w.runCallback s index env = some w') : HeapOk s [] none w' := by
  unfold DNS.runCallback at hs
  split at hs
  · exact nomatch hs
  dsimp only at hs
  split at hs
  · obtain rfl := Option.some.inj hs
    exact h.congr _ _ _
  split at hs
  · exact nomatch hs
  obtain rfl := Option.some.inj hs
  exact ((h.congr _ _ _).readBack).congr _ _ _

/-! ### Completions -/

end HeapOk

theorem view_eq {l : Lookup} {r : ℕ}
    (h : (if l.recordEvicted then none else (w.records r).map (·.record)) = l.record) :
    w.view ⟨{ l with record := none }, r⟩ = l := by
  unfold view
  dsimp only
  rw [h]

/-- The control data shows the lookup that was stored. -/
theorem view_store {cd : ControlCell} {c : ℕ} {l : Lookup}
    (hev : l.recordEvicted = cd.lookup.recordEvicted)
    (hsome : l.record.isSome = (w.view cd).record.isSome) :
    (w.store c cd l).view ⟨{ l with record := none }, cd.record⟩ = l := by
  apply view_eq
  rw [hev]
  cases hrec : l.record with
  | none =>
    have hnone : (w.view cd).record = none := by simpa [hrec] using hsome.symm
    have hrecords : (w.store c cd l).records = w.records := by
      simp only [store, writeRecord, hrec]
    rw [hrecords]
    exact hnone
  | some record =>
    rw [hrec] at hsome
    obtain ⟨r, hr⟩ := Option.isSome_iff_exists.1 hsome.symm
    obtain ⟨hev', cell, hcell, -⟩ := view_record hr
    have hrecords : (w.store c cd l).records cd.record = some { cell with record := record } := by
      simp only [store, writeRecord, hrec, hcell, setCell]
      exact Function.update_self _ _ _
    rw [hrecords, hev', if_neg Bool.false_ne_true]
    rfl

namespace HeapOk

/-- What is stored for a control data only has to keep the invariant of the lookup. -/
theorem store {c : ℕ} {cd : ControlCell} {l : Lookup} (h : HeapOk s [] none w)
    (hc : w.controls[c]? = some cd) (hev : l.recordEvicted = cd.lookup.recordEvicted)
    (hsome : l.record.isSome = (w.view cd).record.isSome) (hinv : Lookup.Inv none l) :
    HeapOk s [] none (w.store c cd l) := by
  have hview := view_store (c := c) hev hsome
  cases hrec : l.record with
  | none =>
    have heq : w.store c cd l = { w with
        controls := w.controls.set c ⟨{ l with record := none }, cd.record⟩
        ready := w.ready ++ dispatches (l.trace.drop cd.lookup.trace.length) } := by
      simp only [DNS.store, writeRecord, hrec]
    rw [heq] at hview ⊢
    refine h.update hc rfl rfl rfl rfl rfl (fun _ _ => rfl) rfl ?_ (hview ▸ hinv)
    intro cell hcell hp
    by_contra hne
    -- the record is alive although its control data was told otherwise
    obtain ⟨c', cd', hptr, hc', hrec', hev'⟩ := h.owner cd.record cell hcell hp (by simp)
    have := Option.some.inj ((h.back c cd cell hc hcell).symm.trans hptr)
    subst this
    obtain rfl := Option.some.inj (hc.symm.trans hc')
    exact hne (hev.trans hev')
  | some record =>
    rw [hrec] at hsome
    obtain ⟨r, hr⟩ := Option.isSome_iff_exists.1 hsome.symm
    obtain ⟨hev', cell, hcell, -⟩ := view_record hr
    have heq : w.store c cd l = { w.setCell cd.record (some { cell with record := record }) with
        controls := w.controls.set c ⟨{ l with record := none }, cd.record⟩
        ready := w.ready ++ dispatches (l.trace.drop cd.lookup.trace.length) } := by
      simp only [DNS.store, writeRecord, hrec, hcell]
      rfl
    rw [heq] at hview ⊢
    refine h.update hc rfl rfl rfl rfl rfl ?_ ?_ (fun _ _ _ => hev.trans hev') (hview ▸ hinv)
    · intro r' hr'
      exact Function.update_of_ne hr' _ _
    · rw [hcell, show (w.setCell cd.record (some { cell with record := record })).records cd.record =
        some { cell with record := record } from Function.update_self _ _ _]
      rfl

/-- A completion of a control data. -/
theorem serverEvent {c : ℕ} {e : Lookup.Event} {w' : DNS} (h : HeapOk s [] none w)
    (hs : w.serverEvent c e = some w') : HeapOk s [] none w' := by
  unfold DNS.serverEvent at hs
  split at hs
  · exact nomatch hs
  rename_i cd hc
  split at hs
  · rename_i he
    obtain ⟨l, hl, rfl⟩ := Option.map_eq_some_iff.1 hs
    obtain ⟨hev, hsome⟩ := Lookup.completion_record he hl
    exact h.store hc hev hsome ((h.lookups cd (List.mem_of_getElem? hc)).step hl)
  · exact nomatch hs

end HeapOk

/-! ### After `deinit` -/

theorem cacheEntries_evictRecord (w : DNS) (r : ℕ) :
    (w.evictRecord r).cacheEntries = w.cacheEntries := by
  unfold evictRecord
  split
  · rfl
  split
  · unfold setRecordEvicted
    split
    · rfl
    split <;> rfl
  · rfl

theorem cacheEntries_evictAll (w : DNS) (entries : List (Datagram × ℕ)) :
    (w.evictAll entries).cacheEntries = w.cacheEntries := by
  induction entries generalizing w with
  | nil => rfl
  | cons p entries ih => exact (ih _).trans (cacheEntries_evictRecord w p.2)

/-- `Cache.deinit` for the first slots. -/
theorem HeapOk.deinitCaches (h : HeapOk s [] none w) (n : ℕ) :
    HeapOk s [] none ((List.range n).foldl deinitCache w) ∧
      ∀ slot < n, (((List.range n).foldl deinitCache w).cacheEntries slot).entries = [] := by
  induction n with
  | zero => exact ⟨h, nofun⟩
  | succ n ih =>
    rw [List.range_succ, List.foldl_append, List.foldl_cons, List.foldl_nil]
    generalize (List.range n).foldl deinitCache w = w' at ih
    obtain ⟨hw', hempty⟩ := ih
    have hperm : (w'.cacheEntries n).entries.Perm
        ((w'.cacheEntries n).entries ++ (Lru.empty : Lru Datagram ℕ 1024).entries) := by
      rw [show (Lru.empty : Lru Datagram ℕ 1024).entries = [] from rfl, List.append_nil]
    refine ⟨?_, ?_⟩
    · refine HeapOk.evictAll ?_
      rw [List.append_nil]
      exact hw'.setCache hperm
    · intro slot hslot
      rw [deinitCache, cacheEntries_evictAll]
      by_cases heq : slot = n
      · rw [heq, cacheEntries_setCache_self]
        rfl
      · rw [cacheEntries_setCache_of_ne heq]
        exact hempty slot (by omega)

/-- With all slots empty no record is left. -/
theorem HeapOk.no_records (h : HeapOk s [] none w)
    (hempty : ∀ slot < s.cacheSlots, (w.cacheEntries slot).entries = []) (r : ℕ) :
    w.records r = none := by
  by_contra hne
  obtain ⟨cell, hcell⟩ := Option.ne_none_iff_exists'.1 hne
  have hmem := h.cached r cell hcell (by simp)
  rw [hempty (s.getCacheSlot cell.hostname) (Nat.mod_lt _ s.slots_pos)] at hmem
  exact nomatch hmem

/-- What holds of a control data once the cache is gone. -/
structure LeftAlone (l : Lookup) : Prop where
  safe : l.useAfterFree = false
  evicted : l.destroyed = false → l.resolved = false → l.recordEvicted = true
  idle : l.destroyed = true → ∀ i, (l.server i).op = none

/-- The cache is gone, and the control data are left alone. -/
structure Drained (w : DNS) : Prop where
  records : ∀ r, w.records r = none
  controls : ∀ cd ∈ w.controls, LeftAlone cd.lookup
  safe : w.useAfterFree = false

theorem HeapOk.drained (h : HeapOk s [] none w) (hnone : ∀ r, w.records r = none) : Drained w where
  records := hnone
  safe := h.safe
  controls := by
    intro cd hcd
    have hinv := h.lookups cd hcd
    have hrecord : (w.view cd).record = none := by simp [view, hnone]
    refine ⟨hinv.control.safe, ?_, ?_⟩
    · intro hdes hres
      by_contra hev
      have hrel : (w.view cd).released = false := hinv.control.destroyed.symm.trans hdes
      obtain ⟨r, hr, -⟩ := hinv.control.pending (Bool.eq_false_iff.2 hev) hres hrel
      cases hrecord.symm.trans hr
    · intro hdes i
      by_cases hi : i < cd.lookup.servers.length
      · have hrel : (w.view cd).released = true := hinv.control.destroyed.symm.trans hdes
        have hfin := (hinv.released_iff_finished.1 hrel) i hi
        exact ((hinv.servers.ops i hi).1 hfin).1
      · rw [Lookup.server_of_le (Nat.le_of_not_lt hi)]
        rfl

/-- A control data is stored while no record is left. -/
theorem Drained.store {c : ℕ} {cd : ControlCell} {l : Lookup} (h : Drained w)
    (hrecord : l.record = none) (hl : LeftAlone l) : Drained (w.store c cd l) := by
  have heq : w.store c cd l = { w with
      controls := w.controls.set c ⟨{ l with record := none }, cd.record⟩
      ready := w.ready ++ dispatches (l.trace.drop cd.lookup.trace.length) } := by
    simp only [DNS.store, writeRecord, hrecord]
  rw [heq]
  refine ⟨h.records, ?_, h.safe⟩
  intro cd' hcd'
  obtain hold | rfl := List.mem_or_eq_of_mem_set hcd'
  · exact h.controls cd' hold
  · exact ⟨hl.safe, hl.evicted, hl.idle⟩

theorem Drained.view_eq (h : Drained w) (cd : ControlCell) :
    w.view cd = { cd.lookup with record := none } := by
  simp [view, h.records]

/-- The release of a control data whose destruction is deferred. -/
theorem deferRelease_eq {l : Lookup} (hrel : l.released = false)
    (hev : l.resolved = false → l.recordEvicted = true) :
    deferRelease l = { l with
      released := true
      trace := l.trace ++ (if l.resolved then [] else l.userCallbacks.map (Effect.dispatch · true)) ++
        [.released] } := by
  unfold deferRelease
  rw [hrel, if_neg Bool.false_ne_true]
  cases hres : l.resolved with
  | true => simp [Lookup.emit]
  | false => simp [Lookup.emit, Lookup.dispatchAll, hev hres]

/-- All control data up to `c` are released, and none is destroyed by it. -/
theorem Drained.deferControl (h : Drained w) (hw : ∀ cd ∈ w.controls, cd.lookup.released = false →
    cd.lookup.destroyed = false) (c : ℕ) :
    Drained (w.deferControl c) ∧ (w.deferControl c).controls.length = w.controls.length ∧
      (∀ cd ∈ (w.deferControl c).controls, cd.lookup.released = false →
        cd.lookup.destroyed = false) ∧
      ∀ (c' : ℕ) (cd' : ControlCell), (w.deferControl c).controls[c']? = some cd' →
        cd'.lookup.released = true ∨
          c' ≠ c ∧ ∃ cd, w.controls[c']? = some cd ∧ cd.lookup.released = cd'.lookup.released := by
  unfold DNS.deferControl
  split
  · rename_i hnone
    refine ⟨h, rfl, hw, ?_⟩
    intro c' cd' hc'
    refine .inr ⟨?_, cd', hc', rfl⟩
    rintro rfl
    cases hnone.symm.trans hc'
  rename_i cd hc
  have hcd := h.controls cd (List.mem_of_getElem? hc)
  have hclt := (List.getElem?_eq_some_iff.1 hc).1
  split
  · rename_i hrel
    refine ⟨h, rfl, hw, ?_⟩
    intro c' cd' hc'
    by_cases heq : c' = c
    · subst heq
      obtain rfl := Option.some.inj (hc.symm.trans hc')
      exact .inl hrel
    · exact .inr ⟨heq, cd', hc', rfl⟩
  · rename_i hrel
    replace hrel : cd.lookup.released = false := by simpa using hrel
    have hdes := hw cd (List.mem_of_getElem? hc) hrel
    have heq := deferRelease_eq (l := w.view cd) hrel (hcd.evicted hdes)
    obtain ⟨l, hl⟩ : ∃ l, l = deferRelease (w.view cd) := ⟨_, rfl⟩
    rw [← hl] at heq ⊢
    have hrecord : l.record = none := by rw [heq, h.view_eq]
    have hreleased : l.released = true := by rw [heq]
    have hleft : LeftAlone l := by
      rw [heq, h.view_eq]
      exact ⟨hcd.safe, hcd.evicted, hcd.idle⟩
    have hcontrols : (w.store c cd l).controls =
        w.controls.set c ⟨{ l with record := none }, cd.record⟩ := by
      simp only [DNS.store, writeRecord, hrecord]
    refine ⟨h.store hrecord hleft, by rw [hcontrols, List.length_set], ?_, ?_⟩
    · intro cd' hcd' hrel'
      rw [hcontrols] at hcd'
      obtain hold | rfl := List.mem_or_eq_of_mem_set hcd'
      · exact hw cd' hold hrel'
      · cases hreleased.symm.trans hrel'
    · intro c' cd' hc'
      rw [hcontrols] at hc'
      obtain ⟨rfl, rfl⟩ | ⟨hne, hc'⟩ := getElem?_set_cases hclt hc'
      · exact .inl hreleased
      · exact .inr ⟨hne, cd', hc', rfl⟩

/-- The release of all control data in `deinit`. -/
theorem Drained.deferControls (h : Drained w) (hw : ∀ cd ∈ w.controls, cd.lookup.released = false →
    cd.lookup.destroyed = false) (n : ℕ) :
    Drained ((List.range n).foldl DNS.deferControl w) ∧
      ((List.range n).foldl DNS.deferControl w).controls.length = w.controls.length ∧
      (∀ cd ∈ ((List.range n).foldl DNS.deferControl w).controls, cd.lookup.released = false →
        cd.lookup.destroyed = false) ∧
      ∀ (c : ℕ) (cd : ControlCell), c < n →
        ((List.range n).foldl DNS.deferControl w).controls[c]? = some cd →
          cd.lookup.released = true := by
  induction n with
  | zero => exact ⟨h, rfl, hw, fun c cd hc => absurd hc (Nat.not_lt_zero c)⟩
  | succ n ih =>
    rw [List.range_succ, List.foldl_append, List.foldl_cons, List.foldl_nil]
    generalize (List.range n).foldl DNS.deferControl w = w' at ih
    obtain ⟨hd, hlen, hw', hrel⟩ := ih
    obtain ⟨hd', hlen', hw'', hcases⟩ := hd.deferControl hw' n
    refine ⟨hd', hlen'.trans hlen, hw'', ?_⟩
    intro c cd hc hcd
    obtain hreleased | ⟨hne, cd₀, hc₀, heq⟩ := hcases c cd hcd
    · exact hreleased
    · rw [← heq]
      exact hrel c cd₀ (by omega) hc₀

/-- `DNS.deinit`. -/
theorem HeapOk.deinit (h : HeapOk s [] none w) :
    Drained (w.deinit s) ∧ ∀ cd ∈ (w.deinit s).controls, cd.lookup.released = true := by
  obtain ⟨hheap, hempty⟩ := h.deinitCaches s.cacheSlots
  unfold DNS.deinit
  generalize (List.range s.cacheSlots).foldl deinitCache w = w' at hheap hempty
  have hdrained := hheap.drained (hheap.no_records hempty)
  have hw' : ∀ cd ∈ w'.controls, cd.lookup.released = false → cd.lookup.destroyed = false := by
    intro cd hcd hrel
    exact (hheap.lookups cd hcd).control.destroyed.trans hrel
  obtain ⟨hd, hlen, -, hrel⟩ := hdrained.deferControls hw' w'.controls.length
  refine ⟨⟨hd.records, hd.controls, hd.safe⟩, ?_⟩
  intro cd hcd
  obtain ⟨c, hc⟩ := List.mem_iff_getElem?.1 hcd
  have hlt := (List.getElem?_eq_some_iff.1 hc).1
  exact hrel c cd (hlen ▸ hlt) hc

/-- A released lookup that is not destroyed leaves its record alone. -/
structure Deferred (l : Lookup) : Prop where
  released : l.released = true
  alive : l.destroyed = false
  safe : l.useAfterFree = false
  evicted : l.resolved = false → l.recordEvicted = true
  record : l.record = none

namespace Deferred

variable {l : Lookup}

theorem of_control {l' : Lookup} (h : Deferred l) (hc : l'.control = l.control) : Deferred l' := by
  simp only [Lookup.control, Lookup.Control.mk.injEq] at hc
  obtain ⟨-, hres, hev, hrel, hrec, hdes, huaf, -⟩ := hc
  exact ⟨hrel.trans h.released, hdes.trans h.alive, huaf.trans h.safe,
    fun hr => hev.trans (h.evicted (hres.symm.trans hr)), hrec.trans h.record⟩

theorem release (h : Deferred l) (i : ℕ) : Deferred (l.release i) := by
  have hfin : Deferred (l.finishServer i) :=
    h.of_control ((Lookup.control_cancel (l.setServer i _) i).trans (Lookup.control_setServer l i _))
  unfold Lookup.release
  rw [Lookup.touch_of_alive h.alive]
  dsimp only
  split
  · exact h
  split
  · unfold Lookup.controlRelease
    rw [hfin.released, if_pos rfl]
    exact hfin
  · exact hfin

theorem markResolved (h : Deferred l) (i : ℕ) (cause : Cause) (dupe : Bool) (now : ℤ) :
    Deferred (l.markResolved i cause dupe now).1 := by
  have hcontrol := Lookup.control_cancelUnfinished { l with resolved := true }
  unfold Lookup.markResolved
  rw [Lookup.touch_of_alive h.alive]
  split
  · exact h
  rename_i hres
  have hev := h.evicted (by simpa using hres)
  have hmarked : Deferred { l with resolved := true } :=
    ⟨h.released, h.alive, h.safe, (fun hr => nomatch (show true = false from hr)), h.record⟩
  have hcancel := hmarked.of_control hcontrol
  have hevicted : { l with resolved := true }.cancelUnfinished.recordEvicted = true :=
    (congrArg Lookup.Control.recordEvicted hcontrol).trans hev
  dsimp only
  split
  · exact ⟨hcancel.released, hcancel.alive, hcancel.safe, fun _ => hevicted, hcancel.record⟩
  · rename_i l'' hsetup
    obtain ⟨-, rfl⟩ | ⟨hnot, -⟩ := Lookup.setupRecord_cases hsetup
    · exact ⟨hcancel.released, hcancel.alive, hcancel.safe, fun _ => hevicted, hcancel.record⟩
    · exact nomatch hevicted.symm.trans hnot

/-- A completion that comes in while the loop is torn down. -/
theorem step {e : Lookup.Event} {t : Lookup} (h : Deferred l) (he : e.completes = true)
    (hs : l.step e = some t) : Deferred t :=
  Lookup.completion_keeps h (fun l i sd _ hl => hl.of_control (Lookup.control_setServer l i sd))
    (fun l hl => by rwa [Lookup.touch_of_alive hl.alive]) (fun l i hl => hl.release i)
    (fun l i cause dupe now hl => hl.markResolved i cause dupe now) he hs

end Deferred

/-- An event can only complete what is outstanding. -/
theorem op_of_step {l t : Lookup} {e : Lookup.Event} (he : e.completes = true)
    (hs : l.step e = some t) : ∃ i, (l.server i).op ≠ none := by
  cases e with
  | querySent i failed cancelled dupe now =>
    simp only [Lookup.step] at hs
    split at hs
    · rename_i hop
      exact ⟨i, by simp [hop]⟩
    · cases hs
  | response i datagram cancelled allocs now =>
    simp only [Lookup.step] at hs
    split at hs
    · rename_i hop
      exact ⟨i, by simp [hop.1]⟩
    · cases hs
  | cleanup i =>
    simp only [Lookup.step] at hs
    split at hs
    · rename_i hop
      exact ⟨i, by simp [hop]⟩
    · cases hs
  | attach callback alloc => cases he
  | evict => cases he

/-- A completion after `deinit`. -/
theorem Drained.serverEvent {c : ℕ} {e : Lookup.Event} {w' : DNS} (h : Drained w)
    (hrel : ∀ cd ∈ w.controls, cd.lookup.released = true) (hs : w.serverEvent c e = some w') :
    Drained w' ∧ ∀ cd ∈ w'.controls, cd.lookup.released = true := by
  unfold DNS.serverEvent at hs
  split at hs
  · exact nomatch hs
  rename_i cd hc
  split at hs
  · rename_i he
    obtain ⟨l, hl, rfl⟩ := Option.map_eq_some_iff.1 hs
    have hmem := List.mem_of_getElem? hc
    have hcd := h.controls cd hmem
    -- an operation is outstanding, so the control data is not destroyed
    have hdes : cd.lookup.destroyed = false := by
      by_contra hdes
      obtain ⟨i, hi⟩ := op_of_step he hl
      exact hi (hcd.idle (by simpa using hdes) i)
    have hview : Deferred (w.view cd) := by
      rw [h.view_eq]
      exact ⟨hrel cd hmem, hdes, hcd.safe, hcd.evicted hdes, rfl⟩
    have hnew := hview.step he hl
    refine ⟨h.store hnew.record ⟨hnew.safe, fun _ => hnew.evicted, ?_⟩, ?_⟩
    · intro hdes'
      exact nomatch hnew.alive.symm.trans hdes'
    · intro cd' hcd'
      simp only [DNS.store, writeRecord, hnew.record] at hcd'
      obtain hold | rfl := List.mem_or_eq_of_mem_set hcd'
      · exact hrel cd' hold
      · exact hnew.released
  · exact nomatch hs

/-! ### Every run -/

/-- What holds of the memory in each phase. -/
def MemoryOk (s : Setup) (w : DNS) : Prop :=
  match w.phase with
  | .running => HeapOk s [] none w
  | .deinitialized => Drained w ∧ ∀ cd ∈ w.controls, cd.lookup.released = true
  | .over => (∀ r, w.records r = none) ∧ w.useAfterFree = false ∧
      ∀ cd ∈ w.controls, cd.lookup.useAfterFree = false ∧ cd.lookup.destroyed = true

theorem MemoryOk.of_running {w' : DNS} (h : HeapOk s [] none w') (hphase : w'.phase = .running) :
    MemoryOk s w' := by
  unfold MemoryOk
  rw [hphase]
  exact h

/-- The phase and the calls made. -/
def calls (w : DNS) : Phase × List Request := (w.phase, w.requests)

theorem calls_of_log {w' : DNS} (h : w'.log = w.log) : w'.calls = w.calls := by
  simp only [log, Prod.mk.injEq] at h
  exact Prod.ext h.1 h.2.1

theorem calls_store (w : DNS) (c : ℕ) (cd : ControlCell) (l : Lookup) :
    (w.store c cd l).calls = w.calls := by
  have hwrite : (w.writeRecord cd.record l.record).calls = w.calls :=
    calls_of_log (log_writeRecord w cd.record l.record)
  exact hwrite

theorem calls_serverEvent {c : ℕ} {e : Lookup.Event} {w' : DNS} (hs : w.serverEvent c e = some w') :
    w'.calls = w.calls := by
  unfold DNS.serverEvent at hs
  split at hs
  · exact nomatch hs
  split at hs
  · obtain ⟨l, -, rfl⟩ := Option.map_eq_some_iff.1 hs
    exact calls_store _ _ _ _
  · exact nomatch hs

theorem calls_reverseLookup (s : Setup) (w : DNS) (address : Address) (callback : CallbackId)
    (env : CallEnv) : (w.reverseLookup s address callback env).1.calls = w.calls := by
  have hget := log_cacheGet w (s.getCacheSlot (buildReverseName address)) (buildReverseName address)
    env.now
  unfold reverseLookup
  dsimp only
  split <;> rename_i heq <;> rw [heq] at hget
  · exact calls_of_log ((log_queue _ _ _ _ _ _ _ _).trans hget)
  · rename_i w₁ r
    have hcalls : w₁.calls = w.calls := calls_of_log hget
    split
    · split <;> exact hcalls
    · exact (calls_of_log (log_attachOrQueue _ _ _ _ _ _ _ _ _)).trans hcalls

theorem log_readBack (s : Setup) (w : DNS) (request : Request) (env : CallEnv) :
    (w.readBack s request env).1.log = w.log := by
  unfold readBack
  split
  · have hget := log_cacheGet w (s.getCacheSlot request.name) request.name env.now
    split <;> rename_i heq <;> rw [heq] at hget
    · exact hget
    · split <;> exact hget
  · have hl := log_lookup s w request.name none env
    split <;> rename_i heq <;> rw [heq] at hl <;> exact hl

theorem calls_runCallback {index : ℕ} {env : CallEnv} {w' : DNS}
    (hs : w.runCallback s index env = some w') : w'.calls = w.calls := by
  unfold DNS.runCallback at hs
  split at hs
  · exact nomatch hs
  dsimp only at hs
  split at hs
  · obtain rfl := Option.some.inj hs
    rfl
  split at hs
  · exact nomatch hs
  · rename_i request _
    have hread := calls_of_log (log_readBack s { w with ready := w.ready.eraseIdx index } request env)
    obtain rfl := Option.some.inj hs
    exact hread

/-- **The rule of `deinit`.** It empties the slots and stores the control data that are not released. -/
theorem deinit_keeps {I : DNS → Prop} (h : I w) (hphase : ∀ w, I w → I { w with phase := .deinitialized })
    (hcache : ∀ w slot, I w → I (deinitCache w slot))
    (hstore : ∀ w c cd, w.controls[c]? = some cd → I w → I (w.store c cd (deferRelease (w.view cd)))) :
    I (w.deinit s) := by
  have hcaches : ∀ (slots : List ℕ) (w : DNS), I w → I (slots.foldl deinitCache w) := by
    intro slots
    induction slots with
    | nil => exact fun _ h => h
    | cons slot slots ih => exact fun w h => ih _ (hcache w slot h)
  have hcontrols : ∀ (cs : List ℕ) (w : DNS), I w → I (cs.foldl deferControl w) := by
    intro cs
    induction cs with
    | nil => exact fun _ h => h
    | cons c cs ih =>
      intro w h
      refine ih _ ?_
      unfold deferControl
      split
      · exact h
      rename_i cd hc
      split
      · exact h
      · exact hstore w c cd hc h
  exact hphase _ (hcontrols _ _ (hcaches _ w h))

theorem requests_deinit (s : Setup) (w : DNS) : (w.deinit s).requests = w.requests :=
  deinit_keeps (I := fun u => u.requests = w.requests) rfl (fun _ h => h)
    (fun _ _ h => (congrArg Prod.snd (calls_of_log (log_evictAll _ _))).trans h)
    (fun u c cd _ h => (congrArg Prod.snd (calls_store u c cd _)).trans h)

/-- **Every operation keeps the memory.** -/
theorem MemoryOk.step {e : Event} {w' : DNS} (h : MemoryOk s w) (hs : w.step s e = some w') :
    MemoryOk s w' := by
  unfold DNS.step at hs
  split at hs <;> rename_i hphase
  · obtain rfl := Option.some.inj hs
    rw [MemoryOk, hphase] at h
    exact .of_running (h.congr _ _ _).lookup ((congrArg Prod.fst (log_lookup _ _ _ _ _)).trans hphase)
  · obtain rfl := Option.some.inj hs
    rw [MemoryOk, hphase] at h
    exact .of_running (h.congr _ _ _).reverseLookup ((congrArg Prod.fst (calls_reverseLookup _ _ _ _ _)).trans hphase)
  · rw [MemoryOk, hphase] at h
    exact .of_running (h.serverEvent hs) ((congrArg Prod.fst (calls_serverEvent hs)).trans hphase)
  · rw [MemoryOk, hphase] at h
    exact .of_running (h.runCallback hs) ((congrArg Prod.fst (calls_runCallback hs)).trans hphase)
  · obtain rfl := Option.some.inj hs
    rw [MemoryOk, hphase] at h
    exact h.deinit
  · rw [MemoryOk, hphase] at h
    rw [MemoryOk, (show w'.phase = w.phase from congrArg Prod.fst (calls_serverEvent hs)).trans hphase]
    exact h.1.serverEvent h.2 hs
  · obtain rfl := Option.some.inj hs
    rw [MemoryOk, hphase] at h
    refine ⟨h.1.records, h.1.safe, ?_⟩
    intro cd hcd
    obtain ⟨cd₀, hcd₀, rfl⟩ := List.mem_map.1 hcd
    exact ⟨(h.1.controls cd₀ hcd₀).safe, rfl⟩
  · exact nomatch hs

/-- A record is in the cache. -/
def Cached (w : DNS) (r : ℕ) : Prop := ∃ slot, ∃ p ∈ (w.cacheEntries slot).entries, p.2 = r

/-- The pointers between records and control data. -/
structure PointersOk (w : DNS) : Prop where
  /-- a pending record points to a live, unresolved control data, which points back -/
  pending : ∀ r cell, w.records r = some cell → cell.record.state = .pending →
    ∃ c cd, cell.controlData = some c ∧ w.controls[c]? = some cd ∧ cd.record = r ∧
      cd.lookup.destroyed = false ∧ cd.lookup.resolved = false
  /-- an unresolved control data knows that its record left the cache -/
  evicted : ∀ cd ∈ w.controls, cd.lookup.destroyed = false → cd.lookup.resolved = false →
    ¬Cached w cd.record → cd.lookup.recordEvicted = true
  /-- a destroyed record has left the cache -/
  destroyed : ∀ r, w.records r = none → w.phase = .running → ¬Cached w r
  /-- no function of a lookup or of the cache used a record or a control data that was destroyed -/
  safe : w.useAfterFree = false ∧ ∀ cd ∈ w.controls, cd.lookup.useAfterFree = false

theorem HeapOk.pointersOk (h : HeapOk s [] none w) : PointersOk w where
  pending := by
    intro r cell hcell hp
    obtain ⟨c, cd, hptr, hc, hrec, -, hres, -, hdes⟩ := h.pending_owner hcell hp
    exact ⟨c, cd, hptr, hc, hrec, hdes, hres⟩
  evicted := by
    intro cd hcd hdes hres hout
    by_contra hev
    have hinv := h.lookups cd hcd
    have hrel : (w.view cd).released = false := hinv.control.destroyed.symm.trans hdes
    obtain ⟨r, hr, -⟩ := hinv.control.pending (Bool.eq_false_iff.2 hev) hres hrel
    obtain ⟨-, cell, hcell, -⟩ := view_record hr
    exact hout ⟨_, _, h.cached _ _ hcell (by simp), rfl⟩
  destroyed := by
    rintro r hnone - ⟨slot, p, hp, rfl⟩
    obtain ⟨-, -, cell, hcell, -⟩ := h.entries slot p hp
    exact nomatch hnone.symm.trans hcell
  safe := ⟨h.safe, fun cd hcd => (h.lookups cd hcd).control.safe⟩

theorem MemoryOk.pointersOk (h : MemoryOk s w) : PointersOk w := by
  unfold MemoryOk at h
  split at h
  · exact h.pointersOk
  · rename_i hphase
    obtain ⟨hd, hrel⟩ := h
    refine ⟨?_, fun cd hcd hdes hres _ => (hd.controls cd hcd).evicted hdes hres, ?_,
      hd.safe, fun cd hcd => (hd.controls cd hcd).safe⟩
    · intro r cell hcell
      exact nomatch (hd.records r).symm.trans hcell
    · intro r _ hrun
      exact nomatch hphase.symm.trans hrun
  · rename_i hphase
    obtain ⟨hnone, hsafe, hctl⟩ := h
    refine ⟨?_, ?_, ?_, hsafe, fun cd hcd => (hctl cd hcd).1⟩
    · intro r cell hcell
      exact nomatch (hnone r).symm.trans hcell
    · intro cd hcd hdes
      exact nomatch (hctl cd hcd).2.symm.trans hdes
    · intro r _ hrun
      exact nomatch hphase.symm.trans hrun

theorem memoryOk_of_reaches (hrun : Runs.Reaches (DNS.step s) (fun _ _ => True) .init w) :
    MemoryOk s w :=
  hrun.invariant (I := MemoryOk s) (HeapOk.init s) fun _ _ _ hu _ hs => hu.step hs

/-- **Nothing destroyed is used.** In every state of the resolver, whatever was looked up, answered,
evicted, failed or torn down before, the pointers between records and control data are sound. -/
theorem pointers_ok (hrun : Runs.Reaches (DNS.step s) (fun _ _ => True) .init w) : PointersOk w :=
  (memoryOk_of_reaches hrun).pointersOk

/-- Two nameservers, IPv4 only, and four slots. -/
def setupTwo : Setup where
  configuration := ⟨[.ip4 [1, 1, 1, 1], .ip4 [8, 8, 8, 8]], [], by simp⟩
  ipv6Supported := false
  cacheSlots := 4
  hash := List.length
  slots_pos := by decide

/-- A call at a time of the clock; nothing fails and all queries have id 1. -/
def calm (now : ℤ) : CallEnv where
  now := now
  seed := none
  append := true
  dispatch := true
  queue := ⟨none, fun _ _ => 1, id⟩

/-- The name `a` is being looked up. -/
theorem pointers_ok_pending :
    ∃ w, Runs.Reaches (DNS.step setupTwo) (fun _ _ => True) .init w ∧ w.state? 0 = some .pending ∧
      PointersOk w := by
  have hd : ((Runs.execWhile (DNS.step setupTwo) (fun _ _ => True) .init
      [.lookup [97] (calm 0)]).bind fun w => w.state? 0) = some .pending := by
    decide +kernel
  obtain ⟨w, hw, hstate⟩ := Option.bind_eq_some_iff.1 hd
  have hreach := Runs.Reaches.of_execWhile hw
  exact ⟨w, hreach, hstate, pointers_ok hreach⟩

/-- The first server answers, the callback reads the record after it expired, and the second server
is still being asked: the record is destroyed, and the control data was not told. -/
theorem evicted_without_notice :
    ∃ w cd, Runs.Reaches (DNS.step setupTwo) (fun _ _ => True) .init w ∧
      w.controls[0]? = some cd ∧ cd.lookup.destroyed = false ∧ w.records cd.record = none ∧
      ¬Cached w cd.record ∧ cd.lookup.recordEvicted = false := by
  have hd : ((Runs.execWhile (DNS.step setupTwo) (fun _ _ => True) .init
      [.lookup [97] (calm 0), .server 0 (.querySent 0 false false true 0),
        .server 0 (.response 0 (some Lookup.responseA) false .ok 0), .run 0 (calm 61)]).bind fun w =>
      (w.controls[0]?).map fun cd => decide (cd.lookup.destroyed = false ∧
        w.records cd.record = none ∧ w.phase = .running ∧ cd.lookup.recordEvicted = false)) =
      some true := by
    decide +kernel
  obtain ⟨w, hw, hcd⟩ := Option.bind_eq_some_iff.1 hd
  obtain ⟨cd, hcd, hall⟩ := Option.map_eq_some_iff.1 hcd
  obtain ⟨hdes, hnone, hphase, hev⟩ := of_decide_eq_true hall
  have hreach := Runs.Reaches.of_execWhile hw
  exact ⟨w, cd, hreach, hcd, hdes, hnone,
    (memoryOk_of_reaches hreach).pointersOk.destroyed _ hnone hphase, hev⟩

end DNS

end Talyn.Dns
