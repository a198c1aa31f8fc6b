import Talyn.Dns.Cache

/-!
# Records and control data

A pending record and its control data point at each other and are destroyed independently. `HeapOk`
says what holds of the pointers between two operations of the resolver. Two things are in between
while an operation runs: records that have left the cache and are not destroyed yet (`detached`), and
the record whose control data is being set up (`held`).

From it: a pending record points to a live, unresolved control data that points back; an unresolved
control data whose record left the cache has `record_evicted` set; nothing destroyed is used.
-/

namespace Talyn.Dns

namespace DNS

variable {s : Setup} {w : DNS}

/-! ### Frame lemmas -/

theorem view_congr {w' : DNS} {cd : ControlCell}
    (h : w'.records cd.record = w.records cd.record) : w'.view cd = w.view cd := by
  simp [view, h]

@[simp] theorem cacheEntries_setCache_self (w : DNS) (slot : ℕ) (c : Lru Datagram ℕ 1024) :
    (w.setCache slot c).cacheEntries slot = c :=
  Function.update_self _ _ _

theorem cacheEntries_setCache_of_ne {slot slot' : ℕ} (h : slot' ≠ slot) (w : DNS)
    (c : Lru Datagram ℕ 1024) : (w.setCache slot c).cacheEntries slot' = w.cacheEntries slot' :=
  Function.update_of_ne h _ _

/-- What only the entry points and completions change: the phase, the calls, the ready queue and what
callbacks saw. -/
def log (w : DNS) : Phase × List Request × List Dispatched × List (CallbackId × Seen) :=
  (w.phase, w.requests, w.ready, w.ran)

@[simp] theorem log_setCache (w : DNS) (slot : ℕ) (c : Lru Datagram ℕ 1024) :
    (w.setCache slot c).log = w.log := rfl

@[simp] theorem log_evictRecord (w : DNS) (r : ℕ) : (w.evictRecord r).log = w.log := by
  unfold evictRecord
  split
  · rfl
  split
  · unfold setRecordEvicted
    split
    · rfl
    split <;> rfl
  · rfl

@[simp] theorem log_evictAll (w : DNS) (entries : List (Datagram × ℕ)) :
    (w.evictAll entries).log = w.log := by
  induction entries generalizing w with
  | nil => rfl
  | cons p entries ih => exact (ih _).trans (log_evictRecord w p.2)

@[simp] theorem log_cacheGet (w : DNS) (slot : ℕ) (hostname : Datagram) (now : ℤ) :
    (w.cacheGet slot hostname now).1.log = w.log := by
  unfold cacheGet
  split
  · rfl
  split
  · rfl
  split
  · exact log_evictAll _ _
  · rfl

theorem log_createRecord (w : DNS) (slot : ℕ) (cell : RecordCell) (alloc : Bool) :
    (w.createRecord slot cell alloc).1.log = w.log := by
  unfold createRecord
  split
  · exact log_evictAll _ _
  · exact log_evictAll _ _

theorem log_appendCallback (w : DNS) (r : ℕ) (callback : CallbackId) (alloc : Bool) :
    (w.appendCallback r callback alloc).1.log = w.log := by
  unfold appendCallback
  split
  · rfl
  split
  · split
    · rfl
    split
    · rfl
    split <;> rfl
  · rfl

theorem log_writeRecord (w : DNS) (r : ℕ) (record : Option Record) :
    (w.writeRecord r record).log = w.log := by
  unfold writeRecord
  split
  · rfl
  split <;> rfl

theorem log_addControl (w : DNS) (l : Lookup) (r : ℕ) : (w.addControl l r).log = w.log :=
  log_writeRecord w r l.record

theorem log_queue (s : Setup) (w : DNS) (slot : ℕ) (hostname : Datagram) (callback : CallbackId)
    (ipv6Supported : Bool) (questionType : Option QuestionType) (env : QueueEnv) :
    (w.queue s slot hostname callback ipv6Supported questionType env).1.log = w.log := by
  unfold queue
  split
  · rfl
  dsimp only
  have hcreate := log_createRecord w slot
    ⟨hostname, ⟨.pending, 9223372036854775807⟩, some w.controls.length⟩
    (decide (env.failing ≠ some .put))
  split <;> rename_i heq <;> rw [heq] at hcreate
  · exact hcreate
  split
  · exact (log_addControl _ _ _).trans hcreate
  split
  · split <;> exact (log_addControl _ _ _).trans hcreate
  · split
    · unfold failQueue
      split <;> exact (log_addControl _ _ _).trans hcreate
    · exact (log_addControl _ _ _).trans hcreate
  · exact (log_addControl _ _ _).trans hcreate
  · exact (log_addControl _ _ _).trans hcreate

theorem log_attachOrQueue (s : Setup) (w : DNS) (slot r : ℕ) (hostname : Datagram)
    (callback : CallbackId) (ipv6Supported : Bool) (questionType : Option QuestionType)
    (env : CallEnv) :
    (w.attachOrQueue s slot r hostname callback ipv6Supported questionType env).1.log = w.log := by
  have happend := log_appendCallback w r callback env.append
  unfold attachOrQueue
  split <;> rename_i heq <;> rw [heq] at happend
  · exact happend
  · exact happend
  · exact (log_queue _ _ _ _ _ _ _ _).trans happend

@[simp] theorem log_lookup (s : Setup) (w : DNS) (hostname : Datagram) (callback : Option CallbackId)
    (env : CallEnv) : (w.lookup s hostname callback env).1.log = w.log := by
  have hget := log_cacheGet w (s.getCacheSlot (lowerString hostname)) (lowerString hostname) env.now
  unfold lookup
  split
  · rfl
  dsimp only
  split <;> rename_i heq <;> rw [heq] at hget
  · split
    · exact hget
    split
    · exact hget
    · exact (log_queue _ _ _ _ _ _ _ _).trans hget
    · unfold seed
      split
      · exact hget
      split <;> rename_i hcreate <;> refine Eq.trans ?_ hget
      · exact (congrArg (fun x => x.1.log) hcreate).symm.trans (log_createRecord _ _ _ _)
      · exact (congrArg (fun x => x.1.log) hcreate).symm.trans (log_createRecord _ _ _ _)
  · split
    · exact hget
    split
    · exact hget
    · exact (log_attachOrQueue _ _ _ _ _ _ _ _ _).trans hget

/-- A lookup whose record is alive has not been told that it was evicted. -/
theorem view_record {cd : ControlCell} {r : Record} (h : (w.view cd).record = some r) :
    cd.lookup.recordEvicted = false ∧
      ∃ cell, w.records cd.record = some cell ∧ cell.record = r := by
  unfold view at h
  dsimp only at h
  split at h
  · exact nomatch h
  · rename_i hev
    obtain ⟨cell, hcell, rfl⟩ := Option.map_eq_some_iff.1 h
    exact ⟨by simpa using hev, cell, hcell, rfl⟩

theorem view_record_of {cd : ControlCell} {cell : RecordCell}
    (hev : cd.lookup.recordEvicted = false) (hcell : w.records cd.record = some cell) :
    (w.view cd).record = some cell.record := by
  simp [view, hev, hcell]

/-- The control data after one of them was overwritten. -/
theorem getElem?_set_cases {cds : List ControlCell} {c c' : ℕ} {cd cd' : ControlCell}
    (hc : c < cds.length) (h : (cds.set c cd)[c']? = some cd') :
    c' = c ∧ cd' = cd ∨ c' ≠ c ∧ cds[c']? = some cd' := by
  by_cases heq : c' = c
  · subst heq
    rw [List.getElem?_set_self hc] at h
    exact .inl ⟨rfl, (Option.some.inj h).symm⟩
  · rw [List.getElem?_set_ne (Ne.symm heq)] at h
    exact .inr ⟨heq, h⟩

/-! ### The invariant -/

/-- What holds of the memory. -/
structure HeapOk (s : Setup) (detached : List ℕ) (held : Option ℕ) (w : DNS) : Prop where
  /-- an entry of the cache leads to a record of its name -/
  entries : ∀ slot, ∀ p ∈ (w.cacheEntries slot).entries, slot = s.getCacheSlot p.1 ∧
    p.2 ∉ detached ∧ ∃ cell, w.records p.2 = some cell ∧ cell.hostname = p.1
  /-- a record that is alive is in the cache or about to be destroyed -/
  cached : ∀ r cell, w.records r = some cell → r ∉ detached →
    (cell.hostname, r) ∈ (w.cacheEntries (s.getCacheSlot cell.hostname)).entries
  alive : ∀ r ∈ detached, (w.records r).isSome
  nodup : detached.Nodup
  fresh : ∀ r, w.nextRecord ≤ r → w.records r = none
  /-- a pending record has a control data that points to it -/
  owner : ∀ r cell, w.records r = some cell → cell.record.state = .pending → held ≠ some r →
    ∃ c cd, cell.controlData = some c ∧ w.controls[c]? = some cd ∧ cd.record = r ∧
      cd.lookup.recordEvicted = false
  /-- the record of a control data was made for it -/
  back : ∀ c cd cell, w.controls[c]? = some cd → w.records cd.record = some cell →
    cell.controlData = some c
  allocated : ∀ cd ∈ w.controls, cd.record < w.nextRecord
  lookups : ∀ cd ∈ w.controls, Lookup.Inv none (w.view cd)
  /-- the record of the control data that comes next -/
  setup : ∀ r, held = some r → r ∉ detached ∧ (∀ cd ∈ w.controls, cd.record ≠ r) ∧
    ∃ cell, w.records r = some cell ∧ cell.controlData = some w.controls.length
  safe : w.useAfterFree = false

theorem HeapOk.init (s : Setup) : HeapOk s [] none .init := by
  constructor <;> simp [DNS.init, Lru.empty]

namespace HeapOk

variable {detached : List ℕ} {held : Option ℕ}

/-- An entry of the cache determines its slot and its name. -/
theorem entry_inj (h : HeapOk s detached held w) {slot slot' : ℕ} {p q : Datagram × ℕ}
    (hp : p ∈ (w.cacheEntries slot).entries) (hq : q ∈ (w.cacheEntries slot').entries)
    (heq : p.2 = q.2) : slot = slot' ∧ p = q := by
  obtain ⟨hslot, -, cell, hcell, hname⟩ := h.entries slot p hp
  obtain ⟨hslot', -, cell', hcell', hname'⟩ := h.entries slot' q hq
  rw [heq, hcell'] at hcell
  obtain rfl := Option.some.inj hcell
  have hname : p.1 = q.1 := hname.symm.trans hname'
  exact ⟨by rw [hslot, hslot', hname], Prod.ext hname heq⟩

/-- Two control data that are alive have different records. -/
theorem control_inj (h : HeapOk s detached held w) {c c' : ℕ} {cd cd' : ControlCell}
    {cell : RecordCell} (hc : w.controls[c]? = some cd) (hc' : w.controls[c']? = some cd')
    (hcell : w.records cd.record = some cell) (heq : cd.record = cd'.record) : c = c' := by
  have hb := h.back c cd cell hc hcell
  have hb' := h.back c' cd' cell hc' (heq ▸ hcell)
  exact Option.some.inj (hb.symm.trans hb')

/-! ### Destroying a record -/

/-- A record is destroyed; of the control data only the one that points to it changes. -/
theorem free {w' : DNS} {r : ℕ} (h : HeapOk s (r :: detached) held w)
    (hcache : w'.cacheEntries = w.cacheEntries)
    (hrecords : w'.records = Function.update w.records r none)
    (hnext : w'.nextRecord = w.nextRecord) (hsafe : w'.useAfterFree = w.useAfterFree)
    (hlen : w'.controls.length = w.controls.length)
    (hrecord : ∀ (c : ℕ) (cd : ControlCell), w'.controls[c]? = some cd →
      ∃ cd₀, w.controls[c]? = some cd₀ ∧ cd.record = cd₀.record)
    (hother : ∀ (c : ℕ) (cd₀ : ControlCell), w.controls[c]? = some cd₀ → cd₀.record ≠ r →
      w'.controls[c]? = some cd₀)
    (hview : ∀ (c : ℕ) (cd : ControlCell), w'.controls[c]? = some cd → cd.record = r →
      Lookup.Inv none (w'.view cd)) : HeapOk s detached held w' := by
  have hnotin : r ∉ detached := (List.nodup_cons.1 h.nodup).1
  have hne : ∀ {r'}, r' ≠ r → w'.records r' = w.records r' := by
    intro r' hr'
    rw [hrecords, Function.update_of_ne hr']
  have hself : w'.records r = none := by rw [hrecords, Function.update_self]
  -- a record that is alive afterwards is another one
  have halive : ∀ {r' cell}, w'.records r' = some cell → r' ≠ r ∧ w.records r' = some cell := by
    intro r' cell hcell
    have hr' : r' ≠ r := by
      rintro rfl
      exact nomatch hself.symm.trans hcell
    exact ⟨hr', (hne hr').symm.trans hcell⟩
  -- a control data that points elsewhere is the same as before
  have hsame : ∀ {c : ℕ} {cd : ControlCell}, w'.controls[c]? = some cd → cd.record ≠ r →
      w.controls[c]? = some cd := by
    intro c cd hc hr
    obtain ⟨cd₀, hc₀, heq⟩ := hrecord c cd hc
    obtain rfl := Option.some.inj ((hother c cd₀ hc₀ (heq ▸ hr)).symm.trans hc)
    exact hc₀
  constructor
  · intro slot p hp
    rw [hcache] at hp
    obtain ⟨hslot, hdet, cell, hcell, hname⟩ := h.entries slot p hp
    rw [List.mem_cons, not_or] at hdet
    exact ⟨hslot, hdet.2, cell, (hne hdet.1).trans hcell, hname⟩
  · intro r' cell hcell hdet
    obtain ⟨hr', hcell⟩ := halive hcell
    rw [hcache]
    exact h.cached r' cell hcell (by simp [hr', hdet])
  · intro r' hr'
    rw [hne (ne_of_mem_of_not_mem hr' hnotin)]
    exact h.alive r' (List.mem_cons_of_mem _ hr')
  · exact (List.nodup_cons.1 h.nodup).2
  · intro r' hr'
    by_cases heq : r' = r
    · rw [heq, hself]
    · rw [hne heq]
      exact h.fresh r' (hnext ▸ hr')
  · intro r' cell hcell hp hheld
    obtain ⟨hr', hcell⟩ := halive hcell
    obtain ⟨c, cd, hptr, hc, hrec, hev⟩ := h.owner r' cell hcell hp hheld
    exact ⟨c, cd, hptr, hother c cd hc (by rw [hrec]; exact hr'), hrec, hev⟩
  · intro c cd cell hc hcell
    obtain ⟨hr', hcell⟩ := halive hcell
    exact h.back c cd cell (hsame hc hr') hcell
  · intro cd hcd
    obtain ⟨c, hc⟩ := List.mem_iff_getElem?.1 hcd
    obtain ⟨cd₀, hc₀, heq⟩ := hrecord c cd hc
    rw [heq, hnext]
    exact h.allocated cd₀ (List.mem_of_getElem? hc₀)
  · intro cd hcd
    obtain ⟨c, hc⟩ := List.mem_iff_getElem?.1 hcd
    by_cases heq : cd.record = r
    · exact hview c cd hc heq
    · rw [view_congr (hne heq)]
      exact h.lookups cd (List.mem_of_getElem? (hsame hc heq))
  · intro r' hr'
    obtain ⟨hdet, hctl, cell, hcell, hptr⟩ := h.setup r' hr'
    rw [List.mem_cons, not_or] at hdet
    refine ⟨hdet.2, ?_, cell, (hne hdet.1).trans hcell, by rw [hlen]; exact hptr⟩
    intro cd hcd
    obtain ⟨c, hc⟩ := List.mem_iff_getElem?.1 hcd
    obtain ⟨cd₀, hc₀, heq⟩ := hrecord c cd hc
    rw [heq]
    exact hctl cd₀ (List.mem_of_getElem? hc₀)
  · rw [hsafe]
    exact h.safe

/-- `evict_record`. -/
theorem evictRecord {r : ℕ} (h : HeapOk s (r :: detached) held w) :
    HeapOk s detached held (w.evictRecord r) := by
  obtain ⟨cell, hcell⟩ := Option.isSome_iff_exists.1 (h.alive r (by simp))
  unfold DNS.evictRecord
  rw [hcell]
  dsimp only
  split
  · -- pending: its control data points back and learns that the record is gone
    rename_i hp
    have hheld : held ≠ some r := fun hr => (h.setup r hr).1 (by simp)
    obtain ⟨c, cd, hptr, hc, hrec, hev⟩ := h.owner r cell hcell hp hheld
    have hinv := h.lookups cd (List.mem_of_getElem? hc)
    have hview := view_record_of hev (hrec ▸ hcell)
    obtain ⟨-, hrel⟩ := hinv.control.settled _ hview hp
    have htouch : cd.lookup.touch = cd.lookup :=
      Lookup.touch_of_alive (hinv.control.destroyed.trans hrel)
    have hclt : c < w.controls.length := (List.getElem?_eq_some_iff.1 hc).1
    rw [hptr, setRecordEvicted, hc]
    dsimp only
    rw [htouch]
    refine h.free rfl rfl rfl rfl (List.length_set ..) ?_ ?_ ?_
    · intro c' cd' hc'
      obtain ⟨rfl, rfl⟩ | ⟨-, hc'⟩ := getElem?_set_cases hclt hc'
      · exact ⟨cd, hc, rfl⟩
      · exact ⟨cd', hc', rfl⟩
    · intro c' cd₀ hc' hne
      have heq : c' ≠ c := by
        rintro rfl
        obtain rfl := Option.some.inj (hc.symm.trans hc')
        exact hne hrec
      exact (List.getElem?_set_ne (Ne.symm heq)).trans hc'
    · intro c' cd' hc' hr'
      obtain ⟨rfl, rfl⟩ | ⟨hne, hc'⟩ := getElem?_set_cases hclt hc'
      · have hnew := hinv.evictRecord hview
        unfold Lookup.evictRecord at hnew
        rw [hp] at hnew
        dsimp only at hnew
        rw [Lookup.touch_of_alive (hinv.control.destroyed.trans hrel)] at hnew
        exact hnew
      · exact absurd (h.control_inj hc hc' (hrec ▸ hcell) (hrec.trans hr'.symm)).symm hne
  · rename_i hp
    refine h.free rfl rfl rfl rfl rfl (fun c cd hc => ⟨cd, hc, rfl⟩) (fun c cd₀ hc _ => hc) ?_
    intro c cd hc hrec
    have hinv := h.lookups cd (List.mem_of_getElem? hc)
    by_cases hev : cd.lookup.recordEvicted = true
    · have : (w.setCell r none).view cd = w.view cd := by
        simp [view, hev]
      rw [this]
      exact hinv
    · have hnew := hinv.evictRecord (view_record_of (by simpa using hev) (hrec ▸ hcell))
      have hview : (w.setCell r none).view cd =
          (w.view cd).evictRecord cell.record := by
        have hnone : (w.setCell r none).records cd.record = none := by
          rw [hrec]
          exact Function.update_self _ _ _
        have hfree : (w.view cd).evictRecord cell.record = { w.view cd with record := none } := by
          unfold Lookup.evictRecord
          split
          · rename_i hp'
            exact absurd hp' hp
          · rfl
        rw [hfree]
        simp [view, hev, hnone]
      rw [hview]
      exact hnew

theorem evictAll {entries : List (Datagram × ℕ)}
    (h : HeapOk s (entries.map Prod.snd ++ detached) held w) :
    HeapOk s detached held (w.evictAll entries) := by
  induction entries generalizing w with
  | nil => exact h
  | cons p entries ih => exact ih h.evictRecord

/-! ### The cache -/

/-- Entries leave a slot of the cache; their records are to be destroyed. -/
theorem setCache {slot : ℕ} {c : Lru Datagram ℕ 1024} {out : List (Datagram × ℕ)}
    (h : HeapOk s [] none w) (hperm : (w.cacheEntries slot).entries.Perm (out ++ c.entries)) :
    HeapOk s (out.map Prod.snd) none (w.setCache slot c) := by
  have hmem : ∀ {p}, p ∈ (w.cacheEntries slot).entries ↔ p ∈ out ∨ p ∈ c.entries := by
    intro p
    rw [hperm.mem_iff, List.mem_append]
  have hnodup : (out ++ c.entries).Nodup :=
    hperm.nodup_iff.1 ((w.cacheEntries slot).nodup.of_map _)
  have hold : ∀ {slot' p}, p ∈ ((w.setCache slot c).cacheEntries slot').entries →
      p ∈ (w.cacheEntries slot').entries ∧ p ∉ out := by
    intro slot' p hp
    by_cases heq : slot' = slot
    · subst heq
      rw [cacheEntries_setCache_self] at hp
      exact ⟨hmem.2 (.inr hp), fun hout => (List.nodup_append.1 hnodup).2.2 p hout p hp rfl⟩
    · rw [cacheEntries_setCache_of_ne heq] at hp
      exact ⟨hp, fun hout => heq (h.entry_inj hp (hmem.2 (.inl hout)) rfl).1⟩
  constructor
  · intro slot' p hp
    obtain ⟨hp, hout⟩ := hold hp
    obtain ⟨hslot, -, hcell⟩ := h.entries slot' p hp
    refine ⟨hslot, fun hdet => ?_, hcell⟩
    obtain ⟨q, hq, heq⟩ := List.mem_map.1 hdet
    exact hout ((h.entry_inj (hmem.2 (.inl hq)) hp heq).2 ▸ hq)
  · intro r cell hcell hdet
    have hp := h.cached r cell hcell (by simp)
    by_cases heq : s.getCacheSlot cell.hostname = slot
    · rw [heq] at hp ⊢
      rw [cacheEntries_setCache_self]
      refine (hmem.1 hp).resolve_left fun hout => hdet ?_
      exact List.mem_map.2 ⟨_, hout, rfl⟩
    · rw [cacheEntries_setCache_of_ne heq]
      exact hp
  · intro r hr
    obtain ⟨p, hp, rfl⟩ := List.mem_map.1 hr
    obtain ⟨-, -, cell, hcell, -⟩ := h.entries slot p (hmem.2 (.inl hp))
    exact Option.isSome_iff_exists.2 ⟨cell, hcell⟩
  · refine List.Nodup.map_on ?_ (List.nodup_append.1 hnodup).1
    intro p hp q hq heq
    exact (h.entry_inj (hmem.2 (.inl hp)) (hmem.2 (.inl hq)) heq).2
  · exact h.fresh
  · exact h.owner
  · exact h.back
  · exact h.allocated
  · exact h.lookups
  · exact nofun
  · exact h.safe

/-- `Cache.get`. -/
theorem cacheGet (h : HeapOk s [] none w) (slot : ℕ) (hostname : Datagram) (now : ℤ) :
    HeapOk s [] none (w.cacheGet slot hostname now).1 := by
  have hperm := (w.cacheEntries slot).entries_perm_get hostname
  have hfst := (w.cacheEntries slot).get_fst hostname
  unfold DNS.cacheGet
  split
  · exact h
  rename_i r c hget
  rw [hget] at hperm hfst
  obtain ⟨-, -, cell, hcell, -⟩ := h.entries slot _ (Lru.find?_eq_some.1 hfst.symm)
  rw [hcell]
  have hperm' : (w.cacheEntries slot).entries.Perm ([] ++ c.entries) := hperm
  dsimp only
  split
  · refine HeapOk.evictAll ?_
    rw [List.append_nil]
    exact h.setCache (hperm.trans (c.entries_perm_remove hostname))
  · exact h.setCache hperm'

/-- A new record in the cache. -/
theorem insert {slot : ℕ} {cell : RecordCell} {c : Lru Datagram ℕ 1024} (held : Option ℕ)
    (h : HeapOk s detached none w) (hslot : slot = s.getCacheSlot cell.hostname)
    (hentries : c.entries = (cell.hostname, w.nextRecord) :: (w.cacheEntries slot).entries)
    (hcell : held = some w.nextRecord ∧ cell.controlData = some w.controls.length ∨
      held = none ∧ cell.record.state ≠ .pending) :
    HeapOk s detached held (({ w with nextRecord := w.nextRecord + 1 }.setCell w.nextRecord
      (some cell)).setCache slot c) := by
  obtain ⟨w', hw'⟩ : ∃ w' : DNS, w' = ({ w with nextRecord := w.nextRecord + 1 }.setCell
    w.nextRecord (some cell)).setCache slot c := ⟨_, rfl⟩
  rw [← hw']
  have hnone := h.fresh w.nextRecord le_rfl
  have hself : w'.records w.nextRecord = some cell := by
    rw [hw']
    exact Function.update_self _ _ _
  have hne : ∀ {r}, r ≠ w.nextRecord → w'.records r = w.records r := by
    intro r hr
    rw [hw']
    exact Function.update_of_ne hr _ _
  have hctl : w'.controls = w.controls := by rw [hw']; rfl
  have hold : ∀ {r cell'}, w.records r = some cell' → r ≠ w.nextRecord := by
    rintro r cell' hr rfl
    exact nomatch hnone.symm.trans hr
  have hcache : ∀ {slot' p}, p ∈ (w'.cacheEntries slot').entries ↔
      (slot' = slot ∧ p = (cell.hostname, w.nextRecord)) ∨ p ∈ (w.cacheEntries slot').entries := by
    intro slot' p
    rw [hw']
    by_cases heq : slot' = slot
    · subst heq
      simp [hentries]
    · rw [cacheEntries_setCache_of_ne heq]
      simp [heq, DNS.setCell]
  have hdet : w.nextRecord ∉ detached := by
    intro hin
    have := h.alive _ hin
    rw [hnone] at this
    exact nomatch this
  constructor
  · intro slot' p hp
    obtain ⟨rfl, rfl⟩ | hp := hcache.1 hp
    · exact ⟨hslot, hdet, cell, hself, rfl⟩
    · obtain ⟨hslot', hdet', cell', hcell', hname⟩ := h.entries slot' p hp
      exact ⟨hslot', hdet', cell', (hne (hold hcell')).trans hcell', hname⟩
  · intro r cell' hr hdet'
    rw [hcache]
    by_cases heq : r = w.nextRecord
    · subst heq
      obtain rfl := Option.some.inj (hself.symm.trans hr)
      exact .inl ⟨hslot.symm, rfl⟩
    · exact .inr (h.cached r cell' ((hne heq).symm.trans hr) hdet')
  · intro r hr
    rw [hne (ne_of_mem_of_not_mem hr hdet)]
    exact h.alive r hr
  · exact h.nodup
  · intro r hr
    rw [hw'] at hr
    replace hr : w.nextRecord + 1 ≤ r := hr
    rw [hne (by omega)]
    exact h.fresh r (by omega)
  · intro r cell' hr hp hheld
    by_cases heq : r = w.nextRecord
    · subst heq
      obtain rfl := Option.some.inj (hself.symm.trans hr)
      obtain ⟨hheld', -⟩ | ⟨-, hnot⟩ := hcell
      · exact absurd hheld' hheld
      · exact absurd hp hnot
    · rw [hctl]
      exact h.owner r cell' ((hne heq).symm.trans hr) hp nofun
  · intro c' cd cell' hc' hr
    rw [hctl] at hc'
    have hlt := h.allocated cd (List.mem_of_getElem? hc')
    exact h.back c' cd cell' hc' ((hne hlt.ne).symm.trans hr)
  · intro cd hcd
    rw [hctl] at hcd
    rw [hw']
    exact (h.allocated cd hcd).trans (Nat.lt_succ_self _)
  · intro cd hcd
    rw [hctl] at hcd
    rw [view_congr (hne (h.allocated cd hcd).ne)]
    exact h.lookups cd hcd
  · intro r hr
    obtain ⟨hheld, hptr⟩ | ⟨hheld, -⟩ := hcell
    · obtain rfl := Option.some.inj (hheld.symm.trans hr)
      refine ⟨hdet, ?_, cell, hself, by rw [hctl, hptr]⟩
      intro cd hcd
      rw [hctl] at hcd
      exact (h.allocated cd hcd).ne
    · exact nomatch hheld.symm.trans hr
  · rw [hw']
    exact h.safe

/-- `create_new_record`, when it succeeds. -/
theorem createRecord_some {slot : ℕ} {cell : RecordCell} {alloc : Bool} {w' : DNS} {r : ℕ}
    (held : Option ℕ) (h : HeapOk s [] none w) (hslot : slot = s.getCacheSlot cell.hostname)
    (hcell : held = some w.nextRecord ∧ cell.controlData = some w.controls.length ∨
      held = none ∧ cell.record.state ≠ .pending)
    (hs : w.createRecord slot cell alloc = (w', some r)) :
    r = w.nextRecord ∧ HeapOk s [] held w' := by
  have hroom := h.setCache ((w.cacheEntries slot).entries_perm_put cell.hostname)
  simp only [DNS.createRecord, Lru.put] at hs
  cases alloc with
  | false => cases (Prod.mk.inj hs).2
  | true =>
    obtain ⟨rfl, hr⟩ := Prod.mk.inj hs
    obtain rfl := Option.some.inj hr
    refine ⟨rfl, HeapOk.evictAll ?_⟩
    have hentries : (((w.cacheEntries slot).roomFor cell.hostname).prepend cell.hostname
        w.nextRecord (Lru.not_mem_roomFor _ _) (Lru.length_makeRoom _ (by norm_num))).entries =
        (cell.hostname, w.nextRecord) ::
          ((w.setCache slot ((w.cacheEntries slot).roomFor cell.hostname)).cacheEntries
            slot).entries := by
      rw [cacheEntries_setCache_self]
      rfl
    have hins := hroom.insert held hslot hentries hcell
    rw [List.append_nil]
    convert hins using 1
    simp [DNS.setCache, DNS.setCell]

/-- `create_new_record`, when the entry of the cache cannot be allocated. -/
theorem createRecord_none {slot : ℕ} {cell : RecordCell} {alloc : Bool} {w' : DNS}
    (h : HeapOk s [] none w) (hs : w.createRecord slot cell alloc = (w', none)) :
    HeapOk s [] none w' := by
  have hroom := h.setCache ((w.cacheEntries slot).entries_perm_put cell.hostname)
  simp only [DNS.createRecord, Lru.put] at hs
  cases alloc with
  | true => cases (Prod.mk.inj hs).2
  | false =>
    obtain ⟨rfl, -⟩ := Prod.mk.inj hs
    refine HeapOk.evictAll ?_
    rw [List.append_nil]
    exact hroom

/-! ### The control data -/

/-- A control data is overwritten, and with it what its record holds. -/
theorem update {w' : DNS} {c : ℕ} {cd cd' : ControlCell} (h : HeapOk s [] none w)
    (hc : w.controls[c]? = some cd) (hcontrols : w'.controls = w.controls.set c cd')
    (hrecord : cd'.record = cd.record) (hcache : w'.cacheEntries = w.cacheEntries)
    (hnext : w'.nextRecord = w.nextRecord) (hsafe : w'.useAfterFree = w.useAfterFree)
    (hne : ∀ r, r ≠ cd.record → w'.records r = w.records r)
    (hcell : (w'.records cd.record).map (fun cell => (cell.hostname, cell.controlData)) =
      (w.records cd.record).map fun cell => (cell.hostname, cell.controlData))
    (hpending : ∀ cell, w'.records cd.record = some cell → cell.record.state = .pending →
      cd'.lookup.recordEvicted = false) (hview : Lookup.Inv none (w'.view cd')) :
    HeapOk s [] none w' := by
  have hclt : c < w.controls.length := (List.getElem?_eq_some_iff.1 hc).1
  have hself : w'.controls[c]? = some cd' := by rw [hcontrols, List.getElem?_set_self hclt]
  -- what the cells say apart from the record is the same
  have hold : ∀ {r cell}, w'.records r = some cell → ∃ cell₀, w.records r = some cell₀ ∧
      cell.hostname = cell₀.hostname ∧ cell.controlData = cell₀.controlData ∧
      (r ≠ cd.record → cell = cell₀) := by
    intro r cell hr
    by_cases heq : r = cd.record
    · subst heq
      rw [hr, Option.map_some] at hcell
      obtain ⟨cell₀, hr₀, hpair⟩ := Option.map_eq_some_iff.1 hcell.symm
      obtain ⟨hname, hptr⟩ := Prod.mk.inj hpair
      exact ⟨cell₀, hr₀, hname.symm, hptr.symm, fun hne => absurd rfl hne⟩
    · exact ⟨cell, (hne r heq).symm.trans hr, rfl, rfl, fun _ => rfl⟩
  have hnew : ∀ {r cell₀}, w.records r = some cell₀ → ∃ cell, w'.records r = some cell ∧
      cell.hostname = cell₀.hostname := by
    intro r cell₀ hr
    by_cases heq : r = cd.record
    · subst heq
      rw [hr, Option.map_some] at hcell
      obtain ⟨cell, hr', hpair⟩ := Option.map_eq_some_iff.1 hcell
      exact ⟨cell, hr', (Prod.mk.inj hpair).1⟩
    · exact ⟨cell₀, (hne r heq).trans hr, rfl⟩
  -- another control data points elsewhere, or to a record that is gone
  have hother : ∀ {c' : ℕ} {cd₂ : ControlCell}, c' ≠ c → w.controls[c']? = some cd₂ →
      w'.records cd₂.record = w.records cd₂.record := by
    intro c' cd₂ hc' hcd₂
    by_cases heq : cd₂.record = cd.record
    · cases hr : w.records cd.record with
      | some cell₀ => exact absurd (h.control_inj hc hcd₂ hr heq.symm).symm hc'
      | none =>
        rw [hr, Option.map_none, Option.map_eq_none_iff] at hcell
        rw [heq, hr, hcell]
    · exact hne _ heq
  have hcases : ∀ {c' : ℕ} {cd₂ : ControlCell}, w'.controls[c']? = some cd₂ →
      c' = c ∧ cd₂ = cd' ∨ c' ≠ c ∧ w.controls[c']? = some cd₂ := by
    intro c' cd₂ hcd₂
    rw [hcontrols] at hcd₂
    exact getElem?_set_cases hclt hcd₂
  constructor
  · intro slot p hp
    rw [hcache] at hp
    obtain ⟨hslot, -, cell₀, hcell₀, hname⟩ := h.entries slot p hp
    obtain ⟨cell, hr, hname'⟩ := hnew hcell₀
    exact ⟨hslot, by simp, cell, hr, hname'.trans hname⟩
  · intro r cell hr _
    obtain ⟨cell₀, hr₀, hname, -⟩ := hold hr
    rw [hcache, hname]
    exact h.cached r cell₀ hr₀ (by simp)
  · exact nofun
  · exact List.nodup_nil
  · intro r hr
    by_contra hne
    obtain ⟨cell, hcell⟩ := Option.ne_none_iff_exists'.1 hne
    obtain ⟨cell₀, hr₀, -⟩ := hold hcell
    exact nomatch (h.fresh r (hnext ▸ hr)).symm.trans hr₀
  · intro r cell hr hp _
    obtain ⟨cell₀, hr₀, -, hptr, hsame⟩ := hold hr
    by_cases heq : r = cd.record
    · subst heq
      exact ⟨c, cd', hptr.trans (h.back c cd cell₀ hc hr₀), hself, hrecord, hpending cell hr hp⟩
    · obtain rfl := hsame heq
      obtain ⟨c₂, cd₂, hptr₂, hc₂, hrec₂, hev₂⟩ := h.owner r cell hr₀ hp nofun
      have hcne : c₂ ≠ c := by
        rintro rfl
        obtain rfl := Option.some.inj (hc.symm.trans hc₂)
        exact heq hrec₂.symm
      refine ⟨c₂, cd₂, hptr₂, ?_, hrec₂, hev₂⟩
      rw [hcontrols, List.getElem?_set_ne (Ne.symm hcne)]
      exact hc₂
  · intro c' cd₂ cell hc' hr
    obtain ⟨cell₀, hr₀, -, hptr, -⟩ := hold hr
    rw [hptr]
    obtain ⟨rfl, rfl⟩ | ⟨-, hc'⟩ := hcases hc'
    · exact h.back c' cd cell₀ hc (hrecord ▸ hr₀)
    · exact h.back c' cd₂ cell₀ hc' hr₀
  · intro cd₂ hcd₂
    rw [hnext]
    obtain ⟨c', hc'⟩ := List.mem_iff_getElem?.1 hcd₂
    obtain ⟨rfl, rfl⟩ | ⟨-, hc'⟩ := hcases hc'
    · rw [hrecord]
      exact h.allocated cd (List.mem_of_getElem? hc)
    · exact h.allocated cd₂ (List.mem_of_getElem? hc')
  · intro cd₂ hcd₂
    obtain ⟨c', hc'⟩ := List.mem_iff_getElem?.1 hcd₂
    obtain ⟨rfl, rfl⟩ | ⟨hcne, hc'⟩ := hcases hc'
    · exact hview
    · rw [view_congr (hother hcne hc')]
      exact h.lookups cd₂ (List.mem_of_getElem? hc')
  · exact nofun
  · rw [hsafe]
    exact h.safe

/-- A pending record in the cache belongs to a control data that is alive and unresolved. -/
theorem pending_owner {r : ℕ} {cell : RecordCell} (h : HeapOk s [] none w)
    (hcell : w.records r = some cell) (hp : cell.record.state = .pending) :
    ∃ c cd, cell.controlData = some c ∧ w.controls[c]? = some cd ∧ cd.record = r ∧
      cd.lookup.recordEvicted = false ∧ cd.lookup.resolved = false ∧
      cd.lookup.released = false ∧ cd.lookup.destroyed = false := by
  obtain ⟨c, cd, hptr, hc, hrec, hev⟩ := h.owner r cell hcell hp nofun
  have hinv := h.lookups cd (List.mem_of_getElem? hc)
  obtain ⟨hres, hrel⟩ := hinv.control.settled _ (view_record_of hev (hrec ▸ hcell)) hp
  exact ⟨c, cd, hptr, hc, hrec, hev, hres, hrel, hinv.control.destroyed.trans hrel⟩

/-- `append_callback`. -/
theorem appendCallback {r : ℕ} (h : HeapOk s [] none w) (hr : (w.records r).isSome)
    (callback : CallbackId) (alloc : Bool) :
    HeapOk s [] none (w.appendCallback r callback alloc).1 := by
  obtain ⟨cell, hcell⟩ := Option.isSome_iff_exists.1 hr
  unfold DNS.appendCallback
  rw [hcell]
  dsimp only
  split
  · rename_i hp
    obtain ⟨c, cd, hptr, hc, hrec, hev, hres, -, hdes⟩ := h.pending_owner hcell hp
    have hinv := h.lookups cd (List.mem_of_getElem? hc)
    have hview := view_record_of hev (hrec ▸ hcell)
    have hbind : (cell.controlData.bind fun c => (w.controls[c]?).map (c, ·)) = some (c, cd) := by
      rw [hptr, Option.bind_some, hc, Option.map_some]
    rw [hbind]
    dsimp only
    rw [hres, Lookup.touch_of_alive hdes]
    have hsame : w.controls.set c cd = w.controls := by
      obtain ⟨hlt, rfl⟩ := List.getElem?_eq_some_iff.1 hc
      exact List.set_getElem_self hlt
    split
    · rw [hsame]
      exact h
    split
    · rw [hsame]
      exact h
    · refine h.update hc rfl rfl rfl rfl rfl (fun _ _ => rfl) rfl (fun _ _ _ => hev) ?_
      have hnew := hinv.appendCallback hview callback true
      unfold Lookup.appendCallback at hnew
      rw [hp] at hnew
      dsimp only at hnew
      rw [Lookup.touch_of_alive (show (w.view cd).destroyed = false from hdes),
        if_neg (by simp [show (w.view cd).resolved = false from hres])] at hnew
      exact hnew
  · exact h

/-- A control data is set up for the record held. -/
theorem addControl {r : ℕ} {l : Lookup} {record : Record} {shown : Option Record}
    (h : HeapOk s [] (some r) w) (hrecord : l.record = some record)
    (hpending : record.state = .pending → l.recordEvicted = false)
    (hshown : (if l.recordEvicted then none else some record) = shown)
    (hinv : Lookup.Inv none { l with record := shown }) : HeapOk s [] none (w.addControl l r) := by
  subst hshown
  obtain ⟨-, hctl, cell, hcell, hptr⟩ := h.setup r rfl
  obtain ⟨w', hw'⟩ : ∃ w', w' = w.addControl l r := ⟨_, rfl⟩
  have heq : w.addControl l r = { w.setCell r (some { cell with record := record }) with
      controls := w.controls ++ [⟨{ l with record := none }, r⟩] } := by
    simp only [DNS.addControl, writeRecord, hrecord, hcell]
    rfl
  rw [← hw']
  rw [heq] at hw'
  have hself : w'.records r = some { cell with record := record } := by
    rw [hw']
    exact Function.update_self _ _ _
  have hne : ∀ {r'}, r' ≠ r → w'.records r' = w.records r' := by
    intro r' hr'
    rw [hw']
    exact Function.update_of_ne hr' _ _
  have hcontrols : w'.controls = w.controls ++ [⟨{ l with record := none }, r⟩] := by rw [hw']
  have hcache : w'.cacheEntries = w.cacheEntries := by rw [hw']; rfl
  have hlast : w'.controls[w.controls.length]? = some ⟨{ l with record := none }, r⟩ := by
    rw [hcontrols, List.getElem?_append_right le_rfl, Nat.sub_self]
    rfl
  have hfirst : ∀ {c : ℕ} {cd : ControlCell}, w.controls[c]? = some cd → w'.controls[c]? = some cd := by
    intro c cd hc
    rw [hcontrols, List.getElem?_append_left (List.getElem?_eq_some_iff.1 hc).1]
    exact hc
  have hcases : ∀ {c : ℕ} {cd : ControlCell}, w'.controls[c]? = some cd →
      w.controls[c]? = some cd ∨ c = w.controls.length ∧ cd = ⟨{ l with record := none }, r⟩ := by
    intro c cd hc
    rw [hcontrols] at hc
    by_cases hlt : c < w.controls.length
    · rw [List.getElem?_append_left hlt] at hc
      exact .inl hc
    · obtain ⟨hlt', hget⟩ := List.getElem?_eq_some_iff.1 hc
      have hlen : c = w.controls.length := by
        simp only [List.length_append, List.length_singleton] at hlt'
        omega
      subst hlen
      rw [List.getElem?_append_right le_rfl, Nat.sub_self] at hc
      exact .inr ⟨rfl, (Option.some.inj hc).symm⟩
  constructor
  · intro slot p hp
    rw [hcache] at hp
    obtain ⟨hslot, -, cell', hcell', hname⟩ := h.entries slot p hp
    refine ⟨hslot, by simp, ?_⟩
    by_cases hr : p.2 = r
    · rw [hr] at hcell' ⊢
      obtain rfl := Option.some.inj (hcell.symm.trans hcell')
      exact ⟨_, hself, hname⟩
    · exact ⟨cell', (hne hr).trans hcell', hname⟩
  · intro r' cell' hr' _
    rw [hcache]
    by_cases hr : r' = r
    · subst hr
      obtain rfl := Option.some.inj (hself.symm.trans hr')
      exact h.cached r' cell hcell (by simp)
    · exact h.cached r' cell' ((hne hr).symm.trans hr') (by simp)
  · exact nofun
  · exact List.nodup_nil
  · intro r' hr'
    have hnext : w'.nextRecord = w.nextRecord := by rw [hw']; rfl
    rw [hnext] at hr'
    have hnone := h.fresh r' hr'
    have hr : r' ≠ r := by
      rintro rfl
      exact nomatch hnone.symm.trans hcell
    exact (hne hr).trans hnone
  · intro r' cell' hr' hp _
    by_cases hr : r' = r
    · subst hr
      obtain rfl := Option.some.inj (hself.symm.trans hr')
      exact ⟨_, _, hptr, hlast, rfl, hpending hp⟩
    · obtain ⟨c, cd, hptr', hc, hrec, hev⟩ := h.owner r' cell' ((hne hr).symm.trans hr') hp
        fun heq => hr (Option.some.inj heq).symm
      exact ⟨c, cd, hptr', hfirst hc, hrec, hev⟩
  · intro c cd cell' hc hr'
    obtain hc | ⟨rfl, rfl⟩ := hcases hc
    · have hr := hctl cd (List.mem_of_getElem? hc)
      exact h.back c cd cell' hc ((hne hr).symm.trans hr')
    · obtain rfl := Option.some.inj (hself.symm.trans hr')
      exact hptr
  · intro cd hcd
    have hnext : w'.nextRecord = w.nextRecord := by rw [hw']; rfl
    rw [hnext]
    obtain ⟨c, hc⟩ := List.mem_iff_getElem?.1 hcd
    obtain hc | ⟨rfl, rfl⟩ := hcases hc
    · exact h.allocated cd (List.mem_of_getElem? hc)
    · by_contra hle
      exact nomatch (h.fresh r (Nat.le_of_not_lt hle)).symm.trans hcell
  · intro cd hcd
    obtain ⟨c, hc⟩ := List.mem_iff_getElem?.1 hcd
    obtain hc | ⟨rfl, rfl⟩ := hcases hc
    · rw [view_congr (hne (hctl cd (List.mem_of_getElem? hc)))]
      exact h.lookups cd (List.mem_of_getElem? hc)
    · unfold view
      rw [hself]
      exact hinv
  · exact nofun
  · rw [hw']
    exact h.safe

end HeapOk

end DNS

end Talyn.Dns
