import Talyn.Dns.Pointers

/-!
# Who owns a callback

A caller of `lookup` or `reverse_lookup` frees its context when it gets an error and waits for its
callback when it gets null. `roster` is what the control data hold of callbacks; `CallResult` says
once what a call does to it, on every path. From this: the callback is held by exactly one pending
control data, or it was dispatched at once, or it will never be called.

One path does not fit: when the cache cannot take the addresses of a literal address, `lookup`
returns null and nobody holds the callback (`SeedFails`).
-/

namespace Talyn.Dns

namespace Lookup

/-! ### What a completion dispatches -/

theorem dispatches_append (t t' : List Effect) :
    dispatches (t ++ t') = dispatches t ++ dispatches t' :=
  List.filterMap_append

theorem dispatches_map (cs : List CallbackId) (cancelled : Bool) :
    dispatches (cs.map (Effect.dispatch · cancelled)) = cs.map (Dispatched.mk · cancelled) := by
  induction cs with
  | nil => rfl
  | cons c cs ih =>
    rw [List.map_cons, List.map_cons, ← ih]
    rfl

/-- The trace of `t` continues the one of `l`, and only dispatches callbacks of the lookup. -/
structure Continues (l t : Lookup) : Prop where
  callbacks : t.userCallbacks = l.userCallbacks
  trace : ∃ new, t.trace = l.trace ++ new ∧ ∀ d ∈ dispatches new, d.callback ∈ l.userCallbacks

namespace Continues

variable {l m t : Lookup}

theorem refl (l : Lookup) : Continues l l := ⟨rfl, [], by simp, by simp [dispatches]⟩

theorem trans (h : Continues l m) (h' : Continues m t) : Continues l t := by
  obtain ⟨new, hnew, hd⟩ := h.trace
  obtain ⟨new', hnew', hd'⟩ := h'.trace
  refine ⟨h'.callbacks.trans h.callbacks, new ++ new', by rw [hnew', hnew, List.append_assoc], ?_⟩
  intro d hin
  rw [dispatches_append, List.mem_append] at hin
  obtain hin | hin := hin
  · exact hd d hin
  · rw [← h.callbacks]
    exact hd' d hin

/-- An operation that leaves callbacks and trace alone. -/
theorem of_eq (hcb : t.userCallbacks = l.userCallbacks) (htrace : t.trace = l.trace) :
    Continues l t := ⟨hcb, [], by simp [htrace], by simp [dispatches]⟩

/-- An operation that adds an effect other than a dispatch. -/
theorem of_effect {e : Effect} (hcb : t.userCallbacks = l.userCallbacks)
    (htrace : t.trace = l.trace ++ [e]) (he : dispatches [e] = []) : Continues l t :=
  ⟨hcb, [e], htrace, by simp [he]⟩

theorem touch (l : Lookup) : Continues l l.touch := by
  unfold Lookup.touch
  split
  · exact of_eq rfl rfl
  · exact refl l

theorem cancel (l : Lookup) (i : ℕ) : Continues l (l.cancel i) := by
  obtain ⟨-, heq⟩ | ⟨-, -, heq⟩ := cancel_cases l i
  · rw [heq]
    exact refl l
  · rw [heq]
    exact of_effect rfl rfl rfl

theorem cancelUnfinished (l : Lookup) : Continues l l.cancelUnfinished :=
  cancelUnfinished_keeps (I := Continues l) (refl l) fun l' i h => h.trans (cancel l' i)

theorem dispatchAll (l : Lookup) (cancelled : Bool) : Continues l (l.dispatchAll cancelled) := by
  refine ⟨rfl, _, rfl, ?_⟩
  intro d hd
  rw [dispatches_map] at hd
  obtain ⟨c, hc, rfl⟩ := List.mem_map.1 hd
  exact hc

theorem setRecord (l : Lookup) (r : Record) : Continues l (l.setRecord r) := by
  unfold Lookup.setRecord
  split <;> exact of_eq rfl rfl

theorem controlRelease (l : Lookup) : Continues l l.controlRelease := by
  unfold Lookup.controlRelease
  split
  · exact refl l
  have hrel : Continues l { l with released := true } := of_eq rfl rfl
  have hend : ∀ m : Lookup, Continues m ({ m with destroyed := true }.emit .released) :=
    fun m => of_effect rfl rfl rfl
  refine Continues.trans ?_ (hend _)
  split
  · exact hrel
  · refine Continues.trans ?_ (dispatchAll _ true)
    split
    · exact hrel
    · exact hrel.trans (setRecord _ _)

theorem finishServer (l : Lookup) (i : ℕ) : Continues l (l.finishServer i) := by
  have hset : Continues l (l.setServer i { l.server i with finished := true }) := of_eq rfl rfl
  exact (hset.trans (cancel _ i)).trans (of_effect rfl rfl rfl)

theorem release (l : Lookup) (i : ℕ) : Continues l (l.release i) := by
  unfold Lookup.release
  dsimp only
  split
  · exact touch l
  split
  · exact ((touch l).trans (finishServer _ i)).trans (controlRelease _)
  · exact (touch l).trans (finishServer _ i)

theorem markResolved (l : Lookup) (i : ℕ) (cause : Cause) (dupe : Bool) (now : ℤ) :
    Continues l (l.markResolved i cause dupe now).1 := by
  unfold Lookup.markResolved
  split
  · exact touch l
  have hmarked : Continues l { l.touch with resolved := true } := (touch l).trans (of_eq rfl rfl)
  have hcancel := hmarked.trans (cancelUnfinished _)
  dsimp only
  split
  · exact hcancel.trans (of_eq rfl rfl)
  · rename_i l'' hsetup
    have hrecord : Continues { l.touch with resolved := true }.cancelUnfinished l'' := by
      obtain ⟨-, rfl⟩ | ⟨-, r, -, rfl⟩ := setupRecord_cases hsetup
      · exact refl _
      · exact setRecord _ r
    have hset : Continues l'' { l'' with resolution := some (l.resolutionBy i cause) } :=
      of_eq rfl rfl
    exact ((hcancel.trans hrecord).trans hset).trans (dispatchAll _ false)

/-- A completion. -/
theorem completion {e : Event} (he : e.completes = true) (hs : l.step e = some t) :
    Continues l t :=
  completion_keeps (I := Continues l) (refl l) (fun _ _ _ _ h => h.trans (of_eq rfl rfl))
    (fun _ h => h.trans (touch _)) (fun _ _ h => h.trans (release _ _))
    (fun _ _ _ _ _ h => h.trans (markResolved _ _ _ _ _)) he hs

end Continues

end Lookup

namespace DNS

variable {s : Setup} {w : DNS}

/-! ### Views of the control data -/

section View

variable {β : Type} {view : Lookup → β}

/-- A view of a lookup that the cache does not change. -/
structure Stable (view : Lookup → β) : Prop where
  touch : ∀ l : Lookup, view l.touch = view l
  evicted : ∀ l : Lookup, view { l with recordEvicted := true } = view l

/-- What a view shows of each control data. -/
def viewed (view : Lookup → β) (w : DNS) : List β := w.controls.map fun cd => view cd.lookup

theorem viewed_set {c : ℕ} {cd cd' : ControlCell} (hc : w.controls[c]? = some cd)
    (h : view cd'.lookup = view cd.lookup) :
    { w with controls := w.controls.set c cd' }.viewed view = w.viewed view := by
  obtain ⟨hlt, rfl⟩ := List.getElem?_eq_some_iff.1 hc
  have hlt' : c < (w.viewed view).length := by
    rwa [viewed, List.length_map]
  have hsame : (w.viewed view)[c] = view w.controls[c].lookup := List.getElem_map _
  show (w.controls.set c cd').map _ = _
  rw [List.map_set, h, ← hsame]
  exact List.set_getElem_self hlt'

theorem viewed_evictRecord (hview : Stable view) (w : DNS) (r : ℕ) :
    (w.evictRecord r).viewed view = w.viewed view := by
  unfold evictRecord
  split
  · rfl
  split
  · unfold setRecordEvicted
    split
    · rfl
    split
    · rfl
    · rename_i cd hc
      exact viewed_set hc ((hview.evicted _).trans (hview.touch _))
  · rfl

theorem viewed_evictAll (hview : Stable view) (w : DNS) (entries : List (Datagram × ℕ)) :
    (w.evictAll entries).viewed view = w.viewed view := by
  induction entries generalizing w with
  | nil => rfl
  | cons p entries ih => exact (ih _).trans (viewed_evictRecord hview w p.2)

theorem viewed_cacheGet (hview : Stable view) (w : DNS) (slot : ℕ) (hostname : Datagram) (now : ℤ) :
    (w.cacheGet slot hostname now).1.viewed view = w.viewed view := by
  unfold cacheGet
  split
  · rfl
  split
  · rfl
  split
  · exact viewed_evictAll hview _ _
  · rfl

theorem viewed_createRecord (hview : Stable view) (w : DNS) (slot : ℕ) (cell : RecordCell)
    (alloc : Bool) : (w.createRecord slot cell alloc).1.viewed view = w.viewed view := by
  unfold createRecord
  split <;> exact viewed_evictAll hview _ _

theorem controls_writeRecord (w : DNS) (r : ℕ) (record : Option Record) :
    (w.writeRecord r record).controls = w.controls := by
  unfold writeRecord
  split
  · rfl
  split <;> rfl

theorem viewed_readBack (hview : Stable view) (s : Setup) (w : DNS) (request : Request)
    (env : CallEnv) : (w.readBack s request env).1.viewed view = w.viewed view := by
  unfold readBack
  split
  · have hget := viewed_cacheGet hview w (s.getCacheSlot request.name) request.name env.now
    split <;> rename_i heq <;> rw [heq] at hget
    · exact hget
    · split <;> exact hget
  · have hl : (w.lookup s request.name none env).1.viewed view = w.viewed view := by
      have hget := viewed_cacheGet hview w (s.getCacheSlot (lowerString request.name))
        (lowerString request.name) env.now
      unfold lookup
      split
      · rfl
      dsimp only
      split <;> rename_i heq <;> rw [heq] at hget
      · exact hget
      · split <;> exact hget
    split <;> rename_i heq <;> rw [heq] at hl <;> exact hl

end View

/-! ### The roster -/

/-- For each control data its callbacks, whether it is resolved and whether it was released. -/
def roster (w : DNS) : List (List CallbackId × Bool × Bool) :=
  w.controls.map fun cd => (cd.lookup.userCallbacks, cd.lookup.resolved, cd.lookup.released)

theorem touch_flags (l : Lookup) : l.touch.userCallbacks = l.userCallbacks ∧
    l.touch.resolved = l.resolved ∧ l.touch.released = l.released := by
  unfold Lookup.touch
  split <;> exact ⟨rfl, rfl, rfl⟩

theorem stable_roster : Stable fun l => (l.userCallbacks, l.resolved, l.released) := by
  refine ⟨fun l => ?_, fun _ => rfl⟩
  obtain ⟨hcallbacks, hresolved, hreleased⟩ := touch_flags l
  rw [hcallbacks, hresolved, hreleased]

theorem roster_set {c : ℕ} {cd cd' : ControlCell} (hc : w.controls[c]? = some cd)
    (hcb : cd'.lookup.userCallbacks = cd.lookup.userCallbacks)
    (hres : cd'.lookup.resolved = cd.lookup.resolved)
    (hrel : cd'.lookup.released = cd.lookup.released) :
    { w with controls := w.controls.set c cd' }.roster = w.roster := by
  refine @viewed_set w _ (fun l => (l.userCallbacks, l.resolved, l.released)) c cd cd' hc ?_
  rw [hcb, hres, hrel]

theorem roster_evictAll (w : DNS) (entries : List (Datagram × ℕ)) :
    (w.evictAll entries).roster = w.roster := viewed_evictAll stable_roster w entries

theorem roster_cacheGet (w : DNS) (slot : ℕ) (hostname : Datagram) (now : ℤ) :
    (w.cacheGet slot hostname now).1.roster = w.roster := viewed_cacheGet stable_roster w slot hostname now

theorem roster_createRecord (w : DNS) (slot : ℕ) (cell : RecordCell) (alloc : Bool) :
    (w.createRecord slot cell alloc).1.roster = w.roster := viewed_createRecord stable_roster w slot cell alloc

theorem roster_addControl (w : DNS) (l : Lookup) (r : ℕ) : (w.addControl l r).roster =
    w.roster ++ [(l.userCallbacks, l.resolved, l.released)] := by
  simp [addControl, roster, controls_writeRecord]

/-! ### What a call does to the roster -/

/-- A pending control data holds the callback: a new one, or one it was attached to. -/
inductive Held (w w' : DNS) (callback : CallbackId) : Prop
  | queued (h : w'.roster = w.roster ++ [([callback], false, false)])
  | attached {c : ℕ} {callbacks : List CallbackId}
      (hc : w.roster[c]? = some (callbacks, false, false))
      (h : w'.roster = w.roster.set c (callbacks ++ [callback], false, false))

/-- Nobody holds a callback that was not held before. -/
def Untouched (w w' : DNS) : Prop :=
  w'.roster = w.roster ∨ ∃ resolved released, w'.roster = w.roster ++ [([], resolved, released)]

theorem Held.congr {w₀ w₁ w' : DNS} {callback : CallbackId} (h : Held w₁ w' callback)
    (heq : w₁.roster = w₀.roster) : Held w₀ w' callback := by
  cases h with
  | queued h => exact .queued (heq ▸ h)
  | attached hc h => exact .attached (heq ▸ hc) (heq ▸ h)

theorem Untouched.congr {w₀ w₁ w' : DNS} (h : Untouched w₁ w') (heq : w₁.roster = w₀.roster) :
    Untouched w₀ w' := by
  unfold Untouched at h ⊢
  rwa [← heq]

theorem queue_flags {hostname : Datagram} {callback : CallbackId} {configuration : Configuration}
    {ipv6Supported : Bool} {questionType : Option QuestionType} {ids : ℕ → ℕ → UInt16}
    {fds : ℕ → ℕ} {l : Lookup}
    (h : Dns.queue hostname callback configuration ipv6Supported questionType ids fds = some l) :
    l.userCallbacks = [callback] ∧ l.resolved = false ∧ l.released = false := by
  unfold Dns.queue at h
  dsimp only at h
  split at h
  · exact nomatch h
  · obtain rfl := Option.some.inj h
    exact ⟨rfl, rfl, rfl⟩

theorem untouched_addControl {l : Lookup} {r : ℕ} (h : l.userCallbacks = []) :
    Untouched w (w.addControl l r) :=
  .inr ⟨l.resolved, l.released, by rw [roster_addControl, h]⟩

/-- The `errdefer` of `queue` leaves a control data that holds nothing. -/
theorem failQueue_eq (w : DNS) (r : ℕ) (l : Lookup) (sent : ℕ) :
    ∃ m, w.failQueue r l sent = w.addControl m r ∧ m.userCallbacks = [] := by
  have hdisown : (disown l).userCallbacks = [] := by
    simp only [disown, Lookup.discardRecord, Lookup.setRecord]
    split <;> rfl
  unfold failQueue
  split
  · exact ⟨_, rfl, (Lookup.Continues.controlRelease _).callbacks.trans hdisown⟩
  · exact ⟨_, rfl, (Lookup.Continues.cancelUnfinished _).callbacks.trans hdisown⟩

theorem failQueue_untouched (w : DNS) (r : ℕ) (l : Lookup) (sent : ℕ) :
    Untouched w (w.failQueue r l sent) := by
  obtain ⟨m, heq, hnone⟩ := failQueue_eq w r l sent
  rw [heq]
  exact untouched_addControl hnone

/-- `queue`: the new control data holds the callback, or nobody does. -/
theorem queue_roster {slot : ℕ} {hostname : Datagram} {callback : CallbackId} {ipv6Supported : Bool}
    {questionType : Option QuestionType} {env : QueueEnv} {w' : DNS} {ok : Bool}
    (h : w.queue s slot hostname callback ipv6Supported questionType env = (w', ok)) :
    if ok then Held w w' callback else Untouched w w' := by
  unfold DNS.queue at h
  split at h
  · obtain ⟨rfl, rfl⟩ := Prod.mk.inj h
    exact .inl rfl
  dsimp only at h
  have hcreate := roster_createRecord w slot
    ⟨hostname, ⟨.pending, 9223372036854775807⟩, some w.controls.length⟩
    (decide (env.failing ≠ some .put))
  split at h <;> rename_i heq <;> rw [heq] at hcreate
  · obtain ⟨rfl, rfl⟩ := Prod.mk.inj h
    exact .inl hcreate
  rename_i w₁ r
  have hprepare : Untouched w (w₁.failPrepare r ⟨.pending, 9223372036854775807⟩) :=
    (untouched_addControl rfl).congr hcreate
  split at h
  · obtain ⟨rfl, rfl⟩ := Prod.mk.inj h
    exact hprepare
  rename_i l hl
  obtain ⟨hcb, hres, hrel⟩ := queue_flags hl
  have hadd : Held w (w₁.addControl l r) callback :=
    .queued ((roster_addControl _ _ _).trans (by rw [hcreate, hcb, hres, hrel]))
  split at h
  · split at h
    · obtain ⟨rfl, rfl⟩ := Prod.mk.inj h
      exact hprepare
    · obtain ⟨rfl, rfl⟩ := Prod.mk.inj h
      exact hadd
  · split at h
    · obtain ⟨rfl, rfl⟩ := Prod.mk.inj h
      exact (failQueue_untouched _ _ _ _).congr hcreate
    · obtain ⟨rfl, rfl⟩ := Prod.mk.inj h
      exact hadd
  · obtain ⟨rfl, rfl⟩ := Prod.mk.inj h
    exact hprepare
  · obtain ⟨rfl, rfl⟩ := Prod.mk.inj h
    exact hadd

/-- `append_callback`: the control data the record points to holds the callback, or nobody does. -/
theorem appendCallback_roster {r : ℕ} {callback : CallbackId} {alloc : Bool} {w' : DNS}
    {result : Appended} (h : HeapOk s [] none w) (hr : (w.records r).isSome)
    (hs : w.appendCallback r callback alloc = (w', result)) :
    if result = .ok then Held w w' callback else w'.roster = w.roster := by
  obtain ⟨cell, hcell⟩ := Option.isSome_iff_exists.1 hr
  unfold DNS.appendCallback at hs
  rw [hcell] at hs
  dsimp only at hs
  split at hs
  · rename_i hp
    obtain ⟨c, cd, hptr, hc, -, -, hres, hrel, hdes⟩ := h.pending_owner hcell hp
    have hbind : (cell.controlData.bind fun c => (w.controls[c]?).map (c, ·)) = some (c, cd) := by
      rw [hptr, Option.bind_some, hc, Option.map_some]
    rw [hbind] at hs
    dsimp only at hs
    rw [hres, if_neg Bool.false_ne_true] at hs
    split at hs
    · obtain ⟨rfl, rfl⟩ := Prod.mk.inj hs
      exact roster_set hc (touch_flags _).1 (touch_flags _).2.1 (touch_flags _).2.2
    · obtain ⟨rfl, rfl⟩ := Prod.mk.inj hs
      have hroster : w.roster[c]? = some (cd.lookup.userCallbacks, false, false) := by
        rw [roster, List.getElem?_map, hc, Option.map_some, hres, hrel]
      refine .attached hroster ?_
      simp only [roster, List.map_set, Lookup.touch_of_alive hdes, hres, hrel]
  · obtain ⟨rfl, rfl⟩ := Prod.mk.inj hs
    exact rfl

theorem attachOrQueue_roster {slot r : ℕ} {hostname : Datagram} {callback : CallbackId}
    {ipv6Supported : Bool} {questionType : Option QuestionType} {env : CallEnv} {w' : DNS}
    {outcome : Outcome} (h : HeapOk s [] none w) (hr : (w.records r).isSome)
    (hs : w.attachOrQueue s slot r hostname callback ipv6Supported questionType env =
      (w', outcome)) :
    outcome = .null ∧ Held w w' callback ∨ outcome = .error ∧ Untouched w w' := by
  unfold DNS.attachOrQueue at hs
  split at hs <;> rename_i heq <;> have happend := appendCallback_roster h hr heq
  · obtain ⟨rfl, rfl⟩ := Prod.mk.inj hs
    exact .inl ⟨rfl, happend⟩
  · obtain ⟨rfl, rfl⟩ := Prod.mk.inj hs
    exact .inr ⟨rfl, .inl happend⟩
  · rename_i w₁ result hne _
    have hsame : w₁.roster = w.roster := by
      rwa [if_neg hne] at happend
    cases hq : w₁.queue s slot hostname callback ipv6Supported questionType env.queue with
    | mk w₂ ok =>
      have hqueue := queue_roster hq
      rw [hq] at hs
      obtain ⟨rfl, rfl⟩ := Prod.mk.inj hs
      cases ok with
      | true => exact .inl ⟨rfl, Held.congr hqueue hsame⟩
      | false => exact .inr ⟨rfl, Untouched.congr hqueue hsame⟩

/-- The cache has no record of the name, or one that has expired. -/
def CacheMiss (w : DNS) (slot : ℕ) (hostname : Datagram) (now : ℤ) : Prop :=
  ∀ r, (w.cacheEntries slot).find? hostname = some r → ∀ cell, w.records r = some cell →
    cell.record.expireAt < now

theorem cacheGet_none_iff (h : HeapOk s [] none w) (slot : ℕ) (hostname : Datagram) (now : ℤ) :
    (w.cacheGet slot hostname now).2 = none ↔ CacheMiss w slot hostname now := by
  have hfst := (w.cacheEntries slot).get_fst hostname
  unfold DNS.cacheGet CacheMiss
  split
  · rename_i heq
    rw [heq] at hfst
    simp [← hfst]
  · rename_i r c heq
    rw [heq] at hfst
    obtain ⟨-, -, cell, hcell, -⟩ := h.entries slot _ (Lru.find?_eq_some.1 hfst.symm)
    rw [hcell]
    dsimp only
    rw [← hfst]
    split
    · rename_i hexp
      refine ⟨fun _ r' hr' cell' hcell' => ?_, fun _ => rfl⟩
      obtain rfl := Option.some.inj hr'
      obtain rfl := Option.some.inj (hcell.symm.trans hcell')
      exact hexp
    · rename_i hlive
      refine ⟨by simp, fun hall => absurd (hall r rfl cell hcell) hlive⟩

/-- The name stands for addresses, and the cache cannot take them. -/
def SeedFails (s : Setup) (w : DNS) (hostname : Datagram) (env : CallEnv) : Prop :=
  hostname.length ≤ 255 ∧
    CacheMiss w (s.getCacheSlot (lowerString hostname)) (lowerString hostname) env.now ∧
    (∃ address addresses,
      resolveAddress (lowerString hostname) s.ipv6Supported = some (address :: addresses)) ∧
    env.seed ≠ none

theorem seed_result {slot : ℕ} {hostname : Datagram} {addresses : List Address} {env : CallEnv}
    {w' : DNS} {outcome : Outcome} (h : w.seed slot hostname addresses env = (w', outcome)) :
    w'.roster = w.roster ∧
      outcome = if env.seed = none then .addresses addresses else .null := by
  unfold DNS.seed at h
  split at h
  · rename_i hseed
    obtain ⟨rfl, rfl⟩ := Prod.mk.inj h
    refine ⟨rfl, (if_neg ?_).symm⟩
    rintro hnone
    simp [hnone] at hseed
  rename_i hseed
  have hcreate := roster_createRecord w slot
    ⟨hostname, ⟨.resolved addresses, env.now + computeEffectiveTtl 60⟩, none⟩
    (decide (env.seed ≠ some .put))
  have hput : ∀ {w₁ : DNS} {r : Option ℕ}, w.createRecord slot
      ⟨hostname, ⟨.resolved addresses, env.now + computeEffectiveTtl 60⟩, none⟩
      (decide (env.seed ≠ some .put)) = (w₁, r) → (r = none ↔ env.seed ≠ none) := by
    intro w₁ r heq
    unfold DNS.createRecord Lru.put at heq
    cases hcases : env.seed with
    | none =>
      simp only [hcases, ne_eq, reduceCtorEq, not_false_eq_true, decide_true] at heq
      obtain ⟨-, rfl⟩ := Prod.mk.inj heq
      simp
    | some step =>
      cases step with
      | put =>
        simp only [hcases, ne_eq, not_true_eq_false, decide_false] at heq
        obtain ⟨-, rfl⟩ := Prod.mk.inj heq
        simp
      | dupe => simp [hcases] at hseed
      | hostname => simp [hcases] at hseed
      | record => simp [hcases] at hseed
  split at h <;> rename_i heq <;> have hseed := hput heq <;> rw [heq] at hcreate
  · obtain ⟨rfl, rfl⟩ := Prod.mk.inj h
    exact ⟨hcreate, (if_neg (hseed.1 rfl)).symm⟩
  · obtain ⟨rfl, rfl⟩ := Prod.mk.inj h
    refine ⟨hcreate, (if_pos ?_).symm⟩
    by_contra hne
    cases hseed.2 hne

/-- **What `lookup` does with a callback.** -/
theorem lookup_result {hostname : Datagram} {callback : CallbackId} {env : CallEnv} {w' : DNS}
    {outcome : Outcome} (h : HeapOk s [] none w)
    (hs : w.lookup s hostname (some callback) env = (w', outcome)) :
    outcome = .null ∧ Held w w' callback ∧ ¬SeedFails s w hostname env ∨
      outcome = .null ∧ Untouched w w' ∧ SeedFails s w hostname env ∨
      (outcome = .error ∨ ∃ addresses, outcome = .addresses addresses) ∧ Untouched w w' ∧
        ¬SeedFails s w hostname env := by
  unfold DNS.lookup at hs
  split at hs
  · rename_i hlen
    obtain ⟨rfl, rfl⟩ := Prod.mk.inj hs
    exact .inr (.inr ⟨.inl rfl, .inl rfl, fun hseed => absurd hseed.1 (Nat.not_le.2 hlen)⟩)
  rename_i hlen
  dsimp only at hs
  have hget := roster_cacheGet w (s.getCacheSlot (lowerString hostname)) (lowerString hostname)
    env.now
  have hmiss := cacheGet_none_iff h (s.getCacheSlot (lowerString hostname)) (lowerString hostname)
    env.now
  split at hs <;> rename_i heq <;> rw [heq] at hget hmiss
  · rename_i w₁
    split at hs <;> rename_i hresolve
    · obtain ⟨rfl, rfl⟩ := Prod.mk.inj hs
      refine .inr (.inr ⟨.inl rfl, .inl hget, ?_⟩)
      rintro ⟨-, -, ⟨a, as, ha⟩, -⟩
      exact nomatch hresolve.symm.trans ha
    · have hnot : ¬SeedFails s w hostname env := by
        rintro ⟨-, -, ⟨a, as, ha⟩, -⟩
        exact nomatch hresolve.symm.trans ha
      cases hq : w₁.queue s (s.getCacheSlot (lowerString hostname)) (lowerString hostname) callback
          s.ipv6Supported none env.queue with
      | mk w₂ ok =>
        have hqueue := queue_roster hq
        rw [hq] at hs
        obtain ⟨rfl, rfl⟩ := Prod.mk.inj hs
        cases ok with
        | true => exact .inl ⟨rfl, Held.congr hqueue hget, hnot⟩
        | false => exact .inr (.inr ⟨.inl rfl, Untouched.congr hqueue hget, hnot⟩)
    · rename_i addresses hne
      obtain ⟨a, as, rfl⟩ : ∃ a as, addresses = a :: as := by
        cases addresses with
        | nil => exact absurd rfl hne
        | cons a as => exact ⟨a, as, rfl⟩
      obtain ⟨hroster, houtcome⟩ := seed_result hs
      by_cases hseed : env.seed = none
      · rw [if_pos hseed] at houtcome
        exact .inr (.inr ⟨.inr ⟨_, houtcome⟩, .inl (hroster.trans hget),
          fun hfails => hfails.2.2.2 hseed⟩)
      · rw [if_neg hseed] at houtcome
        exact .inr (.inl ⟨houtcome, .inl (hroster.trans hget), Nat.le_of_not_lt hlen, hmiss.1 rfl,
          ⟨a, as, hresolve⟩, hseed⟩)
  · rename_i w₁ r
    have hnot : ¬SeedFails s w hostname env := fun hfails => nomatch hmiss.2 hfails.2.1
    obtain ⟨cell, hcell, -⟩ := h.cacheGet_some heq
    split at hs
    · obtain ⟨rfl, rfl⟩ := Prod.mk.inj hs
      exact .inr (.inr ⟨.inr ⟨_, rfl⟩, .inl hget, hnot⟩)
    · have hheap := h.cacheGet (s.getCacheSlot (lowerString hostname)) (lowerString hostname)
        env.now
      rw [heq] at hheap
      obtain ⟨rfl, hheld⟩ | ⟨rfl, hun⟩ :=
        attachOrQueue_roster hheap (Option.isSome_iff_exists.2 ⟨cell, hcell⟩) hs
      · exact .inl ⟨rfl, hheld.congr hget, hnot⟩
      · exact .inr (.inr ⟨.inl rfl, hun.congr hget, hnot⟩)

/-- **What `reverse_lookup` does with a callback.** -/
theorem reverseLookup_result {address : Address} {callback : CallbackId} {env : CallEnv} {w' : DNS}
    {outcome : Outcome} (h : HeapOk s [] none w)
    (hs : w.reverseLookup s address callback env = (w', outcome)) :
    outcome = .null ∧ Held w w' callback ∧ w'.log = w.log ∨
      outcome = .error ∧ Untouched w w' ∧ w'.log = w.log ∨
      outcome = .dispatched ∧ Untouched w w' ∧ w'.ready = w.ready ++ [⟨callback, false⟩] ∧
        w'.ran = w.ran := by
  have hget := roster_cacheGet w (s.getCacheSlot (buildReverseName address))
    (buildReverseName address) env.now
  have hlog := log_cacheGet w (s.getCacheSlot (buildReverseName address))
    (buildReverseName address) env.now
  unfold DNS.reverseLookup at hs
  dsimp only at hs
  split at hs <;> rename_i heq <;> rw [heq] at hget hlog
  · rename_i w₁
    cases hq : w₁.queue s (s.getCacheSlot (buildReverseName address)) (buildReverseName address)
        callback false (some .ptr) env.queue with
    | mk w₂ ok =>
      have hqueue := queue_roster hq
      have hlog' := log_queue s w₁ (s.getCacheSlot (buildReverseName address))
        (buildReverseName address) callback false (some .ptr) env.queue
      rw [hq] at hs hlog'
      obtain ⟨rfl, rfl⟩ := Prod.mk.inj hs
      cases ok with
      | true => exact .inl ⟨rfl, Held.congr hqueue hget, hlog'.trans hlog⟩
      | false => exact .inr (.inl ⟨rfl, Untouched.congr hqueue hget, hlog'.trans hlog⟩)
  · rename_i w₁ r
    split at hs
    · split at hs
      · obtain ⟨rfl, rfl⟩ := Prod.mk.inj hs
        obtain ⟨-, -, hready, hran⟩ : w₁.phase = w.phase ∧ w₁.requests = w.requests ∧
          w₁.ready = w.ready ∧ w₁.ran = w.ran := by simpa [log] using hlog
        exact .inr (.inr ⟨rfl, .inl hget, by rw [hready], hran⟩)
      · obtain ⟨rfl, rfl⟩ := Prod.mk.inj hs
        exact .inr (.inl ⟨rfl, .inl hget, hlog⟩)
    · have hlog' := log_attachOrQueue s w₁ (s.getCacheSlot (buildReverseName address)) r
        (buildReverseName address) callback false (some .ptr) env
      rw [hs] at hlog'
      have hheap := h.cacheGet (s.getCacheSlot (buildReverseName address)) (buildReverseName address)
        env.now
      rw [heq] at hheap
      obtain ⟨cell, hcell, -⟩ := h.cacheGet_some heq
      obtain ⟨rfl, hheld⟩ | ⟨rfl, hun⟩ :=
        attachOrQueue_roster hheap (Option.isSome_iff_exists.2 ⟨cell, hcell⟩) hs
      · exact .inl ⟨rfl, hheld.congr hget, hlog'.trans hlog⟩
      · exact .inr (.inl ⟨rfl, hun.congr hget, hlog'.trans hlog⟩)

/-! ### Callbacks nobody holds -/

/-- Nobody holds the callback, and it was never dispatched. -/
structure Unknown (w : DNS) (callback : CallbackId) : Prop where
  held : ∀ entry ∈ w.roster, callback ∉ entry.1
  ready : ∀ d ∈ w.ready, d.callback ≠ callback
  ran : ∀ p ∈ w.ran, p.1 ≠ callback

namespace Unknown

variable {callback : CallbackId}

theorem of_log {w' : DNS} (h : Unknown w callback)
    (hheld : ∀ entry ∈ w'.roster, callback ∉ entry.1) (hlog : w'.log = w.log) :
    Unknown w' callback := by
  obtain ⟨-, -, hready, hran⟩ : w'.phase = w.phase ∧ w'.requests = w.requests ∧
    w'.ready = w.ready ∧ w'.ran = w.ran := by simpa [log] using hlog
  exact ⟨hheld, by rw [hready]; exact h.ready, by rw [hran]; exact h.ran⟩

theorem held_of_untouched {w' : DNS} (h : Unknown w callback) (hun : Untouched w w') :
    ∀ entry ∈ w'.roster, callback ∉ entry.1 := by
  obtain hsame | ⟨resolved, released, happend⟩ := hun
  · rw [hsame]
    exact h.held
  · rw [happend]
    intro entry hentry
    obtain hold | hnew := List.mem_append.1 hentry
    · exact h.held entry hold
    · rw [List.mem_singleton.1 hnew]
      exact List.not_mem_nil

/-- Another callback is held from now on. -/
theorem held_of_held {w' : DNS} {other : CallbackId} (h : Unknown w callback)
    (hheld : Held w w' other) (hne : callback ≠ other) :
    ∀ entry ∈ w'.roster, callback ∉ entry.1 := by
  cases hheld with
  | queued heq =>
    rw [heq]
    intro entry hentry
    obtain hold | hnew := List.mem_append.1 hentry
    · exact h.held entry hold
    · rw [List.mem_singleton.1 hnew]
      simpa using hne
  | attached hc heq =>
    rw [heq]
    intro entry hentry
    obtain hold | rfl := List.mem_or_eq_of_mem_set hentry
    · exact h.held entry hold
    · rw [List.mem_append, List.mem_singleton, not_or]
      exact ⟨h.held _ (List.mem_of_getElem? hc), hne⟩

/-- A control data is stored: it dispatches only what it holds. -/
theorem store {c : ℕ} {cd : ControlCell} {l : Lookup} (h : Unknown w callback)
    (hc : w.controls[c]? = some cd) (hl : Lookup.Continues (w.view cd) l) :
    Unknown (w.store c cd l) callback := by
  obtain ⟨hcb, new, htrace, hnew⟩ := hl
  have hnot : callback ∉ cd.lookup.userCallbacks :=
    h.held (cd.lookup.userCallbacks, cd.lookup.resolved, cd.lookup.released)
      (List.mem_map.2 ⟨cd, List.mem_of_getElem? hc, rfl⟩)
  have hlog := log_writeRecord w cd.record l.record
  obtain ⟨-, -, hready, hran⟩ : (w.writeRecord cd.record l.record).phase = w.phase ∧
      (w.writeRecord cd.record l.record).requests = w.requests ∧
      (w.writeRecord cd.record l.record).ready = w.ready ∧
      (w.writeRecord cd.record l.record).ran = w.ran := by simpa [log] using hlog
  have hcontrols := controls_writeRecord w cd.record l.record
  refine ⟨?_, ?_, ?_⟩
  · intro entry hentry
    simp only [roster, DNS.store, hcontrols, List.map_set] at hentry
    obtain hold | rfl := List.mem_or_eq_of_mem_set hentry
    · exact h.held entry hold
    · exact fun hin => hnot (hcb ▸ hin)
  · intro d hd
    have hdrop : l.trace.drop cd.lookup.trace.length = new := by
      rw [htrace]
      exact List.drop_left
    simp only [DNS.store, hready, hdrop, List.mem_append] at hd
    obtain hold | hin := hd
    · exact h.ready d hold
    · rintro rfl
      exact hnot (hnew d hin)
  · simp only [DNS.store, hran]
    exact h.ran

end Unknown

theorem deferRelease_continues (l : Lookup) : Lookup.Continues l (deferRelease l) := by
  unfold deferRelease
  split
  · exact .refl l
  have hrel : Lookup.Continues l { l with released := true } := .of_eq rfl rfl
  have hend : ∀ m : Lookup, Lookup.Continues m (m.emit .released) := fun m => .of_effect rfl rfl rfl
  refine Lookup.Continues.trans ?_ (hend _)
  split
  · exact hrel
  · refine Lookup.Continues.trans ?_ (.dispatchAll _ true)
    split
    · exact hrel
    · exact hrel.trans (.setRecord _ _)

theorem roster_readBack (s : Setup) (w : DNS) (request : Request) (env : CallEnv) :
    (w.readBack s request env).1.roster = w.roster := viewed_readBack stable_roster s w request env

/-- A call, with the name its callback reads the cache with. -/
inductive Call
  | lookup (hostname : Datagram)
  | reverse (address : Address)

/-- The name a callback reads the cache with. -/
def Call.request : Call → Request
  | .lookup hostname => ⟨hostname, false⟩
  | .reverse address => ⟨buildReverseName address, true⟩

/-- A call; its callback is the number of calls made before. -/
def call (s : Setup) (w : DNS) (c : Call) (env : CallEnv) : DNS × Outcome :=
  match c with
  | .lookup hostname =>
    { w with requests := w.requests ++ [c.request] }.lookup s hostname (some w.requests.length) env
  | .reverse address =>
    { w with requests := w.requests ++ [c.request] }.reverseLookup s address w.requests.length env

/-- The event of a call. -/
def Call.event (c : Call) (env : CallEnv) : Event :=
  match c with
  | .lookup hostname => .lookup hostname env
  | .reverse address => .reverseLookup address env

theorem step_call (hphase : w.phase = .running) (c : Call) (env : CallEnv) :
    w.step s (c.event env) = some (w.call s c env).1 := by
  cases c <;> simp [step, hphase, Call.event, call, Call.request]

/-- The seed of the cache fails; a reverse lookup has none. -/
def Call.SeedFails (s : Setup) (w : DNS) (env : CallEnv) : Call → Prop
  | .lookup hostname => DNS.SeedFails s w hostname env
  | .reverse _ => False

/-- **What a call does with its callback.** -/
theorem call_result {c : Call} {env : CallEnv} {w' : DNS} {outcome : Outcome}
    (h : HeapOk s [] none w) (hs : w.call s c env = (w', outcome)) :
    outcome = .null ∧ Held w w' w.requests.length ∧ w'.ready = w.ready ∧ w'.ran = w.ran ∧
        ¬c.SeedFails s w env ∨
      outcome = .null ∧ Untouched w w' ∧ w'.ready = w.ready ∧ w'.ran = w.ran ∧
        c.SeedFails s w env ∨
      (outcome = .error ∨ ∃ addresses, outcome = .addresses addresses) ∧ Untouched w w' ∧
        w'.ready = w.ready ∧ w'.ran = w.ran ∧ ¬c.SeedFails s w env ∨
      outcome = .dispatched ∧ Untouched w w' ∧
        w'.ready = w.ready ++ [⟨w.requests.length, false⟩] ∧ w'.ran = w.ran ∧
        ¬c.SeedFails s w env := by
  have hheap := h.congr (w.requests ++ [c.request]) w.ready w.ran
  have hlogs : ∀ {w₁ : DNS}, w₁.log = { w with requests := w.requests ++ [c.request] }.log →
      w₁.ready = w.ready ∧ w₁.ran = w.ran := by
    intro w₁ hlog
    simp only [log, Prod.mk.injEq] at hlog
    exact ⟨hlog.2.2.1, hlog.2.2.2⟩
  cases c with
  | lookup hostname =>
    have hlog := log_lookup s { w with requests := w.requests ++ [(Call.lookup hostname).request] }
      hostname (some w.requests.length) env
    unfold DNS.call at hs
    dsimp only at hs
    rw [hs] at hlog
    obtain ⟨hready, hran⟩ := hlogs hlog
    obtain ⟨ho, hheld, hnot⟩ | ⟨ho, hun, hseed⟩ | ⟨ho, hun, hnot⟩ := lookup_result hheap hs
    · exact .inl ⟨ho, hheld.congr rfl, hready, hran, hnot⟩
    · exact .inr (.inl ⟨ho, hun, hready, hran, hseed⟩)
    · exact .inr (.inr (.inl ⟨ho, hun, hready, hran, hnot⟩))
  | reverse address =>
    obtain ⟨ho, hheld, hlog⟩ | ⟨ho, hun, hlog⟩ | ⟨ho, hun, hready, hran⟩ :=
      reverseLookup_result hheap hs
    · exact .inl ⟨ho, hheld.congr rfl, (hlogs hlog).1, (hlogs hlog).2, id⟩
    · exact .inr (.inr (.inl ⟨.inl ho, hun, (hlogs hlog).1, (hlogs hlog).2, id⟩))
    · exact .inr (.inr (.inr ⟨ho, hun, hready, hran, id⟩))

theorem requests_lookup (s : Setup) (w : DNS) (hostname : Datagram) (callback : Option CallbackId)
    (env : CallEnv) : (w.lookup s hostname callback env).1.requests = w.requests :=
  congrArg Prod.snd (calls_of_log (log_lookup s w hostname callback env))

theorem requests_reverseLookup (s : Setup) (w : DNS) (address : Address) (callback : CallbackId)
    (env : CallEnv) : (w.reverseLookup s address callback env).1.requests = w.requests :=
  congrArg Prod.snd (calls_reverseLookup s w address callback env)

theorem requests_call (c : Call) (env : CallEnv) :
    (w.call s c env).1.requests = w.requests ++ [c.request] := by
  cases c with
  | lookup hostname => exact requests_lookup s _ hostname _ env
  | reverse address => exact requests_reverseLookup s _ address _ env

/-- The number of calls only grows, by one with each call. -/
theorem requests_step {e : Event} {w' : DNS} (hs : w.step s e = some w') :
    w'.requests = w.requests ∨ w'.requests.length = w.requests.length + 1 := by
  unfold DNS.step at hs
  split at hs
  · obtain rfl := Option.some.inj hs
    right
    rw [requests_lookup]
    exact List.length_append
  · obtain rfl := Option.some.inj hs
    right
    rw [requests_reverseLookup]
    exact List.length_append
  · exact .inl (congrArg Prod.snd (calls_serverEvent hs))
  · exact .inl (congrArg Prod.snd (calls_runCallback hs))
  · obtain rfl := Option.some.inj hs
    exact .inl (requests_deinit s w)
  · exact .inl (congrArg Prod.snd (calls_serverEvent hs))
  · obtain rfl := Option.some.inj hs
    exact .inl rfl
  · exact nomatch hs

namespace Unknown

variable {callback : CallbackId}

/-- A call of another callback. -/
theorem call {c : Call} {env : CallEnv} (h : Unknown w callback) (hheap : HeapOk s [] none w)
    (hne : callback ≠ w.requests.length) : Unknown (w.call s c env).1 callback := by
  cases hs : w.call s c env with
  | mk w' outcome =>
    obtain ⟨-, hheld, hready, hran, -⟩ | ⟨-, hun, hready, hran, -⟩ | ⟨-, hun, hready, hran, -⟩ |
      ⟨-, hun, hready, hran, -⟩ := call_result hheap hs
    · exact ⟨h.held_of_held hheld hne, by rw [hready]; exact h.ready, by rw [hran]; exact h.ran⟩
    · exact ⟨h.held_of_untouched hun, by rw [hready]; exact h.ready, by rw [hran]; exact h.ran⟩
    · exact ⟨h.held_of_untouched hun, by rw [hready]; exact h.ready, by rw [hran]; exact h.ran⟩
    · refine ⟨h.held_of_untouched hun, ?_, by rw [hran]; exact h.ran⟩
      rw [hready]
      intro d hd
      obtain hold | hnew := List.mem_append.1 hd
      · exact h.ready d hold
      · rw [List.mem_singleton.1 hnew]
        exact hne.symm

theorem serverEvent {c : ℕ} {e : Lookup.Event} {w' : DNS} (h : Unknown w callback)
    (hs : w.serverEvent c e = some w') : Unknown w' callback := by
  unfold DNS.serverEvent at hs
  split at hs
  · exact nomatch hs
  rename_i cd hc
  split at hs
  · rename_i he
    obtain ⟨l, hl, rfl⟩ := Option.map_eq_some_iff.1 hs
    exact h.store hc (.completion he hl)
  · exact nomatch hs

theorem runCallback {index : ℕ} {env : CallEnv} {w' : DNS} (h : Unknown w callback)
    (hs : w.runCallback s index env = some w') : Unknown w' callback := by
  unfold DNS.runCallback at hs
  split at hs
  · exact nomatch hs
  rename_i d hd
  have hd' := h.ready d (List.mem_of_getElem? hd)
  have hready : ∀ d' ∈ w.ready.eraseIdx index, d'.callback ≠ callback :=
    fun d' hin => h.ready d' (List.mem_of_mem_eraseIdx hin)
  have hran : ∀ seen, ∀ p ∈ w.ran ++ [(d.callback, seen)], p.1 ≠ callback := by
    intro seen p hp
    obtain hold | hnew := List.mem_append.1 hp
    · exact h.ran p hold
    · rw [List.mem_singleton.1 hnew]
      exact hd'
  dsimp only at hs
  split at hs
  · obtain rfl := Option.some.inj hs
    exact ⟨h.held, hready, hran _⟩
  split at hs
  · exact nomatch hs
  rename_i request _
  have hroster := roster_readBack s { w with ready := w.ready.eraseIdx index } request env
  have hlog := log_readBack s { w with ready := w.ready.eraseIdx index } request env
  cases hread : readBack s { w with ready := w.ready.eraseIdx index } request env with
  | mk w₁ seen =>
    rw [hread] at hs hroster hlog
    simp only [log, Prod.mk.injEq] at hlog
    obtain ⟨-, -, hready₁, hran₁⟩ := hlog
    obtain rfl := Option.some.inj hs
    refine ⟨?_, ?_, ?_⟩
    · show ∀ entry ∈ w₁.roster, callback ∉ entry.1
      rw [hroster]
      exact h.held
    · show ∀ d ∈ w₁.ready, d.callback ≠ callback
      rw [hready₁]
      exact hready
    · show ∀ p ∈ w₁.ran ++ [(d.callback, seen)], p.1 ≠ callback
      rw [hran₁]
      exact hran seen

theorem deinit (h : Unknown w callback) : Unknown (w.deinit s) callback := by
  refine deinit_keeps (I := fun u => Unknown u callback) h (fun u hu => ⟨hu.held, hu.ready, hu.ran⟩)
    (fun u slot hu => hu.of_log ?_ ?_) fun u c cd hc hu => hu.store hc (deferRelease_continues _)
  · rw [deinitCache, roster_evictAll]
    exact hu.held
  · rw [deinitCache, log_evictAll, log_setCache]

/-- Every event but a call of its own leaves an unknown callback unknown. -/
theorem step {e : Event} {w' : DNS} (h : Unknown w callback) (hmem : MemoryOk s w)
    (hown : callback = w.requests.length → w'.requests = w.requests)
    (hs : w.step s e = some w') : Unknown w' callback := by
  have hne : w'.requests.length = w.requests.length + 1 → callback ≠ w.requests.length := by
    intro hlen heq
    rw [hown heq] at hlen
    omega
  unfold DNS.step at hs
  split at hs <;> rename_i hphase
  · obtain rfl := Option.some.inj hs
    rw [MemoryOk, hphase] at hmem
    refine h.call (c := .lookup _) hmem (hne ?_)
    rw [requests_lookup]
    exact List.length_append
  · obtain rfl := Option.some.inj hs
    rw [MemoryOk, hphase] at hmem
    refine h.call (c := .reverse _) hmem (hne ?_)
    rw [requests_reverseLookup]
    exact List.length_append
  · exact h.serverEvent hs
  · exact h.runCallback hs
  · obtain rfl := Option.some.inj hs
    exact h.deinit
  · exact h.serverEvent hs
  · obtain rfl := Option.some.inj hs
    refine ⟨?_, h.ready, h.ran⟩
    intro entry hentry
    simp only [roster, releaseDeferred, List.map_map, List.mem_map, Function.comp] at hentry
    obtain ⟨cd, hcd, rfl⟩ := hentry
    exact h.held _ (List.mem_map.2 ⟨cd, hcd, rfl⟩)
  · cases hs

end Unknown

/-- A callback that is unknown now will never be called. -/
theorem Unknown.reaches {callback : CallbackId} {w' : DNS} (h : Unknown w callback)
    (hmem : MemoryOk s w) (hlt : callback < w.requests.length)
    (hrun : Runs.Reaches (DNS.step s) (fun _ _ => True) w w') : Unknown w' callback := by
  refine (hrun.invariant (I := fun u => Unknown u callback ∧ MemoryOk s u ∧
    callback < u.requests.length) ⟨h, hmem, hlt⟩ ?_).1
  rintro u e v ⟨hu, hm, hl⟩ - hs
  refine ⟨hu.step hm (fun heq => absurd heq hl.ne) hs, hm.step hs, ?_⟩
  obtain heq | heq := requests_step hs
  · rwa [heq]
  · rw [heq]
    exact Nat.lt_succ_of_lt hl

/-- The callbacks of calls that were not made are unknown. -/
theorem unknown_of_reaches {callback : CallbackId}
    (hrun : Runs.Reaches (DNS.step s) (fun _ _ => True) .init w)
    (hle : w.requests.length ≤ callback) : Unknown w callback := by
  have hall := hrun.invariant (I := fun u => MemoryOk s u ∧
    ∀ callback, u.requests.length ≤ callback → Unknown u callback)
    ⟨HeapOk.init s, fun _ _ => ⟨nofun, nofun, nofun⟩⟩ ?_
  · exact hall.2 callback hle
  rintro u e v ⟨hm, hu⟩ - hs
  refine ⟨hm.step hs, ?_⟩
  intro other (hother : v.requests.length ≤ other)
  obtain heq | heq := requests_step hs
  · exact (hu other (heq ▸ hother)).step hm (fun _ => heq) hs
  · have hlt : u.requests.length < other := by omega
    exact (hu other hlt.le).step hm (fun heq' => absurd heq' hlt.ne') hs

/-! ### The decision -/

/-- The callback is never dispatched, and never runs, in any future of this state. -/
def NeverCalled (s : Setup) (w : DNS) (callback : CallbackId) : Prop :=
  ∀ w', Runs.Reaches (DNS.step s) (fun _ _ => True) w w' →
    (∀ d ∈ w'.ready, d.callback ≠ callback) ∧ ∀ p ∈ w'.ran, p.1 ≠ callback

/-- One pending control data holds the callback, once, and no other control data does. -/
def RetainedOnce (w : DNS) (callback : CallbackId) : Prop :=
  ∃ (c : ℕ) (callbacks : List CallbackId), w.roster[c]? = some (callbacks, false, false) ∧
    callbacks.count callback = 1 ∧
    ∀ (c' : ℕ) (entry : List CallbackId × Bool × Bool), w.roster[c']? = some entry → c' ≠ c →
      callback ∉ entry.1

/-- What the caller may rely on, by what the call returned. -/
def Decided (s : Setup) (w : DNS) (callback : CallbackId) : Outcome → Prop
  | .null => RetainedOnce w callback ∧ (∀ d ∈ w.ready, d.callback ≠ callback) ∧
      ∀ p ∈ w.ran, p.1 ≠ callback
  | .error | .addresses _ => NeverCalled s w callback
  | .dispatched => (∀ entry ∈ w.roster, callback ∉ entry.1) ∧
      w.ready.count ⟨callback, false⟩ = 1 ∧ w.ready.count ⟨callback, true⟩ = 0 ∧
      ∀ p ∈ w.ran, p.1 ≠ callback

theorem Unknown.neverCalled {callback : CallbackId} (h : Unknown w callback) (hmem : MemoryOk s w)
    (hlt : callback < w.requests.length) : NeverCalled s w callback := by
  intro w' hrun
  have hw' := h.reaches hmem hlt hrun
  exact ⟨hw'.ready, hw'.ran⟩

/-- A callback nobody held before is held once when it was retained. -/
theorem Held.retainedOnce {w' : DNS} {callback : CallbackId} (h : Held w w' callback)
    (hun : Unknown w callback) : RetainedOnce w' callback := by
  cases h with
  | queued heq =>
    refine ⟨w.roster.length, [callback], ?_, List.count_singleton_self, ?_⟩
    · rw [heq, List.getElem?_append_right le_rfl, Nat.sub_self]
      rfl
    · intro c' entry hc' hne
      rw [heq] at hc'
      have hin : entry ∈ w.roster := by
        rw [List.getElem?_append] at hc'
        split at hc'
        · exact List.mem_of_getElem? hc'
        · rw [List.getElem?_singleton] at hc'
          split at hc'
          · omega
          · exact nomatch hc'
      exact hun.held entry hin
  | @attached c callbacks hc heq =>
    have hnot : callback ∉ callbacks := hun.held _ (List.mem_of_getElem? hc)
    refine ⟨c, callbacks ++ [callback], ?_, ?_, ?_⟩
    · rw [heq, List.getElem?_set_self (List.getElem?_eq_some_iff.1 hc).1]
    · rw [List.count_append, List.count_eq_zero.2 hnot, List.count_singleton_self]
    · intro c' entry hc' hne
      rw [heq, List.getElem?_set_ne hne.symm] at hc'
      exact hun.held entry (List.mem_of_getElem? hc')

theorem not_retainedOnce_of_unheld {callback : CallbackId}
    (h : ∀ entry ∈ w.roster, callback ∉ entry.1) : ¬RetainedOnce w callback := by
  rintro ⟨c, callbacks, hc, hcount, -⟩
  have hnot := h _ (List.mem_of_getElem? hc)
  rw [List.count_eq_zero.2 hnot] at hcount
  exact nomatch hcount

/-- **Who owns the callback of a call.** For every state of a running resolver, every call and every
failing step: what the call returns says who owns its callback, unless the addresses of a literal
address could not be put in the cache. -/
theorem ownership_decided {c : Call} {env : CallEnv}
    (hrun : Runs.Reaches (DNS.step s) (fun _ _ => True) .init w) (hphase : w.phase = .running) :
    Decided s (w.call s c env).1 w.requests.length (w.call s c env).2 ↔ ¬c.SeedFails s w env := by
  have hmem := memoryOk_of_reaches hrun
  have hheap : HeapOk s [] none w := by
    rwa [MemoryOk, hphase] at hmem
  have hunknown := unknown_of_reaches hrun le_rfl
  have hstep := step_call (s := s) hphase c env
  have hmem' := hmem.step hstep
  have hlen : w.requests.length < (w.call s c env).1.requests.length := by
    rw [requests_call, List.length_append]
    exact Nat.lt_succ_self _
  cases hs : w.call s c env with
  | mk w' outcome =>
    rw [hs] at hmem' hlen
    obtain ⟨rfl, hheld, hready, hran, hnot⟩ | ⟨rfl, hun, hready, hran, hseed⟩ |
      ⟨ho, hun, hready, hran, hnot⟩ | ⟨rfl, hun, hready, hran, hnot⟩ := call_result hheap hs
    · refine iff_of_true ⟨hheld.retainedOnce hunknown, ?_, ?_⟩ hnot
      · rw [hready]
        exact hunknown.ready
      · rw [hran]
        exact hunknown.ran
    · refine iff_of_false ?_ (not_not_intro hseed)
      rintro ⟨hretained, -⟩
      exact not_retainedOnce_of_unheld (hunknown.held_of_untouched hun) hretained
    · have hun' : Unknown w' w.requests.length :=
        ⟨hunknown.held_of_untouched hun, hready ▸ hunknown.ready, hran ▸ hunknown.ran⟩
      refine iff_of_true ?_ hnot
      obtain rfl | ⟨addresses, rfl⟩ := ho
      · exact hun'.neverCalled hmem' hlen
      · exact hun'.neverCalled hmem' hlen
    · have hfresh : ∀ cancelled, w.ready.count ⟨w.requests.length, cancelled⟩ = 0 :=
        fun cancelled => List.count_eq_zero.2 fun hin => hunknown.ready _ hin rfl
      refine iff_of_true ⟨hunknown.held_of_untouched hun, ?_, ?_, ?_⟩ hnot
      · rw [hready, List.count_append, hfresh, List.count_singleton_self]
      · rw [hready, List.count_append, hfresh]
        simp
      · rw [hran]
        exact hunknown.ran

/-- The name `a` on an empty cache: null, and the new control data holds the callback. -/
theorem ownership_decided_queued : ¬(Call.lookup [97]).SeedFails setupTwo .init (calm 0) ∧
    Decided setupTwo (DNS.init.call setupTwo (.lookup [97]) (calm 0)).1 0
      (DNS.init.call setupTwo (.lookup [97]) (calm 0)).2 := by
  have hnot : ¬(Call.lookup [97]).SeedFails setupTwo .init (calm 0) := fun h => h.2.2.2 rfl
  exact ⟨hnot, (ownership_decided (.refl _) rfl).2 hnot⟩

/-- The address `10.0.0.1` on an empty cache, when its copy cannot be allocated: the call returns
null, and no control data holds the callback. -/
theorem null_and_nobody_holds :
    (DNS.init.call setupTwo (.lookup [49, 48, 46, 48, 46, 48, 46, 49])
        { calm 0 with seed := some .dupe }).2 = .null ∧
      ¬RetainedOnce (DNS.init.call setupTwo (.lookup [49, 48, 46, 48, 46, 48, 46, 49])
        { calm 0 with seed := some .dupe }).1 0 ∧
      ¬Decided setupTwo (DNS.init.call setupTwo (.lookup [49, 48, 46, 48, 46, 48, 46, 49])
        { calm 0 with seed := some .dupe }).1 0 .null := by
  have hnobody : ¬RetainedOnce (DNS.init.call setupTwo (.lookup [49, 48, 46, 48, 46, 48, 46, 49])
      { calm 0 with seed := some .dupe }).1 0 := by
    refine not_retainedOnce_of_unheld ?_
    decide +kernel
  exact ⟨by decide +kernel, hnobody, fun h => hnobody h.1⟩

end DNS

end Talyn.Dns
