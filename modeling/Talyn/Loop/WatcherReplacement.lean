import Talyn.Loop.Watchers
import Talyn.Lib.Runs

/-!
# Replacing a reader or a writer

`z_loop_add_watcher` for a descriptor that has a watcher: the old watcher is taken out of the tree, loses its
descriptor and has its poll cancelled, and only then the new one is made. A call that fails before that leaves the
loop as it was; one that fails later leaves the descriptor without a watcher.
-/

namespace Talyn

namespace Watchers

open HandleLoop (Phase CallFailure)

/-- The new watcher is stored and polled. -/
def Added.succeeds : Added → Bool
  | .inserted (.queued _) => true
  | _ => false

/-- `z_loop_add_watcher`, and whether it succeeds; `accepted` is false when a check of the loop or of the arguments
fails, or the handle cannot be made. -/
def loopAddWatcher (w : Watchers) (event : PollEvent) (fd : ℤ) (accepted cancelFails : Bool) (added : Added) :
    Bool × Watchers :=
  if accepted = false ∨ w.phase ≠ .running then (false, w)
  else
    (decide ((w.detach event fd cancelFails).1 ≠ .cancelFailed) && added.succeeds,
      w.addWatcher event fd cancelFails added)

/-- The watcher `old` that `fd` had in the state `w` is as good in the state `v`: it is in the tree, its poll is in
flight if it was, no poll has been cancelled, and whatever happens its callback is called as it would have been. -/
structure InForce (w v : Watchers) (event : PollEvent) (fd : ℤ) (old : ℕ) : Prop where
  stored : (v.trees event).lookup fd = some old
  armed : v.inFlight.count old = w.inFlight.count old
  uncancelled : ∀ task, v.trace.count (.cancelIo task) = w.trace.count (.cancelIo task)
  invoked : ∀ es w', Runs.exec step w es = some w' →
    ∃ v', Runs.exec step v es = some v' ∧ v'.trace.count (.called old) = w'.trace.count (.called old)

/-! ### What never comes back -/

/-- The watcher is freed, or has lost its descriptor. -/
def Gone (w : Watchers) (h : ℕ) : Prop := ∀ c, w.heap h = some c → c.fd < 0

/-- What can come of `w`: the trees get new watchers only, and a watcher that is gone stays so and is not called. -/
structure Evolves (w v : Watchers) : Prop where
  next : w.next ≤ v.next
  trees : ∀ event fd h, (v.trees event).lookup fd = some h →
    (w.trees event).lookup fd = some h ∨ (w.next ≤ h ∧ h < v.next)
  gone : ∀ h < w.next, w.Gone h → v.Gone h
  calls : ∀ h < w.next, w.Gone h → v.trace.count (.called h) = w.trace.count (.called h)

variable {u v w : Watchers} {event : PollEvent} {fd : ℤ} {h old : ℕ} {c c' : FDWatcher}

/-- One watcher is overwritten or freed. -/
theorem Gone.update {k : ℕ} {x : Option FDWatcher} (hg : w.Gone h) (hheap : v.heap = Function.update w.heap k x)
    (hx : h = k → ∀ d, x = some d → d.fd < 0) : v.Gone h := by
  intro d hd
  rw [hheap] at hd
  by_cases heq : h = k
  · rw [heq, Function.update_self] at hd
    exact hx heq d hd
  · rw [Function.update_of_ne heq] at hd
    exact hg d hd

theorem Evolves.refl (w : Watchers) : Evolves w w :=
  ⟨le_refl _, fun _ _ _ hl => .inl hl, fun _ _ hg => hg, fun _ _ _ => rfl⟩

theorem Evolves.trans (hv : Evolves w v) (hu : Evolves v u) : Evolves w u := by
  constructor
  · exact hv.next.trans hu.next
  · intro event fd h hl
    rcases hu.trees event fd h hl with hl | ⟨hle, hlt⟩
    · rcases hv.trees event fd h hl with hl | ⟨hle, hlt⟩
      · exact .inl hl
      · exact .inr ⟨hle, hlt.trans_le hu.next⟩
    · exact .inr ⟨hv.next.trans hle, hlt⟩
  · intro h hlt hg
    exact hu.gone h (hlt.trans_le hv.next) (hv.gone h hlt hg)
  · intro h hlt hg
    exact (hu.calls h (hlt.trans_le hv.next) (hv.gone h hlt hg)).trans (hv.calls h hlt hg)

/-- Places, handles and the phase have no part in it. -/
theorem Evolves.of_eq (hheap : v.heap = w.heap) (hnext : v.next = w.next) (htrees : v.trees = w.trees)
    (htrace : v.trace = w.trace) : Evolves w v := by
  refine ⟨hnext.ge, fun event fd h hl => .inl (htrees ▸ hl), fun h _ hg => ?_, fun h _ _ => by rw [htrace]⟩
  rw [Gone, hheap]
  exact hg

theorem count_emit (w : Watchers) {e : Effect} (he : e ≠ .called h) :
    (w.emit e).trace.count (.called h) = w.trace.count (.called h) := by
  show (w.trace ++ [e]).count (.called h) = _
  rw [List.count_append, List.count_singleton, if_neg (by simpa using he), Nat.add_zero]

theorem Evolves.emit (w : Watchers) {e : Effect} (he : ∀ h, e ≠ .called h) : Evolves w (w.emit e) :=
  ⟨le_refl _, fun _ _ _ hl => .inl hl, fun _ _ hg => hg, fun h _ _ => count_emit w (he h)⟩

/-- A watcher that has its descriptor is called. -/
theorem Evolves.called (hc : w.heap h = some c) (hfd : ¬c.fd < 0) :
    Evolves w ({ w with frames := .callback h :: w.frames }.emit (.called h)) := by
  refine ⟨le_refl _, fun _ _ _ hl => .inl hl, fun _ _ hg => hg, fun h' _ hg => ?_⟩
  refine count_emit { w with frames := .callback h :: w.frames } fun heq => ?_
  obtain rfl := Effect.called.inj heq
  exact hfd (hg c hc)

theorem Evolves.setWatcher (hc : w.heap h = some c) (hfd : c.fd < 0 → c'.fd < 0) :
    Evolves w (w.setWatcher h c') := by
  refine ⟨le_refl _, fun _ _ _ hl => .inl hl, fun h' _ hg => hg.update rfl ?_, fun _ _ _ => rfl⟩
  rintro rfl d hd
  obtain rfl := Option.some.inj hd
  exact hfd (hg c hc)

theorem Evolves.delete (w : Watchers) (event : PollEvent) (fd : ℤ) : Evolves w (w.delete event fd) := by
  refine ⟨le_refl _, fun event' fd' h hl => .inl ?_, fun _ _ hg => hg, fun _ _ _ => rfl⟩
  have hlookup : (Function.update w.trees event ((w.trees event).erase fd) event').lookup fd' = some h := hl
  by_cases heq : event' = event
  · subst heq
    rw [Function.update_self] at hlookup
    by_cases hfd : fd' = fd
    · subst hfd
      rw [AList.lookup_erase] at hlookup
      exact nomatch hlookup
    · rwa [AList.lookup_erase_ne hfd] at hlookup
  · rwa [Function.update_of_ne heq] at hlookup

theorem Evolves.destroy (w : Watchers) (h : ℕ) : Evolves w (w.destroy h) := by
  have hemit : Evolves w ((w.emit (.decref h)).emit (.destroy h)) :=
    (Evolves.emit w fun _ => Effect.noConfusion).trans (.emit _ fun _ => Effect.noConfusion)
  refine hemit.trans ⟨le_refl _, fun _ _ _ hl => .inl hl, fun h' _ hg => hg.update rfl ?_, fun _ _ _ => rfl⟩
  exact fun _ _ hd => nomatch hd

theorem Evolves.create (w : Watchers) (event : PollEvent) (fd : ℤ) : Evolves w (w.create event fd) := by
  refine ⟨Nat.le_succ _, fun _ _ _ hl => .inl hl, fun h hlt hg => hg.update rfl ?_, fun _ _ _ => rfl⟩
  exact fun heq => absurd heq hlt.ne

theorem Evolves.insert_create (w : Watchers) (event : PollEvent) (fd : ℤ) :
    Evolves w ((w.create event fd).insert event fd w.next) := by
  obtain ⟨hnext, -, hgone, hcalls⟩ := Evolves.create w event fd
  refine ⟨hnext, fun event' fd' h hl => ?_, hgone, hcalls⟩
  have hlookup : (Function.update w.trees event ((w.trees event).insert fd w.next) event').lookup fd' = some h := hl
  by_cases heq : event' = event
  · subst heq
    rw [Function.update_self] at hlookup
    by_cases hfd : fd' = fd
    · subst hfd
      rw [AList.lookup_insert] at hlookup
      obtain rfl := Option.some.inj hlookup
      exact .inr ⟨le_refl _, Nat.lt_succ_self _⟩
    · rw [AList.lookup_insert_ne hfd] at hlookup
      exact .inl hlookup
  · rw [Function.update_of_ne heq] at hlookup
    exact .inl hlookup

/-! ### What the functions do to the others -/

theorem Evolves.cleanup (w : Watchers) (h : ℕ) : Evolves w (w.cleanup h) := by
  unfold Watchers.cleanup
  split
  · exact .emit w fun _ => Effect.noConfusion
  · split_ifs
    · exact (Evolves.delete w _ _).trans (.destroy _ h)
    · exact .destroy w h

theorem Evolves.arm (hc : w.heap h = some c) (task : ℕ) : Evolves w (w.arm h c task) := by
  have hset : Evolves w (w.setWatcher h { c with blockingTaskId := task }) := .setWatcher hc id
  have hfly : Evolves (w.setWatcher h { c with blockingTaskId := task })
      { w.setWatcher h { c with blockingTaskId := task } with inFlight := w.inFlight ++ [h] } :=
    .of_eq rfl rfl rfl rfl
  exact (hset.trans hfly).trans (.emit _ fun _ => Effect.noConfusion)

theorem Evolves.leave (w : Watchers) (h : ℕ) (left : Bool) : Evolves w (w.leave h left) := by
  unfold Watchers.leave
  split_ifs
  · exact .of_eq rfl rfl rfl rfl
  · exact .refl w

theorem Evolves.detach (w : Watchers) (event : PollEvent) (fd : ℤ) (cancelFails : Bool) :
    Evolves w (w.detach event fd cancelFails).2 := by
  unfold Watchers.detach
  split
  · exact .refl w
  · rename_i old hold
    have hdelete := Evolves.delete w event fd
    dsimp only
    split
    · exact hdelete.trans (.emit _ fun _ => Effect.noConfusion)
    · rename_i c hc
      have hset : Evolves (w.delete event fd) ((w.delete event fd).setWatcher old { c with fd := -1 }) :=
        .setWatcher hc fun _ => Int.negSucc_lt_zero 0
      have hremoved := (hdelete.trans hset).trans (.emit _ (e := .removed old) fun _ => Effect.noConfusion)
      split_ifs
      · exact hremoved
      · exact hremoved
      · exact hremoved.trans (.emit _ fun _ => Effect.noConfusion)

/-- The part of `z_loop_add_watcher` behind the old watcher. -/
theorem Evolves.added (w : Watchers) (event : PollEvent) (fd : ℤ) (cancelFails : Bool) (added : Added) :
    Evolves (w.detach event fd cancelFails).2 (w.addWatcher event fd cancelFails added) := by
  obtain ⟨-, heq⟩ | ⟨-, heq⟩ := addWatcher_cases w event fd cancelFails added
  · rw [heq]
    exact .refl _
  rw [heq]
  generalize (w.detach event fd cancelFails).2 = v
  have hstored := Evolves.insert_create v event fd
  cases added with
  | allocFails => exact .refl v
  | insertFails placed =>
    dsimp only
    split_ifs
    · exact hstored.trans (.destroy _ _)
    · exact (Evolves.create v event fd).trans (.destroy _ _)
  | inserted queue =>
    cases queue with
    | queued task => exact hstored.trans (.arm (heap_insert_create v event fd) task)
    | failed left => exact ((hstored.trans (.leave _ _ left)).trans (.delete _ event fd)).trans (.destroy _ _)

theorem Evolves.loopWatchersCallback (w : Watchers) (h errno : ℕ) (cancelled dispatches : Bool) :
    Evolves w (w.loopWatchersCallback h errno cancelled dispatches) := by
  unfold Watchers.loopWatchersCallback
  split
  · exact .emit w fun _ => Effect.noConfusion
  · rename_i c hc
    have hset : Evolves w (w.setWatcher h { c with blockingTaskId := 0 }) := .setWatcher hc id
    have hincref := hset.trans (.emit _ (e := .incref h) fun _ => Effect.noConfusion)
    dsimp only
    split_ifs
    · exact .cleanup w h
    · exact hincref.trans (.of_eq rfl rfl rfl rfl)
    · exact (hincref.trans (.emit _ fun _ => Effect.noConfusion)).trans (.cleanup _ h)
    · exact .cleanup w h

theorem Evolves.finish (w : Watchers) (h : ℕ) : Evolves w (w.finish h) := .of_eq rfl rfl rfl rfl

theorem Evolves.failed (w : Watchers) (h : ℕ) (reported : Bool) : Evolves w (w.failed h reported) := by
  have hdecref := Evolves.emit w (e := .decref h) fun _ => Effect.noConfusion
  unfold Watchers.failed
  dsimp only
  split_ifs
  · have hframe : Evolves (w.emit (.decref h))
        { w.emit (.decref h) with frames := .handler h :: (w.emit (.decref h)).frames } := .of_eq rfl rfl rfl rfl
    exact (hdecref.trans hframe).trans (.emit _ fun _ => Effect.noConfusion)
  · exact hdecref.trans (.finish _ h)

theorem Evolves.wrapperCallback (w : Watchers) (h : ℕ) (cancelled : Bool) (failure : Option CallFailure)
    (reported : Bool) : Evolves w (w.wrapperCallback h cancelled failure reported) := by
  unfold Watchers.wrapperCallback
  split
  · exact .emit w fun _ => Effect.noConfusion
  · rename_i c hc
    have hset : Evolves w (w.setWatcher h { c with blockingTaskId := 0 }) := .setWatcher hc id
    have hhandle := hset.trans (.of_eq (v := (w.setWatcher h { c with blockingTaskId := 0 }).setHandle h
      (HandleLoop.claim (w.handles h) false).1) rfl rfl rfl rfl)
    have hdone := (hhandle.trans (.emit _ (e := .decref h) fun _ => Effect.noConfusion)).trans (.finish _ h)
    dsimp only
    split_ifs with hdetached
    · exact (Evolves.emit w fun _ => Effect.noConfusion).trans (.cleanup _ h)
    · exact hdone
    · exact hhandle.trans (.failed _ h reported)
    · exact hdone
    · exact hhandle.trans (.failed _ h reported)
    · have hheld : (w.setWatcher h { c with blockingTaskId := 0 }).heap h = some { c with blockingTaskId := 0 } :=
        Function.update_self _ _ _
      exact hhandle.trans (.called hheld fun hfd => hdetached (.inr hfd))

theorem Evolves.rearm (w : Watchers) (h : ℕ) (queue : Queue) : Evolves w (w.rearm h queue) := by
  unfold Watchers.rearm
  split
  · exact .emit w fun _ => Effect.noConfusion
  · rename_i c hc
    split_ifs
    · exact .cleanup w h
    · cases queue with
      | queued task => exact .arm hc task
      | failed left => exact (Evolves.leave w h left).trans (.cleanup _ h)

theorem Evolves.invalidate (w : Watchers) (h : ℕ) : Evolves w (w.invalidate h) := by
  unfold Watchers.invalidate
  split
  · exact .emit w fun _ => Effect.noConfusion
  · rename_i c hc
    exact .setWatcher hc fun _ => Int.negSucc_lt_zero 0

theorem Evolves.foldl_invalidate (hs : List ℕ) (w : Watchers) : Evolves w (hs.foldl Watchers.invalidate w) := by
  induction hs generalizing w with
  | nil => exact .refl w
  | cons h hs ih => exact (Evolves.invalidate w h).trans (ih _)

theorem Evolves.popAll (w : Watchers) (event : PollEvent) : Evolves w (w.popAll event) := by
  have hfold := Evolves.foldl_invalidate ((w.trees event).entries.map Sigma.snd) w
  unfold Watchers.popAll
  generalize ((w.trees event).entries.map Sigma.snd).foldl Watchers.invalidate w = v at hfold ⊢
  refine hfold.trans ⟨le_refl _, fun event' fd h hl => .inl ?_, fun _ _ hg => hg, fun _ _ _ => rfl⟩
  have hlookup : (Function.update v.trees event ∅ event').lookup fd = some h := hl
  by_cases heq : event' = event
  · subst heq
    rw [Function.update_self, AList.lookup_empty] at hlookup
    exact nomatch hlookup
  · rwa [Function.update_of_ne heq] at hlookup

theorem Evolves.step {e : Event} (hs : w.step e = some v) : Evolves w v := by
  -- the places of the ready queue and the frames, where a callback or a frame is taken off
  have hready : ∀ ready, Evolves w { w with ready := ready } := fun _ => .of_eq rfl rfl rfl rfl
  have hframes : ∀ frames, Evolves w { w with frames := frames } := fun _ => .of_eq rfl rfl rfl rfl
  cases e with
  | addWatcher event fd cancelFails added =>
    obtain ⟨-, hs⟩ := Option.ite_none_right_eq_some.1 hs
    obtain rfl := Option.some.inj hs
    exact (Evolves.detach w event fd cancelFails).trans (.added w event fd cancelFails added)
  | removeWatcher event fd cancelFails =>
    obtain ⟨-, hs⟩ := Option.ite_none_right_eq_some.1 hs
    obtain rfl := Option.some.inj hs
    exact .detach w event fd cancelFails
  | setHandle h handle =>
    obtain rfl := Option.some.inj hs
    exact .of_eq rfl rfl rfl rfl
  | harvest index errno =>
    obtain ⟨-, hs⟩ := Option.ite_none_right_eq_some.1 hs
    obtain ⟨h, -, rfl⟩ := Option.map_eq_some_iff.1 hs
    exact .of_eq rfl rfl rfl rfl
  | execute failure reported dispatches =>
    obtain ⟨-, hs⟩ := Option.ite_none_right_eq_some.1 hs
    split at hs
    · exact nomatch hs
    · obtain rfl := Option.some.inj hs
      exact (hready _).trans (.loopWatchersCallback _ _ _ false dispatches)
    · obtain rfl := Option.some.inj hs
      exact (hready _).trans (.wrapperCallback _ _ false failure reported)
  | returned =>
    simp only [Watchers.step] at hs
    split at hs
    · obtain rfl := Option.some.inj hs
      exact ((hframes _).trans (.emit _ fun _ => Effect.noConfusion)).trans (.finish _ _)
    · exact nomatch hs
  | raised exits reported =>
    simp only [Watchers.step] at hs
    split at hs
    · split_ifs at hs
      · obtain rfl := Option.some.inj hs
        exact ((hframes _).trans (.emit _ fun _ => Effect.noConfusion)).trans (.cleanup _ _)
      · obtain rfl := Option.some.inj hs
        exact (hframes _).trans (.failed _ _ reported)
    · exact nomatch hs
  | handled =>
    simp only [Watchers.step] at hs
    split at hs
    · obtain rfl := Option.some.inj hs
      exact (hframes _).trans (.finish _ _)
    · exact nomatch hs
  | rearm queue =>
    simp only [Watchers.step] at hs
    split at hs
    · obtain rfl := Option.some.inj hs
      exact (hframes _).trans (.rearm _ _ queue)
    · exact nomatch hs
  | close =>
    obtain ⟨-, hs⟩ := Option.ite_none_right_eq_some.1 hs
    obtain rfl := Option.some.inj hs
    exact .of_eq rfl rfl rfl rfl
  | release =>
    obtain ⟨-, hs⟩ := Option.ite_none_right_eq_some.1 hs
    split at hs
    · exact nomatch hs
    · obtain rfl := Option.some.inj hs
      exact (hready _).trans (.loopWatchersCallback _ _ _ true true)
    · obtain rfl := Option.some.inj hs
      exact (hready _).trans (.wrapperCallback _ _ true none true)
  | cancelAll =>
    obtain ⟨-, hs⟩ := Option.ite_none_right_eq_some.1 hs
    obtain rfl := Option.some.inj hs
    exact ((Evolves.popAll w .pollIn).trans (.popAll _ .pollOut)).trans (.of_eq rfl rfl rfl rfl)
  | closed =>
    obtain ⟨-, hs⟩ := Option.ite_none_right_eq_some.1 hs
    obtain rfl := Option.some.inj hs
    exact .of_eq rfl rfl rfl rfl

/-- What every step respects a whole run does. -/
theorem evolves_exec {es : List Event} (hes : Runs.exec step w es = some v) : Evolves w v :=
  (Runs.always_of_step (I := Evolves w) (.refl w) fun _ _ _ hu hs => hu.trans (.step hs)).last hes

/-- The watchers in the trees have been made. -/
theorem lookup_lt {es : List Event} (hes : Runs.exec step init es = some w)
    (hold : (w.trees event).lookup fd = some old) : old < w.next := by
  rcases (evolves_exec hes).trees event fd old hold with hinit | ⟨-, hlt⟩
  · rw [init, AList.lookup_empty] at hinit
    cases hinit
  · exact hlt

/-! ### The old watcher -/

/-- The old watcher is out of the tree, and has lost its descriptor. -/
theorem detach_spec (hold : (w.trees event).lookup fd = some old) (cancelFails : Bool) :
    (w.detach event fd cancelFails).2.Gone old ∧
      ((w.detach event fd cancelFails).2.trees event).lookup fd = none ∧
      (w.detach event fd cancelFails).2.trace.count (.called old) = w.trace.count (.called old) := by
  have herased : ((w.delete event fd).trees event).lookup fd = none := by
    show (Function.update w.trees event ((w.trees event).erase fd) event).lookup fd = none
    rw [Function.update_self, AList.lookup_erase]
  unfold Watchers.detach
  rw [hold]
  dsimp only
  split
  · rename_i hnone
    refine ⟨fun c hc => ?_, herased, count_emit _ Effect.noConfusion⟩
    exact nomatch hnone.symm.trans hc
  · rename_i c hc
    have hgone : ((w.delete event fd).setWatcher old { c with fd := -1 }).Gone old := by
      intro d hd
      have hself : ((w.delete event fd).setWatcher old { c with fd := -1 }).heap old = some { c with fd := -1 } :=
        Function.update_self _ _ _
      obtain rfl := Option.some.inj (hself.symm.trans hd)
      exact Int.negSucc_lt_zero 0
    have hremoved := count_emit (h := old) ((w.delete event fd).setWatcher old { c with fd := -1 })
      (e := .removed old) Effect.noConfusion
    split_ifs
    · exact ⟨hgone, herased, hremoved⟩
    · exact ⟨hgone, herased, hremoved⟩
    · exact ⟨hgone, herased, (count_emit _ Effect.noConfusion).trans hremoved⟩

/-- However the call ends behind it, the old watcher stays out of the tree and gone. -/
theorem addWatcher_spec (hold : (w.trees event).lookup fd = some old) (hlt : old < w.next) (cancelFails : Bool)
    (added : Added) :
    (w.addWatcher event fd cancelFails added).Gone old ∧
      ((w.addWatcher event fd cancelFails added).trees event).lookup fd ≠ some old ∧
      (w.addWatcher event fd cancelFails added).trace.count (.called old) = w.trace.count (.called old) := by
  obtain ⟨hgone, hnone, hcount⟩ := detach_spec hold cancelFails
  have hadded := Evolves.added w event fd cancelFails added
  have hlt' := hlt.trans_le (Evolves.detach w event fd cancelFails).next
  refine ⟨hadded.gone old hlt' hgone, fun hlookup => ?_, (hadded.calls old hlt' hgone).trans hcount⟩
  rcases hadded.trees event fd old hlookup with hlookup | ⟨hle, -⟩
  · exact nomatch hnone.symm.trans hlookup
  · exact absurd hlt' (not_lt.2 hle)

theorem InForce.refl (hold : (w.trees event).lookup fd = some old) : InForce w w event fd old :=
  ⟨hold, rfl, fun _ => rfl, fun _ w' hes => ⟨w', hes, rfl⟩⟩

/-- A call for a descriptor that has a watcher leaves that watcher in force exactly when it fails before the old
watcher is taken out of the way. Otherwise, however it ends, the callback of the old watcher is never called again. -/
theorem old_watcher_in_force_iff {es : List Event} (accepted cancelFails : Bool) (added : Added)
    (hes : Runs.exec step init es = some w) (hold : (w.trees event).lookup fd = some old) :
    (InForce w (w.loopAddWatcher event fd accepted cancelFails added).2 event fd old ↔
        accepted = false ∨ w.phase ≠ .running) ∧
      (¬(accepted = false ∨ w.phase ≠ .running) →
        ∀ fs v, Runs.exec step (w.loopAddWatcher event fd accepted cancelFails added).2 fs = some v →
          v.trace.count (.called old) = w.trace.count (.called old)) := by
  have hlt := lookup_lt hes hold
  obtain ⟨hgone, hlookup, hcount⟩ := addWatcher_spec hold hlt cancelFails added
  unfold loopAddWatcher
  by_cases hearly : accepted = false ∨ w.phase ≠ .running
  · rw [if_pos hearly]
    exact ⟨iff_of_true (.refl hold) hearly, fun hlate => absurd hearly hlate⟩
  · rw [if_neg hearly]
    refine ⟨iff_of_false (fun hforce => hlookup hforce.stored) hearly, fun _ fs v hfs => ?_⟩
    have hnext := (Evolves.detach w event fd cancelFails).next.trans (Evolves.added w event fd cancelFails added).next
    exact ((evolves_exec hfs).calls old (hlt.trans_le hnext) hgone).trans hcount

/-- The loop with a reader of descriptor 7. -/
def oneReader : Watchers := init.addWatcher .pollIn 7 false (.inserted (.queued 1))

theorem old_watcher_in_force_rejected :
    InForce oneReader (oneReader.loopAddWatcher .pollIn 7 false false .allocFails).2 .pollIn 7 0 ∧
      ∀ fs v, Runs.exec step (oneReader.loopAddWatcher .pollIn 7 true false .allocFails).2 fs = some v →
        v.trace.count (.called 0) = 0 := by
  have hes : Runs.exec step init [.addWatcher .pollIn 7 false (.inserted (.queued 1))] = some oneReader := rfl
  refine ⟨?_, fun fs v hfs => ?_⟩
  · exact (old_watcher_in_force_iff false false .allocFails hes rfl).1.2 (.inl rfl)
  · exact (old_watcher_in_force_iff true false .allocFails hes rfl).2 (by decide) fs v hfs

/-- The new watcher of a second reader cannot be allocated: the call fails, and the descriptor has no reader. -/
theorem old_watcher_lost :
    Runs.exec step init [.addWatcher .pollIn 7 false (.inserted (.queued 1))] = some oneReader ∧
      (oneReader.trees .pollIn).lookup 7 = some 0 ∧
      (oneReader.loopAddWatcher .pollIn 7 true false .allocFails).1 = false ∧
      .cancelIo 1 ∈ (oneReader.loopAddWatcher .pollIn 7 true false .allocFails).2.trace ∧
      ¬InForce oneReader (oneReader.loopAddWatcher .pollIn 7 true false .allocFails).2 .pollIn 7 0 := by
  refine ⟨rfl, rfl, rfl, by decide, fun hforce => ?_⟩
  exact absurd hforce.stored (by decide)

end Watchers

end Talyn
