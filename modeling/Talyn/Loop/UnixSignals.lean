import Talyn.Lib.Runs

/-!
# Signal handlers

`link` and `unlink` of `loop/unix_signals.zig`, with the dispositions and the blocked signals of the
process. A handler of Zig is a pointer that may be null: the null pointer is both the default disposition,
as `signal` returns it, and an entry of `prev_handlers` where nothing is saved. So the entry of a signal
whose disposition was the default stays empty when the signal is linked, and the next `link` puts the
handler of the loop itself there.

Reading the signals from the descriptor is another matter, in `Loop/SignalReads`; here it can only fail.
-/

namespace Talyn.Signals

/-- What a process does with a signal. -/
inductive Disposition
  | default
  | ignored
  | handler (address : ℕ)
  deriving DecidableEq, Repr

/-- A pointer of type `SigHandler` that is not null. -/
inductive SigHandler
  | ignore
  /-- `SIG_ERR` -/
  | error
  | handler (address : ℕ)
  deriving DecidableEq, Repr

/-- The address of `dummy_signal_handler`. -/
def dummySignalHandler : ℕ := 0

/-- The disposition of a linked signal. -/
def dummy : Disposition := .handler dummySignalHandler

/-- A disposition as `signal` returns it. -/
def Disposition.pointer : Disposition → Option SigHandler
  | .default => none
  | .ignored => some .ignore
  | .handler address => some (.handler address)

/-- The disposition `signal` sets; `none` is `SIG_ERR`, which it refuses. -/
def disposition : Option SigHandler → Option Disposition
  | none => some .default
  | some .ignore => some .ignored
  | some (.handler address) => some (.handler address)
  | some .error => none

@[simp] theorem disposition_pointer (d : Disposition) : disposition d.pointer = some d := by
  cases d with
  | default => rfl
  | ignored => rfl
  | handler address => rfl

/-- Everything but `SIGKILL`, `SIGSTOP` and the two signals that the C library keeps for itself. -/
def changeable (sig : ℕ) : Bool := 1 ≤ sig && sig ≤ 64 && sig ∉ [9, 19, 32, 33]

/-- `signal`: the pointer it returns, and the dispositions. -/
def signal (dispositions : ℕ → Disposition) (sig : ℕ) (h : Option SigHandler) :
    Option SigHandler × (ℕ → Disposition) :=
  match changeable sig, disposition h with
  | true, some d => ((dispositions sig).pointer, Function.update dispositions sig d)
  | _, _ => (some .error, dispositions)

/-- Where a call of `link` fails: `signalfd`, the read of the descriptor, the dispatch of the callback
that is replaced, or the slot of a new one. -/
inductive LinkFailure
  | signalfd
  | enqueue
  | dispatch
  | reserve
  deriving DecidableEq, Repr

/-- Where a call of `unlink` fails: the dispatch of the callback, or `signalfd`. -/
inductive UnlinkFailure
  | dispatch
  | signalfd
  deriving DecidableEq, Repr

/-- A call, with the step at which it fails. -/
inductive Call
  | link (sig : ℕ) (failure : Option LinkFailure)
  | unlink (sig : ℕ) (failure : Option UnlinkFailure)
  deriving DecidableEq, Repr

end Talyn.Signals

namespace Talyn

open Signals

/-- The signals of the process and `UnixSignals`. -/
structure UnixSignals where
  dispositions : ℕ → Disposition
  /-- the signals the thread blocks -/
  blocked : ℕ → Bool
  /-- the signals that have a callback -/
  callbacks : ℕ → Bool
  mask : ℕ → Bool
  prevHandlers : ℕ → Option SigHandler
  /-- the calls of `link` since the signal was unlinked -/
  links : ℕ → ℕ
  /-- the signal was an argument of `link` -/
  touched : ℕ → Bool
  /-- the signal of the last call, when that was `unlink` -/
  unlinked : Option ℕ

namespace UnixSignals

/-- Before the first `link`. -/
def new (dispositions : ℕ → Disposition) (blocked : ℕ → Bool) : UnixSignals where
  dispositions := dispositions
  blocked := blocked
  callbacks := fun _ => false
  mask := fun _ => false
  prevHandlers := fun _ => none
  links := fun _ => 0
  touched := fun _ => false
  unlinked := none

/-- The steps of `link` up to `siginterrupt`. -/
def install (s : UnixSignals) (sig : ℕ) : UnixSignals :=
  let mask := Function.update s.mask sig true
  let (prev, dispositions) := signal s.dispositions sig (some (.handler dummySignalHandler))
  { s with
    mask := mask
    blocked := fun t => s.blocked t || mask t
    dispositions := dispositions
    prevHandlers :=
      if 1 ≤ sig ∧ sig ≤ 64 ∧ s.prevHandlers sig = none then Function.update s.prevHandlers sig prev
      else s.prevHandlers
    links := Function.update s.links sig (s.links sig + 1)
    touched := Function.update s.touched sig true }

/-- `link`. A callback that cannot be dispatched is put back, so the signal has one either way. -/
def link (s : UnixSignals) (sig : ℕ) (failure : Option LinkFailure) : UnixSignals :=
  let s := { s.install sig with unlinked := none }
  match failure with
  | some .signalfd | some .enqueue => s
  | some .dispatch | some .reserve | none =>
    { s with callbacks := Function.update s.callbacks sig true }

/-- The steps of `unlink` after `signalfd`. -/
def restore (s : UnixSignals) (sig : ℕ) : UnixSignals :=
  let inTable := decide (1 ≤ sig ∧ sig ≤ 64)
  let old := if inTable then s.prevHandlers sig else none
  { s with
    prevHandlers := if inTable then Function.update s.prevHandlers sig none else s.prevHandlers
    dispositions := (signal s.dispositions sig old).2
    blocked := Function.update s.blocked sig false
    links := Function.update s.links sig 0 }

/-- `unlink`; `error.KeyNotFound` when the signal has no callback. -/
def unlink (s : UnixSignals) (sig : ℕ) (failure : Option UnlinkFailure) : UnixSignals :=
  let s := { s with unlinked := some sig }
  if !s.callbacks sig then s
  else
    let s := { s with callbacks := Function.update s.callbacks sig false }
    match failure with
    | some .dispatch => s
    | some .signalfd => { s with mask := Function.update s.mask sig false }
    | none => { s with mask := Function.update s.mask sig false }.restore sig

/-- One call. -/
def step (s : UnixSignals) : Call → Option UnixSignals
  | .link sig failure => some (s.link sig failure)
  | .unlink sig failure => some (s.unlink sig failure)

/-- After `unlink` the signal has the disposition it had at first, and the signals that were not linked
keep theirs and stay as blocked as they were. -/
def Restored (origin : ℕ → Disposition) (blocked : ℕ → Bool) (s : UnixSignals) : Prop :=
  (∀ sig, s.unlinked = some sig → s.dispositions sig = origin sig) ∧
    ∀ t, s.touched t = false → s.dispositions t = origin t ∧ s.blocked t = blocked t

/-- The condition on a call of `unlink`, unless the disposition was that of the loop to begin with: a
signal that has a callback was linked once, or its disposition was not the default, and the call does not
fail; a signal that has none was not linked by a call that failed. -/
def Restorable (origin : ℕ → Disposition) (s : UnixSignals) (call : Call) : Prop :=
  ∀ sig failure, call = .unlink sig failure → changeable sig = true → origin sig = dummy ∨
    if s.callbacks sig then failure = none ∧ (origin sig = .default → s.links sig ≤ 1)
    else s.links sig = 0

/-- What `prev_handlers` saves, by the number of calls of `link`. -/
structure Tracked (origin : ℕ → Disposition) (blocked : ℕ → Bool) (s : UnixSignals) : Prop where
  fixed : ∀ t, changeable t = false → s.dispositions t = origin t
  unlinked : ∀ t, changeable t = true → s.links t = 0 →
    s.dispositions t = origin t ∧ s.prevHandlers t = none ∧ s.callbacks t = false
  linked : ∀ t, changeable t = true → s.links t ≠ 0 → s.dispositions t = dummy ∧
    s.prevHandlers t = if origin t = .default ∧ s.links t ≠ 1 then dummy.pointer
      else (origin t).pointer
  untouched : ∀ t, s.touched t = false →
    s.links t = 0 ∧ s.mask t = false ∧ s.blocked t = blocked t ∧ s.callbacks t = false

variable {origin : ℕ → Disposition} {blocked : ℕ → Bool}

theorem tracked_new : Tracked origin blocked (new origin blocked) where
  fixed _ _ := rfl
  unlinked _ _ _ := ⟨rfl, rfl, rfl⟩
  linked _ _ h := absurd rfl h
  untouched _ _ := ⟨rfl, rfl, rfl, rfl⟩

theorem changeable_range {sig : ℕ} (h : changeable sig = true) : 1 ≤ sig ∧ sig ≤ 64 := by
  simp only [changeable, Bool.and_eq_true, decide_eq_true_eq] at h
  exact h.1

@[simp] theorem signal_fixed {sig : ℕ} (h : changeable sig = false) (dispositions : ℕ → Disposition)
    (p : Option SigHandler) : signal dispositions sig p = (some .error, dispositions) := by
  simp [signal, h]

theorem signal_pointer {sig : ℕ} (h : changeable sig = true) (dispositions : ℕ → Disposition)
    (d : Disposition) : signal dispositions sig d.pointer =
      ((dispositions sig).pointer, Function.update dispositions sig d) := by
  simp [signal, h]

@[simp] theorem pointer_eq_none {d : Disposition} : d.pointer = none ↔ d = .default := by
  cases d with
  | default => simp [Disposition.pointer]
  | ignored => simp [Disposition.pointer]
  | handler address => simp [Disposition.pointer]

/-- `link` leaves the other signals alone. -/
theorem install_of_ne (s : UnixSignals) {sig t : ℕ} (h : t ≠ sig) :
    (s.install sig).dispositions t = s.dispositions t ∧
      (s.install sig).prevHandlers t = s.prevHandlers t ∧
      (s.install sig).links t = s.links t ∧ (s.install sig).mask t = s.mask t ∧
      (s.install sig).blocked t = (s.blocked t || s.mask t) := by
  unfold install
  refine ⟨?_, ?_, ?_, ?_, ?_⟩
  · cases hc : changeable sig with
    | false => simp [hc]
    | true =>
      show (signal s.dispositions sig dummy.pointer).2 t = _
      rw [signal_pointer hc]
      exact Function.update_of_ne h _ _
  · dsimp only
    split
    · exact Function.update_of_ne h _ _
    · rfl
  · exact Function.update_of_ne h _ _
  · exact Function.update_of_ne h _ _
  · show (s.blocked t || Function.update s.mask sig true t) = _
    rw [Function.update_of_ne h]

/-- The disposition of a linked signal, and what is saved of the one before. -/
theorem install_self (s : UnixSignals) {sig : ℕ} (h : changeable sig = true) :
    (s.install sig).dispositions sig = dummy ∧
      (s.install sig).prevHandlers sig =
        if s.prevHandlers sig = none then (s.dispositions sig).pointer else s.prevHandlers sig := by
  have hr := changeable_range h
  have hs : signal s.dispositions sig (some (.handler dummySignalHandler)) =
      ((s.dispositions sig).pointer, Function.update s.dispositions sig dummy) :=
    signal_pointer h s.dispositions dummy
  unfold install
  rw [hs]
  refine ⟨Function.update_self .., ?_⟩
  dsimp only
  by_cases hp : s.prevHandlers sig = none
  · rw [if_pos ⟨hr.1, hr.2, hp⟩, if_pos hp]
    exact Function.update_self ..
  · rw [if_neg fun hc => hp hc.2.2, if_neg hp]

theorem Tracked.install {s : UnixSignals} (h : Tracked origin blocked s) (sig : ℕ)
    {c : ℕ → Bool} (hcb : ∀ t, t ≠ sig → c t = s.callbacks t) :
    Tracked origin blocked { s.install sig with unlinked := none, callbacks := c } := by
  have hlinks : (s.install sig).links sig = s.links sig + 1 := Function.update_self ..
  refine ⟨fun t hc => ?_, fun t hc h0 => ?_, fun t hc h0 => ?_, fun t ht => ?_⟩
  · by_cases hts : t = sig
    · subst hts
      refine Eq.trans ?_ (h.fixed t hc)
      simp [UnixSignals.install, hc]
    · exact (install_of_ne s hts).1.trans (h.fixed t hc)
  · by_cases hts : t = sig
    · subst hts
      exact absurd (hlinks.symm.trans h0) (Nat.succ_ne_zero _)
    · obtain ⟨hd, hp, hl, -, -⟩ := install_of_ne s hts
      obtain ⟨hd', hp', hcb'⟩ := h.unlinked t hc (hl.symm.trans h0)
      exact ⟨hd.trans hd', hp.trans hp', (hcb t hts).trans hcb'⟩
  · by_cases hts : t = sig
    · subst hts
      obtain ⟨hd, hp⟩ := install_self s hc
      refine ⟨hd, hp.trans ?_⟩
      show _ = if origin t = .default ∧ (s.install t).links t ≠ 1 then _ else _
      rw [hlinks]
      by_cases hl : s.links t = 0
      · obtain ⟨hd', hp', -⟩ := h.unlinked t hc hl
        simp [hl, hd', hp']
      · obtain ⟨hd', hp'⟩ := h.linked t hc hl
        rw [hd', hp']
        by_cases ho : origin t = .default
        · by_cases h1 : s.links t = 1
          · simp [ho, h1]
          · simp [ho, h1, hl, dummy]
        · simp [ho]
    · obtain ⟨hd, hp, hl, -, -⟩ := install_of_ne s hts
      obtain ⟨hd', hp'⟩ := h.linked t hc fun h' => h0 (hl.trans h')
      refine ⟨hd.trans hd', hp.trans ?_⟩
      show _ = if origin t = .default ∧ (s.install sig).links t ≠ 1 then _ else _
      rw [hl]
      exact hp'
  · have hts : t ≠ sig := by
      rintro rfl
      have htouched : (s.install t).touched t = true := Function.update_self ..
      exact nomatch htouched.symm.trans ht
    have htouched : (s.install sig).touched t = s.touched t := Function.update_of_ne hts ..
    obtain ⟨-, -, hl, hm, hb⟩ := install_of_ne s hts
    obtain ⟨hl', hm', hb', hcb'⟩ := h.untouched t (htouched.symm.trans ht)
    exact ⟨hl.trans hl', hm.trans hm', by simp [hb, hb', hm'], (hcb t hts).trans hcb'⟩

theorem Tracked.link {s : UnixSignals} (h : Tracked origin blocked s) (sig : ℕ)
    (failure : Option LinkFailure) : Tracked origin blocked (s.link sig failure) := by
  have hplain := h.install sig (c := s.callbacks) fun _ _ => rfl
  have hstored := h.install sig (c := Function.update s.callbacks sig true)
    fun t ht => Function.update_of_ne ht ..
  unfold UnixSignals.link
  split
  · exact hplain
  · exact hplain
  · exact hstored
  · exact hstored
  · exact hstored

theorem Tracked.disposition_cases {s : UnixSignals} (h : Tracked origin blocked s) (t : ℕ) :
    s.dispositions t = origin t ∨
      (changeable t = true ∧ s.links t ≠ 0 ∧ s.dispositions t = dummy) := by
  cases hc : changeable t with
  | false => exact .inl (h.fixed t hc)
  | true =>
    by_cases h0 : s.links t = 0
    · exact .inl (h.unlinked t hc h0).1
    · exact .inr ⟨rfl, h0, (h.linked t hc h0).1⟩

/-- `unlink` without failure leaves the other signals alone. -/
theorem restore_of_ne (s : UnixSignals) {sig t : ℕ} (h : t ≠ sig) :
    (s.restore sig).dispositions t = s.dispositions t ∧
      (s.restore sig).prevHandlers t = s.prevHandlers t ∧
      (s.restore sig).links t = s.links t ∧ (s.restore sig).blocked t = s.blocked t := by
  unfold restore
  refine ⟨?_, ?_, ?_, ?_⟩
  · dsimp only
    unfold signal
    split
    · exact Function.update_of_ne h ..
    · rfl
  · dsimp only
    split
    · exact Function.update_of_ne h ..
    · rfl
  · exact Function.update_of_ne h ..
  · exact Function.update_of_ne h ..

/-- `unlink` sets the disposition that is saved, and empties the entry. -/
theorem restore_self (s : UnixSignals) {sig : ℕ} (h : changeable sig = true) {d : Disposition}
    (hd : s.prevHandlers sig = d.pointer) :
    (s.restore sig).dispositions sig = d ∧ (s.restore sig).prevHandlers sig = none := by
  have hr := changeable_range h
  unfold restore
  dsimp only
  rw [decide_eq_true hr, if_pos rfl, if_pos rfl, hd, signal_pointer h]
  exact ⟨Function.update_self .., Function.update_self ..⟩

theorem restore_fixed (s : UnixSignals) {sig : ℕ} (h : changeable sig = false) :
    (s.restore sig).dispositions = s.dispositions := by
  unfold restore
  dsimp only
  rw [signal_fixed h]

/-- What is saved for a signal that has a callback is its first disposition, if it was linked once or the
disposition was not the default. -/
theorem Tracked.saved {s : UnixSignals} (h : Tracked origin blocked s) {sig : ℕ}
    (hc : changeable sig = true) (hcb : s.callbacks sig = true)
    (hok : origin sig = .default → s.links sig ≤ 1) :
    s.prevHandlers sig = (origin sig).pointer := by
  have h0 : s.links sig ≠ 0 := by
    intro h0
    exact nomatch (h.unlinked sig hc h0).2.2.symm.trans hcb
  rw [(h.linked sig hc h0).2, if_neg]
  rintro ⟨ho, h1⟩
  have hle := hok ho
  omega

theorem Tracked.restore {s : UnixSignals} (h : Tracked origin blocked s) {sig : ℕ}
    (hcb : s.callbacks sig = true)
    (hok : changeable sig = true → origin sig = .default → s.links sig ≤ 1) {s' : UnixSignals}
    (hs : s' = { s with
      unlinked := some sig, callbacks := Function.update s.callbacks sig false,
      mask := Function.update s.mask sig false }) :
    Tracked origin blocked (s'.restore sig) ∧ (s'.restore sig).dispositions sig = origin sig := by
  have hself : changeable sig = true →
      (s'.restore sig).dispositions sig = origin sig ∧ (s'.restore sig).prevHandlers sig = none := by
    intro hc
    refine restore_self s' hc ?_
    rw [hs]
    exact h.saved hc hcb (hok hc)
  have hcallbacks : (s'.restore sig).callbacks sig = false := by
    rw [hs]
    exact Function.update_self ..
  have hzero : (s'.restore sig).links sig = 0 := Function.update_self ..
  have hne : ∀ {t}, t ≠ sig → (s'.restore sig).dispositions t = s.dispositions t ∧
      (s'.restore sig).prevHandlers t = s.prevHandlers t ∧ (s'.restore sig).links t = s.links t ∧
      (s'.restore sig).blocked t = s.blocked t ∧ (s'.restore sig).callbacks t = s.callbacks t ∧
      (s'.restore sig).mask t = s.mask t := by
    intro t ht
    obtain ⟨hd, hp, hl, hb⟩ := restore_of_ne s' ht
    rw [hd, hp, hl, hb, hs]
    exact ⟨rfl, rfl, rfl, rfl, Function.update_of_ne ht .., Function.update_of_ne ht ..⟩
  have hfixed : changeable sig = false → (s'.restore sig).dispositions sig = origin sig := by
    intro hc
    rw [restore_fixed s' hc, hs]
    exact h.fixed sig hc
  refine ⟨⟨fun t hc => ?_, fun t hc h0 => ?_, fun t hc h0 => ?_, fun t ht => ?_⟩, ?_⟩
  · by_cases hts : t = sig
    · subst hts
      exact hfixed hc
    · exact (hne hts).1.trans (h.fixed t hc)
  · by_cases hts : t = sig
    · subst hts
      exact ⟨(hself hc).1, (hself hc).2, hcallbacks⟩
    · obtain ⟨hd, hp, hl, -, hcb', -⟩ := hne hts
      obtain ⟨hd', hp', hcb''⟩ := h.unlinked t hc (hl.symm.trans h0)
      exact ⟨hd.trans hd', hp.trans hp', hcb'.trans hcb''⟩
  · by_cases hts : t = sig
    · subst hts
      exact absurd hzero h0
    · obtain ⟨hd, hp, hl, -⟩ := hne hts
      rw [hd, hp, hl]
      exact h.linked t hc fun h' => h0 (hl.trans h')
  · have htouched : (s'.restore sig).touched = s.touched := by
      rw [hs]
      rfl
    rw [htouched] at ht
    obtain ⟨hl', hm', hb', hcb'⟩ := h.untouched t ht
    have hts : t ≠ sig := by
      rintro rfl
      exact nomatch hcb'.symm.trans hcb
    obtain ⟨-, -, hl, hb, hcb'', hm⟩ := hne hts
    exact ⟨hl.trans hl', hm.trans hm', hb.trans hb', hcb''.trans hcb'⟩
  · cases hc : changeable sig with
    | false => exact hfixed hc
    | true => exact (hself hc).1

/-- A call of `unlink` that fails drops the callback. -/
theorem Tracked.drop {s : UnixSignals} (h : Tracked origin blocked s) {sig : ℕ}
    (hcb : s.callbacks sig = true) {m : ℕ → Bool} (hm : ∀ t, t ≠ sig → m t = s.mask t) :
    Tracked origin blocked { s with
      unlinked := some sig, callbacks := Function.update s.callbacks sig false, mask := m } := by
  have hts : ∀ {t}, s.callbacks t = false → t ≠ sig := by
    rintro t ht rfl
    exact nomatch ht.symm.trans hcb
  refine ⟨h.fixed, fun t hc h0 => ?_, h.linked, fun t ht => ?_⟩
  · obtain ⟨hd, hp, hcb'⟩ := h.unlinked t hc h0
    exact ⟨hd, hp, (Function.update_of_ne (hts hcb') ..).trans hcb'⟩
  · obtain ⟨hl, hm', hb, hcb'⟩ := h.untouched t ht
    exact ⟨hl, (hm t (hts hcb')).trans hm', hb, (Function.update_of_ne (hts hcb') ..).trans hcb'⟩

theorem Tracked.of_unlinked {s : UnixSignals} (h : Tracked origin blocked s) (sig : Option ℕ) :
    Tracked origin blocked { s with unlinked := sig } :=
  ⟨h.fixed, h.unlinked, h.linked, h.untouched⟩

/-- Before a call of `unlink`, the disposition of a signal that has no callback, and was not linked by a
call that failed, is the first one. -/
theorem Tracked.unlink {s : UnixSignals} (h : Tracked origin blocked s) {sig : ℕ}
    {failure : Option UnlinkFailure} (hok : s.Restorable origin (.unlink sig failure)) :
    Tracked origin blocked (s.unlink sig failure) ∧
      (s.unlink sig failure).dispositions sig = origin sig := by
  have hok := hok sig failure rfl
  -- a disposition that was that of the loop from the beginning
  have hdummy : origin sig = dummy → s.dispositions sig = origin sig := by
    intro ho
    obtain hd | ⟨-, -, hd⟩ := h.disposition_cases sig
    · exact hd
    · exact hd.trans ho.symm
  unfold UnixSignals.unlink
  dsimp only
  split
  · rename_i hcb
    refine ⟨h.of_unlinked _, ?_⟩
    obtain hd | ⟨hc, h0, -⟩ := h.disposition_cases sig
    · exact hd
    · obtain ho | hno := hok hc
      · exact hdummy ho
      · rw [if_neg (by simpa using hcb)] at hno
        exact absurd hno h0
  · rename_i hcb
    have hcb : s.callbacks sig = true := by simpa using hcb
    have hfails : failure ≠ none → s.dispositions sig = origin sig := by
      intro hf
      obtain hd | ⟨hc, -, -⟩ := h.disposition_cases sig
      · exact hd
      · obtain ho | hno := hok hc
        · exact hdummy ho
        · rw [if_pos hcb] at hno
          exact absurd hno.1 hf
    split
    · exact ⟨h.drop hcb fun _ _ => rfl, hfails (by simp)⟩
    · exact ⟨h.drop hcb fun t ht => Function.update_of_ne ht .., hfails (by simp)⟩
    · refine h.restore hcb (fun hc ho => ?_) rfl
      obtain hd | hno := hok hc
      · exact nomatch hd.symm.trans ho
      · rw [if_pos hcb] at hno
        exact hno.2 ho

theorem unlinked_unlink (s : UnixSignals) (sig : ℕ) (failure : Option UnlinkFailure) :
    (s.unlink sig failure).unlinked = some sig := by
  unfold UnixSignals.unlink
  dsimp only
  split
  · rfl
  · split
    · rfl
    · rfl
    · rfl

theorem Tracked.restored {s : UnixSignals} (h : Tracked origin blocked s)
    (hu : ∀ sig, s.unlinked = some sig → s.dispositions sig = origin sig) :
    Restored origin blocked s := by
  refine ⟨hu, fun t ht => ?_⟩
  obtain ⟨hl, -, hb, -⟩ := h.untouched t ht
  obtain hd | ⟨-, h0, -⟩ := h.disposition_cases t
  · exact ⟨hd, hb⟩
  · exact absurd hl h0

/-- A call of `unlink` that does not meet the condition leaves the handler of the loop behind. -/
theorem Tracked.restorable {s : UnixSignals} (h : Tracked origin blocked s) {sig : ℕ}
    {failure : Option UnlinkFailure}
    (hd : (s.unlink sig failure).dispositions sig = origin sig) :
    s.Restorable origin (.unlink sig failure) := by
  rintro _ _ ⟨rfl, rfl⟩ hc
  by_cases ho : origin sig = dummy
  · exact .inl ho
  right
  have hstays : (s.unlink sig failure).dispositions sig = s.dispositions sig → s.links sig = 0 := by
    intro hsame
    by_contra h0
    exact ho (hd.symm.trans (hsame.trans (h.linked sig hc h0).1))
  unfold UnixSignals.unlink at hd hstays
  dsimp only at hd hstays
  cases hcb : s.callbacks sig with
  | false =>
    rw [hcb] at hstays
    exact hstays rfl
  | true =>
    have h0 : s.links sig ≠ 0 := by
      intro h0
      exact nomatch (h.unlinked sig hc h0).2.2.symm.trans hcb
    rw [hcb] at hstays hd
    rw [if_pos rfl]
    rcases failure with _ | ⟨_ | _⟩
    · refine ⟨rfl, fun hdef => ?_⟩
      by_contra hlt
      have hsaved : s.prevHandlers sig = dummy.pointer := by
        rw [(h.linked sig hc h0).2, if_pos ⟨hdef, by omega⟩]
      have hleft := (restore_self { s with
        unlinked := some sig, callbacks := Function.update s.callbacks sig false,
        mask := Function.update s.mask sig false } hc hsaved).1
      exact nomatch (hleft.symm.trans hd).trans hdef
    · exact absurd (hstays rfl) h0
    · exact absurd (hstays rfl) h0

/-- **The first disposition comes back** in exactly the runs whose calls of `unlink` meet the
condition. -/
theorem unlink_restores_disposition (origin : ℕ → Disposition) (blocked : ℕ → Bool)
    (calls : List Call) :
    Runs.Always step (Restored origin blocked) (new origin blocked) calls ↔
      Runs.Along step (Restorable origin) (new origin blocked) calls := by
  refine Runs.always_iff_along_of_break (I := fun s => Tracked origin blocked s ∧
    ∀ sig, s.unlinked = some sig → s.dispositions sig = origin sig) ⟨tracked_new, nofun⟩
    (fun s h => h.1.restored h.2) ?_ ?_ (fun s call h => by cases call with
      | link sig failure => exact nomatch h
      | unlink sig failure => exact nomatch h)
  · rintro s call s' ⟨h, -⟩ hok hs
    cases call with
    | link sig failure =>
      obtain rfl := Option.some.inj hs
      refine ⟨h.link sig failure, fun t ht => ?_⟩
      unfold link at ht
      split at ht
      · exact nomatch ht
      · exact nomatch ht
      · exact nomatch ht
      · exact nomatch ht
      · exact nomatch ht
    | unlink sig failure =>
      obtain rfl := Option.some.inj hs
      obtain ⟨htracked, hd⟩ := h.unlink hok
      refine ⟨htracked, fun t ht => ?_⟩
      obtain rfl := Option.some.inj ((unlinked_unlink s sig failure).symm.trans ht)
      exact hd
  · rintro s call s' ⟨h, -⟩ hs hr
    cases call with
    | link sig failure => exact fun _ _ he => nomatch he
    | unlink sig failure =>
      obtain rfl := Option.some.inj hs
      exact h.restorable (hr.1 sig (unlinked_unlink s sig failure))

/-- A signal with the default disposition that is linked twice. -/
theorem relinked_default_is_lost :
    ¬ ∀ (origin : ℕ → Disposition) (calls : List Call),
      Runs.Always step (Restored origin fun _ => false) (new origin fun _ => false) calls := by
  intro h
  have hrun := h (fun _ => .default) [.link 10 none, .link 10 none, .unlink 10 none]
  have hlast := (((hrun.2 _ rfl).2 _ rfl).2 _ rfl).1 10 rfl
  exact absurd hlast (by decide)

end UnixSignals

end Talyn
