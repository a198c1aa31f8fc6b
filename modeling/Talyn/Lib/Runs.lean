import Mathlib.Tactic

/-!
# Runs of a partial transition function

A system is given by `step : σ → ε → Option σ`: the successor of a state under an event, or `none`
when the event is not enabled there. `exec step s es` executes a list of events, `Along step ok s es`
says that every event of that run meets `ok` in the state it is executed in, and `Reaches` packages
both: `t` is reached from `s` by a run all of whose steps meet `ok`.

The rule used for safety proofs is `Reaches.invariant`: what every admissible step keeps holds in
every state reached. `always_iff_along` is its exact form, for a condition that decides which steps
keep a property.
-/

namespace Runs

variable {σ ε : Type*}

/-- Execute a list of events; `none` once an event is not enabled. -/
def exec (step : σ → ε → Option σ) : σ → List ε → Option σ
  | s, [] => some s
  | s, e :: es => (step s e).bind fun t => exec step t es

@[simp] theorem exec_nil (step : σ → ε → Option σ) (s : σ) : exec step s [] = some s := rfl

@[simp] theorem exec_cons (step : σ → ε → Option σ) (s : σ) (e : ε) (es : List ε) :
    exec step s (e :: es) = (step s e).bind fun t => exec step t es := rfl

theorem exec_append (step : σ → ε → Option σ) (s : σ) (es fs : List ε) :
    exec step s (es ++ fs) = (exec step s es).bind fun t => exec step t fs := by
  induction es generalizing s with
  | nil => rfl
  | cons e es ih =>
    rw [List.cons_append, exec_cons, exec_cons, Option.bind_assoc]
    exact congrArg _ (funext fun t => ih t)

/-- Every event of the run meets `ok` in the state it is executed in. -/
def Along (step : σ → ε → Option σ) (ok : σ → ε → Prop) : σ → List ε → Prop
  | _, [] => True
  | s, e :: es => ok s e ∧ ∀ t, step s e = some t → Along step ok t es

/-- `t` is reached from `s` by a run whose steps all meet `ok`. -/
def Reaches (step : σ → ε → Option σ) (ok : σ → ε → Prop) (s t : σ) : Prop :=
  ∃ es, exec step s es = some t ∧ Along step ok s es

variable {step : σ → ε → Option σ} {ok : σ → ε → Prop}

theorem Along.cons {s t : σ} {e : ε} {es : List ε} (h : step s e = some t) (hok : ok s e)
    (hal : Along step ok t es) : Along step ok s (e :: es) := by
  refine ⟨hok, fun t' ht' => ?_⟩
  obtain rfl : t = t' := by simpa [h] using ht'
  exact hal

theorem Reaches.refl (s : σ) : Reaches step ok s s := ⟨[], rfl, trivial⟩

/-- Prepend an admissible step to a run. -/
theorem Reaches.head {s t u : σ} {e : ε} (h : step s e = some t) (hok : ok s e)
    (hr : Reaches step ok t u) : Reaches step ok s u := by
  obtain ⟨es, hes, hal⟩ := hr
  exact ⟨e :: es, by simp [h, hes], hal.cons h hok⟩

/-- **The invariant rule.** What the first state satisfies and every admissible step keeps holds in
every state reached. -/
theorem Reaches.invariant {I : σ → Prop} {s t : σ} (hr : Reaches step ok s t) (hs : I s)
    (hstep : ∀ u e v, I u → ok u e → step u e = some v → I v) : I t := by
  obtain ⟨es, hes, hal⟩ := hr
  induction es generalizing s with
  | nil =>
    obtain rfl : s = t := by simpa using hes
    exact hs
  | cons e es ih =>
    obtain ⟨u, hu, hrest⟩ := Option.bind_eq_some_iff.1 hes
    exact ih (hstep s e u hs hal.1 hu) hrest (hal.2 u hu)

/-- The condition met at every step is met at the last step of the run as well. -/
theorem Reaches.snoc {s t u : σ} {e : ε} (hr : Reaches step ok s t) (hok : ok t e)
    (h : step t e = some u) : Reaches step ok s u := by
  obtain ⟨es, hes, hal⟩ := hr
  induction es generalizing s with
  | nil =>
    obtain rfl : s = t := by simpa using hes
    exact .head h hok (.refl u)
  | cons e' es ih =>
    obtain ⟨v, hv, hrest⟩ := Option.bind_eq_some_iff.1 hes
    exact .head hv hal.1 (ih hrest (hal.2 v hv))

/-- `I` holds in every state of the run. -/
def Always (step : σ → ε → Option σ) (I : σ → Prop) : σ → List ε → Prop
  | s, [] => I s
  | s, e :: es => I s ∧ ∀ t, step s e = some t → Always step I t es

/-- What every step keeps holds in every state of every run. -/
theorem always_of_step {I : σ → Prop} {s : σ} {es : List ε} (hs : I s)
    (hstep : ∀ u e v, I u → step u e = some v → I v) : Always step I s es := by
  induction es generalizing s with
  | nil => exact hs
  | cons e es ih => exact ⟨hs, fun t ht => ih (hstep s e t hs ht)⟩

/-- What holds throughout a run implies throughout it what it implies in each state. -/
theorem Always.mono {I J : σ → Prop} {s : σ} {es : List ε} (h : Always step I s es)
    (himp : ∀ u, I u → J u) : Always step J s es := by
  induction es generalizing s with
  | nil => exact himp s h
  | cons e es ih => exact ⟨himp s h.1, fun t ht => ih (h.2 t ht)⟩

/-- What holds throughout a run holds at its end. -/
theorem Always.last {I : σ → Prop} {s t : σ} {es : List ε} (h : Always step I s es)
    (hes : exec step s es = some t) : I t := by
  induction es generalizing s with
  | nil =>
    obtain rfl : s = t := by simpa using hes
    exact h
  | cons e es ih =>
    obtain ⟨u, hu, hrest⟩ := Option.bind_eq_some_iff.1 hes
    exact ih (h.2 u hu) hrest

/-- What the steps that meet the condition keep holds, with all that it implies, throughout the runs
whose steps all meet it. -/
theorem always_of_along {I J : σ → Prop} {s : σ} {es : List ε} (h : Along step ok s es) (hs : I s)
    (himp : ∀ u, I u → J u) (hkeep : ∀ u e v, I u → ok u e → step u e = some v → I v) :
    Always step J s es := by
  induction es generalizing s with
  | nil => exact himp s hs
  | cons e es ih => exact ⟨himp s hs, fun t ht => ih (h.2 t ht) (hkeep s e t hs h.1 ht)⟩

/-- **The exactness rule.** `I` is kept by the steps that meet the condition and implies `J`; a step
that does not meet it breaks `J`. Then a run has `J` throughout exactly when all its steps meet the
condition. The steps of the runs in question can be assumed to meet `q`. -/
theorem always_iff_along_within {q : σ → ε → Prop} {I J : σ → Prop} {s : σ} {es : List ε}
    (hq : Along step q s es) (hs : I s) (himp : ∀ u, I u → J u)
    (hkeep : ∀ u e v, I u → q u e → ok u e → step u e = some v → I v)
    (hbreak : ∀ u e v, I u → q u e → step u e = some v → J v → ok u e)
    (hdisabled : ∀ u e, step u e = none → ok u e) :
    Always step J s es ↔ Along step ok s es := by
  induction es generalizing s with
  | nil => exact iff_of_true (himp s hs) trivial
  | cons e es ih =>
    cases ht : step s e with
    | none =>
      refine iff_of_true ⟨himp s hs, fun t h => ?_⟩ ⟨hdisabled s e ht, fun t h => ?_⟩
      · exact nomatch ht.symm.trans h
      · exact nomatch ht.symm.trans h
    | some t =>
      have honly : ∀ {P : σ → Prop}, (∀ u, step s e = some u → P u) ↔ P t := by
        intro P
        refine ⟨fun h => h t ht, fun h u hu => ?_⟩
        obtain rfl := Option.some.inj (ht.symm.trans hu)
        exact h
      rw [Always, Along, honly, honly]
      constructor
      · rintro ⟨-, hrest⟩
        have hJ : J t := by
          cases es with
          | nil => exact hrest
          | cons e' es => exact hrest.1
        have hok := hbreak s e t hs hq.1 ht hJ
        exact ⟨hok, (ih (hq.2 t ht) (hkeep s e t hs hq.1 hok ht)).1 hrest⟩
      · rintro ⟨hok, hrest⟩
        exact ⟨himp s hs, (ih (hq.2 t ht) (hkeep s e t hs hq.1 hok ht)).2 hrest⟩

theorem along_of_forall {s : σ} {es : List ε} (h : ∀ u e, ok u e) : Along step ok s es := by
  induction es generalizing s with
  | nil => trivial
  | cons e es ih => exact ⟨h s e, fun _ _ => ih⟩

/-- The exactness rule for all runs. -/
theorem always_iff_along_of_break {I J : σ → Prop} {s : σ} {es : List ε} (hs : I s)
    (himp : ∀ u, I u → J u) (hkeep : ∀ u e v, I u → ok u e → step u e = some v → I v)
    (hbreak : ∀ u e v, I u → step u e = some v → J v → ok u e)
    (hdisabled : ∀ u e, step u e = none → ok u e) :
    Always step J s es ↔ Along step ok s es :=
  always_iff_along_within (q := fun _ _ => True) (along_of_forall fun _ _ => trivial) hs himp
    (fun u e v h _ hok hv => hkeep u e v h hok hv) (fun u e v h _ hv hJ => hbreak u e v h hv hJ)
    hdisabled

/-- Where a condition on the single step decides whether the step keeps `I`, a run keeps `I` throughout
exactly when all its steps meet the condition. -/
theorem always_iff_along {Inv I : σ → Prop} {s : σ} {es : List ε} (hinv : Inv s) (hs : I s)
    (hstep : ∀ u e v, Inv u → step u e = some v → Inv v)
    (hexact : ∀ u e v, Inv u → I u → step u e = some v → (I v ↔ ok u e))
    (hdisabled : ∀ u e, step u e = none → ok u e) :
    Always step I s es ↔ Along step ok s es :=
  always_iff_along_of_break (I := fun u => Inv u ∧ I u) ⟨hinv, hs⟩ (fun _ h => h.2)
    (fun u e v h hok hv => ⟨hstep u e v h.1 hv, (hexact u e v h.1 h.2 hv).2 hok⟩)
    (fun u e v h hv hI => (hexact u e v h.1 h.2 hv).1 hI) hdisabled

/-- Execute a list of events as long as they meet a decidable condition. -/
def execWhile (step : σ → ε → Option σ) (ok : σ → ε → Prop) [∀ s e, Decidable (ok s e)] :
    σ → List ε → Option σ
  | s, [] => some s
  | s, e :: es => if ok s e then (step s e).bind fun t => execWhile step ok t es else none

/-- A concrete run that can be evaluated reaches its last state. -/
theorem Reaches.of_execWhile [∀ s e, Decidable (ok s e)] {s t : σ} {es : List ε}
    (h : execWhile step ok s es = some t) : Reaches step ok s t := by
  induction es generalizing s with
  | nil =>
    obtain rfl := Option.some.inj h
    exact .refl s
  | cons e es ih =>
    rw [execWhile] at h
    split at h
    · rename_i hok
      obtain ⟨u, hu, hrest⟩ := Option.bind_eq_some_iff.1 h
      exact .head hu hok (ih hrest)
    · exact nomatch h

end Runs
