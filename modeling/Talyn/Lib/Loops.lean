import Mathlib.Tactic

/-!
# Loops

A loop is given by its turn: `turn : σ → Except φ (σ ⊕ ρ)` takes the variables of the loop and says
that there is a next turn, that the loop is left with a result, or that the turn must not be made.
`Turns turn n s t` says that `n` turns lead from `s` to `t`, and `Ends turn n s r` that the loop is
left with `r` in the turn after them.

A loop that keeps an invariant and lets a measure fall is left (`ends_of_measure`).
-/

namespace Loops

variable {σ φ ρ : Type*} {turn : σ → Except φ (σ ⊕ ρ)} {n : ℕ} {s t : σ}

/-- That many turns lead from one state to the other. -/
inductive Turns (turn : σ → Except φ (σ ⊕ ρ)) : ℕ → σ → σ → Prop
  | refl (s : σ) : Turns turn 0 s s
  | next {n : ℕ} {s t u : σ} (h : turn s = .ok (.inl t)) (rest : Turns turn n t u) :
      Turns turn (n + 1) s u

/-- The loop is left with `r` in the turn after `n` others. -/
def Ends (turn : σ → Except φ (σ ⊕ ρ)) (n : ℕ) (s : σ) (r : ρ) : Prop :=
  ∃ t, Turns turn n s t ∧ turn t = .ok (.inr r)

/-- What every turn keeps holds in every state that is reached. -/
theorem Turns.invariant {I : σ → Prop} (h : Turns turn n s t) (hs : I s)
    (hturn : ∀ u v, I u → turn u = .ok (.inl v) → I v) : I t := by
  induction h with
  | refl => exact hs
  | next hnext _ ih => exact ih (hturn _ _ hs hnext)

theorem Turns.snoc {u : σ} (h : Turns turn n s t) (hnext : turn t = .ok (.inl u)) : Turns turn (n + 1) s u := by
  induction h with
  | refl => exact .next hnext (.refl u)
  | next hfirst _ ih => exact .next hfirst (ih hnext)

/-- The loop goes one way only: a state that is reached lies on the way to the last one. -/
theorem Turns.rest {r : ρ} {m : ℕ} {u : σ} (h : Turns turn n s t) (hlast : turn t = .ok (.inr r))
    (hu : Turns turn m s u) : ∃ k, Turns turn k u t := by
  induction hu generalizing n with
  | refl => exact ⟨n, h⟩
  | next hnext _ ih =>
    cases h with
    | refl => cases hlast.symm.trans hnext
    | next hnext' rest' =>
      obtain rfl := Sum.inl.inj (Except.ok.inj (hnext.symm.trans hnext'))
      exact ih rest'

/-- A loop whose turns can be made and let a measure fall is left, after at most as many turns as the
measure says. -/
theorem ends_of_measure {I : σ → Prop} (μ : σ → ℕ) (hs : I s)
    (hturn : ∀ u, I u → ∃ x, turn u = .ok x ∧ ∀ v, x = .inl v → I v ∧ μ v < μ u) :
    ∃ n ≤ μ s, ∃ r, Ends turn n s r := by
  induction hμ : μ s using Nat.strong_induction_on generalizing s with
  | _ k ih =>
    obtain ⟨x, hx, hfall⟩ := hturn s hs
    cases x with
    | inr r => exact ⟨0, Nat.zero_le _, r, s, .refl s, hx⟩
    | inl t =>
      obtain ⟨ht, hlt⟩ := hfall t rfl
      obtain ⟨n, hn, r, u, hu, hr⟩ := ih (μ t) (hμ ▸ hlt) ht rfl
      exact ⟨n + 1, by omega, r, u, .next hx hu, hr⟩

end Loops
