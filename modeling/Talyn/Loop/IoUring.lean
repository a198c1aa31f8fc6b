import Mathlib.Tactic

/-!
# The completion ring

`IoUring.copy_cqes` of the Zig standard library, over a ring whose kernel side is a script: each call
meets the next `KernelStep`, which says what arrived since the last call and what entering the kernel
would do. After the script nothing arrives any more.
-/

namespace Talyn

/-- `io_uring_cqe`; `userData` is the address of a `BlockingTask`, 0 for timeouts and cancellations
and 1 for the watchdog. -/
structure Cqe where
  userData : ℕ
  res : ℤ
  deriving DecidableEq, Repr

/-- How `io.queue` comes out. It fails before the operation is in the ring, or in the flush behind it, with the
operation in the ring (`left`). -/
inductive Enqueue
  | queued
  | refused
  | left
  deriving DecidableEq, Repr

/-- Errors of `copy_cqes`. A signal interrupts the call; `raises` tells whether its Python handler raises when it
is run, or an exception is pending behind it. -/
inductive CopyError
  | signalInterrupt (raises : Bool)
  | other (code : ℕ)
  deriving DecidableEq, Repr

/-- What the kernel does around one call of `copy_cqes`. -/
structure KernelStep where
  /-- completions that reached the ring before the call looks at it -/
  posted : List Cqe
  /-- `cq_ring_needs_flush` -/
  needsFlush : Bool
  /-- `io_uring_enter`: the completions it makes visible, or its error -/
  enter : Except CopyError (List Cqe)

/-- The completion ring and what the kernel will do. -/
structure Ring where
  ready : List Cqe
  kernel : List KernelStep

namespace KernelStep

/-- Nothing happens. -/
def idle : KernelStep := ⟨[], false, .ok []⟩

/-- How many completions the step can bring. -/
def size (k : KernelStep) : ℕ :=
  k.posted.length + match k.enter with
    | .ok cqes => cqes.length
    | .error _ => 0

end KernelStep

namespace Ring

/-- `copy_cqes` into a buffer of `len` entries. The ring is looked at first; the kernel is entered only
when it is empty, to flush the overflow list or to wait. -/
def copyCqes (r : Ring) (len waitNr : ℕ) : Except CopyError (List Cqe) × Ring :=
  let k := r.kernel.head?.getD .idle
  let ready := r.ready ++ k.posted
  if ready ≠ [] then (.ok (ready.take len), ⟨ready.drop len, r.kernel.tail⟩)
  else if k.needsFlush ∨ waitNr > 0 then
    match k.enter with
    | .error e => (.error e, ⟨[], r.kernel.tail⟩)
    | .ok cqes => (.ok (cqes.take len), ⟨cqes.drop len, r.kernel.tail⟩)
  else (.ok [], ⟨[], r.kernel.tail⟩)

/-- The completions still to be copied and the kernel steps still to come: the loops over the ring end
because this decreases. -/
def fuel (r : Ring) : ℕ := r.ready.length + (r.kernel.map fun k => k.size + 1).sum

theorem fuel_tail (r : Ring) (ready : List Cqe) :
    (Ring.fuel ⟨ready, r.kernel.tail⟩) + r.kernel.length + r.ready.length +
        (r.kernel.head?.getD .idle).size =
      r.fuel + ready.length + r.kernel.tail.length := by
  unfold fuel
  cases r.kernel with
  | nil => simp [KernelStep.idle, KernelStep.size]; omega
  | cons k ks =>
    simp only [List.tail_cons, List.map_cons, List.sum_cons, List.length_cons, List.head?_cons,
      Option.getD_some]
    omega

/-- An error comes from a kernel step, which is used up. -/
theorem copyCqes_error {r r' : Ring} {len waitNr : ℕ} {e : CopyError}
    (h : r.copyCqes len waitNr = (.error e, r')) : r'.fuel < r.fuel := by
  unfold copyCqes at h
  dsimp only at h
  split at h
  · cases h
  · rename_i hempty
    split at h
    · split at h
      · rename_i henter
        obtain rfl := (Prod.mk.inj h).2
        have hf := r.fuel_tail []
        cases hk : r.kernel with
        | nil => rw [hk] at henter; cases henter
        | cons k ks =>
          simp only [hk, List.tail_cons, List.length_cons, List.length_nil] at hf ⊢
          omega
      · cases h
    · cases h

/-- A copy that finds something takes it off the ring. -/
theorem copyCqes_ok {r r' : Ring} {len waitNr : ℕ} {cqes : List Cqe} (hlen : 0 < len)
    (h : r.copyCqes len waitNr = (.ok cqes, r')) (hne : cqes ≠ []) : r'.fuel < r.fuel := by
  unfold copyCqes at h
  dsimp only at h
  split at h
  · rename_i hready
    obtain ⟨h₁, rfl⟩ := Prod.mk.inj h
    have hf := r.fuel_tail ((r.ready ++ (r.kernel.head?.getD .idle).posted).drop len)
    have hpos := List.length_pos_iff.2 hready
    have hsize : (r.kernel.head?.getD KernelStep.idle).posted.length ≤
        (r.kernel.head?.getD KernelStep.idle).size := Nat.le_add_right _ _
    have htail : r.kernel.tail.length ≤ r.kernel.length := by simp
    simp only [List.length_drop, List.length_append] at hf hpos
    omega
  · rename_i hempty
    split at h
    · split at h
      · cases h
      · rename_i cqes' henter
        obtain ⟨h₁, rfl⟩ := Prod.mk.inj h
        obtain rfl := Except.ok.inj h₁
        have hf := r.fuel_tail (cqes'.drop len)
        have hpos : 0 < cqes'.length := by
          refine List.length_pos_iff.2 ?_
          rintro rfl
          exact hne List.take_nil
        have hsize : cqes'.length ≤ (r.kernel.head?.getD KernelStep.idle).size := by
          rw [KernelStep.size, henter]
          exact Nat.le_add_left _ _
        have htail : r.kernel.tail.length ≤ r.kernel.length := by simp
        simp only [List.length_drop] at hf
        omega
    · obtain ⟨h₁, -⟩ := Prod.mk.inj h
      exact absurd (Except.ok.inj h₁).symm hne

theorem copyCqes_length {r r' : Ring} {len waitNr : ℕ} {cqes : List Cqe}
    (h : r.copyCqes len waitNr = (.ok cqes, r')) : cqes.length ≤ len := by
  unfold copyCqes at h
  dsimp only at h
  split at h
  · obtain rfl := Except.ok.inj (Prod.mk.inj h).1
    exact List.length_take_le _ _
  · split at h
    · split at h
      · cases h
      · obtain rfl := Except.ok.inj (Prod.mk.inj h).1
        exact List.length_take_le _ _
    · obtain rfl := Except.ok.inj (Prod.mk.inj h).1
      exact Nat.zero_le _

/-- The retry loops around `copy_cqes` that run without the GIL: a signal makes the call again. -/
def copyUninterrupted (r : Ring) (len waitNr : ℕ) : Except CopyError (List Cqe) × Ring :=
  match _h : r.copyCqes len waitNr with
  | (.error (.signalInterrupt _), r') => r'.copyUninterrupted len waitNr
  | (.error (.other code), r') => (.error (.other code), r')
  | (.ok cqes, r') => (.ok cqes, r')
termination_by r.fuel
decreasing_by exact copyCqes_error _h

/-- `copy_cqes_eintr_safe`: a signal runs its Python handler, which may raise. -/
def copyEintrSafe (r : Ring) (len : ℕ) : Except CopyError (List Cqe) × Ring :=
  match _h : r.copyCqes len 0 with
  | (.error (.signalInterrupt raises), r') =>
      if raises then (.error (.signalInterrupt true), r') else r'.copyEintrSafe len
  | (.error (.other code), r') => (.error (.other code), r')
  | (.ok cqes, r') => (.ok cqes, r')
termination_by r.fuel
decreasing_by exact copyCqes_error _h

theorem copyUninterrupted_length {r r' : Ring} {len waitNr : ℕ} {cqes : List Cqe}
    (h : r.copyUninterrupted len waitNr = (.ok cqes, r')) : cqes.length ≤ len := by
  fun_induction copyUninterrupted r len waitNr with
  | case1 r raises q heq ih => exact ih h
  | case2 => cases h
  | case3 r cqes' q heq =>
    obtain ⟨h₁, -⟩ := Prod.mk.inj h
    obtain rfl := Except.ok.inj h₁
    exact copyCqes_length heq

theorem copyUninterrupted_fuel {r r' : Ring} {len waitNr : ℕ} {cqes : List Cqe}
    (h : r.copyUninterrupted len waitNr = (.ok cqes, r')) (hne : cqes ≠ []) : r'.fuel < r.fuel := by
  fun_induction copyUninterrupted r len waitNr with
  | case1 r raises q heq ih => exact Nat.lt_trans (ih h) (copyCqes_error heq)
  | case2 => cases h
  | case3 r cqes' q heq =>
    obtain ⟨h₁, rfl⟩ := Prod.mk.inj h
    obtain rfl := Except.ok.inj h₁
    have hpos := List.length_pos_iff.2 hne
    have hle := copyCqes_length heq
    exact copyCqes_ok (by omega) heq hne

theorem copyEintrSafe_length {r r' : Ring} {len : ℕ} {cqes : List Cqe}
    (h : r.copyEintrSafe len = (.ok cqes, r')) : cqes.length ≤ len := by
  fun_induction copyEintrSafe r len with
  | case1 => cases h
  | case2 r q raises heq hr ih => exact ih h
  | case3 => cases h
  | case4 r cqes' q heq =>
    obtain ⟨h₁, -⟩ := Prod.mk.inj h
    obtain rfl := Except.ok.inj h₁
    exact copyCqes_length heq

theorem copyEintrSafe_fuel {r r' : Ring} {len : ℕ} {cqes : List Cqe}
    (h : r.copyEintrSafe len = (.ok cqes, r')) (hne : cqes ≠ []) : r'.fuel < r.fuel := by
  fun_induction copyEintrSafe r len with
  | case1 => cases h
  | case2 r q raises heq hr ih => exact Nat.lt_trans (ih h) (copyCqes_error heq)
  | case3 => cases h
  | case4 r cqes' q heq =>
    obtain ⟨h₁, rfl⟩ := Prod.mk.inj h
    obtain rfl := Except.ok.inj h₁
    have hpos := List.length_pos_iff.2 hne
    have hle := copyCqes_length heq
    exact copyCqes_ok (by omega) heq hne

/-- A ring with completions ready and a kernel that does nothing. -/
theorem copyCqes_ready {ready : List Cqe} (hne : ready ≠ []) (len waitNr : ℕ) :
    copyCqes ⟨ready, []⟩ len waitNr = (.ok (ready.take len), ⟨ready.drop len, []⟩) := by
  simp [copyCqes, KernelStep.idle, hne]

theorem copyUninterrupted_ready {ready : List Cqe} (hne : ready ≠ []) (len waitNr : ℕ) :
    copyUninterrupted ⟨ready, []⟩ len waitNr = (.ok (ready.take len), ⟨ready.drop len, []⟩) := by
  unfold copyUninterrupted
  split
  all_goals
    rename_i heq
    rw [copyCqes_ready hne] at heq
    cases heq
  rfl

theorem copyEintrSafe_ready {ready : List Cqe} (hne : ready ≠ []) (len : ℕ) :
    copyEintrSafe ⟨ready, []⟩ len = (.ok (ready.take len), ⟨ready.drop len, []⟩) := by
  unfold copyEintrSafe
  split
  all_goals
    rename_i heq
    rw [copyCqes_ready hne] at heq
    cases heq
  rfl

end Ring

end Talyn
