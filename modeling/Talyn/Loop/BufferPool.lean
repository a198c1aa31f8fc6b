import Talyn.Lib.Runs
import Mathlib.Data.List.Perm.Subperm

/-!
# `RegisteredBufferPool`

The free slots are a stack in an array, with its height. What `release` is handed is pushed as long as the array
has room, whether the slot was leased or not; the stack is right as long as there is no room for a slot that is
not leased, which is when nothing is leased at all.
-/

namespace Talyn

namespace RegisteredBufferPool

/-- `SlotSize`. -/
def slotSize : ℕ := 65536

/-- `SlotCount`. -/
def slotCount : ℕ := 16

end RegisteredBufferPool

open RegisteredBufferPool (slotSize slotCount)

/-- `RegisteredBufferPool`: allocated or not, and never higher than the array. -/
structure RegisteredBufferPool where
  freeSlots : List ℕ
  freeCount : ℕ
  sized : freeSlots = [] ∨ freeSlots.length = slotCount
  count_le : freeCount ≤ freeSlots.length

/-- `LeaseResult`; the slice of the buffer memory by where it starts. -/
structure LeaseResult where
  index : ℕ
  start : ℕ
deriving DecidableEq

namespace RegisteredBufferPool

/-- Before `init` and after `deinit`. -/
def empty : RegisteredBufferPool := ⟨[], 0, .inl rfl, Nat.zero_le _⟩

/-- `init`. -/
def init : RegisteredBufferPool := ⟨List.range slotCount, slotCount, .inr List.length_range, List.length_range.ge⟩

/-- `lease`, with the pool after it; `none` is `null`. -/
def lease (p : RegisteredBufferPool) : Option (LeaseResult × RegisteredBufferPool) :=
  if h : p.freeSlots.length = 0 ∨ p.freeCount = 0 then none
  else
    have hlt : p.freeCount - 1 < p.freeSlots.length := by
      have := p.count_le
      omega
    let index := p.freeSlots[p.freeCount - 1]
    some (⟨index, index * slotSize⟩,
      { p with freeCount := p.freeCount - 1, count_le := (Nat.sub_le _ _).trans p.count_le })

/-- `release`. -/
def release (p : RegisteredBufferPool) (index : ℕ) : RegisteredBufferPool :=
  if hlen : p.freeSlots.length = 0 then p
  else if index ≥ slotCount then p
  -- the overflow guard
  else if h : p.freeCount ≥ slotCount then p
  else
    have hsized : p.freeSlots.length = slotCount := p.sized.resolve_left fun h => hlen (h ▸ rfl)
    { freeSlots := p.freeSlots.set p.freeCount index
      freeCount := p.freeCount + 1
      sized := .inr (List.length_set.trans hsized)
      count_le := by
        rw [List.length_set, hsized]
        omega }

/-- The slots on the stack. -/
def free (p : RegisteredBufferPool) : List ℕ := p.freeSlots.take p.freeCount

theorem length_free (p : RegisteredBufferPool) : p.free.length = p.freeCount := by
  rw [free, List.length_take, Nat.min_eq_left p.count_le]

/-- `lease` takes the top of the stack. -/
theorem lease_cases (p : RegisteredBufferPool) :
    p.lease = none ∨ ∃ index p', p.lease = some (⟨index, index * slotSize⟩, p') ∧ p.free = p'.free ++ [index] ∧
      p'.freeSlots = p.freeSlots ∧ p.freeCount = p'.freeCount + 1 := by
  unfold lease
  split
  · exact .inl rfl
  · rename_i h
    rw [not_or] at h
    have hle := p.count_le
    refine .inr ⟨_, _, rfl, ?_, rfl, ?_⟩
    · have htake := List.take_succ_eq_append_getElem (show p.freeCount - 1 < p.freeSlots.length by omega)
      rw [Nat.sub_add_cancel (Nat.pos_of_ne_zero h.2)] at htake
      exact htake
    · dsimp only
      omega

/-- `release` leaves the pool alone, or pushes. -/
theorem release_cases (p : RegisteredBufferPool) (index : ℕ) :
    (p.release index = p ∧ (p.freeSlots = [] ∨ index ≥ slotCount ∨ p.freeCount = slotCount)) ∨
    (p.freeSlots ≠ [] ∧ index < slotCount ∧ p.freeCount < slotCount ∧ (p.release index).freeSlots ≠ [] ∧
      (p.release index).free = p.free ++ [index] ∧ (p.release index).freeCount = p.freeCount + 1) := by
  unfold release
  split
  · rename_i hlen
    exact .inl ⟨rfl, .inl (List.length_eq_zero_iff.1 hlen)⟩
  · rename_i hlen
    split
    · rename_i hindex
      exact .inl ⟨rfl, .inr (.inl hindex)⟩
    · rename_i hindex
      have hne : p.freeSlots ≠ [] := fun h => hlen (h ▸ rfl)
      have hsized : p.freeSlots.length = slotCount := p.sized.resolve_left hne
      have hle := p.count_le
      split
      · rename_i hfull
        exact .inl ⟨rfl, .inr (.inr (by omega))⟩
      · rename_i hfull
        refine .inr ⟨hne, Nat.not_le.1 hindex, Nat.not_le.1 hfull, ?_, ?_, rfl⟩
        · intro hnil
          have hlen' := congrArg List.length hnil
          rw [List.length_set] at hlen'
          exact hlen hlen'
        · have hlt : p.freeCount < (p.freeSlots.set p.freeCount index).length := by
            rw [List.length_set]
            omega
          show (p.freeSlots.set p.freeCount index).take (p.freeCount + 1) = _
          rw [List.take_succ_eq_append_getElem hlt, List.getElem_set_self, List.take_set_of_le le_rfl]
          rfl

end RegisteredBufferPool

/-- A pool and the leases that are outstanding. -/
structure LeasedPool where
  pool : RegisteredBufferPool
  leases : List LeaseResult

namespace LeasedPool

/-- A pool after `init`, or one that is not allocated. -/
def start (allocated : Bool) : LeasedPool := ⟨if allocated then .init else .empty, []⟩

/-- The calls. -/
inductive Event
  | lease
  | release (index : ℕ)

/-- One call; a lease that is released is not outstanding any more. -/
def step (s : LeasedPool) : Event → Option LeasedPool
  | .lease =>
    match s.pool.lease with
    | none => some s
    | some (lease, pool) => some ⟨pool, s.leases ++ [lease]⟩
  | .release index => some ⟨s.pool.release index, s.leases.eraseP fun lease => lease.index = index⟩

/-- The slots that are leased. -/
def leased (s : LeasedPool) : List ℕ := s.leases.map LeaseResult.index

/-- The slots that are not leased, counted. -/
def unleased (s : LeasedPool) : ℕ := (List.range slotCount).countP fun index => index ∉ s.leased

/-- No two leases share a slot or a byte of the memory, and there are no more free slots than slots that are not
leased. -/
structure Sound (s : LeasedPool) : Prop where
  distinct : s.leased.Nodup
  apart : s.leases.Pairwise fun a b => a.start + slotSize ≤ b.start ∨ b.start + slotSize ≤ a.start
  count : s.pool.freeCount ≤ s.unleased

/-- The condition on a call: what is released is leased, or no slot at all, or nothing is leased. -/
def Keeps (s : LeasedPool) : Event → Prop
  | .lease => True
  | .release index => index ∈ s.leased ∨ index ≥ slotCount ∨ s.leases = []

/-- Every slot is on the stack or leased. -/
structure Inv (s : LeasedPool) : Prop where
  start : ∀ lease ∈ s.leases, lease.start = lease.index * slotSize
  slots : (s.pool.freeSlots = [] ∧ s.leases = []) ∨
    (s.pool.freeSlots ≠ [] ∧ (s.pool.free ++ s.leased).Perm (List.range slotCount))

variable {s t : LeasedPool} {index : ℕ}

theorem inv_start (allocated : Bool) : Inv (start allocated) where
  start := fun _ h => absurd h List.not_mem_nil
  slots := by
    cases allocated with
    | false => exact .inl ⟨rfl, rfl⟩
    | true => exact .inr ⟨by decide, .refl _⟩

section Slots

variable (h : (s.pool.free ++ s.leased).Perm (List.range slotCount))

include h

theorem length_add : s.pool.freeCount + s.leases.length = slotCount := by
  have hlen := h.length_eq
  rwa [List.length_append, s.pool.length_free, leased, List.length_map, List.length_range] at hlen

theorem nodup_slots : (s.pool.free ++ s.leased).Nodup := h.nodup_iff.2 List.nodup_range

theorem lt_of_leased (hi : index ∈ s.leased) : index < slotCount :=
  List.mem_range.1 (h.mem_iff.1 (List.mem_append_right _ hi))

theorem unleased_eq : s.unleased = s.pool.freeCount := by
  have hnodup := List.nodup_append.1 (nodup_slots h)
  rw [unleased, ← h.countP_eq, List.countP_append, ← s.pool.length_free]
  have hfree : s.pool.free.countP (fun index => index ∉ s.leased) = s.pool.free.length := by
    refine List.countP_eq_length.2 fun i hi => decide_eq_true fun hleased => ?_
    exact hnodup.2.2 i hi i hleased rfl
  have hleased : s.leased.countP (fun index => index ∉ s.leased) = 0 := by
    refine List.countP_eq_zero.2 fun i hi hnot => ?_
    exact of_decide_eq_true hnot hi
  rw [hfree, hleased, Nat.add_zero]

end Slots

theorem Inv.sound (h : Inv s) : Sound s := by
  have hnodup : s.leased.Nodup := by
    rcases h.slots with ⟨-, hnone⟩ | ⟨-, hslots⟩
    · rw [leased, hnone]
      exact List.nodup_nil
    · exact (List.nodup_append.1 (nodup_slots hslots)).2.1
  refine ⟨hnodup, ?_, ?_⟩
  · refine (List.pairwise_map.1 hnodup).imp_of_mem fun {a b} ha hb hne => ?_
    rw [h.start a ha, h.start b hb]
    simp only [slotSize]
    omega
  · rcases h.slots with ⟨hempty, -⟩ | ⟨-, hslots⟩
    · have hle := s.pool.count_le
      rw [hempty] at hle
      exact hle.trans (Nat.zero_le _)
    · exact (unleased_eq hslots).ge

theorem Inv.lease (h : Inv s) (hs : s.step .lease = some t) : Inv t := by
  unfold step at hs
  rcases s.pool.lease_cases with hnone | ⟨index, pool, hlease, hfree, hslots, -⟩
  · rw [hnone] at hs
    obtain rfl := Option.some.inj hs
    exact h
  · rw [hlease] at hs
    obtain rfl := Option.some.inj hs
    rcases h.slots with ⟨hempty, -⟩ | ⟨hne, hperm⟩
    · -- an array that is not there has no top
      rw [RegisteredBufferPool.free, hempty, List.take_nil] at hfree
      simp at hfree
    · refine ⟨fun lease hl => ?_, .inr ⟨hslots ▸ hne, ?_⟩⟩
      · rcases List.mem_append.1 hl with hl | hl
        · exact h.start lease hl
        · rw [List.mem_singleton.1 hl]
      · refine List.Perm.trans ?_ hperm
        rw [hfree, leased, leased, List.map_append, List.append_assoc]
        exact List.perm_append_comm.append_left _

theorem leased_release (s : LeasedPool) (index : ℕ) :
    (s.leases.eraseP fun lease => lease.index = index).map LeaseResult.index = s.leased.erase index := by
  rw [List.erase_eq_eraseP', leased, List.eraseP_map]
  rfl

theorem Inv.release (h : Inv s) (hok : s.Keeps (.release index)) (hs : s.step (.release index) = some t) : Inv t := by
  obtain rfl := Option.some.inj hs
  have hstart : ∀ lease ∈ s.leases.eraseP fun lease => lease.index = index, lease.start = lease.index * slotSize :=
    fun lease hl => h.start lease (List.mem_of_mem_eraseP hl)
  refine ⟨hstart, ?_⟩
  rcases h.slots with ⟨hempty, hnone⟩ | ⟨hne, hperm⟩
  · have hsame : s.pool.release index = s.pool := by
      rcases s.pool.release_cases index with ⟨hsame, -⟩ | ⟨hne, -⟩
      · exact hsame
      · exact absurd hempty hne
    left
    dsimp only
    rw [hsame, hnone]
    exact ⟨hempty, rfl⟩
  · right
    have hlen := length_add hperm
    show _ ∧ ((s.pool.release index).free ++
      (s.leases.eraseP fun lease => lease.index = index).map LeaseResult.index).Perm _
    rw [leased_release]
    rcases s.pool.release_cases index with ⟨hsame, hwhy⟩ | ⟨-, hlt, hroom, hne', hfree, -⟩
    · -- nothing is pushed, and nothing was leased under this index
      have hnot : index ∉ s.leased := by
        intro hi
        rcases hwhy with hempty | hbig | hfull
        · exact hne hempty
        · exact absurd (lt_of_leased hperm hi) (Nat.not_lt.2 hbig)
        · have hpos : 0 < s.leased.length := List.length_pos_of_mem hi
          rw [leased, List.length_map] at hpos
          omega
      rw [hsame, List.erase_of_not_mem hnot]
      exact ⟨hne, hperm⟩
    · have hleased : index ∈ s.leased := by
        rcases hok with hleased | hbig | hnone
        · exact hleased
        · omega
        · rw [hnone, List.length_nil] at hlen
          omega
      refine ⟨hne', List.Perm.trans ?_ hperm⟩
      rw [hfree, List.append_assoc, List.singleton_append]
      exact (List.perm_cons_erase hleased).symm.append_left _

/-- A call after which the pool is still right met the condition. -/
theorem Sound.keeps_release (hsound : Sound t) (h : Inv s) (hs : s.step (.release index) = some t) :
    s.Keeps (.release index) := by
  obtain rfl := Option.some.inj hs
  by_contra hnot
  rw [Keeps, not_or, not_or] at hnot
  obtain ⟨hnot, hlt, hsome⟩ := hnot
  rcases h.slots with ⟨-, hnone⟩ | ⟨hne, hperm⟩
  · exact hsome hnone
  · have hlen := length_add hperm
    have hpos : 0 < s.leases.length := List.length_pos_iff.2 hsome
    rcases s.pool.release_cases index with ⟨-, hwhy⟩ | ⟨-, -, -, -, -, hcount⟩
    · rcases hwhy with hempty | hbig | hfull
      · exact hne hempty
      · exact hlt hbig
      · omega
    · -- one more slot on the stack, and as many leased as before
      have hunleased : (⟨s.pool.release index, s.leases.eraseP fun lease => lease.index = index⟩ : LeasedPool).unleased =
          s.pool.freeCount := by
        rw [← unleased_eq hperm, unleased, leased, leased_release, List.erase_of_not_mem hnot]
        rfl
      have hle := hsound.count
      rw [hunleased] at hle
      dsimp only at hle
      omega

/-- **Leases of a pool.** In a sequence of calls the outstanding leases are apart and there are no more free slots
than slots that are not leased, throughout, exactly when each call meets its condition. -/
theorem leases_apart_iff (allocated : Bool) (es : List Event) :
    Runs.Always step Sound (start allocated) es ↔ Runs.Along step Keeps (start allocated) es := by
  refine Runs.always_iff_along_of_break (inv_start allocated) (fun _ h => h.sound) ?_ ?_ ?_
  · intro s e t h hok hs
    cases e with
    | lease => exact h.lease hs
    | release index => exact h.release hok hs
  · intro s e t h hs hsound
    cases e with
    | lease => trivial
    | release index => exact hsound.keeps_release h hs
  · intro s e hs
    cases e with
    | lease => trivial
    | release index => exact nomatch hs

/-- A slot is released twice while another one is leased, and is leased to two at the same time. -/
theorem released_twice :
    ¬Runs.Always step Sound (start true) [.lease, .lease, .release 15, .release 15, .lease, .lease] := by
  intro h
  have hsound := h.last rfl
  exact absurd hsound.distinct (by decide)

end LeasedPool

end Talyn
