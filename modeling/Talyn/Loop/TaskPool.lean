import Talyn.Lib.Runs

/-!
# The pool of blocking tasks

`BlockingTasksSet` of `loop/scheduling/io/main.zig`: 1024 task slots that are handed out from a bump
index or, last in first out, from a list of slots that came back. `IO` hands out tasks from one set;
when it is full the set is detached, moved to `busy_sets`, and frees itself when its last task is
returned.

Sets are in memory (`sets`, by address), so that a freed set is one that is not there any more. The
list `busy_sets` is a list of addresses. Two fields are not in the source: `active` has the slots that
were handed out and not returned, and `freed` the sets that were freed, in order.
-/

namespace Talyn

/-- `TotalTasksItems`. -/
def totalTasksItems : ℕ := 1024

/-- `BlockingTasksSet`; the callback of a task is a number. -/
structure BlockingTasksSet where
  /-- `data` of the tasks in `task_data_pool`: a callback or `.none` -/
  taskData : ℕ → Option ℕ
  freeSlots : ℕ → ℕ
  freeCount : ℕ
  index : ℕ
  activeTasks : ℕ
  disattached : Bool

namespace BlockingTasksSet

/-- `init`. -/
def new : BlockingTasksSet where
  taskData := fun _ => none
  freeSlots := fun _ => 0
  freeCount := 0
  index := 0
  activeTasks := 0
  disattached := false

/-- `reset`. -/
def reset (s : BlockingTasksSet) : BlockingTasksSet :=
  { s with index := 0, activeTasks := 0, freeCount := 0 }

/-- `push`, without the reservation: the slot and the set, or `none` for `error.Overflow`. -/
def push (s : BlockingTasksSet) (callback : Option ℕ) : Option (ℕ × BlockingTasksSet) :=
  if s.freeCount = 0 then
    if s.index = totalTasksItems then none
    else
      some (s.index,
        { s with
          taskData := Function.update s.taskData s.index callback
          index := s.index + 1
          activeTasks := s.activeTasks + 1 })
  else
    let slot := s.freeSlots (s.freeCount - 1)
    some (slot,
      { s with
        taskData := Function.update s.taskData slot callback
        freeCount := s.freeCount - 1
        activeTasks := s.activeTasks + 1 })

/-- `pop`, up to the test for the last task: the slot goes back to the free list. -/
def giveBack (s : BlockingTasksSet) (slot : ℕ) : BlockingTasksSet :=
  { s with
    taskData := Function.update s.taskData slot none
    freeSlots := Function.update s.freeSlots s.freeCount slot
    freeCount := s.freeCount + 1 }

/-- The condition of `free`. -/
def hasRoom (s : BlockingTasksSet) : Bool := s.index - s.freeCount < totalTasksItems

end BlockingTasksSet

/-- The part of `IO` that hands out tasks, with `reserved_slots` of the loop. -/
structure TaskPool where
  sets : ℕ → Option BlockingTasksSet
  next : ℕ
  set : ℕ
  busySets : List ℕ
  reservedSlots : ℕ
  active : ℕ → Finset ℕ
  freed : List ℕ

namespace TaskPool

/-- `IO.init`. -/
def init : TaskPool where
  sets := fun a => if a = 0 then some .new else none
  next := 1
  set := 0
  busySets := []
  reservedSlots := 0
  active := fun _ => ∅
  freed := []

/-- Overwrite a set. -/
def setSet (io : TaskPool) (a : ℕ) (s : BlockingTasksSet) : TaskPool :=
  { io with sets := Function.update io.sets a (some s) }

/-- `BlockingTasksSet.push` on the set at `a`: the slot, or `none` inside for `error.Overflow`, which
gives the reservation back. The result is `none` when there is no set at `a`. -/
def push (io : TaskPool) (a : ℕ) (callback : Option ℕ) : Option (Option ℕ × TaskPool) :=
  match io.sets a with
  | none => none
  | some s =>
    match s.push callback with
    | none => some (none, { io with reservedSlots := io.reservedSlots + 1 - 1 })
    | some (slot, s') =>
      some (some slot,
        { io.setSet a s' with
          reservedSlots := io.reservedSlots + 1
          active := Function.update io.active a (insert slot (io.active a)) })

/-- `BlockingTasksSet.deinit` of a detached set: it is unlinked from `busy_sets` and freed. -/
def release (io : TaskPool) (a : ℕ) : TaskPool :=
  { io with
    sets := Function.update io.sets a none
    busySets := io.busySets.erase a
    freed := io.freed ++ [a] }

/-- `BlockingTasksSet.pop`. -/
def pop (io : TaskPool) (a slot : ℕ) : Option TaskPool :=
  match io.sets a with
  | none => none
  | some s =>
    let io := { io with active := Function.update io.active a ((io.active a).erase slot) }
    let s' := s.giveBack slot
    if s.activeTasks - 1 = 0 then
      if s.disattached then some (io.release a) else some (io.setSet a s'.reset)
    else some (io.setSet a { s' with activeTasks := s.activeTasks - 1 })

/-- `BlockingTask.deinit`: after the completion was harvested. -/
def deinit (io : TaskPool) (a slot : ℕ) : Option TaskPool := io.pop a slot

/-- `BlockingTask.discard`: when the operation could not be queued. -/
def discard (io : TaskPool) (a slot : ℕ) : Option TaskPool :=
  { io with reservedSlots := io.reservedSlots - 1 }.pop a slot

/-- `get_blocking_tasks_set`; `alloc` tells whether a new set can be allocated. The first result is
`none` for `error.OutOfMemory`, after which the flag that `free` set is taken back. -/
def getBlockingTasksSet (io : TaskPool) (alloc : Bool) : Option (Option ℕ × TaskPool) :=
  match io.sets io.set with
  | none => none
  | some s =>
    if s.hasRoom then some (some io.set, io)
    else
      let io := io.setSet io.set { s with disattached := true }
      if alloc then
        some (some io.next,
          { io.setSet io.next .new with
            next := io.next + 1
            busySets := io.busySets ++ [io.set]
            set := io.next })
      else some (none, io.setSet io.set { s with disattached := false })

/-- The operations of the pool. -/
inductive Op
  | push (set : ℕ) (callback : Option ℕ)
  | discard (set slot : ℕ)
  | deinit (set slot : ℕ)
  | getBlockingTasksSet (alloc : Bool)

/-- One operation. A task is discarded or deinited once, and a task is pushed to a set that is
there. -/
def step (io : TaskPool) : Op → Option TaskPool
  | .push a callback => (io.push a callback).map Prod.snd
  | .discard a slot => if slot ∈ io.active a then io.discard a slot else none
  | .deinit a slot => if slot ∈ io.active a then io.deinit a slot else none
  | .getBlockingTasksSet alloc => (io.getBlockingTasksSet alloc).map Prod.snd

end TaskPool

/-! ### One set -/

namespace BlockingTasksSet

/-- The slots of a set: `used` are in use, the free ones are below the index, different from each
other and not in use, and the counters count them. -/
structure Inv (s : BlockingTasksSet) (used : Finset ℕ) : Prop where
  bound : s.index ≤ totalTasksItems
  free_lt : ∀ i < s.freeCount, s.freeSlots i < s.index
  free_inj : ∀ i j, i < s.freeCount → j < s.freeCount → s.freeSlots i = s.freeSlots j → i = j
  used_lt : ∀ k ∈ used, k < s.index
  disjoint : ∀ i < s.freeCount, s.freeSlots i ∉ used
  card : used.card = s.activeTasks
  count : s.activeTasks + s.freeCount = s.index

namespace Inv

variable {s s' : BlockingTasksSet} {used : Finset ℕ} {slot : ℕ}

theorem new : Inv .new ∅ := by
  constructor <;> simp [BlockingTasksSet.new]

/-- A slot is handed out when it is not in use. -/
theorem push {callback : Option ℕ} (h : Inv s used) (hp : s.push callback = some (slot, s')) :
    slot ∉ used ∧ Inv s' (insert slot used) ∧ s'.disattached = s.disattached := by
  have hcount := h.count
  unfold BlockingTasksSet.push at hp
  split at hp
  · rename_i hzero
    split at hp
    · exact nomatch hp
    · rename_i hindex
      have hlt : s.index < totalTasksItems := lt_of_le_of_ne h.bound hindex
      obtain ⟨rfl, rfl⟩ := Prod.mk.inj (Option.some.inj hp)
      have hnew : s.index ∉ used := fun hk => absurd (h.used_lt _ hk) (lt_irrefl _)
      refine ⟨hnew, ⟨hlt, ?_, ?_, ?_, ?_, ?_, ?_⟩, rfl⟩
      · intro i hi
        exact (h.free_lt i hi).trans (Nat.lt_succ_self _)
      · exact h.free_inj
      · intro k hk
        rcases Finset.mem_insert.1 hk with rfl | hk
        · exact Nat.lt_succ_self _
        · exact (h.used_lt k hk).trans (Nat.lt_succ_self _)
      · intro i hi
        replace hi : i < s.freeCount := hi
        omega
      · rw [Finset.card_insert_of_notMem hnew, h.card]
      · show s.activeTasks + 1 + s.freeCount = s.index + 1
        omega
  · rename_i hzero
    obtain ⟨rfl, rfl⟩ := Prod.mk.inj (Option.some.inj hp)
    have hlast : s.freeCount - 1 < s.freeCount := by omega
    have hnew := h.disjoint _ hlast
    refine ⟨hnew, ⟨h.bound, ?_, ?_, ?_, ?_, ?_, ?_⟩, rfl⟩
    · intro i hi
      exact h.free_lt i (by dsimp only at hi; omega)
    · intro i j hi hj
      exact h.free_inj i j (by dsimp only at hi; omega) (by dsimp only at hj; omega)
    · intro k hk
      rcases Finset.mem_insert.1 hk with rfl | hk
      · exact h.free_lt _ hlast
      · exact h.used_lt k hk
    · -- the slot that was taken is the last of the free list
      intro i hi hmem
      replace hi : i < s.freeCount - 1 := hi
      rcases Finset.mem_insert.1 hmem with heq | hmem
      · have := h.free_inj i _ (by omega) hlast heq
        omega
      · exact h.disjoint i (by omega) hmem
    · rw [Finset.card_insert_of_notMem hnew, h.card]
    · show s.activeTasks + 1 + (s.freeCount - 1) = s.index
      omega

/-- A slot comes back. -/
theorem giveBack (h : Inv s used) (hslot : slot ∈ used) :
    Inv { s.giveBack slot with activeTasks := s.activeTasks - 1 } (used.erase slot) := by
  have hcount := h.count
  have hcard := h.card
  have hpos : 0 < used.card := Finset.card_pos.2 ⟨slot, hslot⟩
  -- the entries of the new free list
  have hentry : ∀ i, Function.update s.freeSlots s.freeCount slot i =
      if i = s.freeCount then slot else s.freeSlots i := fun i => Function.update_apply _ _ _ _
  refine ⟨h.bound, ?_, ?_, ?_, ?_, ?_, ?_⟩
  · intro i hi
    replace hi : i < s.freeCount + 1 := hi
    show Function.update s.freeSlots s.freeCount slot i < s.index
    rw [hentry]
    split
    · exact h.used_lt slot hslot
    · exact h.free_lt i (by omega)
  · intro i j hi hj heq
    replace hi : i < s.freeCount + 1 := hi
    replace hj : j < s.freeCount + 1 := hj
    replace heq : Function.update s.freeSlots s.freeCount slot i =
      Function.update s.freeSlots s.freeCount slot j := heq
    rw [hentry, hentry] at heq
    split at heq
    · rename_i hic
      split at heq
      · omega
      · exact absurd (heq ▸ hslot) (h.disjoint j (by omega))
    · rename_i hic
      split at heq
      · exact absurd (heq ▸ hslot) (h.disjoint i (by omega))
      · exact h.free_inj i j (by omega) (by omega) heq
  · intro k hk
    exact h.used_lt k (Finset.mem_of_mem_erase hk)
  · intro i hi hmem
    replace hi : i < s.freeCount + 1 := hi
    replace hmem : Function.update s.freeSlots s.freeCount slot i ∈ used.erase slot := hmem
    rw [hentry] at hmem
    split at hmem
    · exact absurd rfl (Finset.ne_of_mem_erase hmem)
    · exact h.disjoint i (by omega) (Finset.mem_of_mem_erase hmem)
  · rw [Finset.card_erase_of_mem hslot, hcard]
  · show s.activeTasks - 1 + (s.freeCount + 1) = s.index
    omega

/-- The last slot that comes back leaves none in use. -/
theorem erase_last (h : Inv s used) (hslot : slot ∈ used) (hlast : s.activeTasks - 1 = 0) :
    used.erase slot = ∅ := by
  rw [← Finset.card_eq_zero, Finset.card_erase_of_mem hslot, h.card, hlast]

theorem reset (s : BlockingTasksSet) : Inv s.reset ∅ := by
  constructor <;> simp [BlockingTasksSet.reset]

/-- A set without room has a task in each of its slots. -/
theorem used_of_full (h : Inv s used) (hfull : s.hasRoom = false) : used.Nonempty := by
  have hcount := h.count
  have hcard := h.card
  have hroom : ¬s.index - s.freeCount < 1024 := of_decide_eq_false hfull
  rw [← Finset.card_pos]
  omega

end Inv

end BlockingTasksSet

/-! ### The pool -/

namespace TaskPool

/-- The invariant: the set in use is the only one that is not detached, the detached ones are those in
`busy_sets`, each of them has a task, and what is not there any more was freed once. -/
structure Inv (io : TaskPool) : Prop where
  set_live : ∃ s, io.sets io.set = some s ∧ s.disattached = false
  fresh : ∀ a, io.next ≤ a → io.sets a = none
  slots : ∀ a s, io.sets a = some s → s.Inv (io.active a)
  gone : ∀ a, io.sets a = none → io.active a = ∅
  set_unique : ∀ a s, io.sets a = some s → s.disattached = false → a = io.set
  busy_nodup : io.busySets.Nodup
  busy : ∀ a, a ∈ io.busySets ↔ ∃ s, io.sets a = some s ∧ s.disattached = true
  detached : ∀ a s, io.sets a = some s → s.disattached = true → (io.active a).Nonempty
  freed_nodup : io.freed.Nodup
  freed : ∀ a, a ∈ io.freed ↔ a < io.next ∧ io.sets a = none

namespace Inv

variable {io io' : TaskPool} {a slot : ℕ} {s s' : BlockingTasksSet}

theorem lt_next (h : Inv io) (ha : io.sets a = some s) : a < io.next := by
  by_contra hge
  rw [h.fresh a (by omega)] at ha
  exact nomatch ha

/-- A set gets other slots in use; whether it is detached does not change. -/
theorem update {used : Finset ℕ} {reserved : ℕ} (h : Inv io) (ha : io.sets a = some s)
    (hs : s'.Inv used) (hdis : s'.disattached = s.disattached)
    (hdet : s.disattached = true → used.Nonempty) :
    Inv { io.setSet a s' with
      reservedSlots := reserved, active := Function.update io.active a used } := by
  have hget : ∀ b, Function.update io.sets a (some s') b = if b = a then some s' else io.sets b :=
    fun b => Function.update_apply _ _ _ _
  have hact : ∀ b, Function.update io.active a used b = if b = a then used else io.active b :=
    fun b => Function.update_apply _ _ _ _
  -- what is at an address, compared with what was there
  have hold : ∀ b sb', Function.update io.sets a (some s') b = some sb' →
      ∃ sb, io.sets b = some sb ∧ sb'.disattached = sb.disattached ∧ (b ≠ a → sb' = sb) := by
    intro b sb' hb
    rw [hget] at hb
    split at hb
    · rename_i hba
      subst hba
      obtain rfl := Option.some.inj hb
      exact ⟨s, ha, hdis, fun hne => absurd rfl hne⟩
    · exact ⟨sb', hb, rfl, fun _ => rfl⟩
  have hnone : ∀ b, Function.update io.sets a (some s') b = none ↔ io.sets b = none := by
    intro b
    rw [hget]
    split
    · rename_i hba
      subst hba
      simp [ha]
    · exact Iff.rfl
  refine ⟨?_, ?_, ?_, ?_, ?_, h.busy_nodup, ?_, ?_, h.freed_nodup, ?_⟩
  · obtain ⟨s₀, hs₀, hd⟩ := h.set_live
    by_cases hba : io.set = a
    · refine ⟨s', ?_, ?_⟩
      · show Function.update io.sets a (some s') io.set = some s'
        rw [hba, Function.update_self]
      · rw [hba, ha] at hs₀
        obtain rfl := Option.some.inj hs₀
        rw [hdis, hd]
    · exact ⟨s₀, (Function.update_of_ne hba _ _).trans hs₀, hd⟩
  · exact fun b hb => (hnone b).2 (h.fresh b hb)
  · intro b sb' hb
    show sb'.Inv (Function.update io.active a used b)
    replace hb : Function.update io.sets a (some s') b = some sb' := hb
    rw [hact]
    rw [hget] at hb
    split
    · rename_i hba
      rw [if_pos hba] at hb
      obtain rfl := Option.some.inj hb
      exact hs
    · rename_i hba
      rw [if_neg hba] at hb
      exact h.slots b sb' hb
  · intro b hb
    have hb' := (hnone b).1 hb
    have hba : b ≠ a := by
      rintro rfl
      rw [ha] at hb'
      exact nomatch hb'
    exact (Function.update_of_ne hba _ _).trans (h.gone b hb')
  · intro b sb' hb hd
    obtain ⟨sb, hsb, hdis', -⟩ := hold b sb' hb
    exact h.set_unique b sb hsb (hdis' ▸ hd)
  · intro b
    refine (h.busy b).trans ?_
    constructor
    · rintro ⟨sb, hsb, hd⟩
      by_cases hba : b = a
      · subst hba
        obtain rfl := Option.some.inj (ha.symm.trans hsb)
        exact ⟨s', Function.update_self _ _ _, hdis.trans hd⟩
      · exact ⟨sb, (Function.update_of_ne hba _ _).trans hsb, hd⟩
    · rintro ⟨sb', hb, hd⟩
      obtain ⟨sb, hsb, hdis', -⟩ := hold b sb' hb
      exact ⟨sb, hsb, hdis' ▸ hd⟩
  · intro b sb' hb hd
    obtain ⟨sb, hsb, hdis', -⟩ := hold b sb' hb
    show (Function.update io.active a used b).Nonempty
    rw [hact]
    split
    · rename_i hba
      subst hba
      obtain rfl := Option.some.inj (ha.symm.trans hsb)
      exact hdet (hdis' ▸ hd)
    · exact h.detached b sb hsb (hdis' ▸ hd)
  · intro b
    refine (h.freed b).trans ?_
    exact and_congr_right fun _ => (hnone b).symm

/-- The last task of a detached set comes back. -/
theorem release {used : Finset ℕ} {reserved : ℕ} (h : Inv io) (ha : io.sets a = some s)
    (hd : s.disattached = true) (hused : used = ∅) :
    Inv (release { io with
      reservedSlots := reserved, active := Function.update io.active a used } a) := by
  have hset : io.set ≠ a := by
    obtain ⟨s₀, hs₀, hd₀⟩ := h.set_live
    rintro rfl
    obtain rfl := Option.some.inj (ha.symm.trans hs₀)
    rw [hd] at hd₀
    exact nomatch hd₀
  have hget : ∀ b sb, Function.update io.sets a none b = some sb ↔ b ≠ a ∧ io.sets b = some sb := by
    intro b sb
    rw [Function.update_apply]
    split
    · rename_i hba
      simp [hba]
    · rename_i hba
      simp [hba]
  have hnone : ∀ b, Function.update io.sets a none b = none ↔ b = a ∨ io.sets b = none := by
    intro b
    rw [Function.update_apply]
    split
    · rename_i hba
      simp [hba]
    · rename_i hba
      simp [hba]
  refine ⟨?_, ?_, ?_, ?_, ?_, h.busy_nodup.erase a, ?_, ?_, ?_, ?_⟩
  · obtain ⟨s₀, hs₀, hd₀⟩ := h.set_live
    exact ⟨s₀, (hget _ _).2 ⟨hset, hs₀⟩, hd₀⟩
  · exact fun b hb => (hnone b).2 (.inr (h.fresh b hb))
  · intro b sb hb
    obtain ⟨hba, hsb⟩ := (hget b sb).1 hb
    show sb.Inv (Function.update io.active a used b)
    rw [Function.update_of_ne hba]
    exact h.slots b sb hsb
  · intro b hb
    show Function.update io.active a used b = ∅
    rw [Function.update_apply]
    split
    · exact hused
    · rename_i hba
      exact h.gone b (((hnone b).1 hb).resolve_left hba)
  · intro b sb hb hd'
    exact h.set_unique b sb ((hget b sb).1 hb).2 hd'
  · intro b
    show b ∈ io.busySets.erase a ↔ _
    rw [h.busy_nodup.mem_erase_iff, h.busy b]
    constructor
    · rintro ⟨hba, sb, hsb, hd'⟩
      exact ⟨sb, (hget b sb).2 ⟨hba, hsb⟩, hd'⟩
    · rintro ⟨sb, hb, hd'⟩
      obtain ⟨hba, hsb⟩ := (hget b sb).1 hb
      exact ⟨hba, sb, hsb, hd'⟩
  · intro b sb hb hd'
    obtain ⟨hba, hsb⟩ := (hget b sb).1 hb
    show (Function.update io.active a used b).Nonempty
    rw [Function.update_of_ne hba]
    exact h.detached b sb hsb hd'
  · have hnot : a ∉ io.freed := by
      intro hmem
      rw [((h.freed a).1 hmem).2] at ha
      exact nomatch ha
    exact List.nodup_append.2 ⟨h.freed_nodup, List.nodup_singleton a, by
      rintro x hx y hy rfl
      rw [List.mem_singleton.1 hy] at hx
      exact hnot hx⟩
  · intro b
    have hlt := h.lt_next ha
    show b ∈ io.freed ++ [a] ↔ b < io.next ∧ Function.update io.sets a none b = none
    rw [List.mem_append, List.mem_singleton, h.freed b, hnone b]
    constructor
    · rintro (⟨hb, hn⟩ | rfl)
      · exact ⟨hb, .inr hn⟩
      · exact ⟨hlt, .inl rfl⟩
    · rintro ⟨hb, rfl | hn⟩
      · exact .inr rfl
      · exact .inl ⟨hb, hn⟩

/-- `push` hands out a slot that is not in use. -/
theorem push {callback result : Option ℕ} (h : Inv io) (hp : io.push a callback = some (result, io')) :
    Inv io' ∧ ∀ slot, result = some slot → slot ∉ io.active a := by
  unfold TaskPool.push at hp
  split at hp
  · exact nomatch hp
  · rename_i s ha
    split at hp
    · obtain ⟨rfl, rfl⟩ := Prod.mk.inj (Option.some.inj hp)
      exact ⟨{ h with }, nofun⟩
    · rename_i slot s' hpush
      obtain ⟨rfl, rfl⟩ := Prod.mk.inj (Option.some.inj hp)
      obtain ⟨hnew, hs', hdis⟩ := (h.slots a s ha).push hpush
      refine ⟨h.update ha hs' hdis fun _ => Finset.insert_nonempty _ _, ?_⟩
      rintro slot' heq
      obtain rfl := Option.some.inj heq
      exact hnew

/-- `pop` of a task that is in use. -/
theorem pop {reserved : ℕ} (h : Inv io) (hslot : slot ∈ io.active a)
    (hp : TaskPool.pop { io with reservedSlots := reserved } a slot = some io') : Inv io' := by
  unfold TaskPool.pop at hp
  split at hp
  · exact nomatch hp
  · rename_i s ha
    replace ha : io.sets a = some s := ha
    have hs := h.slots a s ha
    dsimp only at hp
    split at hp
    · rename_i hlast
      have hempty := hs.erase_last hslot hlast
      split at hp
      · rename_i hd
        obtain rfl := Option.some.inj hp
        exact h.release ha hd hempty
      · rename_i hd
        obtain rfl := Option.some.inj hp
        rw [Bool.not_eq_true] at hd
        rw [hempty]
        exact h.update ha (BlockingTasksSet.Inv.reset _) rfl fun hd' => absurd hd' (by simp [hd])
    · rename_i hlast
      obtain rfl := Option.some.inj hp
      refine h.update ha (hs.giveBack hslot) rfl fun _ => ?_
      rw [← Finset.card_pos, Finset.card_erase_of_mem hslot, hs.card]
      omega

/-- The full set in use is detached, and a new one takes its place. -/
theorem detach (h : Inv io) (hset : io.sets io.set = some s) (hroom : s.hasRoom = false) :
    Inv { (io.setSet io.set { s with disattached := true }).setSet io.next .new with
      next := io.next + 1, busySets := io.busySets ++ [io.set], set := io.next } := by
  have hne : io.set ≠ io.next := (h.lt_next hset).ne
  have hdet : s.disattached = false := by
    obtain ⟨s₀, hs₀, hd₀⟩ := h.set_live
    obtain rfl := Option.some.inj (hset.symm.trans hs₀)
    exact hd₀
  have hget : ∀ b, Function.update (Function.update io.sets io.set
      (some { s with disattached := true })) io.next (some .new) b =
        if b = io.next then some .new
        else if b = io.set then some { s with disattached := true } else io.sets b := by
    intro b
    rw [Function.update_apply, Function.update_apply]
  -- what is at an address afterwards
  have hold : ∀ b sb, Function.update (Function.update io.sets io.set
      (some { s with disattached := true })) io.next (some .new) b = some sb →
        (b = io.next ∧ sb = .new) ∨ (b ≠ io.next ∧ b = io.set ∧ sb = { s with disattached := true }) ∨
        (b ≠ io.next ∧ b ≠ io.set ∧ io.sets b = some sb) := by
    intro b sb hb
    rw [hget] at hb
    split at hb
    · exact .inl ⟨‹_›, (Option.some.inj hb).symm⟩
    · split at hb
      · exact .inr (.inl ⟨‹_›, ‹_›, (Option.some.inj hb).symm⟩)
      · exact .inr (.inr ⟨‹_›, ‹_›, hb⟩)
  have hnone : ∀ b, Function.update (Function.update io.sets io.set
      (some { s with disattached := true })) io.next (some .new) b = none ↔
        b ≠ io.next ∧ io.sets b = none := by
    intro b
    rw [hget]
    split
    · rename_i hb
      simp [hb]
    · rename_i hb
      split
      · rename_i hb'
        simp [hb', hset]
      · simp [hb]
  refine ⟨⟨.new, Function.update_self _ _ _, rfl⟩, ?_, ?_, ?_, ?_, ?_, ?_, ?_, h.freed_nodup, ?_⟩
  · intro b hb
    replace hb : io.next + 1 ≤ b := hb
    exact (hnone b).2 ⟨by omega, h.fresh b (by omega)⟩
  · intro b sb hb
    rcases hold b sb hb with ⟨rfl, rfl⟩ | ⟨-, rfl, rfl⟩ | ⟨-, -, hsb⟩
    · show BlockingTasksSet.Inv .new (io.active io.next)
      rw [h.gone _ (h.fresh _ le_rfl)]
      exact .new
    · exact { h.slots _ s hset with }
    · exact h.slots b sb hsb
  · intro b hb
    exact h.gone b ((hnone b).1 hb).2
  · intro b sb hb hd
    rcases hold b sb hb with ⟨rfl, -⟩ | ⟨-, -, rfl⟩ | ⟨-, hbset, hsb⟩
    · rfl
    · exact nomatch hd
    · exact absurd (h.set_unique b sb hsb hd) hbset
  · have hnot : io.set ∉ io.busySets := by
      intro hmem
      obtain ⟨s₀, hs₀, hd₀⟩ := (h.busy _).1 hmem
      obtain rfl := Option.some.inj (hset.symm.trans hs₀)
      rw [hdet] at hd₀
      exact nomatch hd₀
    exact List.nodup_append.2 ⟨h.busy_nodup, List.nodup_singleton _, by
      rintro x hx y hy rfl
      rw [List.mem_singleton.1 hy] at hx
      exact hnot hx⟩
  · intro b
    show b ∈ io.busySets ++ [io.set] ↔ _
    rw [List.mem_append, List.mem_singleton, h.busy b]
    constructor
    · rintro (⟨sb, hsb, hd⟩ | rfl)
      · have hbn : b ≠ io.next := (h.lt_next hsb).ne
        have hbs : b ≠ io.set := by
          rintro rfl
          obtain rfl := Option.some.inj (hset.symm.trans hsb)
          rw [hdet] at hd
          exact nomatch hd
        exact ⟨sb, (hget b).trans (by rw [if_neg hbn, if_neg hbs, hsb]), hd⟩
      · exact ⟨_, (hget _).trans (by rw [if_neg hne, if_pos rfl]), rfl⟩
    · rintro ⟨sb, hb, hd⟩
      rcases hold b sb hb with ⟨-, rfl⟩ | ⟨-, hbs, -⟩ | ⟨-, -, hsb⟩
      · exact nomatch hd
      · exact .inr hbs
      · exact .inl ⟨sb, hsb, hd⟩
  · intro b sb hb hd
    rcases hold b sb hb with ⟨-, rfl⟩ | ⟨-, rfl, -⟩ | ⟨-, -, hsb⟩
    · exact nomatch hd
    · exact (h.slots _ s hset).used_of_full hroom
    · exact h.detached b sb hsb hd
  · intro b
    refine (h.freed b).trans ?_
    constructor
    · rintro ⟨hb, hn⟩
      exact ⟨hb.trans (Nat.lt_succ_self _), (hnone b).2 ⟨hb.ne, hn⟩⟩
    · rintro ⟨hb, hn⟩
      obtain ⟨hbn, hn'⟩ := (hnone b).1 hn
      exact ⟨lt_of_le_of_ne (Nat.lt_succ_iff.1 hb) hbn, hn'⟩

/-- `get_blocking_tasks_set`. -/
theorem getBlockingTasksSet {alloc : Bool} {result : Option ℕ} (h : Inv io)
    (hg : io.getBlockingTasksSet alloc = some (result, io')) : Inv io' := by
  unfold TaskPool.getBlockingTasksSet at hg
  split at hg
  · exact nomatch hg
  · rename_i s hset
    obtain ⟨s₀, hs₀, hd₀⟩ := h.set_live
    obtain rfl := Option.some.inj (hset.symm.trans hs₀)
    split at hg
    · obtain ⟨rfl, rfl⟩ := Prod.mk.inj (Option.some.inj hg)
      exact h
    · rename_i hroom
      rw [Bool.not_eq_true] at hroom
      dsimp only at hg
      split at hg
      · obtain ⟨rfl, rfl⟩ := Prod.mk.inj (Option.some.inj hg)
        exact h.detach hset hroom
      · -- out of memory: the flag is taken back
        obtain ⟨rfl, rfl⟩ := Prod.mk.inj (Option.some.inj hg)
        have heq : (io.setSet io.set { s with disattached := true }).setSet io.set
            { s with disattached := false } = io := by
          rw [setSet, setSet, Function.update_idem, ← hd₀, ← hset, Function.update_eq_self]
        rw [show (io.setSet io.set { s with disattached := true }).set = io.set from rfl, heq]
        exact h

theorem step {op : Op} (h : Inv io) (hstep : io.step op = some io') : Inv io' := by
  cases op with
  | push a callback =>
    obtain ⟨r, hr, rfl⟩ := Option.map_eq_some_iff.1 hstep
    exact (h.push hr).1
  | discard a slot =>
    simp only [TaskPool.step] at hstep
    split at hstep
    · exact h.pop ‹_› hstep
    · exact nomatch hstep
  | deinit a slot =>
    simp only [TaskPool.step] at hstep
    split at hstep
    · exact h.pop ‹_› hstep
    · exact nomatch hstep
  | getBlockingTasksSet alloc =>
    obtain ⟨r, hr, rfl⟩ := Option.map_eq_some_iff.1 hstep
    exact h.getBlockingTasksSet hr

theorem init : Inv TaskPool.init := by
  have hget : ∀ a s, TaskPool.init.sets a = some s → a = 0 ∧ s = .new := by
    intro a s ha
    simp only [TaskPool.init] at ha
    split at ha
    · exact ⟨‹_›, (Option.some.inj ha).symm⟩
    · exact nomatch ha
  refine ⟨⟨.new, rfl, rfl⟩, ?_, ?_, fun _ _ => rfl, ?_, List.nodup_nil, ?_, ?_, List.nodup_nil, ?_⟩
  · intro a ha
    replace ha : 1 ≤ a := ha
    exact if_neg (by omega)
  · intro a s ha
    obtain ⟨-, rfl⟩ := hget a s ha
    exact .new
  · intro a s ha _
    exact (hget a s ha).1
  · intro a
    refine ⟨nofun, ?_⟩
    rintro ⟨s, ha, hd⟩
    obtain ⟨-, rfl⟩ := hget a s ha
    exact nomatch hd
  · intro a s ha hd
    obtain ⟨-, rfl⟩ := hget a s ha
    exact nomatch hd
  · intro a
    refine ⟨nofun, ?_⟩
    rintro ⟨ha, hn⟩
    replace ha : a < 1 := ha
    obtain rfl : a = 0 := by omega
    exact nomatch hn

end Inv

/-- In every state that a sequence of operations reaches, allocation failures included:

* in each set the free slots are below the index, pairwise distinct and not in use, and the number of
  tasks is `index - free_count`; so what `push` hands out is not in use;
* the sets in `busy_sets` are the detached ones, each of which has a task in use, while a set that is
  there no more was freed once and has none;
* the set that `IO.set` points to is there and never was freed. -/
theorem task_pool_safe {io : TaskPool}
    (hr : Runs.Reaches step (fun _ _ => True) TaskPool.init io) :
    (∀ a s, io.sets a = some s →
      (∀ i < s.freeCount, s.freeSlots i < s.index ∧ s.freeSlots i ∉ io.active a) ∧
      (∀ i j, i < s.freeCount → j < s.freeCount → s.freeSlots i = s.freeSlots j → i = j) ∧
      (∀ slot ∈ io.active a, slot < s.index) ∧ s.index ≤ totalTasksItems ∧
      (io.active a).card = s.activeTasks ∧ s.activeTasks = s.index - s.freeCount) ∧
    (∀ a callback slot io', io.push a callback = some (some slot, io') → slot ∉ io.active a) ∧
    io.busySets.Nodup ∧
    (∀ a, a ∈ io.busySets ↔ ∃ s, io.sets a = some s ∧ s.disattached = true) ∧
    (∀ a ∈ io.busySets, (io.active a).Nonempty) ∧
    io.freed.Nodup ∧
    (∀ a, a ∈ io.freed ↔ a < io.next ∧ io.sets a = none) ∧
    (∀ a, io.sets a = none → io.active a = ∅) ∧
    (∃ s, io.sets io.set = some s ∧ s.disattached = false) ∧ io.set ∉ io.freed := by
  have h : Inv io := hr.invariant Inv.init fun u e v hu _ hv => hu.step hv
  refine ⟨?_, ?_, h.busy_nodup, h.busy, ?_, h.freed_nodup, h.freed, h.gone, h.set_live, ?_⟩
  · intro a s ha
    have hs := h.slots a s ha
    have hcount := hs.count
    exact ⟨fun i hi => ⟨hs.free_lt i hi, hs.disjoint i hi⟩, hs.free_inj, hs.used_lt, hs.bound, hs.card,
      by omega⟩
  · intro a callback slot io' hp
    exact (h.push hp).2 slot rfl
  · intro a ha
    obtain ⟨s, hs, hd⟩ := (h.busy a).1 ha
    exact h.detached a s hs hd
  · intro hmem
    obtain ⟨s, hs, -⟩ := h.set_live
    rw [((h.freed _).1 hmem).2] at hs
    exact nomatch hs

/-- Two tasks, one of which comes back; the next one gets its slot. -/
theorem task_pool_safe_reuse :
    ∃ io, Runs.exec step TaskPool.init
        [.getBlockingTasksSet true, .push 0 (some 7), .push 0 (some 8), .deinit 0 0] = some io ∧
      ∃ io', io.push 0 none = some (some 0, io') ∧ 0 ∉ io.active 0 := by
  refine ⟨_, rfl, _, rfl, ?_⟩
  refine (task_pool_safe ⟨[.getBlockingTasksSet true, .push 0 (some 7), .push 0 (some 8),
    .deinit 0 0], rfl, ?_⟩).2.1 0 none 0 _ rfl
  simp [Runs.Along]

end TaskPool

end Talyn
