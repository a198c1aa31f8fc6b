import Talyn.Lib.RingBuffer

/-!
# `DynamicRingBuffer` and the queue it stands for

The slots are two arrays, the callbacks and the flags that say which of them were consumed; the indices grow
for ever and are masked by the capacity. `Holds b r` says that the arrays are those of the ring buffer `r` and
that no entry of `r` has its flag set. `Fifo` is the queue, with the capacity that makes `try_push` refuse.
Arithmetic that would leave the 64 bits of an index has no result.
-/

namespace Talyn

/-- `DynamicRingBuffer`. -/
structure DynamicRingBuffer (α : Type*) where
  callbacks : ℕ → α
  executed : ℕ → Bool
  capacity : ℕ
  readIdx : ℕ
  writeIdx : ℕ

namespace DynamicRingBuffer

variable {α β : Type*}

/-- What an operation returns. -/
inductive Outcome (α : Type*)
  | done
  | pushed (ok : Bool)
  | ringBufferOverflow
  | outOfMemory
  | callback (next : Option α)
  | count (n : ℕ)
deriving DecidableEq

/-- A push that was refused. -/
def Outcome.Failed : Outcome α → Prop
  | .pushed false | .ringBufferOverflow | .outOfMemory => True
  | _ => False

/-- `a + 1` as a `usize`. -/
def succ? (a : ℕ) : Option ℕ := if a + 1 < 2 ^ 64 then some (a + 1) else none

/-- `a - b` as a `usize`. -/
def sub? (a b : ℕ) : Option ℕ := if b ≤ a then some (a - b) else none

/-- A loop that copies `n` slots, each from where `index` says. -/
def copy (dst src : ℕ → β) (n : ℕ) (index : ℕ → ℕ) : ℕ → β :=
  (List.range n).foldl (fun dst i => Function.update dst i (src (index i))) dst

/-- A loop that sets the slots from `start` on, `n` of them. -/
def fill (dst : ℕ → β) (start n : ℕ) (value : β) : ℕ → β :=
  (List.range' start n).foldl (fun dst i => Function.update dst i value) dst

/-- What two allocations return: memory with anything in it, or nothing. -/
structure Memory (α : Type*) where
  callbacks : Option (ℕ → α)
  executed : Option (ℕ → Bool)

/-- `init`. -/
def init (memory : Memory α) (capacity : ℕ) : Option (DynamicRingBuffer α) :=
  (RingBuffer.ceilPowerOfTwo capacity).bind fun actualCapacity =>
    memory.callbacks.bind fun callbacks =>
      memory.executed.map fun executed =>
        ⟨callbacks, fill executed 0 actualCapacity false, actualCapacity, 0, 0⟩

/-- `count`. -/
def count (b : DynamicRingBuffer α) : Option ℕ := sub? b.writeIdx b.readIdx

/-- `grow`, with `n` callbacks in the buffer: the new buffer, or `none` for `error.OutOfMemory`. -/
def grow (b : DynamicRingBuffer α) (memory : Memory α) (n : ℕ) : Option (DynamicRingBuffer α) :=
  if b.capacity > (2 ^ 64 - 1) / 2 then none
  else
    let newCap := b.capacity * 2
    let mask := b.capacity - 1
    memory.callbacks.bind fun newCallbacks =>
      memory.executed.map fun newExecuted =>
        { callbacks := copy newCallbacks b.callbacks n fun i => (b.readIdx + i) &&& mask
          executed := fill (copy newExecuted b.executed n fun i => (b.readIdx + i) &&& mask) n (newCap - n) false
          capacity := newCap
          readIdx := 0
          writeIdx := n }

/-- `try_push`: whether there was room, and the buffer. -/
def tryPush (b : DynamicRingBuffer α) (callback : α) : Option (Bool × DynamicRingBuffer α) :=
  (sub? b.writeIdx b.readIdx).bind fun n =>
    if n = b.capacity then some (false, b)
    else
      let idx := b.writeIdx &&& (b.capacity - 1)
      (succ? b.writeIdx).map fun writeIdx =>
        (true, { b with
          callbacks := Function.update b.callbacks idx callback
          executed := Function.update b.executed idx false
          writeIdx := writeIdx })

/-- `push`. -/
def push (b : DynamicRingBuffer α) (callback : α) : Option (Outcome α × DynamicRingBuffer α) :=
  (b.tryPush callback).map fun p => if p.1 then (.done, p.2) else (.ringBufferOverflow, p.2)

/-- `push_or_grow`. -/
def pushOrGrow (b : DynamicRingBuffer α) (callback : α) (memory : Memory α) :
    Option (Outcome α × DynamicRingBuffer α) :=
  (b.tryPush callback).bind fun p =>
    if p.1 then some (.done, p.2)
    else
      b.count.bind fun n =>
        match b.grow memory n with
        | none => some (.outOfMemory, b)
        | some grown => grown.push callback

/-- `next`. -/
def next (b : DynamicRingBuffer α) : Option α :=
  if b.readIdx = b.writeIdx then none else some (b.callbacks (b.readIdx &&& (b.capacity - 1)))

/-- `consume`. -/
def consume (b : DynamicRingBuffer α) : Option (DynamicRingBuffer α) :=
  let idx := b.readIdx &&& (b.capacity - 1)
  (succ? b.readIdx).map fun readIdx => { b with executed := Function.update b.executed idx true, readIdx := readIdx }

/-- `reset`. -/
def reset (b : DynamicRingBuffer α) : DynamicRingBuffer α :=
  { b with executed := fill b.executed 0 b.capacity false, readIdx := 0, writeIdx := 0 }

/-- The loop of `traverse` over the indices `is`: the callbacks that are visited, up to one for which a visit
does not return 0. -/
def traverseFrom (b : DynamicRingBuffer α) (visit : α → ℤ) : List ℕ → ℤ × List α
  | [] => (0, [])
  | i :: is =>
    let idx := i &&& (b.capacity - 1)
    if b.executed idx then b.traverseFrom visit is
    else if visit (b.callbacks idx) ≠ 0 then (visit (b.callbacks idx), [b.callbacks idx])
    else
      let rest := b.traverseFrom visit is
      (rest.1, b.callbacks idx :: rest.2)

/-- `traverse`: what it returns, and the callbacks it visits. -/
def traverse (b : DynamicRingBuffer α) (visit : α → ℤ) : ℤ × List α :=
  b.traverseFrom visit (List.range' b.readIdx (b.writeIdx - b.readIdx))

/-- The operations of the queue. -/
inductive Op (α : Type*)
  | tryPush (callback : α)
  | push (callback : α)
  | pushOrGrow (callback : α) (memory : Memory α)
  | next
  | consume
  | count
  | reset

/-- One operation. -/
def step (b : DynamicRingBuffer α) : Op α → Option (Outcome α × DynamicRingBuffer α)
  | .tryPush callback => (b.tryPush callback).map fun p => (.pushed p.1, p.2)
  | .push callback => b.push callback
  | .pushOrGrow callback memory => b.pushOrGrow callback memory
  | .next => some (.callback b.next, b)
  | .consume => b.consume.map fun b => (.done, b)
  | .count => b.count.map fun n => (.count n, b)
  | .reset => some (.done, b.reset)

/-- The outcomes of some operations, and the buffer after them. -/
def run (b : DynamicRingBuffer α) : List (Op α) → Option (List (Outcome α) × DynamicRingBuffer α)
  | [] => some ([], b)
  | op :: ops => (b.step op).bind fun p => (p.2.run ops).map fun q => (p.1 :: q.1, q.2)

/-- A buffer of this capacity can be doubled. -/
def Grows (capacity : ℕ) (memory : Memory α) : Prop :=
  capacity ≤ (2 ^ 64 - 1) / 2 ∧ memory.callbacks.isSome ∧ memory.executed.isSome

instance (capacity : ℕ) (memory : Memory α) : Decidable (Grows capacity memory) :=
  inferInstanceAs (Decidable (_ ∧ _ ∧ _))

/-- How often a push is asked for. -/
def pushes (ops : List (Op α)) : ℕ :=
  ops.countP fun op => match op with
    | .tryPush _ | .push _ | .pushOrGrow _ _ => true
    | _ => false

end DynamicRingBuffer

/-! ### The queue -/

/-- The queue: what was pushed and not consumed, oldest first, and the room there is without growing. -/
structure Fifo (α : Type*) where
  entries : List α
  capacity : ℕ

namespace Fifo

open DynamicRingBuffer (Op Outcome Memory)

variable {α : Type*}

/-- One operation. -/
def step (q : Fifo α) : Op α → Outcome α × Fifo α
  | .tryPush callback =>
    if q.entries.length = q.capacity then (.pushed false, q)
    else (.pushed true, { q with entries := q.entries ++ [callback] })
  | .push callback =>
    if q.entries.length = q.capacity then (.ringBufferOverflow, q)
    else (.done, { q with entries := q.entries ++ [callback] })
  | .pushOrGrow callback memory =>
    if q.entries.length = q.capacity then
      if DynamicRingBuffer.Grows q.capacity memory then
        (.done, ⟨q.entries ++ [callback], q.capacity * 2⟩)
      else (.outOfMemory, q)
    else (.done, { q with entries := q.entries ++ [callback] })
  | .next => (.callback q.entries.head?, q)
  | .consume => (.done, { q with entries := q.entries.tail })
  | .count => (.count q.entries.length, q)
  | .reset => (.done, { q with entries := [] })

/-- The outcomes of some operations, and the queue after them. -/
def run (q : Fifo α) : List (Op α) → List (Outcome α) × Fifo α
  | [] => ([], q)
  | op :: ops =>
    let (outcome, q) := q.step op
    let (outcomes, q) := q.run ops
    (outcome :: outcomes, q)

/-- The callbacks that are visited, up to one for which a visit does not return 0, and what it returns. -/
def visit (f : α → ℤ) : List α → ℤ × List α
  | [] => (0, [])
  | callback :: rest =>
    if f callback ≠ 0 then (f callback, [callback]) else ((visit f rest).1, callback :: (visit f rest).2)

/-- `consume` is called while there is something to consume, and `reset` while there is nothing. -/
def Allowed (q : Fifo α) : Op α → Prop
  | .consume => q.entries ≠ []
  | .reset => q.entries = []
  | _ => True

instance (q : Fifo α) : (op : Op α) → Decidable (q.Allowed op)
  | .consume => inferInstanceAs (Decidable (q.entries ≠ []))
  | .reset => inferInstanceAs (Decidable (q.entries = []))
  | .tryPush _ | .push _ | .pushOrGrow _ _ | .next | .count => isTrue trivial

/-- Every operation is allowed when it is made. -/
def AllowedRun (q : Fifo α) : List (Op α) → Prop
  | [] => True
  | op :: ops => q.Allowed op ∧ (q.step op).2.AllowedRun ops

instance decidableAllowedRun (q : Fifo α) : (ops : List (Op α)) → Decidable (q.AllowedRun ops)
  | [] => isTrue trivial
  | op :: ops =>
    have : Decidable ((q.step op).2.AllowedRun ops) := decidableAllowedRun _ ops
    inferInstanceAs (Decidable (q.Allowed op ∧ (q.step op).2.AllowedRun ops))

end Fifo

namespace DynamicRingBuffer

variable {α β : Type*}

/-! ### The loops -/

theorem copy_apply (dst src : ℕ → β) (n : ℕ) (index : ℕ → ℕ) (i : ℕ) :
    copy dst src n index i = if i < n then src (index i) else dst i := by
  unfold copy
  induction n with
  | zero => simp
  | succ n ih =>
    rw [List.range_succ, List.foldl_append, List.foldl_cons, List.foldl_nil]
    by_cases hi : i = n
    · subst hi
      simp
    · rw [Function.update_of_ne hi, ih]
      have hiff : i < n + 1 ↔ i < n := by omega
      simp only [hiff]

theorem fill_apply (dst : ℕ → β) (start n : ℕ) (value : β) (i : ℕ) :
    fill dst start n value i = if start ≤ i ∧ i < start + n then value else dst i := by
  unfold fill
  induction n with
  | zero => simp
  | succ n ih =>
    rw [List.range'_1_concat, List.foldl_append, List.foldl_cons, List.foldl_nil]
    by_cases hi : i = start + n
    · subst hi
      simp
    · rw [Function.update_of_ne hi, ih]
      have hiff : start ≤ i ∧ i < start + (n + 1) ↔ start ≤ i ∧ i < start + n := by omega
      simp only [hiff]

/-! ### The arrays and the ring buffer -/

variable {b : DynamicRingBuffer α} {r : RingBuffer α} {callback : α} {memory : Memory α}

/-- The slots are those of this ring buffer, and no entry is marked as consumed. -/
structure Holds (b : DynamicRingBuffer α) (r : RingBuffer α) : Prop where
  callbacks : b.callbacks = r.slots
  capacity : b.capacity = r.capacity
  readIdx : b.readIdx = r.readIdx
  writeIdx : b.writeIdx = r.writeIdx
  live : ∀ i, r.readIdx ≤ i → i < r.writeIdx → b.executed (r.slotOf i) = false

theorem holds_init {capacity : ℕ} (h : init memory capacity = some b) :
    ∃ r : RingBuffer α, Holds b r ∧ r.contents = [] := by
  obtain ⟨cap, hcap, h⟩ := Option.bind_eq_some_iff.1 h
  obtain ⟨callbacks, -, h⟩ := Option.bind_eq_some_iff.1 h
  obtain ⟨executed, -, rfl⟩ := Option.map_eq_some_iff.1 h
  refine ⟨⟨callbacks, cap, 0, 0, (RingBuffer.ceilPowerOfTwo_eq_some hcap).1, le_rfl, Nat.zero_le _⟩, ?_, rfl⟩
  exact ⟨rfl, rfl, rfl, rfl, fun i _ hi => absurd hi (Nat.not_lt_zero i)⟩

theorem Holds.sub_eq (h : Holds b r) : sub? b.writeIdx b.readIdx = some r.count := by
  rw [h.writeIdx, h.readIdx, sub?, if_pos r.le]
  rfl

theorem Holds.count_eq (h : Holds b r) : b.count = some r.contents.length := by
  rw [r.length_contents]
  exact h.sub_eq

/-- The index of an entry is masked to its slot. -/
theorem Holds.slotOf (h : Holds b r) (i : ℕ) : i &&& (b.capacity - 1) = r.slotOf i := by
  rw [h.capacity]
  rfl

theorem Holds.tryPush_full (h : Holds b r) (hfull : r.count = r.capacity) :
    b.tryPush callback = some (false, b) := by
  rw [tryPush, h.sub_eq, Option.bind_some, if_pos (hfull.trans h.capacity.symm)]

theorem Holds.tryPush_room (h : Holds b r) (hroom : r.count ≠ r.capacity) (hlt : b.writeIdx + 1 < 2 ^ 64) :
    ∃ b', b.tryPush callback = some (true, b') ∧ Holds b' (r.write callback hroom) ∧
      b'.writeIdx = b.writeIdx + 1 := by
  have hne : r.count ≠ b.capacity := fun heq => hroom (heq.trans h.capacity)
  rw [tryPush, h.sub_eq, Option.bind_some, if_neg hne, succ?, if_pos hlt]
  refine ⟨_, rfl, ⟨?_, h.capacity, h.readIdx, ?_, fun i hle hi => ?_⟩, rfl⟩
  · dsimp only [RingBuffer.write]
    rw [h.slotOf, h.callbacks, h.writeIdx]
  · exact congrArg (· + 1) h.writeIdx
  · show Function.update b.executed (b.writeIdx &&& (b.capacity - 1)) false (r.slotOf i) = false
    rw [h.slotOf, h.writeIdx]
    have hi' : i < r.writeIdx + 1 := hi
    rcases Nat.lt_succ_iff_lt_or_eq.1 hi' with hlt | rfl
    · -- the slot of another entry
      have hroom' := r.room
      have hcount : r.writeIdx - r.readIdx ≠ r.capacity := hroom
      have hle' : r.readIdx ≤ i := hle
      rw [Function.update_of_ne (r.slotOf_ne hlt (by omega))]
      exact h.live i hle hlt
    · exact Function.update_self ..

theorem grow_none (hnot : ¬Grows b.capacity memory) (n : ℕ) : b.grow memory n = none := by
  unfold grow
  split
  · rfl
  · rename_i hcap
    cases hc : memory.callbacks with
    | none => rfl
    | some callbacks =>
      cases he : memory.executed with
      | none => rfl
      | some executed => exact absurd ⟨Nat.not_lt.1 hcap, by rw [hc]; rfl, by rw [he]; rfl⟩ hnot

/-- The live window goes to the front of the new slots, the callbacks as well as their flags. -/
theorem Holds.grow (h : Holds b r) (hgrows : Grows b.capacity memory) :
    ∃ b' r', b.grow memory r.count = some b' ∧ Holds b' r' ∧ r'.contents = r.contents ∧
      r'.capacity = r.capacity * 2 ∧ b'.writeIdx = r.count := by
  obtain ⟨hcap, hcallbacks, hexecuted⟩ := hgrows
  obtain ⟨callbacks, hcallbacks⟩ := Option.isSome_iff_exists.1 hcallbacks
  obtain ⟨executed, hexecuted⟩ := Option.isSome_iff_exists.1 hexecuted
  have hcap' : ¬r.capacity > (2 ^ 64 - 1) / 2 := by
    rw [← h.capacity]
    exact Nat.not_lt.2 hcap
  have hgrown : ∃ r', r.grow callbacks = some r' := by
    rw [RingBuffer.grow, if_neg hcap']
    exact ⟨_, rfl⟩
  obtain ⟨r', hr'⟩ := hgrown
  have hcontents := RingBuffer.grow_spec hr'
  rw [RingBuffer.grow, if_neg hcap', Option.some.injEq] at hr'
  rw [DynamicRingBuffer.grow, if_neg (Nat.not_lt.2 hcap), hcallbacks, hexecuted]
  have hroom := r.room
  refine ⟨_, r', rfl, ⟨?_, ?_, ?_, ?_, fun i _ hi => ?_⟩, hcontents, ?_, rfl⟩
  · funext i
    rw [← hr']
    dsimp only
    rw [copy_apply, h.callbacks, h.readIdx, h.slotOf]
  · rw [← hr', h.capacity]
  · rw [← hr']
  · rw [← hr']
  · have hi' : i < r.count := by
      rw [← hr'] at hi
      exact hi
    have hlt : i < b.capacity * 2 := by
      have hle : r.count ≤ r.capacity := by
        simp only [RingBuffer.count]
        omega
      rw [h.capacity]
      omega
    have hslot : r'.slotOf i = i := by
      rw [RingBuffer.slotOf_eq, ← hr']
      dsimp only
      rw [← h.capacity, Nat.mod_eq_of_lt hlt]
    have hnot : ¬(r.count ≤ i ∧ i < r.count + (b.capacity * 2 - r.count)) := by omega
    dsimp only
    rw [hslot, fill_apply, if_neg hnot, copy_apply, if_pos hi', h.readIdx, h.slotOf]
    refine h.live _ (Nat.le_add_right _ _) ?_
    simp only [RingBuffer.count] at hi'
    omega
  · rw [← hr']

theorem Holds.next_eq (h : Holds b r) : b.next = r.contents.head? := by
  rw [next, h.readIdx, h.writeIdx]
  split
  · rename_i hempty
    rw [RingBuffer.pop_eq_none.1 (dif_pos hempty)]
    rfl
  · rename_i hne
    have hpop : r.pop = some (r.slots (r.slotOf r.readIdx), r.consume hne) := dif_neg hne
    rw [RingBuffer.pop_spec hpop, h.slotOf, h.callbacks]
    rfl

/-- The slot that is marked as consumed is not that of an entry any more. -/
theorem Holds.consume (h : Holds b r) (hne : r.readIdx ≠ r.writeIdx) (hlt : b.writeIdx < 2 ^ 64) :
    ∃ b', b.consume = some b' ∧ Holds b' (r.consume hne) ∧ b'.writeIdx = b.writeIdx := by
  have hle := r.le
  have hroom := r.room
  have hsucc : succ? b.readIdx = some (b.readIdx + 1) := by
    refine if_pos ?_
    rw [h.writeIdx] at hlt
    rw [h.readIdx]
    omega
  rw [DynamicRingBuffer.consume, hsucc]
  refine ⟨_, rfl, ⟨h.callbacks, h.capacity, ?_, h.writeIdx, fun i hle' hi => ?_⟩, rfl⟩
  · exact congrArg (· + 1) h.readIdx
  · show Function.update b.executed (b.readIdx &&& (b.capacity - 1)) true (r.slotOf i) = false
    have hle'' : r.readIdx + 1 ≤ i := hle'
    have hi' : i < r.writeIdx := hi
    rw [h.slotOf, h.readIdx, Function.update_of_ne (r.slotOf_ne (by omega) (by omega)).symm]
    exact h.live i (by omega) hi

theorem Holds.reset (h : Holds b r) : Holds b.reset r.reset :=
  ⟨h.callbacks, h.capacity, rfl, rfl, fun i _ hi => absurd hi (Nat.not_lt_zero i)⟩

/-- `traverse` visits the entries. -/
theorem Holds.traverse_eq (h : Holds b r) (f : α → ℤ) : b.traverse f = Fifo.visit f r.contents := by
  have hloop : ∀ is : List ℕ, (∀ i ∈ is, r.readIdx ≤ i ∧ i < r.writeIdx) →
      b.traverseFrom f is = Fifo.visit f (is.map fun i => r.slots (r.slotOf i)) := by
    intro is his
    induction is with
    | nil => rfl
    | cons i is ih =>
      have hi := his i List.mem_cons_self
      have hlive : b.executed (r.slotOf i) = false := h.live i hi.1 hi.2
      have hrest := ih fun j hj => his j (List.mem_cons_of_mem i hj)
      rw [traverseFrom, h.slotOf, hlive, if_neg Bool.false_ne_true, h.callbacks, hrest]
      rfl
  rw [traverse, h.readIdx, h.writeIdx]
  refine hloop _ fun i hi => ?_
  have hle := r.le
  rw [List.mem_range'_1] at hi
  omega

/-! ### The queue -/

/-- The buffer stands for this queue. -/
def Refines (b : DynamicRingBuffer α) (q : Fifo α) : Prop :=
  ∃ r, Holds b r ∧ r.contents = q.entries ∧ b.capacity = q.capacity

variable {q : Fifo α}

theorem Refines.full_iff (h : Refines b q) : ∃ r, Holds b r ∧ r.contents = q.entries ∧ b.capacity = q.capacity ∧
    (r.count = r.capacity ↔ q.entries.length = q.capacity) := by
  obtain ⟨r, hr, hentries, hcap⟩ := h
  refine ⟨r, hr, hentries, hcap, ?_⟩
  rw [← hentries, r.length_contents, ← hcap, hr.capacity]

theorem Refines.tryPush_full (h : Refines b q) (hfull : q.entries.length = q.capacity) :
    b.tryPush callback = some (false, b) := by
  obtain ⟨r, hr, -, -, hiff⟩ := h.full_iff
  exact hr.tryPush_full (hiff.2 hfull)

theorem Refines.tryPush_room (h : Refines b q) (hroom : q.entries.length ≠ q.capacity)
    (hlt : b.writeIdx + 1 < 2 ^ 64) (callback : α) :
    ∃ b', b.tryPush callback = some (true, b') ∧ Refines b' { q with entries := q.entries ++ [callback] } ∧
      b'.writeIdx = b.writeIdx + 1 := by
  obtain ⟨r, hr, hentries, hcap, hiff⟩ := h.full_iff
  have hroom' : r.count ≠ r.capacity := fun heq => hroom (hiff.1 heq)
  obtain ⟨b', hpush, hr', hwrite⟩ := hr.tryPush_room hroom' hlt
  refine ⟨b', hpush, ⟨_, hr', ?_, ?_⟩, hwrite⟩
  · rw [r.contents_write, hentries]
  · rw [hr'.capacity, ← hcap, hr.capacity]
    rfl

/-- A full buffer is doubled and has room then. -/
theorem Refines.grow (h : Refines b q) (hgrows : Grows q.capacity memory) :
    ∃ b', b.count = some q.entries.length ∧ b.grow memory q.entries.length = some b' ∧
      Refines b' { q with capacity := q.capacity * 2 } ∧ b'.writeIdx = q.entries.length := by
  obtain ⟨r, hr, hentries, hcap⟩ := h
  have hcount : r.count = q.entries.length := by rw [← hentries, r.length_contents]
  obtain ⟨b', r', hgrow, hr', hcontents, hcap', hwrite⟩ := hr.grow (hcap.symm ▸ hgrows)
  rw [hcount] at hgrow hwrite
  refine ⟨b', ?_, hgrow, ⟨r', hr', hcontents.trans hentries, ?_⟩, hwrite⟩
  · rw [hr.count_eq, hentries]
  · rw [hr'.capacity, hcap', ← hr.capacity, hcap]

theorem Refines.length_le (h : Refines b q) : q.entries.length ≤ b.writeIdx ∧ q.entries.length ≤ b.capacity := by
  obtain ⟨r, hr, hentries, -⟩ := h
  have hle := r.le
  have hroom := r.room
  rw [← hentries, r.length_contents, hr.writeIdx, hr.capacity]
  simp only [RingBuffer.count]
  omega

theorem Refines.pushOrGrow_full (h : Refines b q) (hfull : q.entries.length = q.capacity)
    (hlt : b.writeIdx + 1 < 2 ^ 64) :
    ∃ b', b.pushOrGrow callback memory = some ((q.step (.pushOrGrow callback memory)).1, b') ∧
      Refines b' (q.step (.pushOrGrow callback memory)).2 ∧ b'.writeIdx ≤ b.writeIdx + 1 := by
  rw [pushOrGrow, h.tryPush_full hfull, Option.bind_some, if_neg Bool.false_ne_true]
  dsimp only [Fifo.step]
  rw [if_pos hfull]
  have hcount : b.count = some q.entries.length := by
    obtain ⟨r, hr, hentries, -⟩ := h
    rw [hr.count_eq, hentries]
  rw [hcount, Option.bind_some]
  have hcap : b.capacity = q.capacity := h.choose_spec.2.2
  by_cases hgrows : Grows q.capacity memory
  · obtain ⟨grown, -, hgrow, hrefines, hwrite⟩ := h.grow hgrows
    have hle := h.length_le.1
    -- a buffer of twice the capacity has room
    have hroom : q.entries.length ≠ q.capacity * 2 := by
      obtain ⟨r, hr, -, hcap'⟩ := hrefines
      have hpos := r.capacity_pos
      rw [← hr.capacity, hcap'] at hpos
      dsimp only at hpos
      omega
    obtain ⟨b', hpush, hrefines', hwrite'⟩ := hrefines.tryPush_room hroom (by omega) callback
    rw [hgrow, if_pos hgrows]
    dsimp only
    rw [push, hpush]
    exact ⟨b', rfl, hrefines', by omega⟩
  · rw [grow_none (hcap.symm ▸ hgrows), if_neg hgrows]
    exact ⟨b, rfl, h, Nat.le_succ _⟩

/-- Every allowed operation on the buffer is that of the queue. -/
theorem Refines.step (h : Refines b q) {op : Op α} (hop : q.Allowed op) (hlt : b.writeIdx + pushes [op] < 2 ^ 64) :
    ∃ b', b.step op = some ((q.step op).1, b') ∧ Refines b' (q.step op).2 ∧
      b'.writeIdx ≤ b.writeIdx + pushes [op] := by
  cases op with
  | tryPush callback =>
    have hlt' : b.writeIdx + 1 < 2 ^ 64 := hlt
    dsimp only [DynamicRingBuffer.step, Fifo.step]
    by_cases hfull : q.entries.length = q.capacity
    · rw [h.tryPush_full hfull, if_pos hfull]
      exact ⟨b, rfl, h, Nat.le_add_right _ _⟩
    · obtain ⟨b', hpush, hrefines, hwrite⟩ := h.tryPush_room hfull hlt' callback
      rw [hpush, if_neg hfull]
      exact ⟨b', rfl, hrefines, hwrite.le⟩
  | push callback =>
    have hlt' : b.writeIdx + 1 < 2 ^ 64 := hlt
    dsimp only [DynamicRingBuffer.step, Fifo.step, DynamicRingBuffer.push]
    by_cases hfull : q.entries.length = q.capacity
    · rw [h.tryPush_full hfull, if_pos hfull]
      exact ⟨b, rfl, h, Nat.le_add_right _ _⟩
    · obtain ⟨b', hpush, hrefines, hwrite⟩ := h.tryPush_room hfull hlt' callback
      rw [hpush, if_neg hfull]
      exact ⟨b', rfl, hrefines, hwrite.le⟩
  | pushOrGrow callback memory =>
    have hlt' : b.writeIdx + 1 < 2 ^ 64 := hlt
    by_cases hfull : q.entries.length = q.capacity
    · exact h.pushOrGrow_full hfull hlt'
    · obtain ⟨b', hpush, hrefines, hwrite⟩ := h.tryPush_room hfull hlt' callback
      dsimp only [DynamicRingBuffer.step, Fifo.step]
      rw [pushOrGrow, hpush, if_neg hfull]
      exact ⟨b', rfl, hrefines, hwrite.le⟩
  | next =>
    obtain ⟨r, hr, hentries, -⟩ := id h
    dsimp only [DynamicRingBuffer.step, Fifo.step]
    rw [hr.next_eq, hentries]
    exact ⟨b, rfl, h, Nat.le_add_right _ _⟩
  | consume =>
    have hop : q.entries ≠ [] := hop
    have hlt' : b.writeIdx < 2 ^ 64 := hlt
    obtain ⟨r, hr, hentries, hcap⟩ := id h
    have hne : r.readIdx ≠ r.writeIdx := by
      intro hempty
      exact hop (hentries ▸ RingBuffer.pop_eq_none.1 (dif_pos hempty))
    obtain ⟨b', hconsume, hr', hwrite⟩ := hr.consume hne hlt'
    have hpop : r.pop = some (r.slots (r.slotOf r.readIdx), r.consume hne) := dif_neg hne
    dsimp only [DynamicRingBuffer.step, Fifo.step]
    rw [hconsume]
    refine ⟨b', rfl, ⟨_, hr', ?_, ?_⟩, hwrite.le⟩
    · rw [← hentries, RingBuffer.pop_spec hpop]
      rfl
    · rw [hr'.capacity, ← hcap, hr.capacity]
      rfl
  | count =>
    obtain ⟨r, hr, hentries, -⟩ := id h
    dsimp only [DynamicRingBuffer.step, Fifo.step]
    rw [hr.count_eq, hentries]
    exact ⟨b, rfl, h, Nat.le_add_right _ _⟩
  | reset =>
    obtain ⟨r, hr, -, hcap⟩ := h
    exact ⟨b.reset, rfl, ⟨_, hr.reset, r.contents_reset, hcap⟩, Nat.zero_le _⟩

theorem pushes_cons (op : Op α) (ops : List (Op α)) : pushes (op :: ops) = pushes [op] + pushes ops := by
  rw [pushes, pushes, pushes, ← List.countP_append]
  rfl

theorem Refines.run (h : Refines b q) {ops : List (Op α)} (hops : q.AllowedRun ops)
    (hlt : b.writeIdx + pushes ops < 2 ^ 64) :
    ∃ b', b.run ops = some ((q.run ops).1, b') ∧ Refines b' (q.run ops).2 := by
  induction ops generalizing b q with
  | nil => exact ⟨b, rfl, h⟩
  | cons op ops ih =>
    rw [pushes_cons] at hlt
    obtain ⟨b₁, hstep, hrefines, hwrite⟩ := h.step hops.1 (by omega)
    obtain ⟨b₂, hrun, hrefines'⟩ := ih hrefines hops.2 (by omega)
    refine ⟨b₂, ?_, hrefines'⟩
    rw [DynamicRingBuffer.run, hstep, Option.bind_some, hrun]
    rfl

/-- What a buffer that stands for a queue is like: the window of unconsumed slots holds its entries, none of them
marked as consumed, `traverse` visits these and no others, and an operation that fails changes nothing. -/
structure Sound (b : DynamicRingBuffer α) (q : Fifo α) : Prop where
  pow : ∃ k, b.capacity = 2 ^ k
  capacity : b.capacity = q.capacity
  room : q.entries.length ≤ b.capacity
  window : b.writeIdx = b.readIdx + q.entries.length
  slots : ∀ i, ∀ _ : i < q.entries.length, q.entries[i]? = some (b.callbacks ((b.readIdx + i) &&& (b.capacity - 1)))
  live : ∀ i < q.entries.length, b.executed ((b.readIdx + i) &&& (b.capacity - 1)) = false
  traverse : ∀ f, b.traverse f = Fifo.visit f q.entries
  failed : ∀ op (outcome : Outcome α) b', outcome.Failed → b.step op = some (outcome, b') → b' = b

/-- `try_push` refuses only when the buffer is full, and leaves it as it is. -/
theorem Refines.tryPush_false (h : Refines b q) {b' : DynamicRingBuffer α}
    (hpush : b.tryPush callback = some (false, b')) : q.entries.length = q.capacity ∧ b' = b := by
  by_cases hfull : q.entries.length = q.capacity
  · rw [h.tryPush_full hfull] at hpush
    exact ⟨hfull, (Prod.mk.inj (Option.some.inj hpush)).2.symm⟩
  · obtain ⟨r, hr, -, -, hiff⟩ := h.full_iff
    have hne : r.count ≠ b.capacity := fun heq => hfull (hiff.1 (heq.trans hr.capacity))
    rw [tryPush, hr.sub_eq, Option.bind_some, if_neg hne] at hpush
    obtain ⟨writeIdx, -, hpush⟩ := Option.map_eq_some_iff.1 hpush
    exact nomatch (Prod.mk.inj hpush).1

/-- A push that fails changes nothing. -/
theorem Refines.push_failed (h : Refines b q) {b' : DynamicRingBuffer α} {outcome : Outcome α}
    (hpush : b.push callback = some (outcome, b')) (houtcome : outcome ≠ .done) :
    q.entries.length = q.capacity ∧ b' = b := by
  obtain ⟨⟨ok, b₁⟩, htry, hresult⟩ := Option.map_eq_some_iff.1 hpush
  cases ok with
  | false =>
    obtain ⟨hfull, rfl⟩ := h.tryPush_false htry
    rw [if_neg Bool.false_ne_true] at hresult
    exact ⟨hfull, (Prod.mk.inj hresult).2.symm⟩
  | true =>
    rw [if_pos rfl] at hresult
    exact absurd (Prod.mk.inj hresult).1.symm houtcome

theorem Refines.pushOrGrow_failed (h : Refines b q) {b' : DynamicRingBuffer α} {outcome : Outcome α}
    (hpush : b.pushOrGrow callback memory = some (outcome, b')) (houtcome : outcome ≠ .done) : b' = b := by
  obtain ⟨⟨ok, b₁⟩, htry, hpush⟩ := Option.bind_eq_some_iff.1 hpush
  cases ok with
  | true =>
    rw [if_pos rfl, Option.some.injEq] at hpush
    exact absurd (Prod.mk.inj hpush).1.symm houtcome
  | false =>
    rw [if_neg Bool.false_ne_true] at hpush
    have hcount : b.count = some q.entries.length := by
      obtain ⟨r, hr, hentries, -⟩ := h
      rw [hr.count_eq, hentries]
    rw [hcount, Option.bind_some] at hpush
    cases hgrow : b.grow memory q.entries.length with
    | none =>
      rw [hgrow, Option.some.injEq] at hpush
      exact (Prod.mk.inj hpush).2.symm
    | some grown =>
      rw [hgrow] at hpush
      -- the doubled buffer is not full
      have hcap : b.capacity = q.capacity := h.choose_spec.2.2
      have hgrows : Grows q.capacity memory := by
        by_contra hnot
        rw [grow_none (hcap.symm ▸ hnot)] at hgrow
        exact nomatch hgrow
      obtain ⟨grown', -, hgrow', hrefines, -⟩ := h.grow hgrows
      rw [hgrow, Option.some.injEq] at hgrow'
      subst hgrow'
      have hfull := (hrefines.push_failed hpush houtcome).1
      have hroom := (h.tryPush_false htry).1
      obtain ⟨r, hr, -, hcap'⟩ := hrefines
      have hpos := r.capacity_pos
      rw [← hr.capacity, hcap'] at hpos
      dsimp only at hpos hfull
      omega

theorem Refines.failed (h : Refines b q) {op : Op α} {outcome : Outcome α} {b' : DynamicRingBuffer α}
    (houtcome : outcome.Failed) (hstep : b.step op = some (outcome, b')) : b' = b := by
  have hdone : outcome ≠ .done := by
    rintro rfl
    exact houtcome
  cases op with
  | tryPush callback =>
    obtain ⟨⟨ok, b₁⟩, htry, hstep⟩ := Option.map_eq_some_iff.1 hstep
    obtain ⟨rfl, rfl⟩ := Prod.mk.inj hstep
    cases ok with
    | true => exact houtcome.elim
    | false => exact (h.tryPush_false htry).2
  | push callback => exact (h.push_failed hstep hdone).2
  | pushOrGrow callback memory => exact h.pushOrGrow_failed hstep hdone
  | next | reset =>
    obtain ⟨rfl, -⟩ := Prod.mk.inj (Option.some.inj hstep)
    exact houtcome.elim
  | consume | count =>
    obtain ⟨_, -, hstep⟩ := Option.map_eq_some_iff.1 hstep
    obtain ⟨rfl, -⟩ := Prod.mk.inj hstep
    exact houtcome.elim

theorem Refines.sound (h : Refines b q) : Sound b q := by
  obtain ⟨r, hr, hentries, hcap⟩ := id h
  have hle := r.le
  have hlen : q.entries.length = r.count := by rw [← hentries, r.length_contents]
  have hcount : r.count = r.writeIdx - r.readIdx := rfl
  refine ⟨hr.capacity ▸ r.pow, hcap, h.length_le.2, ?_, fun i hi => ?_, fun i hi => ?_, fun f => ?_,
    fun _ _ _ => h.failed⟩
  · rw [hr.writeIdx, hr.readIdx, hlen]
    omega
  · rw [hr.slotOf, hr.readIdx, hr.callbacks, ← hentries, RingBuffer.contents, List.getElem?_map,
      List.getElem?_range' (hlen ▸ hi)]
    simp
  · rw [hr.slotOf, hr.readIdx]
    exact hr.live _ (Nat.le_add_right _ _) (by omega)
  · rw [hr.traverse_eq, hentries]

/-- **The buffer is a queue.** From `init` with any capacity, every allowed run of fewer than `2 ^ 64` pushes
returns what the queue returns and leaves a buffer that stands for the queue. -/
theorem buffer_is_queue {capacity : ℕ} (hinit : init memory capacity = some b) (ops : List (Op α))
    (hops : (⟨[], b.capacity⟩ : Fifo α).AllowedRun ops) (hpushes : pushes ops < 2 ^ 64) :
    ∃ b', b.run ops = some (((⟨[], b.capacity⟩ : Fifo α).run ops).1, b') ∧
      Sound b' ((⟨[], b.capacity⟩ : Fifo α).run ops).2 := by
  obtain ⟨r, hr, hempty⟩ := holds_init hinit
  have hrefines : Refines b ⟨[], b.capacity⟩ := ⟨r, hr, hempty, rfl⟩
  have hwrite : b.writeIdx = 0 := by
    obtain ⟨cap, -, hinit⟩ := Option.bind_eq_some_iff.1 hinit
    obtain ⟨callbacks, -, hinit⟩ := Option.bind_eq_some_iff.1 hinit
    obtain ⟨executed, -, rfl⟩ := Option.map_eq_some_iff.1 hinit
    rfl
  obtain ⟨b', hrun, hrefines'⟩ := hrefines.run hops (by omega)
  exact ⟨b', hrun, hrefines'.sound⟩

/-- A buffer of two slots is grown while its window is wrapped around the end. -/
theorem buffer_is_queue_wrapped :
    ∃ b : DynamicRingBuffer ℕ, init ⟨some fun _ => 0, some fun _ => true⟩ 2 = some b ∧
      (b.run [.tryPush 1, .push 2, .next, .consume, .tryPush 3, .tryPush 4,
        .pushOrGrow 4 ⟨none, some fun _ => true⟩, .pushOrGrow 4 ⟨some fun _ => 0, some fun _ => true⟩,
        .next, .consume, .next, .count]).map Prod.fst =
      some [.pushed true, .done, .callback (some 1), .done, .pushed true, .pushed false, .outOfMemory, .done,
        .callback (some 2), .done, .callback (some 3), .count 2] := by
  refine ⟨_, rfl, ?_⟩
  obtain ⟨b', hrun, -⟩ := buffer_is_queue
    (show init (⟨some fun _ => 0, some fun _ => true⟩ : Memory ℕ) 2 = some _ from rfl)
    [.tryPush 1, .push 2, .next, .consume, .tryPush 3, .tryPush 4,
      .pushOrGrow 4 ⟨none, some fun _ => true⟩, .pushOrGrow 4 ⟨some fun _ => 0, some fun _ => true⟩,
      .next, .consume, .next, .count] (by decide) (by decide)
  rw [hrun]
  rfl

/-- Callbacks are pushed and consumed until the indices are as large as they can be, and then one more push. -/
theorem run_cycles (m : ℕ) (b : DynamicRingBuffer ℕ) (hcap : b.capacity = 1) (hempty : b.readIdx = b.writeIdx)
    (hm : b.writeIdx + m = 2 ^ 64 - 1) :
    b.run ((List.replicate m [Op.tryPush 0, Op.consume]).flatten ++ [.tryPush 0]) = none := by
  have hsub : sub? b.writeIdx b.readIdx = some 0 := by
    rw [hempty, sub?, if_pos le_rfl, Nat.sub_self]
  have hne : (0 : ℕ) ≠ b.capacity := by omega
  induction m generalizing b with
  | zero =>
    have hover : succ? b.writeIdx = none := if_neg (by omega)
    rw [List.replicate_zero, List.flatten_nil, List.nil_append, DynamicRingBuffer.run, DynamicRingBuffer.step,
      tryPush, hsub, Option.bind_some, if_neg hne, hover]
    rfl
  | succ m ih =>
    have hwrite : succ? b.writeIdx = some (b.writeIdx + 1) := if_pos (by omega)
    have hread : succ? b.readIdx = some (b.readIdx + 1) := hempty ▸ hwrite
    have hpush : b.step (.tryPush 0) = some (.pushed true, { b with
        callbacks := Function.update b.callbacks (b.writeIdx &&& (b.capacity - 1)) 0
        executed := Function.update b.executed (b.writeIdx &&& (b.capacity - 1)) false
        writeIdx := b.writeIdx + 1 }) := by
      rw [DynamicRingBuffer.step, tryPush, hsub, Option.bind_some, if_neg hne, hwrite]
      rfl
    rw [List.replicate_succ, List.flatten_cons, List.append_assoc, List.cons_append, List.cons_append,
      List.nil_append, DynamicRingBuffer.run, hpush, Option.bind_some, DynamicRingBuffer.run,
      DynamicRingBuffer.step, DynamicRingBuffer.consume]
    dsimp only
    rw [hread, Option.map_some, Option.map_some, Option.bind_some, ih]
    · rfl
    · exact hcap
    · exact congrArg (· + 1) hempty
    · dsimp only
      omega
    · dsimp only
      rw [hempty, sub?, if_pos le_rfl, Nat.sub_self]
    · exact hne

/-- `consume` on an empty buffer makes `next` return what was never pushed; and the index of the pushes has an end. -/
theorem consumed_empty :
    (∃ b b' : DynamicRingBuffer ℕ, init ⟨some fun _ => 7, some fun _ => true⟩ 1 = some b ∧
      b.run [.consume, .next] = some ([.done, .callback (some 7)], b')) ∧
    ∃ b : DynamicRingBuffer ℕ, init ⟨some fun _ => 7, some fun _ => true⟩ 1 = some b ∧
      b.run ((List.replicate (2 ^ 64 - 1) [Op.tryPush 0, Op.consume]).flatten ++ [.tryPush 0]) = none := by
  refine ⟨⟨_, _, rfl, rfl⟩, _, rfl, ?_⟩
  exact run_cycles _ _ rfl rfl (Nat.zero_add _)

end DynamicRingBuffer

end Talyn
