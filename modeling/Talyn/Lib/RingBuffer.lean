import Mathlib.Tactic
import Mathlib.Data.Nat.Size

/-!
# Ring buffers that double when they are full

A buffer of `capacity` slots, a power of two, with two indices that only ever grow: `writeIdx`
counts the pushes, `readIdx` the reads, and the slot of an index is its residue, computed as
`idx &&& (capacity - 1)`. A push into a full buffer copies the live entries, oldest first, into a
buffer of twice the capacity. What a buffer holds is the list `contents`, and every operation is
described by what it does to that list.
-/

namespace RingBuffer

/-! ### Rounding a capacity up to a power of two -/

/-- Or a word with its own shifts by `1, 2, 4, 8, 16, 32`: every bit below the highest is set. -/
def smear (x : ℕ) : ℕ :=
  let x := x ||| x >>> 1
  let x := x ||| x >>> 2
  let x := x ||| x >>> 4
  let x := x ||| x >>> 8
  let x := x ||| x >>> 16
  x ||| x >>> 32

/-- The least power of two that is at least `val`, if it fits in a 64-bit word. -/
def ceilPowerOfTwo (val : ℕ) : Option ℕ :=
  if val ≤ 1 then some 1
  else if 2 ^ 63 < val then none
  else some (smear (val - 1) + 1)

/-- One round: if bit `i` of `y` collects the bits `i, …, i + k - 1` of `x`, one more shift by `k`
collects twice as many. -/
theorem testBit_or_shiftRight {x y k : ℕ}
    (h : ∀ i, y.testBit i = true ↔ ∃ j < k, x.testBit (i + j) = true) (i : ℕ) :
    (y ||| y >>> k).testBit i = true ↔ ∃ j < k + k, x.testBit (i + j) = true := by
  rw [Nat.testBit_or, Bool.or_eq_true, Nat.testBit_shiftRight, h, h]
  constructor
  · rintro (⟨j, hj, hx⟩ | ⟨j, hj, hx⟩)
    · exact ⟨j, by omega, hx⟩
    · exact ⟨k + j, by omega, by rwa [show i + (k + j) = k + i + j by omega]⟩
  · rintro ⟨j, hj, hx⟩
    rcases Nat.lt_or_ge j k with hlt | hge
    · exact .inl ⟨j, hlt, hx⟩
    · exact .inr ⟨j - k, by omega, by rwa [show k + i + (j - k) = i + j by omega]⟩

theorem testBit_smear (x i : ℕ) :
    (smear x).testBit i = true ↔ ∃ j < 64, x.testBit (i + j) = true := by
  have h1 : ∀ i, x.testBit i = true ↔ ∃ j < 1, x.testBit (i + j) = true := by
    intro i
    constructor
    · exact fun h => ⟨0, by omega, h⟩
    · rintro ⟨j, hj, h⟩
      obtain rfl : j = 0 := by omega
      exact h
  have h2 := testBit_or_shiftRight h1
  have h4 := testBit_or_shiftRight h2
  have h8 := testBit_or_shiftRight h4
  have h16 := testBit_or_shiftRight h8
  have h32 := testBit_or_shiftRight h16
  exact testBit_or_shiftRight h32 i

/-- Smearing a 64-bit word gives the mask that covers it. -/
theorem smear_eq {x : ℕ} (hx : x < 2 ^ 64) : smear x = 2 ^ x.size - 1 := by
  refine Nat.eq_of_testBit_eq fun i => ?_
  rw [Bool.eq_iff_iff, testBit_smear, Nat.testBit_two_pow_sub_one, decide_eq_true_iff]
  constructor
  · rintro ⟨j, -, hbit⟩
    have hle : 2 ^ (i + j) ≤ x := Nat.ge_two_pow_of_testBit hbit
    have := Nat.lt_size.2 hle
    omega
  · intro hi
    obtain ⟨m, hm, hbit⟩ := Nat.exists_ge_and_testBit_of_ge_two_pow (Nat.lt_size.1 hi)
    have hle : 2 ^ m ≤ x := Nat.ge_two_pow_of_testBit hbit
    have hm64 : m < 64 := (Nat.pow_lt_pow_iff_right (by omega)).1 (hle.trans_lt hx)
    exact ⟨m - i, by omega, by rwa [show i + (m - i) = m by omega]⟩

/-- An accepted capacity is a power of two and holds what was asked for. -/
theorem ceilPowerOfTwo_eq_some {val cap : ℕ} (h : ceilPowerOfTwo val = some cap) :
    (∃ k, cap = 2 ^ k) ∧ val ≤ cap := by
  unfold ceilPowerOfTwo at h
  split at h
  · obtain rfl := Option.some.inj h
    exact ⟨⟨0, rfl⟩, ‹_›⟩
  · split at h
    · exact nomatch h
    · rename_i hbig
      obtain rfl := Option.some.inj h
      have hlt : val - 1 < 2 ^ 64 := by
        have : (2 : ℕ) ^ 63 < 2 ^ 64 := by norm_num
        omega
      have hpos := Nat.one_le_two_pow (n := (val - 1).size)
      have hsize := Nat.lt_size_self (val - 1)
      rw [smear_eq hlt, Nat.sub_add_cancel hpos]
      exact ⟨⟨_, rfl⟩, by omega⟩

end RingBuffer

/-! ### The buffer -/

/-- A ring buffer; the fields below the data say what every reachable buffer satisfies. -/
structure RingBuffer (α : Type*) where
  slots : ℕ → α
  capacity : ℕ
  readIdx : ℕ
  writeIdx : ℕ
  pow : ∃ k, capacity = 2 ^ k
  le : readIdx ≤ writeIdx
  room : writeIdx ≤ readIdx + capacity

namespace RingBuffer

variable {α : Type*}

theorem capacity_pos (b : RingBuffer α) : 0 < b.capacity := by
  obtain ⟨k, hk⟩ := b.pow
  rw [hk]
  exact Nat.two_pow_pos k

/-- The slot an index falls into. -/
def slotOf (b : RingBuffer α) (idx : ℕ) : ℕ := idx &&& (b.capacity - 1)

/-- Masking with `capacity - 1` is taking the residue. -/
theorem slotOf_eq (b : RingBuffer α) (idx : ℕ) : b.slotOf idx = idx % b.capacity := by
  obtain ⟨k, hk⟩ := b.pow
  rw [slotOf, hk, Nat.and_two_pow_sub_one_eq_mod]

/-- Indices less than a capacity apart fall into different slots. -/
theorem slotOf_ne (b : RingBuffer α) {i j : ℕ} (hij : i < j) (hj : j < i + b.capacity) :
    b.slotOf i ≠ b.slotOf j := by
  rw [slotOf_eq, slotOf_eq]
  intro h
  have hdvd : b.capacity ∣ j - i := (Nat.modEq_iff_dvd' hij.le).1 h
  have := Nat.le_of_dvd (by omega) hdvd
  omega

def count (b : RingBuffer α) : ℕ := b.writeIdx - b.readIdx

/-- The entries of the buffer, oldest first. -/
def contents (b : RingBuffer α) : List α :=
  (List.range' b.readIdx b.count).map fun i => b.slots (b.slotOf i)

@[simp] theorem length_contents (b : RingBuffer α) : b.contents.length = b.count := by
  simp [contents]

/-- Allocate a buffer for `capacity` entries; `fresh` is what the allocated memory holds. -/
def init (fresh : ℕ → α) (capacity : ℕ) : Option (RingBuffer α) :=
  match h : ceilPowerOfTwo capacity with
  | none => none
  | some cap => some
    { slots := fresh
      capacity := cap
      readIdx := 0
      writeIdx := 0
      pow := (ceilPowerOfTwo_eq_some h).1
      le := le_rfl
      room := Nat.zero_le _ }

theorem contents_init {fresh : ℕ → α} {capacity : ℕ} {b : RingBuffer α}
    (h : init fresh capacity = some b) : b.contents = [] := by
  unfold init at h
  split at h
  · exact nomatch h
  · obtain rfl := Option.some.inj h
    rfl

/-- Write one entry behind the newest; the caller has checked that there is room. -/
def write (b : RingBuffer α) (a : α) (h : b.count ≠ b.capacity) : RingBuffer α where
  slots := Function.update b.slots (b.slotOf b.writeIdx) a
  capacity := b.capacity
  readIdx := b.readIdx
  writeIdx := b.writeIdx + 1
  pow := b.pow
  le := Nat.le_succ_of_le b.le
  room := by
    have hle := b.le
    have hroom := b.room
    simp only [count] at h
    omega

/-- `try_push`: refuse when the buffer is full. -/
def tryPush (b : RingBuffer α) (a : α) : Option (RingBuffer α) :=
  if h : b.count = b.capacity then none else some (b.write a h)

theorem contents_write (b : RingBuffer α) (a : α) (h : b.count ≠ b.capacity) :
    (b.write a h).contents = b.contents ++ [a] := by
  have hle := b.le
  have hroom := b.room
  have hcount : (b.write a h).count = b.count + 1 := by
    simp only [count, write]
    omega
  have hlast : b.readIdx + b.count = b.writeIdx := by
    simp only [count]
    omega
  rw [contents, hcount, List.range'_1_concat, List.map_append, contents]
  congr 1
  · -- the entries already there lie in other slots than the new one
    refine List.map_congr_left fun i hi => ?_
    rw [List.mem_range'_1] at hi
    have hne : b.slotOf i ≠ b.slotOf b.writeIdx := by
      refine b.slotOf_ne ?_ ?_
      · have : i < b.readIdx + b.count := hi.2
        omega
      · have hi1 : b.readIdx ≤ i := hi.1
        simp only [count] at h
        omega
    exact Function.update_of_ne hne a b.slots
  · show [Function.update b.slots (b.slotOf b.writeIdx) a (b.slotOf (b.readIdx + b.count))] = [a]
    rw [hlast, Function.update_self]

/-- `grow`: double the capacity, copying the live entries to the front of the new slots. -/
def grow (b : RingBuffer α) (fresh : ℕ → α) : Option (RingBuffer α) :=
  if b.capacity > (2 ^ 64 - 1) / 2 then none
  else some
    { slots := fun i => if i < b.count then b.slots (b.slotOf (b.readIdx + i)) else fresh i
      capacity := b.capacity * 2
      readIdx := 0
      writeIdx := b.count
      pow := by
        obtain ⟨k, hk⟩ := b.pow
        exact ⟨k + 1, by rw [hk, pow_succ]⟩
      le := Nat.zero_le _
      room := by
        have hroom := b.room
        simp only [count]
        omega }

theorem grow_spec {b c : RingBuffer α} {fresh : ℕ → α} (h : b.grow fresh = some c) :
    c.contents = b.contents := by
  unfold grow at h
  split at h
  · exact nomatch h
  · obtain rfl := Option.some.inj h
    have hroom := b.room
    have hle := b.le
    refine List.ext_getElem (by simp [count]) fun i hi _ => ?_
    have hi' : i < b.count := by simpa [count] using hi
    have hcap : i < b.capacity * 2 := by
      simp only [count] at hi'
      omega
    simp [contents, slotOf_eq, Nat.mod_eq_of_lt hcap, hi']

/-- `push_or_grow`: push, doubling a full buffer first. `fresh` is the outcome of the allocation the
doubling asks for: the new memory, or `none` when it fails. -/
def pushOrGrow (b : RingBuffer α) (a : α) (fresh : Option (ℕ → α)) : Option (RingBuffer α) :=
  match b.tryPush a with
  | some c => some c
  | none => fresh.bind fun f => (b.grow f).bind fun c => c.tryPush a

theorem tryPush_spec {b c : RingBuffer α} {a : α} (h : b.tryPush a = some c) :
    c.contents = b.contents ++ [a] := by
  unfold tryPush at h
  split at h
  · exact nomatch h
  · obtain rfl := Option.some.inj h
    exact b.contents_write a _

/-- A successful push appends, whether or not the buffer had to be doubled. -/
theorem pushOrGrow_spec {b c : RingBuffer α} {a : α} {fresh : Option (ℕ → α)}
    (h : b.pushOrGrow a fresh = some c) : c.contents = b.contents ++ [a] := by
  unfold pushOrGrow at h
  split at h
  · rename_i d hd
    obtain rfl := Option.some.inj h
    exact tryPush_spec hd
  · obtain ⟨f, -, h⟩ := Option.bind_eq_some_iff.1 h
    obtain ⟨d, hd, h⟩ := Option.bind_eq_some_iff.1 h
    rw [tryPush_spec h, grow_spec hd]

/-- `consume`: step over the oldest entry, which `next` has returned. -/
def consume (b : RingBuffer α) (h : b.readIdx ≠ b.writeIdx) : RingBuffer α where
  slots := b.slots
  capacity := b.capacity
  readIdx := b.readIdx + 1
  writeIdx := b.writeIdx
  pow := b.pow
  le := by
    have hle := b.le
    omega
  room := by
    have hroom := b.room
    omega

/-- One turn of `while (next()) |cb| { consume(); … }`: the oldest entry and the buffer without
it. -/
def pop (b : RingBuffer α) : Option (α × RingBuffer α) :=
  if h : b.readIdx = b.writeIdx then none
  else some (b.slots (b.slotOf b.readIdx), b.consume h)

theorem pop_eq_none {b : RingBuffer α} : b.pop = none ↔ b.contents = [] := by
  have hle := b.le
  rw [← List.length_eq_zero_iff, length_contents, count, pop]
  split <;> simp <;> omega

/-- What is taken out is the head of the contents, what stays is their tail. -/
theorem pop_spec {b c : RingBuffer α} {a : α} (h : b.pop = some (a, c)) :
    b.contents = a :: c.contents := by
  have hle := b.le
  unfold pop at h
  split at h
  · exact nomatch h
  · rename_i hne
    obtain ⟨rfl, rfl⟩ := Prod.mk.inj (Option.some.inj h)
    have hcount : b.count = (b.consume hne).count + 1 := by
      simp only [count, consume]
      omega
    rw [contents, hcount, List.range'_succ, List.map_cons]
    rfl

/-- `reset`: both indices back to zero. -/
def reset (b : RingBuffer α) : RingBuffer α where
  slots := b.slots
  capacity := b.capacity
  readIdx := 0
  writeIdx := 0
  pow := b.pow
  le := le_rfl
  room := Nat.zero_le _

@[simp] theorem contents_reset (b : RingBuffer α) : b.reset.contents = [] := rfl

end RingBuffer
