import Talyn.Future.Basic
import Talyn.Lib.Runs

/-!
# `InlineQueue` and the list it stands for

`append` promotes a full inline buffer to the heap without clearing `inline_len`. As long as there is
something on the heap the queue is a list; once the heap is drained the entries of the inline buffer are there
again, and the next promotion overwrites the heap with its storage.
-/

namespace Talyn

/-- An `InlineQueue` with the storage of its heap, beside the list it stands for. -/
structure StoredQueue (α : Type*) (n : ℕ) where
  queue : InlineQueue α n
  /-- `heap` has storage, in use or not -/
  storage : Bool
  /-- how often storage was overwritten -/
  lost : ℕ
  /-- the values `pop` has returned -/
  popped : List α
  /-- what was appended and not popped -/
  entries : List α
  /-- what was taken from the end of that list -/
  taken : List α

namespace StoredQueue

variable {α : Type*} {n : ℕ}

/-- `empty`. -/
def empty : StoredQueue α n := ⟨.empty, false, 0, [], [], []⟩

/-- `append` promotes the inline buffer. -/
def Promotes (s : StoredQueue α n) : Prop := s.queue.heap.length = 0 ∧ ¬s.queue.inlineBuf.length < n

instance (s : StoredQueue α n) : Decidable s.Promotes := inferInstanceAs (Decidable (_ ∧ _))

/-- `append`, with whether there is memory if it needs some; `errdefer` leaves the queue alone. -/
def append (s : StoredQueue α n) (value : α) (allocated : Bool) : StoredQueue α n :=
  match s.queue.append value allocated with
  | none => s
  | some queue =>
    { s with
      queue := queue
      storage := s.storage || decide s.Promotes
      lost := s.lost + if s.Promotes ∧ s.storage then 1 else 0
      entries := s.entries ++ [value] }

/-- What can happen. -/
inductive Event (α : Type*)
  | append (value : α) (allocated : Bool)
  | pop

/-- One event; there is no `pop` from an empty queue. -/
def step (s : StoredQueue α n) : Event α → Option (StoredQueue α n)
  | .append value allocated => some (s.append value allocated)
  | .pop =>
    if s.queue.items.length = 0 then none
    else some
      { s with
        queue := s.queue.pop
        popped := s.popped ++ s.queue.items.getLast?.toList
        entries := s.entries.dropLast
        taken := s.taken ++ s.entries.getLast?.toList }

/-- The queue is the list, and no storage was lost. -/
structure Sound (s : StoredQueue α n) : Prop where
  items : s.queue.items = s.entries
  popped : s.popped = s.taken
  lost : s.lost = 0

/-- The condition on an event: with an inline buffer, `pop` does not take the last entry of the heap, and
without one there is no `append` once the heap was drained. -/
def Keeps (s : StoredQueue α n) : Event α → Prop
  | .append _ allocated => n = 0 → s.queue.heap.length = 0 → s.storage = true → allocated = false
  | .pop => s.queue.heap.length = 1 → n = 0

/-- What holds in the runs that meet the condition. -/
structure Inv (s : StoredQueue α n) : Prop where
  sound : Sound s
  inlineBuf : s.queue.inlineBuf.length ≤ n
  heap : s.queue.heap.length ≠ 0 → s.storage = true ∧ s.queue.inlineBuf.length = n
  drained : s.queue.heap.length = 0 → s.storage = true → n = 0

variable {s s' : StoredQueue α n}

theorem inv_empty : Inv (empty : StoredQueue α n) :=
  ⟨⟨rfl, rfl, rfl⟩, Nat.zero_le _, fun h => absurd rfl h, fun _ h => nomatch h⟩

/-- The three places an entry is put. -/
theorem append_cases (s : StoredQueue α n) (value : α) (allocated : Bool) :
    (s.append value allocated = s ∧ (allocated = false ∧ ¬s.queue.HasInline)) ∨
    (s.queue.heap.length ≠ 0 ∧ s.append value allocated =
      { s with queue := { s.queue with heap := s.queue.heap ++ [value] }, entries := s.entries ++ [value] }) ∨
    (s.queue.HasInline ∧ s.append value allocated =
      { s with
        queue := { s.queue with inlineBuf := s.queue.inlineBuf ++ [value] }
        entries := s.entries ++ [value] }) ∨
    (s.Promotes ∧ allocated = true ∧ s.append value allocated =
      { s with
        queue := { s.queue with heap := s.queue.inlineBuf ++ [value] }
        storage := true
        lost := s.lost + if s.storage then 1 else 0
        entries := s.entries ++ [value] }) := by
  by_cases hheap : s.queue.heap.length = 0
  · by_cases hroom : s.queue.inlineBuf.length < n
    · right; right; left
      have hnot : ¬s.Promotes := fun h => h.2 hroom
      have happend : s.queue.append value allocated =
          some { s.queue with inlineBuf := s.queue.inlineBuf ++ [value] } := by
        simp [InlineQueue.append, hheap, hroom]
      refine ⟨⟨hheap, hroom⟩, ?_⟩
      rw [append, happend]
      simp [hnot]
    · have hpromotes : s.Promotes := ⟨hheap, hroom⟩
      cases allocated with
      | false =>
        left
        have happend : s.queue.append value false = none :=
          (s.queue.append_eq_none_iff value false).2 ⟨rfl, fun h => hroom h.2⟩
        rw [append, happend]
        exact ⟨rfl, rfl, fun h => hroom h.2⟩
      | true =>
        right; right; right
        have happend : s.queue.append value true =
            some { s.queue with heap := s.queue.inlineBuf ++ [value] } := by
          simp [InlineQueue.append, hheap, hroom]
        refine ⟨hpromotes, rfl, ?_⟩
        rw [append, happend]
        simp [hpromotes]
  · have hpos : s.queue.heap.length > 0 := Nat.pos_of_ne_zero hheap
    have hnot : ¬s.Promotes := fun h => hheap h.1
    cases allocated with
    | false =>
      left
      have happend : s.queue.append value false = none :=
        (s.queue.append_eq_none_iff value false).2 ⟨rfl, fun h => hheap h.1⟩
      rw [append, happend]
      exact ⟨rfl, rfl, fun h => hheap h.1⟩
    | true =>
      right; left
      have happend : s.queue.append value true =
          some { s.queue with heap := s.queue.heap ++ [value] } := by
        simp [InlineQueue.append, hpos]
      refine ⟨hheap, ?_⟩
      rw [append, happend]
      simp [hnot]

theorem items_of_heap {queue : InlineQueue α n} (h : queue.heap.length ≠ 0) : queue.items = queue.heap :=
  if_pos (Nat.pos_of_ne_zero h)

theorem items_of_inlineBuf {queue : InlineQueue α n} (h : queue.heap.length = 0) :
    queue.items = queue.inlineBuf := if_neg (by omega)

/-- An `append` that meets the condition. -/
theorem Inv.append {value : α} {allocated : Bool} (h : Inv s) (hok : Keeps s (.append value allocated)) :
    Inv (s.append value allocated) := by
  rcases append_cases s value allocated with
    ⟨heq, -⟩ | ⟨hheap, heq⟩ | ⟨hinline, heq⟩ | ⟨hpromotes, rfl, heq⟩
  · rw [heq]
    exact h
  · rw [heq]
    refine ⟨⟨?_, h.sound.popped, h.sound.lost⟩, h.inlineBuf, fun _ => h.heap hheap, ?_⟩
    · rw [items_of_heap (by simp), ← h.sound.items, items_of_heap hheap]
    · simp
  · rw [heq]
    refine ⟨⟨?_, h.sound.popped, h.sound.lost⟩, ?_, fun hne => absurd hinline.1 hne, fun _ => h.drained hinline.1⟩
    · rw [items_of_inlineBuf (by simpa using hinline.1), ← h.sound.items, items_of_inlineBuf hinline.1]
    · rw [List.length_append, List.length_singleton]
      exact hinline.2
  · rw [heq]
    have hfull : s.queue.inlineBuf.length = n := le_antisymm h.inlineBuf (Nat.not_lt.1 hpromotes.2)
    -- the heap of an earlier promotion is drained only without an inline buffer, where nothing is appended
    have hstorage : s.storage = false := by
      rw [← Bool.not_eq_true]
      intro hstorage
      exact nomatch hok (h.drained hpromotes.1 hstorage) hpromotes.1 hstorage
    refine ⟨⟨?_, h.sound.popped, ?_⟩, h.inlineBuf, fun _ => ⟨rfl, hfull⟩, ?_⟩
    · rw [items_of_heap (by simp), ← h.sound.items, items_of_inlineBuf hpromotes.1]
    · rw [if_neg (by simp [hstorage])]
      exact h.sound.lost
    · simp

/-- A promotion with storage there loses it. -/
theorem Sound.keeps_append {value : α} {allocated : Bool} (h : Inv s) (hs : Sound (s.append value allocated)) :
    Keeps s (.append value allocated) := by
  intro hn hheap hstorage
  subst hn
  have hpromotes : s.Promotes := ⟨hheap, Nat.not_lt_zero _⟩
  rcases append_cases s value allocated with
    ⟨-, hfailed, -⟩ | ⟨hne, -⟩ | ⟨hinline, -⟩ | ⟨-, -, heq⟩
  · exact hfailed
  · exact absurd hheap hne
  · exact absurd hinline.2 (Nat.not_lt_zero _)
  · rw [heq] at hs
    have hlost : s.lost + (if s.storage = true then 1 else 0) = 0 := hs.lost
    rw [if_pos hstorage] at hlost
    exact absurd hlost (Nat.succ_ne_zero _)

/-- A `pop` takes the last entry of the list, until the heap is drained. -/
theorem Inv.pop (h : Inv s) (hok : Keeps s (.pop : Event α)) :
    Inv { s with
      queue := s.queue.pop
      popped := s.popped ++ s.queue.items.getLast?.toList
      entries := s.entries.dropLast
      taken := s.taken ++ s.entries.getLast?.toList } := by
  have hpopped : s.popped ++ s.queue.items.getLast?.toList = s.taken ++ s.entries.getLast?.toList := by
    rw [h.sound.popped, h.sound.items]
  by_cases hheap : s.queue.heap.length = 0
  · have hpop : s.queue.pop = { s.queue with inlineBuf := s.queue.inlineBuf.dropLast } := if_neg (by omega)
    refine ⟨⟨?_, hpopped, h.sound.lost⟩, ?_, ?_, ?_⟩
    · dsimp only
      rw [hpop, items_of_inlineBuf (by exact hheap), ← h.sound.items, items_of_inlineBuf hheap]
    · dsimp only
      rw [hpop, List.length_dropLast]
      exact (Nat.sub_le _ _).trans h.inlineBuf
    · dsimp only
      rw [hpop]
      exact fun hnot => absurd hheap hnot
    · dsimp only
      exact fun _ => h.drained hheap
  · obtain ⟨hstorage, hfull⟩ := h.heap hheap
    have hpop : s.queue.pop = { s.queue with heap := s.queue.heap.dropLast } := if_pos (by omega)
    refine ⟨⟨?_, hpopped, h.sound.lost⟩, ?_, ?_, ?_⟩
    · dsimp only
      rw [InlineQueue.items_pop, ← h.sound.items]
      split
      · rename_i hone
        -- the inline buffer is empty
        rw [List.length_eq_zero_iff.1 (hfull.trans (hok hone)), items_of_heap hheap]
        refine (List.length_eq_zero_iff.1 ?_).symm
        rw [List.length_dropLast, hone]
      · rfl
    · dsimp only
      rw [hpop]
      exact h.inlineBuf
    · dsimp only
      rw [hpop]
      exact fun _ => ⟨hstorage, hfull⟩
    · dsimp only
      rw [hpop]
      intro hdrained _
      rw [List.length_dropLast] at hdrained
      exact hok (by omega)

/-- Once the heap is drained the entries of the inline buffer are there again. -/
theorem Sound.keeps_pop (h : Inv s) {v : StoredQueue α n} (hs : s.step .pop = some v) (hsound : Sound v) :
    Keeps s (.pop : Event α) := by
  intro hone
  obtain ⟨-, hs⟩ := Option.ite_none_left_eq_some.1 hs
  obtain rfl := Option.some.inj hs
  have hheap : s.queue.heap.length ≠ 0 := by omega
  have hitems : s.queue.pop.items = s.entries.dropLast := hsound.items
  rw [InlineQueue.items_pop, if_pos hone, ← h.sound.items, items_of_heap hheap] at hitems
  rw [← (h.heap hheap).2, hitems, List.length_dropLast, hone]

/-- **The list.** In every run the queue is the list of what was appended and not popped, `pop` returns its
last entry, and no storage of the heap is lost, exactly when each step of the run meets its condition. -/
theorem queue_is_list_iff (n : ℕ) (es : List (Event α)) :
    Runs.Always step Sound (empty : StoredQueue α n) es ↔ Runs.Along step Keeps (empty : StoredQueue α n) es := by
  refine Runs.always_iff_along_of_break inv_empty (fun _ h => h.sound) ?_ ?_ ?_
  · intro s e v h hok hs
    cases e with
    | append value allocated =>
      obtain rfl := Option.some.inj hs
      exact h.append hok
    | pop =>
      obtain ⟨-, hs⟩ := Option.ite_none_left_eq_some.1 hs
      obtain rfl := Option.some.inj hs
      exact h.pop hok
  · intro s e v h hs hsound
    cases e with
    | append value allocated =>
      obtain rfl := Option.some.inj hs
      exact hsound.keeps_append h
    | pop => exact hsound.keeps_pop h hs
  · intro s e hs
    cases e with
    | append value allocated => exact nomatch hs
    | pop =>
      intro hone
      have hne : s.queue.items.length ≠ 0 := by
        rw [items_of_heap (by omega)]
        omega
      rw [step, if_neg hne] at hs
      exact nomatch hs

/-- The test of the repository: the heap that a promotion made is drained, and the first entry is there
again. -/
theorem drained_queue_not_empty :
    ¬Runs.Always step Sound (empty : StoredQueue ℕ 1) [.append 0 true, .append 1 true, .append 2 true,
      .pop, .pop, .pop] := by
  intro h
  have hsound := h.last rfl
  exact absurd hsound.items (by decide)

end StoredQueue

end Talyn
