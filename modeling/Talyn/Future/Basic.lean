import Mathlib.Tactic

/-!
# The data of a future

`future/main.zig` and `future/callback.zig`: the small-buffer queue of done callbacks, and the entries
of a future. A reference that `add_done_callback` takes is known by the number of the call that took it.
-/

namespace Talyn

/-- `InlineQueue(T, N)`: the used part of the inline buffer, and the heap. -/
structure InlineQueue (α : Type*) (n : ℕ) where
  inlineBuf : List α
  heap : List α

namespace InlineQueue

variable {α : Type*} {n : ℕ}

/-- `empty`. -/
def empty : InlineQueue α n := ⟨[], []⟩

/-- `items`: the heap as soon as there is something on it. -/
def items (q : InlineQueue α n) : List α := if q.heap.length > 0 then q.heap else q.inlineBuf

/-- A write to one entry through `itemsMut`. -/
def modify (q : InlineQueue α n) (i : ℕ) (f : α → α) : InlineQueue α n :=
  if q.heap.length > 0 then { q with heap := q.heap.modify i f }
  else { q with inlineBuf := q.inlineBuf.modify i f }

/-- `append`; `none` when memory is needed and there is none. The inline buffer keeps its length when
it is promoted to the heap. -/
def append (q : InlineQueue α n) (value : α) (allocated : Bool) : Option (InlineQueue α n) :=
  if q.heap.length > 0 then
    if allocated then some { q with heap := q.heap ++ [value] } else none
  else if q.inlineBuf.length < n then some { q with inlineBuf := q.inlineBuf ++ [value] }
  else if allocated then some { q with heap := q.inlineBuf ++ [value] } else none

/-- `pop`, without the value. -/
def pop (q : InlineQueue α n) : InlineQueue α n :=
  if q.heap.length > 0 then { q with heap := q.heap.dropLast }
  else { q with inlineBuf := q.inlineBuf.dropLast }

@[simp] theorem items_empty : (empty : InlineQueue α n).items = [] := rfl

@[simp] theorem items_modify (q : InlineQueue α n) (i : ℕ) (f : α → α) :
    (q.modify i f).items = q.items.modify i f := by
  unfold modify items
  by_cases h : q.heap.length > 0
  · simp [h]
  · simp [h]

/-- An append is an append, wherever the entries are kept. -/
theorem items_append {q q' : InlineQueue α n} {value : α} {allocated : Bool}
    (h : q.append value allocated = some q') : q'.items = q.items ++ [value] := by
  unfold append at h
  unfold items
  split at h
  · rename_i hheap
    split at h
    · obtain rfl := Option.some.inj h
      simp [hheap]
    · exact nomatch h
  · rename_i hheap
    have hnil : q.heap = [] := by simpa using hheap
    split at h
    · obtain rfl := Option.some.inj h
      simp [hnil]
    · split at h
      · obtain rfl := Option.some.inj h
        simp [hnil]
      · exact nomatch h

/-- There is a place left in the inline buffer, which is in use. -/
def HasInline (q : InlineQueue α n) : Prop := q.heap.length = 0 ∧ q.inlineBuf.length < n

instance (q : InlineQueue α n) : Decidable q.HasInline :=
  inferInstanceAs (Decidable (q.heap.length = 0 ∧ q.inlineBuf.length < n))

/-- An append fails when it needs memory and there is none. -/
theorem append_eq_none_iff (q : InlineQueue α n) (value : α) (allocated : Bool) :
    q.append value allocated = none ↔ allocated = false ∧ ¬q.HasInline := by
  unfold append HasInline
  by_cases hheap : q.heap.length > 0
  · have hzero : q.heap.length ≠ 0 := hheap.ne'
    cases allocated <;> simp [hheap, hzero]
  · have hzero : q.heap.length = 0 := by omega
    by_cases hroom : q.inlineBuf.length < n
    · simp [hzero, hroom]
    · cases allocated <;> simp [hheap, hroom]

/-- The loop that pops as long as there are entries. -/
def popAll (q : InlineQueue α n) : InlineQueue α n :=
  pop^[q.heap.length + q.inlineBuf.length] q

/-- Once the heap is drained, the entries of the stale inline buffer are there again. -/
theorem items_pop (q : InlineQueue α n) : q.pop.items =
    if q.heap.length = 1 then q.inlineBuf else q.items.dropLast := by
  unfold pop items
  by_cases hheap : q.heap.length > 0
  · by_cases hone : q.heap.length = 1
    · simp [hone]
    · have htwo : q.heap.dropLast.length > 0 := by
        rw [List.length_dropLast]
        omega
      simp only [if_pos hheap, if_neg hone, if_pos htwo]
  · have hone : q.heap.length ≠ 1 := by omega
    simp [hheap, hone]

end InlineQueue

/-- `FutureStatus`. -/
inductive FutureStatus
  | pending
  | finished
  | canceled
  deriving DecidableEq, Repr

namespace Future

/-- A reference that a call of `add_done_callback` takes. -/
inductive Ref
  | callback (id : ℕ)
  | context (id : ℕ)
  deriving DecidableEq, Repr

/-- The call that took a reference. -/
def Ref.id : Ref → ℕ
  | .callback id | .context id => id

/-- `PythonGenericData`. -/
structure PythonGenericData where
  callback : Option Ref
  context : Option Ref
  deriving DecidableEq, Repr

/-- `Data`: a Python callback, or the task that `wakeup_task` wakes up. -/
inductive Data
  | pythonGeneric (data : PythonGenericData)
  | zigGeneric (ptr : ℕ)
  deriving DecidableEq, Repr

/-- The references of an entry, in the order in which they are dropped after it was called. -/
def Data.refs : Data → List Ref
  | .pythonGeneric data => data.context.toList ++ data.callback.toList
  | .zigGeneric _ => []

/-- `Callback`, with the number of the call that added it. -/
structure Callback where
  data : Data
  cancelled : Bool
  executed : Bool
  id : ℕ
  deriving DecidableEq, Repr

/-- The references an entry still owns. -/
def Callback.refs (callback : Callback) : List Ref :=
  if callback.executed then [] else callback.data.refs

end Future

/-- `Future`, as far as its callbacks are concerned; `exceptionsQueue` has the calls whose callbacks
raised. -/
structure Future where
  status : FutureStatus
  callbacksQueue : InlineQueue Future.Callback 2
  exceptionsQueue : InlineQueue (Option ℕ) 1
  released : Bool

namespace Future

/-- What `future_set_initial_values` leaves: never armed, so released. -/
def new : Future := ⟨.pending, .empty, .empty, true⟩

/-- `Future.init`, after the slot is reserved. -/
def init : Future := ⟨.pending, .empty, .empty, false⟩

/-- `add_done_callback` of `callback.zig`; `none` when the queue cannot grow. -/
def addDoneCallback (self : Future) (data : Data) (id : ℕ) (allocated : Bool) : Option Future :=
  if self.status ≠ .pending ∨ self.released then some self
  else
    (self.callbacksQueue.append ⟨data, false, false, id⟩ allocated).map fun queue =>
      { self with callbacksQueue := queue }

/-- A write to one entry of the queue. -/
def modify (self : Future) (i : ℕ) (f : Callback → Callback) : Future :=
  { self with callbacksQueue := self.callbacksQueue.modify i f }

/-- The entries of the queue. -/
def callbacks (self : Future) : List Callback := self.callbacksQueue.items

@[simp] theorem callbacks_modify (self : Future) (i : ℕ) (f : Callback → Callback) :
    (self.modify i f).callbacks = self.callbacks.modify i f :=
  InlineQueue.items_modify _ _ _

end Future

end Talyn
