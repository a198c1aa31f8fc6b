import Talyn.Lib.Chain

/-!
# `LRUCache`

The hash map of `LRUCache` finds the node of a key, and the nodes are a doubly linked list from the entry
used last to the one used first. A key is a reference to its content; `evict_callback` may free it, and a
map operation reads its argument and may read every key that is stored. A key that is read after it was
freed, and a node that is used after it was destroyed, are faults.
-/

namespace Talyn

/-- What `evict_callback` does with its key. -/
inductive EvictCallback
  | null
  | keepsKey
  | freesKey
  deriving DecidableEq

/-- `LRUCache`. The last three fields are for the record: the calls of `evict_callback`, the keys it freed,
and the faults. -/
structure LRUCache (K V : Type) where
  capacity : ℕ
  nodes : ℕ → Option (Cell (K × V))
  map : List (K × ℕ)
  head : Option ℕ
  tail : Option ℕ
  evictCallback : EvictCallback
  calls : List (K × V)
  freed : List K
  fault : Bool

namespace LRUCache

variable {K V C : Type} [DecidableEq K] [DecidableEq C] (content : K → C)

/-- `init`, and the callback that is set. -/
def init (capacity : ℕ) (evictCallback : EvictCallback) : LRUCache K V :=
  ⟨capacity, fun _ => none, [], none, none, evictCallback, [], [], false⟩

variable (c : LRUCache K V)

/-! ### The nodes -/

/-- A node that is not there is used. -/
def fail : LRUCache K V := { c with fault := true }

/-- `node.next = next`. -/
def setNext (node : ℕ) (next : Option ℕ) : LRUCache K V :=
  if (c.nodes node).isSome then { c with nodes := Chain.setNext c.nodes node next } else c.fail

/-- `node.prev = prev`. -/
def setPrev (node : ℕ) (prev : Option ℕ) : LRUCache K V :=
  if (c.nodes node).isSome then { c with nodes := Chain.setPrev c.nodes node prev } else c.fail

/-- The first half of `remove_node`. -/
def unlinkPrev (node : ℕ) : LRUCache K V :=
  match c.nodes node with
  | none => c.fail
  | some cell =>
    match cell.prev with
    | some p => c.setNext p cell.next
    | none => { c with head := cell.next }

/-- The second half of `remove_node`. -/
def unlinkNext (node : ℕ) : LRUCache K V :=
  match c.nodes node with
  | none => c.fail
  | some cell =>
    match cell.next with
    | some n => c.setPrev n cell.prev
    | none => { c with tail := cell.prev }

/-- `remove_node`. -/
def removeNode (node : ℕ) : LRUCache K V := (c.unlinkPrev node).unlinkNext node

/-- The end of `prepend`. -/
def setHead (node : ℕ) : LRUCache K V :=
  let c := { c with head := some node }
  if c.tail = none then { c with tail := some node } else c

/-- `prepend`. -/
def prepend (node : ℕ) : LRUCache K V :=
  let c := (c.setNext node c.head).setPrev node none
  let c := match c.head with
    | some h => c.setPrev h (some node)
    | none => c
  c.setHead node

/-- `move_to_front`. -/
def moveToFront (node : ℕ) : LRUCache K V :=
  if some node = c.head then c else (c.removeNode node).prepend node

/-- `evict_callback`, when there is one. -/
def callEvict (entry : K × V) : LRUCache K V :=
  match c.evictCallback with
  | .null => c
  | .keepsKey => { c with calls := c.calls ++ [entry] }
  | .freesKey => { c with calls := c.calls ++ [entry], freed := entry.1 :: c.freed }

/-- `evict_callback` for the key and the value of a node. -/
def evict (node : ℕ) : LRUCache K V :=
  match c.nodes node with
  | none => c.fail
  | some cell => c.callEvict cell.item

/-- `allocator.create`, with the address it returns. -/
def create (node : ℕ) (key : K) (value : V) : LRUCache K V :=
  { c with nodes := Function.update c.nodes node (some ⟨(key, value), none, none⟩) }

/-- `allocator.destroy`. -/
def destroy (node : ℕ) : LRUCache K V :=
  if (c.nodes node).isSome then { c with nodes := Function.update c.nodes node none } else c.fail

/-! ### The map -/

/-- The keys that an operation on the map may read. -/
def readKeys (key : K) : LRUCache K V :=
  { c with fault := c.fault || decide (∃ k ∈ key :: c.map.map Prod.fst, k ∈ c.freed) }

/-- `map.get`. -/
def mapGet (key : K) : Option ℕ × LRUCache K V :=
  ((c.map.find? fun entry => content entry.1 = content key).map Prod.snd, c.readKeys key)

/-- `map.remove`. -/
def mapRemove (key : K) : LRUCache K V :=
  { c.readKeys key with map := c.map.filter fun entry => content entry.1 ≠ content key }

/-- `map.put`; an entry with an equal key keeps its key. -/
def mapPut (key : K) (node : ℕ) : LRUCache K V :=
  let map := if c.map.any fun entry => content entry.1 = content key then
      c.map.map fun entry => if content entry.1 = content key then (entry.1, node) else entry
    else c.map ++ [(key, node)]
  { c.readKeys key with map }

/-- `map.remove(node.key)`. -/
def mapRemoveNode (node : ℕ) : LRUCache K V :=
  match c.nodes node with
  | none => c.fail
  | some cell => c.mapRemove content cell.item.1

/-! ### The operations -/

/-- `get`. -/
def get (key : K) : Option V × LRUCache K V :=
  match c.mapGet content key with
  | (some node, c) =>
    let c := c.moveToFront node
    match c.nodes node with
    | none => (none, c.fail)
    | some cell => (some cell.item.2, c)
  | (none, c) => (none, c)

/-- `evict_last`. -/
def evictLast : LRUCache K V :=
  match c.tail with
  | none => c
  | some node => (((c.mapRemoveNode content node).removeNode node).evict node).destroy node

/-- The end of `put`; `node` is the new node, if there is memory for it, and `room` says whether there is
memory for the map. -/
def insert (key : K) (value : V) (node : Option ℕ) (room : Bool) : Bool × LRUCache K V :=
  match node with
  | none => (false, c)
  | some node =>
    let c := c.create node key value
    if room then (true, (c.mapPut content key node).prepend node)
    else (false, (c.readKeys key).destroy node)

/-- `put` up to `allocator.create`. -/
def roomFor (key : K) : LRUCache K V :=
  let c := match c.mapGet content key with
    | (some old, c) => (((c.mapRemoveNode content old).removeNode old).evict old).destroy old
    | (none, c) => c
  if c.map.length ≥ c.capacity then c.evictLast content else c

/-- `put`; `false` is `error.OutOfMemory`. -/
def put (key : K) (value : V) (node : Option ℕ) (room : Bool) : Bool × LRUCache K V :=
  if c.capacity = 0 then (true, c) else (c.roomFor content key).insert content key value node room

/-- `remove`. -/
def remove (key : K) : Bool × LRUCache K V :=
  match c.mapGet content key with
  | (some node, c) => (true, (((c.mapRemove content key).evict node).removeNode node).destroy node)
  | (none, c) => (false, c)

/-- `pop_tail`. -/
def popTail : Option V × LRUCache K V :=
  match c.tail with
  | none => (none, c)
  | some node =>
    match c.nodes node with
    | none => (none, c.fail)
    | some cell =>
      (some cell.item.2, ((c.mapRemoveNode content node).removeNode node).destroy node)

/-- `deinit`. -/
def deinit : LRUCache K V :=
  { c.map.foldl (fun c entry => (c.evict entry.2).destroy entry.2) c with map := [] }

end LRUCache

/-- The test of the repository: of two entries the one used first is evicted. -/
example :
    let c : LRUCache ℕ ℕ := .init 2 .keepsKey
    let c := (c.put id 1 100 (some 0) true).2
    let c := (c.put id 2 200 (some 1) true).2
    let c := (c.get id 1).2
    let c := (c.put id 3 300 (some 2) true).2
    ((c.get id 2).1, (c.get id 1).1, (c.get id 3).1, c.calls) = (none, some 100, some 300, [(2, 200)]) := by
  decide

end Talyn
