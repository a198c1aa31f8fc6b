import Mathlib.Tactic
import Mathlib.Data.Finmap

/-!
# The B-tree

`BTree(Key, Value, Degree)` keeps its nodes in memory and links them in both directions. The model
does the same: a heap maps addresses to nodes, a node has its arrays, the number of its keys and the
address of its parent. The arrays are functions of the index; entries from `nkeys` on have whatever
was there before.

Every access to a node is an access to the heap, and `none` is the result of one to freed memory, of
an unwrapped null pointer and of a walk that does not end. `alloc` says which allocations succeed.
A split that fails leaves the nodes as they are at that point.
-/

namespace Talyn

variable {K V : Type} [LinearOrder K] [Inhabited K] [Inhabited V]

/-- `Node`. -/
structure BTree.Node (K V : Type) where
  parent : Option ℕ
  keys : ℕ → K
  values : ℕ → V
  childs : ℕ → Option ℕ
  nkeys : ℕ

/-- `BTree`: the root is called `parent` in the source. Addresses from `next` on were never used. -/
structure BTree (K V : Type) where
  heap : ℕ → Option (BTree.Node K V)
  next : ℕ
  root : ℕ

namespace BTree

/-! ### Nodes -/

namespace Node

/-- `create_node`. -/
def new : Node K V where
  parent := none
  keys := fun _ => default
  values := fun _ => default
  childs := fun _ => none
  nkeys := 0

/-- The first key that is not smaller than `key`, or `nkeys`: where the loop of `get_value_ptr`
stops. -/
def position (n : Node K V) (key : K) : ℕ :=
  ((List.range n.nkeys).find? fun i => key ≤ n.keys i).getD n.nkeys

/-- Entries `start` to `upto - 1` of an array move one place up. -/
def shiftUp {α : Type} (f : ℕ → α) (start upto : ℕ) : ℕ → α :=
  fun i => if start < i ∧ i ≤ upto then f (i - 1) else f i

/-- Entries `start + 1` to `upto` of an array move one place down. -/
def shiftDown {α : Type} (f : ℕ → α) (start upto : ℕ) : ℕ → α :=
  fun i => if start ≤ i ∧ i < upto then f (i + 1) else f i

/-- Where `do_insertion` puts a key: before the first key that is bigger. -/
def insertionIndex (n : Node K V) (key : K) : ℕ :=
  ((List.range n.nkeys).find? fun i => key < n.keys i).getD n.nkeys

/-- `do_insertion`, on the node; the source treats an empty node apart. -/
def insertEntry (n : Node K V) (key : K) (value : V) (newChild : Option ℕ) : Node K V :=
  if n.nkeys = 0 then
    { n with
      keys := Function.update n.keys 0 key
      values := Function.update n.values 0 value
      nkeys := 1
      childs := Function.update n.childs 1 newChild }
  else
    let index := n.insertionIndex key
    { n with
      keys := Function.update (shiftUp n.keys index n.nkeys) index key
      values := Function.update (shiftUp n.values index n.nkeys) index value
      childs := Function.update (shiftUp n.childs (index + 1) (n.nkeys + 1)) (index + 1) newChild
      nkeys := n.nkeys + 1 }

/-- The right half of a full node, as `insert_in_empty_node` and the copy of the children fill a new
one; `middle` is `(Degree - 1) / 2`. -/
def rightHalf (n : Node K V) (middle : ℕ) : Node K V where
  parent := none
  keys := fun i => n.keys (middle + 1 + i)
  values := fun i => n.values (middle + 1 + i)
  childs := fun i => if i ≤ middle then n.childs (middle + 1 + i) else none
  nkeys := middle

/-- The left half, as `split_root_node` fills a new node. -/
def leftHalf (n : Node K V) (middle : ℕ) : Node K V where
  parent := none
  keys := n.keys
  values := n.values
  childs := fun i => if i ≤ middle then n.childs i else none
  nkeys := middle

/-- The end of `delete_key_from_node` and of `delete_from_right`: the key at `index` and the child
before it are overwritten by those that follow, and the last child slot is cleared. -/
def removeEntry (n : Node K V) (index : ℕ) : Node K V :=
  let nkeys := n.nkeys - 1
  { n with
    keys := shiftDown n.keys index nkeys
    values := shiftDown n.values index nkeys
    childs := Function.update (shiftDown n.childs index (nkeys + 1)) (nkeys + 1) none
    nkeys := nkeys }

end Node

/-! ### Memory -/

/-- Overwrite a node. -/
def set (t : BTree K V) (p : ℕ) (n : Node K V) : BTree K V :=
  { t with heap := Function.update t.heap p (some n) }

/-- Change a node in place. -/
def modify (t : BTree K V) (p : ℕ) (f : Node K V → Node K V) : BTree K V :=
  { t with heap := Function.update t.heap p ((t.heap p).map f) }

/-- `allocator.destroy`. -/
def destroy (t : BTree K V) (p : ℕ) : BTree K V :=
  { t with heap := Function.update t.heap p none }

/-- `create_node`, when the allocation succeeds; the new node is at the old `next`. -/
def createNode (t : BTree K V) : BTree K V :=
  { t with heap := Function.update t.heap t.next (some .new), next := t.next + 1 }

/-- `child.parent = parent`. -/
def setParent (t : BTree K V) (child parent : ℕ) : BTree K V :=
  t.modify child fun n => { n with parent := some parent }

/-- `if (rem_child) |child| child.parent = parent`. -/
def setParent? (t : BTree K V) (child : Option ℕ) (parent : ℕ) : BTree K V :=
  match child with
  | some c => t.setParent c parent
  | none => t

/-- `change_parent`: a loop over all the child slots of a node. -/
def changeParent (degree : ℕ) (t : BTree K V) (p : ℕ) : BTree K V :=
  match t.heap p with
  | some n => (List.range (degree + 1)).foldl (fun t i => t.setParent? (n.childs i) p) t
  | none => t

/-- `init`. -/
def init : BTree K V where
  heap := fun p => if p = 0 then some .new else none
  next := 1
  root := 0

/-! ### Lookup -/

/-- The loop of `get_value_ptr`: the node where the walk ends, and the place of the key in it. -/
def search (t : BTree K V) (key : K) : ℕ → ℕ → Option (ℕ × Option ℕ)
  | 0, _ => none
  | fuel + 1, p =>
    match t.heap p with
    | none => none
    | some n =>
      if n.nkeys = 0 then some (p, none)
      else
        let i := n.position key
        if i < n.nkeys ∧ n.keys i = key then some (p, some i)
        else
          match n.childs i with
          | none => some (p, none)
          | some c => t.search key fuel c

/-- `get_value_ptr`. -/
def getValuePtr (t : BTree K V) (key : K) : Option (ℕ × Option ℕ) := t.search key t.next t.root

/-- `get_value`. -/
def getValue (t : BTree K V) (key : K) : Option (Option V) :=
  match t.getValuePtr key with
  | none => none
  | some (_, none) => some none
  | some (p, some i) => (t.heap p).map fun n => some (n.values i)

/-- The loop of `find_max_from_node`. -/
def findMaxFrom (t : BTree K V) : ℕ → ℕ → Option ℕ
  | 0, _ => none
  | fuel + 1, p =>
    match t.heap p with
    | none => none
    | some n =>
      if n.nkeys = 0 then some p
      else
        match n.childs n.nkeys with
        | none => some p
        | some c => t.findMaxFrom fuel c

/-- The loop of `find_min_from_node`. -/
def findMinFrom (t : BTree K V) : ℕ → ℕ → Option ℕ
  | 0, _ => none
  | fuel + 1, p =>
    match t.heap p with
    | none => none
    | some n =>
      if n.nkeys = 0 then some p
      else
        match n.childs 0 with
        | none => some p
        | some c => t.findMinFrom fuel c

/-- `get_max_value`, with its key. -/
def getMaxValue (t : BTree K V) : Option (Option (K × V)) :=
  match t.findMaxFrom t.next t.root with
  | none => none
  | some p => (t.heap p).map fun n =>
    if n.nkeys = 0 then none else some (n.keys (n.nkeys - 1), n.values (n.nkeys - 1))

/-- `get_min_value`, with its key. -/
def getMinValue (t : BTree K V) : Option (Option (K × V)) :=
  match t.findMinFrom t.next t.root with
  | none => none
  | some p => (t.heap p).map fun n => if n.nkeys = 0 then none else some (n.keys 0, n.values 0)

/-! ### Insertion -/

/-- `do_insertion`. -/
def doInsertion (t : BTree K V) (p : ℕ) (key : K) (value : V) (newChild : Option ℕ) : BTree K V :=
  (t.setParent? newChild p).modify p fun n => n.insertEntry key value newChild

/-- `split_node` and what `split_nodes` does after it: the right half of the full node `p` moves to
the new node `r`, the middle entry to the parent `q`. -/
def splitNode (degree : ℕ) (t : BTree K V) (p : ℕ) (n : Node K V) (q r : ℕ) : BTree K V :=
  let middle := (degree - 1) / 2
  let t := (t.set r (n.rightHalf middle)).changeParent degree r
  let t := t.modify p fun n =>
    { n with childs := fun i => if middle + 1 ≤ i then none else n.childs i }
  let t := (t.doInsertion q (n.keys middle) (n.values middle) (some r)).changeParent degree p
  (t.setParent r q).modify p fun n => { n with nkeys := middle }

/-- `split_root_node` and what `split_nodes` does after it. -/
def splitRootNode (degree : ℕ) (t : BTree K V) (p : ℕ) (n : Node K V) (r₁ r₂ : ℕ) : BTree K V :=
  let middle := (degree - 1) / 2
  let t := (t.set r₁ (n.leftHalf middle)).set r₂ (n.rightHalf middle)
  let t := (t.changeParent degree r₁).changeParent degree r₂
  let t := t.modify p fun n =>
    { n with
      keys := Function.update n.keys 0 (n.keys middle)
      values := Function.update n.values 0 (n.values middle)
      childs := fun i => if i = 0 then some r₁ else if i = 1 then some r₂ else none }
  ((t.setParent r₁ p).setParent r₂ p).modify p fun n => { n with nkeys := 1 }

/-- The loop of `split_nodes`; the flag is `false` when an allocation failed. -/
def splitNodes (degree : ℕ) (alloc : ℕ → Bool) : ℕ → BTree K V → ℕ → Option (BTree K V × Bool)
  | 0, _, _ => none
  | fuel + 1, t, p =>
    match t.heap p with
    | none => none
    | some n =>
      if n.nkeys = degree then
        if alloc t.next then
          match n.parent with
          | some q => splitNodes degree alloc fuel (t.createNode.splitNode degree p n q t.next) q
          | none =>
            if alloc (t.next + 1) then
              some (t.createNode.createNode.splitRootNode degree p n t.next (t.next + 1), true)
            else some (t.createNode.destroy t.next, false)
        else some (t, false)
      else some (t, true)

/-- `insert_in_node`. -/
def insertInNode (degree : ℕ) (alloc : ℕ → Bool) (t : BTree K V) (p : ℕ) (key : K) (value : V) :
    Option (BTree K V × Bool) :=
  splitNodes degree alloc t.next (t.doInsertion p key value none) p

/-- `insert`. -/
def insert (degree : ℕ) (alloc : ℕ → Bool) (t : BTree K V) (key : K) (value : V) :
    Option (BTree K V × Bool) :=
  match t.getValuePtr key with
  | none => none
  | some (_, some _) => some (t, false)
  | some (p, none) => insertInNode degree alloc t p key value

/-- `replace`. -/
def replace (degree : ℕ) (alloc : ℕ → Bool) (t : BTree K V) (key : K) (value : V) :
    Option (BTree K V × Option V) :=
  match t.getValuePtr key with
  | none => none
  | some (p, some i) =>
    (t.heap p).map fun n =>
      (t.set p { n with values := Function.update n.values i value }, some (n.values i))
  | some (p, none) => (insertInNode degree alloc t p key value).map fun r => (r.1, none)

/-! ### Deletion -/

/-- Write to a child slot. -/
def setChild (t : BTree K V) (p i : ℕ) (child : Option ℕ) : BTree K V :=
  t.modify p fun n => { n with childs := Function.update n.childs i child }

/-- `delete_from_left` for the child slot `index` of the node `p`: the biggest entry below it. -/
def deleteFromLeft (t : BTree K V) (p index c : ℕ) : Option (BTree K V × K × V) :=
  match t.findMaxFrom t.next c with
  | none => none
  | some m =>
    match t.heap m with
    | none => none
    | some n =>
      if n.nkeys = 0 then none
      else
        let entry := (n.keys (n.nkeys - 1), n.values (n.nkeys - 1))
        let t := t.modify m fun n => { n with nkeys := n.nkeys - 1 }
        if n.nkeys - 1 = 0 then
          match n.parent with
          | none => none
          | some q =>
            match t.heap q with
            | none => none
            | some nq =>
              let t :=
                if nq.childs nq.nkeys = some m then t.setChild q nq.nkeys (n.childs 0)
                else t.setChild p index (n.childs 0)
              some ((t.setParent? (n.childs 0) q).destroy m, entry)
        else some (t, entry)

/-- `delete_from_right` for the child slot `index` of the node `p`: the smallest entry below it. -/
def deleteFromRight (t : BTree K V) (p index c : ℕ) : Option (BTree K V × K × V) :=
  match t.findMinFrom t.next c with
  | none => none
  | some m =>
    match t.heap m with
    | none => none
    | some n =>
      if n.nkeys = 0 then none
      else
        let entry := (n.keys 0, n.values 0)
        if n.nkeys - 1 = 0 then
          let t := t.modify m fun n => { n with nkeys := n.nkeys - 1 }
          match n.parent with
          | none => none
          | some q =>
            match t.heap q with
            | none => none
            | some nq =>
              let t :=
                if nq.childs 0 = some m then t.setChild q 0 (n.childs 1)
                else t.setChild p index (n.childs 1)
              some ((t.setParent? (n.childs 1) q).destroy m, entry)
        else some (t.modify m fun n => n.removeEntry 0, entry)

/-- `perform_delete`: the entry at `index` is replaced by the one taken from a child. -/
def setEntry (t : BTree K V) (p index : ℕ) (entry : K × V) : BTree K V :=
  t.modify p fun n =>
    { n with
      keys := Function.update n.keys index entry.1
      values := Function.update n.values index entry.2 }

/-- The loop of `delete_key_from_node` over the children of the parent. -/
def unlinkChild (t : BTree K V) (q p : ℕ) : Option (BTree K V) :=
  match t.heap q with
  | none => none
  | some nq =>
    match (List.range (nq.nkeys + 1)).find? fun i => nq.childs i = some p with
    | some i => some ((t.destroy p).setChild q i none)
    | none => some t

/-- `delete_key_from_node`. -/
def deleteKeyFromNode (t : BTree K V) (p index : ℕ) : Option (BTree K V) :=
  match t.heap p with
  | none => none
  | some n =>
    match n.childs index, n.childs (index + 1) with
    | some c, _ => (t.deleteFromLeft p index c).map fun r => r.1.setEntry p index r.2
    | none, some c => (t.deleteFromRight p (index + 1) c).map fun r => r.1.setEntry p index r.2
    | none, none =>
      if n.nkeys - 1 = 0 then
        let t := t.modify p fun n => { n with nkeys := n.nkeys - 1 }
        match n.parent with
        | none => some t
        | some q => t.unlinkChild q p
      else some (t.modify p fun n => n.removeEntry index)

/-- `delete`. -/
def delete (t : BTree K V) (key : K) : Option (BTree K V × Option V) :=
  match t.getValuePtr key with
  | none => none
  | some (_, none) => some (t, none)
  | some (p, some i) =>
    match t.heap p with
    | none => none
    | some n =>
      match (List.range n.nkeys).find? fun j => key = n.keys j with
      | some j => (t.deleteKeyFromNode p j).map fun t' => (t', some (n.values i))
      | none => some (t, some (n.values i))

/-- `pop`, with the key. -/
def pop (t : BTree K V) : Option (BTree K V × Option (K × V)) :=
  match t.findMaxFrom t.next t.root with
  | none => none
  | some p =>
    match t.heap p with
    | none => none
    | some n =>
      if n.nkeys = 0 then some (t, none)
      else
        (t.deleteKeyFromNode p (n.nkeys - 1)).map fun t' =>
          (t', some (n.keys (n.nkeys - 1), n.values (n.nkeys - 1)))

end BTree

end Talyn
