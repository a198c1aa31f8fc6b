import Talyn.Lib.Chain
import Mathlib.Tactic

/-!
# `LinkedList` and the deques it stands for

The nodes of all lists of one node type share a memory; a list has its two ends and a counter. That a node
is in no list is not stored: `unlink_node` reads it off the node's own links and the ends of the list.
`Deques` are the lists as sequences of nodes, beside the nodes that are in no list.
-/

namespace Talyn

/-- `LinkedList`, without its nodes. -/
structure LinkedList where
  first : Option ℕ
  last : Option ℕ
  len : ℕ
deriving DecidableEq

namespace LinkedList

/-- `errors`, and what `allocator.create` returns. -/
inductive Error
  | linkedListEmpty
  | nodeNotInList
  | outOfMemory
deriving DecidableEq

/-- What an operation returns. -/
inductive Outcome (α : Type*)
  | done
  | node (node : ℕ)
  | data (data : α)
  | failed (error : Error)
deriving DecidableEq

/-- `init`. -/
def init : LinkedList := ⟨none, none, 0⟩

end LinkedList

open LinkedList (Error Outcome)

/-- Some lists and the memory their nodes are in. -/
structure LinkedLists (ι α : Type*) where
  nodes : ℕ → Option (Cell α)
  lists : ι → LinkedList
  /-- a freed node was used, or a counter fell below zero -/
  fault : Bool

namespace LinkedLists

variable {ι α : Type*} [DecidableEq ι]

/-- No nodes, and every list from `init`. -/
def init : LinkedLists ι α := ⟨fun _ => none, fun _ => .init, false⟩

def fail (w : LinkedLists ι α) : LinkedLists ι α := { w with fault := true }

/-- Write the `next` of a node. -/
def setNext (w : LinkedLists ι α) (i : ℕ) (next : Option ℕ) : LinkedLists ι α :=
  if (w.nodes i).isSome then { w with nodes := Chain.setNext w.nodes i next } else w.fail

/-- Write the `prev` of a node. -/
def setPrev (w : LinkedLists ι α) (i : ℕ) (prev : Option ℕ) : LinkedLists ι α :=
  if (w.nodes i).isSome then { w with nodes := Chain.setPrev w.nodes i prev } else w.fail

/-- Write the fields of a list. -/
def setList (w : LinkedLists ι α) (i : ι) (list : LinkedList) : LinkedLists ι α :=
  { w with lists := Function.update w.lists i list }

/-- Write the fields of a list, `self.len -= 1` last. -/
def setShorter (w : LinkedLists ι α) (i : ι) (list : LinkedList) : LinkedLists ι α :=
  if list.len = 0 then w.fail else w.setList i { list with len := list.len - 1 }

/-- `create_new_node`, with the address `allocator.create` returns. -/
def createNewNode (w : LinkedLists ι α) (data : α) : Option ℕ → Outcome α × LinkedLists ι α
  | none => (.failed .outOfMemory, w)
  | some node => (.node node, { w with nodes := Function.update w.nodes node (some ⟨data, none, none⟩) })

/-- `release_node`. -/
def releaseNode (w : LinkedLists ι α) (node : ℕ) : LinkedLists ι α :=
  if (w.nodes node).isSome then { w with nodes := Function.update w.nodes node none } else w.fail

/-- What comes before a node, or the list itself, is linked to another node. -/
def linkBefore (w : LinkedLists ι α) (list : LinkedList) (prev next : Option ℕ) :
    LinkedLists ι α × LinkedList :=
  match prev with
  | some n => (w.setNext n next, list)
  | none => (w, { list with first := next })

/-- What comes behind a node, or the list itself, is linked to another node. -/
def linkBehind (w : LinkedLists ι α) (list : LinkedList) (prev next : Option ℕ) :
    LinkedLists ι α × LinkedList :=
  match next with
  | some n => (w.setPrev n prev, list)
  | none => (w, { list with last := prev })

/-- `unlink_node`. -/
def unlinkNode (w : LinkedLists ι α) (i : ι) (node : ℕ) : Outcome α × LinkedLists ι α :=
  let list := w.lists i
  if list.len = 0 then (.failed .linkedListEmpty, w)
  else
    match w.nodes node with
    | none => (.done, w.fail)
    | some ⟨_, prev, next⟩ =>
      if prev = none ∧ next = none ∧ list.first ≠ some node ∧ list.last ≠ some node then
        (.failed .nodeNotInList, w)
      else
        let (w, list) := w.linkBefore list prev next
        let (w, list) := w.linkBehind list prev next
        -- a later call for this node finds both links null
        let w := (w.setPrev node none).setNext node none
        (.done, w.setShorter i list)

/-- `append_node`. -/
def appendNode (w : LinkedLists ι α) (i : ι) (node : ℕ) : LinkedLists ι α :=
  let list := w.lists i
  let w := match list.last with
    | some last => w.setNext last (some node)
    | none => w
  let w := (w.setPrev node list.last).setNext node none
  w.setList i ⟨if list.first = none then some node else list.first, some node, list.len + 1⟩

/-- `append`. -/
def append (w : LinkedLists ι α) (i : ι) (data : α) (address : Option ℕ) :
    Outcome α × LinkedLists ι α :=
  match w.createNewNode data address with
  | (.node node, w) => (.done, w.appendNode i node)
  | failed => failed

/-- `appendleft_node`. -/
def appendleftNode (w : LinkedLists ι α) (i : ι) (node : ℕ) : LinkedLists ι α :=
  let list := w.lists i
  let w := match list.first with
    | some first => w.setPrev first (some node)
    | none => w
  let w := (w.setPrev node none).setNext node list.first
  w.setList i ⟨some node, if list.last = none then some node else list.last, list.len + 1⟩

/-- `appendleft`. -/
def appendleft (w : LinkedLists ι α) (i : ι) (data : α) (address : Option ℕ) :
    Outcome α × LinkedLists ι α :=
  match w.createNewNode data address with
  | (.node node, w) => (.done, w.appendleftNode i node)
  | failed => failed

/-- `pop_node`. -/
def popNode (w : LinkedLists ι α) (i : ι) : Outcome α × LinkedLists ι α :=
  let list := w.lists i
  match list.last with
  | none => (.failed .linkedListEmpty, w)
  | some last =>
    match w.nodes last with
    | none => (.done, w.fail)
    | some ⟨_, some prev, _⟩ =>
      (.node last, ((w.setNext prev none).setPrev last none).setShorter i { list with last := some prev })
    | some ⟨_, none, _⟩ => (.node last, w.setShorter i { list with first := none, last := none })

/-- `popleft_node`. -/
def popleftNode (w : LinkedLists ι α) (i : ι) : Outcome α × LinkedLists ι α :=
  let list := w.lists i
  match list.first with
  | none => (.failed .linkedListEmpty, w)
  | some first =>
    match w.nodes first with
    | none => (.done, w.fail)
    | some ⟨_, _, some next⟩ =>
      (.node first, ((w.setPrev next none).setNext first none).setShorter i { list with first := some next })
    | some ⟨_, _, none⟩ => (.node first, w.setShorter i { list with first := none, last := none })

/-- The end of `pop` and `popleft`: read the data of the node and destroy it. -/
def takeData : Outcome α × LinkedLists ι α → Outcome α × LinkedLists ι α
  | (.node node, w) =>
    match w.nodes node with
    | none => (.done, w.fail)
    | some cell => (.data cell.item, w.releaseNode node)
  | failed => failed

/-- `pop`. -/
def pop (w : LinkedLists ι α) (i : ι) : Outcome α × LinkedLists ι α := takeData (w.popNode i)

/-- `popleft`. -/
def popleft (w : LinkedLists ι α) (i : ι) : Outcome α × LinkedLists ι α := takeData (w.popleftNode i)

/-- `extend`; the two lists can be the same one. -/
def extend (w : LinkedLists ι α) (i j : ι) : LinkedLists ι α :=
  match (w.lists j).first with
  | none => w
  | some first =>
    match (w.lists j).last with
    | none => w.fail
    | some last =>
      let newLen := (w.lists j).len
      let w := w.setList j ⟨none, none, 0⟩
      let list := w.lists i
      let (w, list) := match list.last with
        | some node => ((w.setPrev first (some node)).setNext node (some first), list)
        | none => (w, { list with first := some first })
      w.setList i { list with last := some last, len := list.len + newLen }

end LinkedLists

/-- An operation of a `LinkedList`; an allocation comes with its result. -/
inductive LinkedList.Op (ι α : Type*)
  | createNewNode (data : α) (address : Option ℕ)
  | releaseNode (node : ℕ)
  | unlinkNode (i : ι) (node : ℕ)
  | appendNode (i : ι) (node : ℕ)
  | append (i : ι) (data : α) (address : Option ℕ)
  | appendleftNode (i : ι) (node : ℕ)
  | appendleft (i : ι) (data : α) (address : Option ℕ)
  | popNode (i : ι)
  | pop (i : ι)
  | popleftNode (i : ι)
  | popleft (i : ι)
  | extend (i j : ι)

open LinkedList (Op)

namespace LinkedLists

variable {ι α : Type*} [DecidableEq ι]

/-- One operation. -/
def step (w : LinkedLists ι α) : Op ι α → Outcome α × LinkedLists ι α
  | .createNewNode data address => w.createNewNode data address
  | .releaseNode node => (.done, w.releaseNode node)
  | .unlinkNode i node => w.unlinkNode i node
  | .appendNode i node => (.done, w.appendNode i node)
  | .append i data address => w.append i data address
  | .appendleftNode i node => (.done, w.appendleftNode i node)
  | .appendleft i data address => w.appendleft i data address
  | .popNode i => w.popNode i
  | .pop i => w.pop i
  | .popleftNode i => w.popleftNode i
  | .popleft i => w.popleft i
  | .extend i j => (.done, w.extend i j)

/-- The outcomes of some operations, and the lists after them. -/
def run (w : LinkedLists ι α) : List (Op ι α) → List (Outcome α) × LinkedLists ι α
  | [] => ([], w)
  | op :: ops =>
    let (outcome, w) := w.step op
    let (outcomes, w) := w.run ops
    (outcome :: outcomes, w)

end LinkedLists

/-! ### The deques -/

/-- The lists as sequences of nodes with their data, and the nodes that are in no list. -/
structure Deques (ι α : Type*) where
  lists : ι → List (ℕ × α)
  loose : ℕ → Option α

namespace Deques

variable {ι α : Type*} [DecidableEq ι]

/-- No nodes. -/
def empty : Deques ι α := ⟨fun _ => [], fun _ => none⟩

/-- The nodes of a list. -/
def nodesOf (d : Deques ι α) (i : ι) : List ℕ := (d.lists i).map Prod.fst

/-- A node is there. -/
def create (d : Deques ι α) (data : α) (node : ℕ) : Deques ι α :=
  { d with loose := Function.update d.loose node (some data) }

/-- A node that is in no list is gone. -/
def release (d : Deques ι α) (node : ℕ) : Deques ι α :=
  { d with loose := Function.update d.loose node none }

/-- A node that is in no list is put in a list, by what it does to the sequence. -/
def link (d : Deques ι α) (i : ι) (node : ℕ) (put : ℕ × α → List (ℕ × α) → List (ℕ × α)) : Deques ι α :=
  match d.loose node with
  | none => d
  | some data => ⟨Function.update d.lists i (put (node, data) (d.lists i)), Function.update d.loose node none⟩

/-- A node is taken out of a list. -/
def unlink (d : Deques ι α) (i : ι) (x : ℕ × α) : Deques ι α :=
  ⟨Function.update d.lists i ((d.lists i).filter fun y => y.1 ≠ x.1), Function.update d.loose x.1 (some x.2)⟩

/-- At the end. -/
def atEnd (x : ℕ × α) (l : List (ℕ × α)) : List (ℕ × α) := l ++ [x]

/-- An allocation and what is done with the node. -/
def createThen (d : Deques ι α) (data : α) (address : Option ℕ) (f : ℕ → Deques ι α → Outcome α × Deques ι α) :
    Outcome α × Deques ι α :=
  match address with
  | none => (.failed .outOfMemory, d)
  | some node => f node (d.create data node)

/-- A node at one of the ends is taken out, and what is done with it. -/
def takeThen (d : Deques ι α) (i : ι) (x : Option (ℕ × α))
    (f : ℕ × α → Deques ι α → Outcome α × Deques ι α) : Outcome α × Deques ι α :=
  match x with
  | none => (.failed .linkedListEmpty, d)
  | some x => f x (d.unlink i x)

/-- One operation. -/
def step (d : Deques ι α) : Op ι α → Outcome α × Deques ι α
  | .createNewNode data address => d.createThen data address fun node d => (.node node, d)
  | .releaseNode node => (.done, d.release node)
  | .unlinkNode i node =>
    match (d.lists i).find? fun x => x.1 = node with
    | some x => (.done, d.unlink i x)
    | none => (.failed (if d.lists i = [] then .linkedListEmpty else .nodeNotInList), d)
  | .appendNode i node => (.done, d.link i node atEnd)
  | .append i data address => d.createThen data address fun node d => (.done, d.link i node atEnd)
  | .appendleftNode i node => (.done, d.link i node List.cons)
  | .appendleft i data address => d.createThen data address fun node d => (.done, d.link i node List.cons)
  | .popNode i => d.takeThen i (d.lists i).getLast? fun x d => (.node x.1, d)
  | .pop i => d.takeThen i (d.lists i).getLast? fun x d => (.data x.2, d.release x.1)
  | .popleftNode i => d.takeThen i (d.lists i).head? fun x d => (.node x.1, d)
  | .popleft i => d.takeThen i (d.lists i).head? fun x d => (.data x.2, d.release x.1)
  | .extend i j =>
    if i = j then (.done, d)
    else (.done, { d with lists := Function.update (Function.update d.lists j []) i (d.lists i ++ d.lists j) })

/-- The outcomes of some operations, and the deques after them. -/
def run (d : Deques ι α) : List (Op ι α) → List (Outcome α) × Deques ι α
  | [] => ([], d)
  | op :: ops =>
    let (outcome, d) := d.step op
    let (outcomes, d) := d.run ops
    (outcome :: outcomes, d)

/-- A node is used neither in a list nor outside. -/
def Fresh (d : Deques ι α) (node : ℕ) : Prop := d.loose node = none ∧ ∀ i, node ∉ d.nodesOf i

/-- What the caller sees to: only a node that is in no list is put in one or released, and a node is unlinked
from the list it is in, or while it is in no list; `allocator.create` returns memory that is not in use. -/
def Allowed (d : Deques ι α) : Op ι α → Prop
  | .createNewNode _ address | .append _ _ address | .appendleft _ _ address => ∀ node ∈ address, d.Fresh node
  | .releaseNode node | .appendNode _ node | .appendleftNode _ node => d.loose node ≠ none
  | .unlinkNode i node => node ∈ d.nodesOf i ∨ d.loose node ≠ none
  | .popNode _ | .pop _ | .popleftNode _ | .popleft _ | .extend _ _ => True

instance [Fintype ι] (d : Deques ι α) (node : ℕ) : Decidable (d.Fresh node) := inferInstanceAs (Decidable (_ ∧ _))

instance [Fintype ι] (d : Deques ι α) : (op : Op ι α) → Decidable (d.Allowed op)
  | .createNewNode _ address | .append _ _ address | .appendleft _ _ address =>
    inferInstanceAs (Decidable (∀ node ∈ address, d.Fresh node))
  | .releaseNode node | .appendNode _ node | .appendleftNode _ node =>
    inferInstanceAs (Decidable (d.loose node ≠ none))
  | .unlinkNode i node => inferInstanceAs (Decidable (node ∈ d.nodesOf i ∨ d.loose node ≠ none))
  | .popNode _ | .pop _ | .popleftNode _ | .popleft _ | .extend _ _ => isTrue trivial

/-- Every operation is allowed when it is made. -/
def AllowedRun (d : Deques ι α) : List (Op ι α) → Prop
  | [] => True
  | op :: ops => d.Allowed op ∧ (d.step op).2.AllowedRun ops

instance decidableAllowedRun [Fintype ι] (d : Deques ι α) : (ops : List (Op ι α)) → Decidable (d.AllowedRun ops)
  | [] => isTrue trivial
  | op :: ops =>
    have : Decidable ((d.step op).2.AllowedRun ops) := decidableAllowedRun _ ops
    inferInstanceAs (Decidable (d.Allowed op ∧ (d.step op).2.AllowedRun ops))

end Deques

/-! ### One list -/

open Chain

namespace LinkedLists

variable {ι α : Type*} {nodes nodes' : ℕ → Option (Cell α)} {list list' : LinkedList}
  {l l' : List (ℕ × α)} {x : ℕ × α}

/-- The links of the nodes, the ends and the counter of a list are those of this sequence. -/
structure Chained (nodes : ℕ → Option (Cell α)) (list : LinkedList) (l : List (ℕ × α)) : Prop where
  linked : Linked nodes none l none
  first : list.first = firstOf l none
  last : list.last = lastOf none l
  len : list.len = l.length
  nodup : (l.map Prod.fst).Nodup

theorem Chained.congr (h : Chained nodes list l) (hnodes : ∀ x ∈ l, nodes' x.1 = nodes x.1) :
    Chained nodes' list l :=
  ⟨h.linked.congr hnodes, h.first, h.last, h.len, h.nodup⟩

theorem Chained.node (h : Chained nodes list (l ++ x :: l')) :
    nodes x.1 = some ⟨x.2, lastOf none l, firstOf l' none⟩ := (linked_append.1 h.linked).2.1

theorem Chained.not_mem (h : Chained nodes list (l ++ x :: l')) :
    x.1 ∉ l.map Prod.fst ∧ x.1 ∉ l'.map Prod.fst ∧ ((l ++ l').map Prod.fst).Nodup := by
  have hnodup := h.nodup
  rw [List.map_append, List.map_cons, List.nodup_middle, List.nodup_cons, List.mem_append, not_or,
    ← List.map_append] at hnodup
  exact ⟨hnodup.1.1, hnodup.1.2, hnodup.2⟩

/-- The sequence without one of its nodes. -/
theorem Chained.unlink (h : Chained nodes list (l ++ x :: l')) :
    Chained (Function.update (Chain.unlink nodes (lastOf none l) (firstOf l' none)) x.1 (some ⟨x.2, none, none⟩))
      ⟨firstOf (l ++ l') none, lastOf none (l ++ l'), list.len - 1⟩ (l ++ l') := by
  obtain ⟨hx, hx', hnodup⟩ := h.not_mem
  have hnot : x.1 ∉ (l ++ l').map Prod.fst := by
    rw [List.map_append, List.mem_append, not_or]
    exact ⟨hx, hx'⟩
  have hlen := h.len
  simp only [List.length_append, List.length_cons] at hlen
  refine ⟨(h.linked.unlink h.nodup).update hnot, rfl, rfl, ?_, hnodup⟩
  simp only [List.length_append]
  omega

/-- Two sequences of different nodes, one behind the other. -/
theorem Chained.join (h : Chained nodes list l) (h' : Chained nodes list' l')
    (hnodup : ((l ++ l').map Prod.fst).Nodup) :
    Chained (Chain.join nodes (lastOf none l) (firstOf l' none))
      ⟨firstOf (l ++ l') none, lastOf none (l ++ l'), list.len + list'.len⟩ (l ++ l') :=
  ⟨h.linked.join h'.linked hnodup, rfl, rfl, by simp [h.len, h'.len], hnodup⟩

/-- A node with null links is a sequence of its own. -/
theorem chained_single {node : ℕ} {data : α} (h : nodes node = some ⟨data, none, none⟩) :
    Chained nodes ⟨some node, some node, 1⟩ [(node, data)] :=
  ⟨⟨h, trivial⟩, rfl, rfl, rfl, List.nodup_singleton node⟩

/-! ### The operations on one list -/

section Node

variable {w : LinkedLists ι α} {n : ℕ} {cell : Cell α}

theorem setNext_of_node (h : w.nodes n = some cell) (next : Option ℕ) :
    w.setNext n next = { w with nodes := Chain.setNext w.nodes n next } := if_pos (by rw [h]; rfl)

theorem setPrev_of_node (h : w.nodes n = some cell) (prev : Option ℕ) :
    w.setPrev n prev = { w with nodes := Chain.setPrev w.nodes n prev } := if_pos (by rw [h]; rfl)

theorem setPrev_setNext_of_node (h : w.nodes n = some cell) (prev next : Option ℕ) :
    (w.setPrev n prev).setNext n next =
      { w with nodes := Function.update w.nodes n (some ⟨cell.item, prev, next⟩) } := by
  have hset : Chain.setPrev w.nodes n prev = Function.update w.nodes n (some { cell with prev }) := by
    rw [Chain.setPrev, h]
    rfl
  have hnode : Chain.setPrev w.nodes n prev n = some { cell with prev } := by
    rw [hset, Function.update_self]
  rw [setPrev_of_node h, setNext_of_node hnode]
  dsimp only
  rw [Chain.setNext, hnode, hset, Function.update_idem]
  rfl

/-- The links before a node of the list. -/
theorem linkBefore_eq (h : Chained w.nodes list (l ++ x :: l')) :
    w.linkBefore list (lastOf none l) (firstOf l' none) =
      ({ w with nodes := match lastOf none l with
          | some p => Chain.setNext w.nodes p (firstOf l' none)
          | none => w.nodes }, { list with first := firstOf (l ++ l') none }) := by
  rcases List.eq_nil_or_concat' l with rfl | ⟨front, y, rfl⟩
  · rfl
  · have hfront : Chained w.nodes list (front ++ y :: x :: l') := by simpa using h
    have hfirst : list.first = firstOf (front ++ [y] ++ l') none := by
      rw [h.first]
      simp
    rw [lastOf_append, lastOf_cons, lastOf_nil, linkBefore, setNext_of_node hfront.node, ← hfirst]

/-- The links behind a node, once those before it are changed. -/
theorem linkBehind_eq (h : Chained w.nodes list (l ++ x :: l')) {w' : LinkedLists ι α} {list' : LinkedList}
    (hnodes : ∀ z ∈ l', w'.nodes z.1 = w.nodes z.1) (hlist : list'.last = list.last) :
    w'.linkBehind list' (lastOf none l) (firstOf l' none) =
      ({ w' with nodes := match firstOf l' none with
          | some n => Chain.setPrev w'.nodes n (lastOf none l)
          | none => w'.nodes }, { list' with last := lastOf none (l ++ l') }) := by
  cases l' with
  | nil => simp [linkBehind]
  | cons z rest =>
    have hz : Chained w.nodes list ((l ++ [x]) ++ z :: rest) := by simpa using h
    have hlast : list'.last = lastOf none (l ++ z :: rest) := by
      rw [hlist, h.last]
      simp
    rw [firstOf_cons, linkBehind, setPrev_of_node ((hnodes z List.mem_cons_self).trans hz.node), ← hlast]

/-- A node of the list does not look like one that was unlinked. -/
theorem Chained.not_alone (h : Chained nodes list (l ++ x :: l')) :
    ¬(lastOf none l = none ∧ firstOf l' none = none ∧ list.first ≠ some x.1 ∧ list.last ≠ some x.1) := by
  rintro ⟨hl, -, hfirst, -⟩
  rcases List.eq_nil_or_concat' l with rfl | ⟨front, y, rfl⟩
  · exact hfirst h.first
  · rw [lastOf_append] at hl
    exact nomatch hl

end Node

section Operations

variable [DecidableEq ι] {w : LinkedLists ι α} {i : ι}

/-- `unlink_node` for a node of the list. -/
theorem unlinkNode_eq (h : Chained w.nodes (w.lists i) (l ++ x :: l')) :
    w.unlinkNode i x.1 = (.done, { w with
      nodes := Function.update (Chain.unlink w.nodes (lastOf none l) (firstOf l' none)) x.1 (some ⟨x.2, none, none⟩)
      lists := Function.update w.lists i
        ⟨firstOf (l ++ l') none, lastOf none (l ++ l'), (w.lists i).len - 1⟩ }) := by
  obtain ⟨hx, hx', -⟩ := h.not_mem
  have hlen : (w.lists i).len ≠ 0 := by
    rw [h.len]
    simp
  rw [unlinkNode, if_neg hlen, h.node]
  dsimp only
  rw [if_neg h.not_alone, linkBefore_eq h]
  dsimp only
  rw [linkBehind_eq h ?_ ?_]
  · dsimp only
    -- the node itself was not touched
    have hself : Chain.unlink w.nodes (lastOf none l) (firstOf l' none) x.1 =
        some ⟨x.2, lastOf none l, firstOf l' none⟩ :=
      (unlink_of_ne (ne_lastOf (by simp) hx) (ne_firstOf hx')).trans h.node
    rw [setPrev_setNext_of_node hself, setShorter, if_neg hlen]
    rfl
  · intro z hz
    have hz' : z.1 ∉ l.map Prod.fst := by
      have hnodup := h.not_mem.2.2
      rw [List.map_append, List.nodup_append] at hnodup
      exact fun hmem => hnodup.2.2 _ hmem _ (List.mem_map_of_mem hz) rfl
    cases hlast : lastOf none l with
    | none => rfl
    | some p =>
      have hne : lastOf none l ≠ some z.1 := ne_lastOf (by simp) hz'
      rw [hlast] at hne
      exact setNext_of_ne (fun heq => hne (congrArg some heq.symm)) _
  · rfl

theorem setPrev_eq_update {n : ℕ} {cell : Cell α} (h : nodes n = some cell) (prev : Option ℕ) :
    Chain.setPrev nodes n prev = Function.update nodes n (some { cell with prev }) := by
  rw [Chain.setPrev, h]
  rfl

theorem setNext_eq_update {n : ℕ} {cell : Cell α} (h : nodes n = some cell) (next : Option ℕ) :
    Chain.setNext nodes n next = Function.update nodes n (some { cell with next }) := by
  rw [Chain.setNext, h]
  rfl

/-- `append_node` joins the node to the end of the list. -/
theorem appendNode_eq {node : ℕ} {data : α} (h : Chained w.nodes (w.lists i) l) (hnode : node ∉ l.map Prod.fst)
    (hcell : w.nodes node = some ⟨data, none, none⟩) :
    w.appendNode i node = { w with
      nodes := Chain.join w.nodes (lastOf none l) (some node)
      lists := Function.update w.lists i
        ⟨firstOf (l ++ [(node, data)]) none, lastOf none (l ++ [(node, data)]), (w.lists i).len + 1⟩ } := by
  have hlast := h.last
  have hfirst := h.first
  rw [appendNode]
  rcases List.eq_nil_or_concat' l with rfl | ⟨front, y, rfl⟩
  · rw [hlast, hfirst]
    dsimp only [lastOf_nil, firstOf_nil]
    rw [setPrev_setNext_of_node hcell, Chain.join, setPrev_eq_update hcell]
    rfl
  · have hy : w.nodes y.1 = some ⟨y.2, lastOf none front, none⟩ := h.node
    have hne : node ≠ y.1 := by
      rintro rfl
      simp at hnode
    have hjoin : lastOf none (front ++ [y]) = some y.1 := by simp
    have hfront : firstOf (front ++ [y] ++ [(node, data)]) none = firstOf (front ++ [y]) none := by
      cases front <;> rfl
    have hcell' : Chain.setNext w.nodes y.1 (some node) node = some ⟨data, none, none⟩ :=
      (setNext_of_ne hne _).trans hcell
    have hy' : Chain.setPrev w.nodes node (some y.1) y.1 = _ := (setPrev_of_ne hne.symm _).trans hy
    have hnodes : Function.update (Chain.setNext w.nodes y.1 (some node)) node (some ⟨data, some y.1, none⟩) =
        Chain.join w.nodes (some y.1) (some node) := by
      rw [Chain.join, setNext_eq_update hy', setNext_eq_update hy, setPrev_eq_update hcell,
        Function.update_comm hne]
    rw [hlast, hfirst, hjoin, hfront]
    dsimp only
    rw [setNext_of_node hy, setPrev_setNext_of_node hcell']
    dsimp only
    rw [hnodes, setList, lastOf_append]
    cases front <;> rfl

/-- `appendleft_node` joins the list to the node. -/
theorem appendleftNode_eq {node : ℕ} {data : α} (h : Chained w.nodes (w.lists i) l)
    (hnode : node ∉ l.map Prod.fst) (hcell : w.nodes node = some ⟨data, none, none⟩) :
    w.appendleftNode i node = { w with
      nodes := Chain.join w.nodes (some node) (firstOf l none)
      lists := Function.update w.lists i ⟨some node, lastOf (some node) l, (w.lists i).len + 1⟩ } := by
  have hlast := h.last
  have hfirst := h.first
  rw [appendleftNode]
  cases l with
  | nil =>
    rw [hlast, hfirst]
    dsimp only [lastOf_nil, firstOf_nil]
    rw [setPrev_setNext_of_node hcell, Chain.join, setNext_eq_update hcell]
    rfl
  | cons z rest =>
    have hz : w.nodes z.1 = _ := h.linked.1
    have hne : node ≠ z.1 := by
      rintro rfl
      simp at hnode
    obtain ⟨last, hend⟩ : ∃ last, lastOf (some z.1) rest = some last := by
      obtain ⟨y, -, hy⟩ := lastOf_mem (List.cons_ne_nil z rest) (some z.1)
      exact ⟨y.1, hy⟩
    have hcell' : Chain.setPrev w.nodes z.1 (some node) node = some ⟨data, none, none⟩ :=
      (setPrev_of_ne hne _).trans hcell
    have hnodes : Function.update (Chain.setPrev w.nodes z.1 (some node)) node (some ⟨data, none, some z.1⟩) =
        Chain.join w.nodes (some node) (some z.1) := by
      rw [Chain.join, setNext_eq_update hcell']
    rw [lastOf_cons] at hlast ⊢
    rw [hlast, hfirst, hend, firstOf_cons]
    dsimp only
    rw [setPrev_of_node hz, setPrev_setNext_of_node hcell']
    dsimp only
    rw [hnodes]
    rfl

/-- `pop_node` unlinks the last node. -/
theorem popNode_eq (h : Chained w.nodes (w.lists i) (l ++ [x])) :
    w.popNode i = (.node x.1, (w.unlinkNode i x.1).2) := by
  have hnode : w.nodes x.1 = some ⟨x.2, lastOf none l, none⟩ := h.node
  have hlen : (w.lists i).len ≠ 0 := by
    rw [h.len]
    simp
  have hlast : (w.lists i).last = some x.1 := by
    rw [h.last]
    simp
  rw [unlinkNode_eq h, popNode, hlast]
  dsimp only
  rw [hnode]
  rcases List.eq_nil_or_concat' l with rfl | ⟨front, y, rfl⟩
  · dsimp only [lastOf_nil, firstOf_nil, List.append_nil, Chain.unlink]
    rw [setShorter, if_neg hlen, Function.update_eq_self_iff.2 hnode.symm]
    rfl
  · have hy : Chained w.nodes (w.lists i) (front ++ y :: [x]) := by simpa using h
    have hprev : lastOf none (front ++ [y]) = some y.1 := by simp
    have hne : x.1 ≠ y.1 := by
      intro heq
      have hnot := hy.not_mem.2.1
      simp [heq] at hnot
    have hx : Chain.setNext w.nodes y.1 none x.1 = some ⟨x.2, some y.1, none⟩ := by
      rw [setNext_of_ne hne, hnode, hprev]
    have hfirst : (w.lists i).first = firstOf (front ++ [y]) none := by
      rw [h.first]
      cases front <;> rfl
    rw [hprev]
    dsimp only
    rw [setNext_of_node hy.node, setPrev_of_node hx, setPrev_eq_update hx, setShorter, if_neg hlen,
      List.append_nil, hprev, ← hfirst]
    rfl

/-- `popleft_node` unlinks the first node. -/
theorem popleftNode_eq (h : Chained w.nodes (w.lists i) (x :: l)) :
    w.popleftNode i = (.node x.1, (w.unlinkNode i x.1).2) := by
  have hnode : w.nodes x.1 = some ⟨x.2, none, firstOf l none⟩ := h.linked.1
  have hlen : (w.lists i).len ≠ 0 := by
    rw [h.len]
    simp
  have hfirst : (w.lists i).first = some x.1 := h.first
  have heq := unlinkNode_eq (l := []) h
  rw [List.nil_append] at heq
  rw [heq, popleftNode, hfirst]
  dsimp only
  rw [hnode]
  cases l with
  | nil =>
    dsimp only [lastOf_nil, firstOf_nil, List.append_nil, Chain.unlink]
    rw [setShorter, if_neg hlen, Function.update_eq_self_iff.2 hnode.symm]
    rfl
  | cons z rest =>
    have hz : Chained w.nodes (w.lists i) ([x] ++ z :: rest) := h
    have hne : x.1 ≠ z.1 := by
      intro heq
      have hnot := hz.not_mem.1
      simp [heq] at hnot
    have hx : Chain.setPrev w.nodes z.1 none x.1 = some ⟨x.2, none, some z.1⟩ := by
      rw [setPrev_of_ne hne, hnode]
      rfl
    have hlast : (w.lists i).last = lastOf none (z :: rest) := h.last
    rw [firstOf_cons]
    dsimp only
    rw [setPrev_of_node hz.node, setNext_of_node hx, setNext_eq_update hx, setShorter, if_neg hlen, ← hlast]
    rfl

/-- `extend` joins the other list to the end and leaves it empty. -/
theorem extend_eq {j : ι} (h : Chained w.nodes (w.lists i) l) (h' : Chained w.nodes (w.lists j) (x :: l'))
    (hij : i ≠ j) (hnodup : ((l ++ x :: l').map Prod.fst).Nodup) :
    w.extend i j = { w with
      nodes := Chain.join w.nodes (lastOf none l) (some x.1)
      lists := Function.update (Function.update w.lists j .init) i
        ⟨firstOf (l ++ x :: l') none, lastOf none (l ++ x :: l'), (w.lists i).len + (w.lists j).len⟩ } := by
  have hfirst' : (w.lists j).first = some x.1 := h'.first
  obtain ⟨last, hend⟩ : ∃ last, lastOf (some x.1) l' = some last := by
    obtain ⟨y, -, hy⟩ := lastOf_mem (List.cons_ne_nil x l') none
    exact ⟨y.1, hy⟩
  have hlast' : (w.lists j).last = some last := h'.last.trans hend
  have hfirst := h.first
  have hlast := h.last
  have hx : w.nodes x.1 = some ⟨x.2, none, firstOf l' none⟩ := h'.linked.1
  rw [extend, hfirst', hlast']
  dsimp only [setList]
  rw [Function.update_of_ne hij, hlast]
  rcases List.eq_nil_or_concat' l with rfl | ⟨front, y, rfl⟩
  · have hnodes : Chain.join w.nodes none (some x.1) = w.nodes := by
      rw [Chain.join, setPrev_eq_update hx]
      exact Function.update_eq_self_iff.2 hx.symm
    rw [lastOf_nil, hnodes]
    dsimp only [List.nil_append, lastOf_cons, firstOf_cons]
    rw [hend]
    rfl
  · have hy : w.nodes y.1 = some ⟨y.2, lastOf none front, none⟩ := h.node
    have hne : x.1 ≠ y.1 := by
      intro heq
      rw [List.map_append, List.nodup_append] at hnodup
      exact hnodup.2.2 y.1 (by simp) x.1 (by simp) heq.symm
    have hy' : Chain.setPrev w.nodes x.1 (some y.1) y.1 = some ⟨y.2, lastOf none front, none⟩ :=
      (setPrev_of_ne hne.symm _).trans hy
    have hprev : lastOf none (front ++ [y]) = some y.1 := by simp
    have hlists : firstOf (front ++ [y] ++ x :: l') none = firstOf (front ++ [y]) none := by
      cases front <;> rfl
    -- the list that is emptied has no part in the links
    have hset : ∀ lists, ((⟨w.nodes, lists, w.fault⟩ : LinkedLists ι α).setPrev x.1 (some y.1)).setNext y.1
        (some x.1) = ⟨Chain.join w.nodes (some y.1) (some x.1), lists, w.fault⟩ := by
      intro lists
      rw [setPrev_of_node (show (⟨w.nodes, lists, w.fault⟩ : LinkedLists ι α).nodes x.1 = _ from hx)]
      exact setNext_of_node hy' _
    rw [hprev, hlists, ← hfirst]
    dsimp only
    rw [hset, lastOf_append, lastOf_cons, hend]
    rfl

/-- `extend` of a list by itself. -/
theorem extend_self (h : Chained w.nodes (w.lists i) l) : w.extend i i = w := by
  have hfirst := h.first
  have hlast := h.last
  rw [extend]
  cases l with
  | nil => rw [hfirst, firstOf_nil]
  | cons x l =>
    obtain ⟨last, hend⟩ : ∃ last, lastOf (some x.1) l = some last := by
      obtain ⟨y, -, hy⟩ := lastOf_mem (List.cons_ne_nil x l) none
      exact ⟨y.1, hy⟩
    have hlast' : (w.lists i).last = some last := hlast.trans hend
    rw [hfirst, firstOf_cons, hlast']
    dsimp only [setList]
    rw [Function.update_self]
    dsimp only
    rw [Function.update_idem, Nat.zero_add, Function.update_eq_self_iff.2]
    rw [← hlast', ← firstOf_cons, ← hfirst]

end Operations

/-! ### All lists -/

section Lists

variable [DecidableEq ι] {w : LinkedLists ι α} {d : Deques ι α} {i : ι}

/-- The lists stand for these deques. -/
structure Holds (w : LinkedLists ι α) (d : Deques ι α) : Prop where
  chained : ∀ i, Chained w.nodes (w.lists i) (d.lists i)
  apart : ∀ i j n, n ∈ d.nodesOf i → n ∈ d.nodesOf j → i = j
  free : ∀ i, ∀ n ∈ d.nodesOf i, d.loose n = none
  loose : ∀ n data, d.loose n = some data → w.nodes n = some ⟨data, none, none⟩
  dead : ∀ n, d.Fresh n → w.nodes n = none
  sound : w.fault = false

omit [DecidableEq ι] in
theorem holds_init : Holds (init : LinkedLists ι α) .empty where
  chained := fun _ => ⟨trivial, rfl, rfl, rfl, List.nodup_nil⟩
  apart := fun _ _ _ h => absurd h List.not_mem_nil
  free := fun _ _ h => absurd h List.not_mem_nil
  loose := nofun
  dead := fun _ _ => rfl
  sound := rfl

/-- Nodes go from outside into a list, or out of it; the other nodes stay as they are. -/
theorem Holds.exchange {nodes' : ℕ → Option (Cell α)} {list' : LinkedList} {l' : List (ℕ × α)}
    {loose' : ℕ → Option α} (h : Holds w d) (hchained : Chained nodes' list' l')
    (hsame : ∀ n, n ∉ d.nodesOf i → d.loose n = none → nodes' n = w.nodes n)
    (hplaces : ∀ n, n ∈ l'.map Prod.fst ∨ loose' n ≠ none ↔ n ∈ d.nodesOf i ∨ d.loose n ≠ none)
    (hfree : ∀ n ∈ l'.map Prod.fst, loose' n = none)
    (hloose : ∀ n data, loose' n = some data → nodes' n = some ⟨data, none, none⟩) :
    Holds { w with nodes := nodes', lists := Function.update w.lists i list' }
      ⟨Function.update d.lists i l', loose'⟩ := by
  have hself : (⟨Function.update d.lists i l', loose'⟩ : Deques ι α).nodesOf i = l'.map Prod.fst := by
    dsimp only [Deques.nodesOf]
    rw [Function.update_self]
  have hother : ∀ j, j ≠ i → (⟨Function.update d.lists i l', loose'⟩ : Deques ι α).nodesOf j = d.nodesOf j := by
    intro j hj
    dsimp only [Deques.nodesOf]
    rw [Function.update_of_ne hj]
  -- a node of another list is not among those that were exchanged
  have haway : ∀ j, j ≠ i → ∀ n ∈ d.nodesOf j, n ∉ l'.map Prod.fst ∧ loose' n = none := by
    intro j hj n hn
    by_contra hnot
    rw [not_and_or, not_not] at hnot
    rcases (hplaces n).1 hnot with hmem | hmem
    · exact hj (h.apart j i n hn hmem)
    · exact hmem (h.free j n hn)
  refine ⟨fun j => ?_, fun j k n hj hk => ?_, fun j n hj => ?_, hloose, fun n hn => ?_, h.sound⟩
  · by_cases hj : j = i
    · subst hj
      dsimp only
      rw [Function.update_self, Function.update_self]
      exact hchained
    · dsimp only
      rw [Function.update_of_ne hj, Function.update_of_ne hj]
      refine (h.chained j).congr fun x hx => ?_
      have hmem : x.1 ∈ d.nodesOf j := List.mem_map_of_mem hx
      exact hsame x.1 (fun hi => hj (h.apart j i _ hmem hi)) (h.free j _ hmem)
  · by_cases hji : j = i
    · subst hji
      by_contra hne
      rw [hother k (Ne.symm hne)] at hk
      rw [hself] at hj
      exact (haway k (Ne.symm hne) n hk).1 hj
    · rw [hother j hji] at hj
      by_cases hki : k = i
      · subst hki
        rw [hself] at hk
        exact absurd hk (haway j hji n hj).1
      · rw [hother k hki] at hk
        exact h.apart j k n hj hk
  · by_cases hji : j = i
    · subst hji
      rw [hself] at hj
      exact hfree n hj
    · rw [hother j hji] at hj
      exact (haway j hji n hj).2
  · have hnot : ¬(n ∈ d.nodesOf i ∨ d.loose n ≠ none) := by
      rw [← hplaces n, not_or, not_not, ← hself]
      exact ⟨hn.2 i, hn.1⟩
    rw [not_or, not_not] at hnot
    refine (hsame n hnot.1 hnot.2).trans (h.dead n ⟨hnot.2, fun j => ?_⟩)
    by_cases hji : j = i
    · exact hji ▸ hnot.1
    · exact hother j hji ▸ hn.2 j

variable {n : ℕ} {data : α}

omit [DecidableEq ι] in
theorem Holds.create (h : Holds w d) (hfresh : d.Fresh n) :
    Holds { w with nodes := Function.update w.nodes n (some ⟨data, none, none⟩) } (d.create data n) := by
  refine ⟨fun i => ?_, h.apart, fun i m hm => ?_, fun m a hm => ?_, fun m hm => ?_, h.sound⟩
  · refine (h.chained i).congr fun x hx => Function.update_of_ne ?_ _ _
    rintro rfl
    exact hfresh.2 i (List.mem_map_of_mem hx)
  · have hne : m ≠ n := by
      rintro rfl
      exact hfresh.2 i hm
    exact (Function.update_of_ne hne _ _).trans (h.free i m hm)
  · by_cases hmn : m = n
    · subst hmn
      have hdata : some data = some a := by simpa [Deques.create] using hm
      rw [← Option.some.inj hdata]
      exact Function.update_self ..
    · have hm' : d.loose m = some a := by simpa [Deques.create, hmn] using hm
      exact (Function.update_of_ne hmn _ _).trans (h.loose m a hm')
  · have hne : m ≠ n := by
      rintro rfl
      have hnone := hm.1
      simp [Deques.create] at hnone
    refine (Function.update_of_ne hne _ _).trans (h.dead m ⟨?_, hm.2⟩)
    exact (Function.update_of_ne hne _ _).symm.trans hm.1

omit [DecidableEq ι] in
theorem Holds.release (h : Holds w d) (hn : d.loose n = some data) :
    Holds (w.releaseNode n) (d.release n) := by
  have hcell := h.loose n data hn
  have hnot : ∀ i, n ∉ d.nodesOf i := by
    intro i hmem
    exact nomatch hn.symm.trans (h.free i n hmem)
  rw [releaseNode, if_pos (by rw [hcell]; rfl)]
  refine ⟨fun i => ?_, h.apart, fun i m hm => ?_, fun m a hm => ?_, fun m hm => ?_, h.sound⟩
  · refine (h.chained i).congr fun x hx => Function.update_of_ne ?_ _ _
    rintro rfl
    exact hnot i (List.mem_map_of_mem hx)
  · have hne : m ≠ n := by
      rintro rfl
      exact hnot i hm
    exact (Function.update_of_ne hne _ _).trans (h.free i m hm)
  · have hne : m ≠ n := by
      rintro rfl
      simp [Deques.release] at hm
    refine (Function.update_of_ne hne _ _).trans (h.loose m a ?_)
    exact (Function.update_of_ne hne _ _).symm.trans hm
  · by_cases hmn : m = n
    · subst hmn
      exact Function.update_self ..
    · refine (Function.update_of_ne hmn _ _).trans (h.dead m ⟨?_, hm.2⟩)
      exact (Function.update_of_ne hmn _ _).symm.trans hm.1

/-- Unlinking a node of the list. -/
theorem Holds.unlink (h : Holds w d) (hi : d.lists i = l ++ x :: l') :
    (w.unlinkNode i x.1).1 = .done ∧ Holds (w.unlinkNode i x.1).2 (d.unlink i x) := by
  have hchained := h.chained i
  rw [hi] at hchained
  obtain ⟨hx, hx', hnodup⟩ := hchained.not_mem
  rw [unlinkNode_eq hchained]
  refine ⟨rfl, ?_⟩
  have hfilter : (d.lists i).filter (fun y => y.1 ≠ x.1) = l ++ l' := by
    have hkeep : ∀ k : List (ℕ × α), x.1 ∉ k.map Prod.fst → k.filter (fun y => decide (y.1 ≠ x.1)) = k := by
      intro k hk
      refine List.filter_eq_self.2 fun y hy => decide_eq_true ?_
      intro heq
      exact hk (heq ▸ List.mem_map_of_mem hy)
    rw [hi, List.filter_append, List.filter_cons_of_neg (by simp), hkeep l hx, hkeep l' hx']
  rw [Deques.unlink, hfilter]
  have hnodes : d.nodesOf i = l.map Prod.fst ++ x.1 :: l'.map Prod.fst := by
    rw [Deques.nodesOf, hi, List.map_append, List.map_cons]
  refine h.exchange hchained.unlink (fun n hn _ => ?_) (fun n => ?_) (fun n hn => ?_) (fun n a hn => ?_)
  · rw [hnodes] at hn
    simp only [List.mem_append, List.mem_cons, not_or] at hn
    rw [Function.update_of_ne hn.2.1]
    exact unlink_of_ne (ne_lastOf (by simp) hn.1) (ne_firstOf hn.2.2)
  · rw [hnodes]
    by_cases hnx : n = x.1
    · subst hnx
      simp
    · simp [hnx]
  · have hne : n ≠ x.1 := by
      rintro rfl
      rw [List.map_append, List.mem_append] at hn
      exact hn.elim hx hx'
    rw [Function.update_of_ne hne]
    refine h.free i n ?_
    rw [hnodes]
    rw [List.map_append, List.mem_append] at hn
    simp only [List.mem_append, List.mem_cons]
    exact hn.imp_right .inr
  · by_cases hnx : n = x.1
    · subst hnx
      rw [Function.update_self] at hn
      rw [Function.update_self, Option.some.inj hn]
    · rw [Function.update_of_ne hnx] at hn
      have hnot : n ∉ d.nodesOf i := fun hmem => nomatch hn.symm.trans (h.free i n hmem)
      rw [hnodes] at hnot
      simp only [List.mem_append, List.mem_cons, not_or] at hnot
      rw [Function.update_of_ne hnx, unlink_of_ne (ne_lastOf (by simp) hnot.1) (ne_firstOf hnot.2.2)]
      exact h.loose n a hn

/-- **Unlinking a node that is in no list** returns an error and changes nothing. -/
theorem Holds.unlink_loose (h : Holds w d) (hn : d.loose n = some data) :
    w.unlinkNode i n = (.failed (if d.lists i = [] then .linkedListEmpty else .nodeNotInList), w) := by
  have hlen := (h.chained i).len
  rw [unlinkNode]
  by_cases hl : d.lists i = []
  · have hlen' : (w.lists i).len = 0 := by
      rw [hlen, hl]
      rfl
    rw [if_pos hlen', if_pos hl]
  · have hnot : n ∉ (d.lists i).map Prod.fst := fun hmem => nomatch hn.symm.trans (h.free i n hmem)
    have hlen' : (w.lists i).len ≠ 0 := by
      rw [hlen]
      exact fun h0 => hl (List.length_eq_zero_iff.1 h0)
    rw [if_neg hlen', if_neg hl, h.loose n data hn]
    dsimp only
    refine if_pos ⟨rfl, rfl, ?_, ?_⟩
    · rw [(h.chained i).first]
      exact ne_firstOf hnot
    · rw [(h.chained i).last]
      exact ne_lastOf (by simp) hnot

/-- A node that was in no list is in a list. -/
theorem Holds.link {nodes' : ℕ → Option (Cell α)} {list' : LinkedList} {l' : List (ℕ × α)} (h : Holds w d)
    (hn : d.loose n = some data) (hchained : Chained nodes' list' l')
    (hsame : ∀ m, m ≠ n → m ∉ d.nodesOf i → nodes' m = w.nodes m)
    (hnodes : ∀ m, m ∈ l'.map Prod.fst ↔ m = n ∨ m ∈ d.nodesOf i) :
    Holds { w with nodes := nodes', lists := Function.update w.lists i list' }
      ⟨Function.update d.lists i l', Function.update d.loose n none⟩ := by
  refine h.exchange hchained (fun m hm hloose => ?_) (fun m => ?_) (fun m hm => ?_) (fun m a hm => ?_)
  · refine hsame m ?_ hm
    rintro rfl
    exact nomatch hn.symm.trans hloose
  · rw [hnodes]
    by_cases hmn : m = n
    · subst hmn
      simp [hn]
    · simp [hmn]
  · by_cases hmn : m = n
    · subst hmn
      exact Function.update_self ..
    · rw [Function.update_of_ne hmn]
      exact h.free i m (((hnodes m).1 hm).resolve_left hmn)
  · have hmn : m ≠ n := by
      rintro rfl
      rw [Function.update_self] at hm
      exact nomatch hm
    rw [Function.update_of_ne hmn] at hm
    rw [hsame m hmn fun hmem => nomatch hm.symm.trans (h.free i m hmem)]
    exact h.loose m a hm

theorem Holds.appendNode (h : Holds w d) (hn : d.loose n = some data) :
    Holds (w.appendNode i n) (d.link i n Deques.atEnd) := by
  have hcell := h.loose n data hn
  have hnot : n ∉ (d.lists i).map Prod.fst := fun hmem => nomatch hn.symm.trans (h.free i n hmem)
  have hnodup : ((d.lists i ++ [(n, data)]).map Prod.fst).Nodup := by
    rw [List.map_append, List.nodup_append]
    refine ⟨(h.chained i).nodup, List.nodup_singleton n, fun a ha b hb heq => hnot ?_⟩
    rw [List.map_singleton, List.mem_singleton] at hb
    rw [heq, hb] at ha
    exact ha
  rw [appendNode_eq (h.chained i) hnot hcell, Deques.link, hn]
  refine h.link hn ((h.chained i).join (chained_single hcell) hnodup) (fun m hm hi => ?_) fun m => ?_
  · exact join_of_ne (ne_lastOf (by simp) hi) fun heq => hm (Option.some.inj heq).symm
  · simp [Deques.nodesOf, Deques.atEnd, or_comm]

theorem Holds.appendleftNode (h : Holds w d) (hn : d.loose n = some data) :
    Holds (w.appendleftNode i n) (d.link i n List.cons) := by
  have hcell := h.loose n data hn
  have hnot : n ∉ (d.lists i).map Prod.fst := fun hmem => nomatch hn.symm.trans (h.free i n hmem)
  have hnodup : (([(n, data)] ++ d.lists i).map Prod.fst).Nodup :=
    List.nodup_cons.2 ⟨hnot, (h.chained i).nodup⟩
  have hchained := (chained_single hcell).join (h.chained i) hnodup
  rw [appendleftNode_eq (h.chained i) hnot hcell, Deques.link, hn, Nat.add_comm]
  refine h.link hn hchained (fun m hm hi => ?_) fun m => ?_
  · exact join_of_ne (fun heq => hm (Option.some.inj heq).symm) (ne_firstOf hi)
  · simp [Deques.nodesOf]

/-- All nodes of one list go to the end of another. -/
theorem Holds.extend {j : ι} (h : Holds w d) (hij : i ≠ j) :
    Holds (w.extend i j)
      { d with lists := Function.update (Function.update d.lists j []) i (d.lists i ++ d.lists j) } := by
  have hchained := h.chained j
  cases hj : d.lists j with
  | nil =>
    rw [hj] at hchained
    have hlists : Function.update (Function.update d.lists j []) i (d.lists i ++ []) = d.lists := by
      rw [List.append_nil, ← hj, Function.update_eq_self, Function.update_eq_self]
    rw [LinkedLists.extend, hchained.first, hlists]
    exact h
  | cons x l' =>
    rw [hj] at hchained
    have hnodup : ((d.lists i ++ x :: l').map Prod.fst).Nodup := by
      rw [List.map_append, List.nodup_append]
      refine ⟨(h.chained i).nodup, hchained.nodup, fun a ha b hb heq => hij (h.apart i j a ha ?_)⟩
      rw [Deques.nodesOf, hj, heq]
      exact hb
    rw [extend_eq (h.chained i) hchained hij hnodup]
    have hjoined := (h.chained i).join hchained hnodup
    -- where the nodes are now
    have hmem : ∀ k m, m ∈ (Function.update (Function.update d.lists j []) i (d.lists i ++ x :: l') k).map Prod.fst ↔
        if k = i then m ∈ d.nodesOf i ∨ m ∈ d.nodesOf j else k ≠ j ∧ m ∈ d.nodesOf k := by
      intro k m
      by_cases hki : k = i
      · subst hki
        rw [Function.update_self, if_pos rfl, List.map_append, List.mem_append, Deques.nodesOf, Deques.nodesOf, hj]
      · rw [Function.update_of_ne hki, if_neg hki]
        by_cases hkj : k = j
        · subst hkj
          simp
        · rw [Function.update_of_ne hkj, Deques.nodesOf]
          simp [hkj]
    refine ⟨fun k => ?_, fun a b m ha hb => ?_, fun k m hm => ?_, fun m a hm => ?_, fun m hm => ?_, h.sound⟩
    · dsimp only
      by_cases hki : k = i
      · subst hki
        rw [Function.update_self, Function.update_self]
        exact hjoined
      · rw [Function.update_of_ne hki, Function.update_of_ne hki]
        by_cases hkj : k = j
        · subst hkj
          rw [Function.update_self, Function.update_self]
          exact ⟨trivial, rfl, rfl, rfl, List.nodup_nil⟩
        · rw [Function.update_of_ne hkj, Function.update_of_ne hkj]
          refine (h.chained k).congr fun y hy => ?_
          have hyk : y.1 ∈ d.nodesOf k := List.mem_map_of_mem hy
          refine join_of_ne (ne_lastOf (by simp) fun hi => hki (h.apart k i _ hyk hi)) fun heq => hkj ?_
          refine h.apart k j _ hyk ?_
          rw [Deques.nodesOf, hj, ← Option.some.inj heq]
          exact List.mem_cons_self
    · have ha := (hmem a m).1 ha
      have hb := (hmem b m).1 hb
      -- a third list has none of the nodes that moved
      have hthird : ∀ k, k ≠ j → m ∈ d.nodesOf k → m ∈ d.nodesOf i ∨ m ∈ d.nodesOf j → k = i := by
        rintro k hkj hk (hi | hj)
        · exact h.apart k i m hk hi
        · exact absurd (h.apart k j m hk hj) hkj
      split_ifs at ha hb with hai hbi hbi
      · rw [hai, hbi]
      · exact absurd (hthird b hb.1 hb.2 ha) hbi
      · exact absurd (hthird a ha.1 ha.2 hb) hai
      · exact h.apart a b m ha.2 hb.2
    · have hm := (hmem k m).1 hm
      split_ifs at hm
      · exact hm.elim (h.free i m) (h.free j m)
      · exact h.free k m hm.2
    · have hnot : ∀ k, m ∉ d.nodesOf k := fun k hk => nomatch hm.symm.trans (h.free k m hk)
      rw [← h.loose m a hm]
      refine join_of_ne (ne_lastOf (by simp) (hnot i)) fun heq => hnot j ?_
      rw [Deques.nodesOf, hj, ← Option.some.inj heq]
      exact List.mem_cons_self
    · have hmoved : m ∉ d.nodesOf i ∧ m ∉ d.nodesOf j := by
        have hi := hm.2 i
        rw [Deques.nodesOf, hmem i m, if_pos rfl, not_or] at hi
        exact hi
      have hfresh : d.Fresh m := by
        refine ⟨hm.1, fun k hk => ?_⟩
        by_cases hki : k = i
        · exact hmoved.1 (hki ▸ hk)
        · have hk' := hm.2 k
          rw [Deques.nodesOf, hmem k m, if_neg hki, not_and] at hk'
          exact hk' (fun hkj => hmoved.2 (hkj ▸ hk)) hk
      rw [← h.dead m hfresh]
      refine join_of_ne (ne_lastOf (by simp) hmoved.1) fun heq => hmoved.2 ?_
      rw [Deques.nodesOf, hj, ← Option.some.inj heq]
      exact List.mem_cons_self

/-! ### One operation and a run -/

omit [DecidableEq ι] in
theorem mem_split (h : n ∈ d.nodesOf i) : ∃ l x l', d.lists i = l ++ x :: l' ∧ x.1 = n := by
  obtain ⟨x, hx, rfl⟩ := List.mem_map.1 h
  obtain ⟨l, l', hl⟩ := List.append_of_mem hx
  exact ⟨l, x, l', hl, rfl⟩

/-- The same outcome, and the lists still stand for the deques. -/
def Agrees (p : Outcome α × LinkedLists ι α) (q : Outcome α × Deques ι α) : Prop := p.1 = q.1 ∧ Holds p.2 q.2

omit [DecidableEq ι] in
/-- `append` and `appendleft`: a new node is put in a list. -/
theorem Holds.createThen (h : Holds w d) {address : Option ℕ} (haddress : ∀ n ∈ address, d.Fresh n)
    {put : LinkedLists ι α → ℕ → LinkedLists ι α} {put' : Deques ι α → ℕ → Deques ι α}
    (hput : ∀ w d n, Holds w d → d.loose n = some data → Holds (put w n) (put' d n)) :
    Agrees (match w.createNewNode data address with
        | (.node n, w) => (.done, put w n)
        | failed => failed) (d.createThen data address fun n d => (.done, put' d n)) := by
  cases address with
  | none => exact ⟨rfl, h⟩
  | some n => exact ⟨rfl, hput _ _ n (h.create (haddress n rfl)) (Function.update_self ..)⟩

/-- A node at one of the ends is unlinked. -/
theorem Holds.takeNode (h : Holds w d) (hi : d.lists i = l ++ x :: l') :
    Agrees (.node x.1, (w.unlinkNode i x.1).2) (.node x.1, d.unlink i x) := ⟨rfl, (h.unlink hi).2⟩

/-- Its data is returned, and it is destroyed. -/
theorem Holds.takeData (h : Holds w d) (hi : d.lists i = l ++ x :: l') :
    Agrees (LinkedLists.takeData (.node x.1, (w.unlinkNode i x.1).2)) (.data x.2, (d.unlink i x).release x.1) := by
  have hloose : (d.unlink i x).loose x.1 = some x.2 := Function.update_self ..
  have hunlinked := (h.unlink hi).2
  rw [LinkedLists.takeData, hunlinked.loose _ _ hloose]
  exact ⟨rfl, hunlinked.release hloose⟩

theorem Holds.popNode_nil (h : Holds w d) (hi : d.lists i = []) :
    w.popNode i = (.failed .linkedListEmpty, w) := by
  have hlast := (h.chained i).last
  rw [hi, lastOf_nil] at hlast
  rw [popNode, hlast]

theorem Holds.popNode (h : Holds w d) (hi : d.lists i = l ++ [x]) :
    w.popNode i = (.node x.1, (w.unlinkNode i x.1).2) := by
  have hchained := h.chained i
  rw [hi] at hchained
  exact popNode_eq hchained

theorem Holds.popleftNode_nil (h : Holds w d) (hi : d.lists i = []) :
    w.popleftNode i = (.failed .linkedListEmpty, w) := by
  have hfirst := (h.chained i).first
  rw [hi, firstOf_nil] at hfirst
  rw [popleftNode, hfirst]

theorem Holds.popleftNode (h : Holds w d) (hi : d.lists i = x :: l) :
    w.popleftNode i = (.node x.1, (w.unlinkNode i x.1).2) := by
  have hchained := h.chained i
  rw [hi] at hchained
  exact popleftNode_eq hchained

/-- Every allowed operation on the lists is that of the deques. -/
theorem Holds.step (h : Holds w d) {op : Op ι α} (hop : d.Allowed op) : Agrees (w.step op) (d.step op) := by
  cases op with
  | createNewNode data address =>
    cases address with
    | none => exact ⟨rfl, h⟩
    | some n => exact ⟨rfl, h.create (hop n rfl)⟩
  | releaseNode n =>
    obtain ⟨data, hn⟩ := Option.ne_none_iff_exists'.1 hop
    exact ⟨rfl, h.release hn⟩
  | unlinkNode i n =>
    rcases hop with hmem | hloose
    · obtain ⟨l, x, l', hi, rfl⟩ := mem_split hmem
      have hchained := h.chained i
      rw [hi] at hchained
      have hfind : (d.lists i).find? (fun y => y.1 = x.1) = some x := by
        have hbefore : l.find? (fun y => decide (y.1 = x.1)) = none := by
          refine List.find?_eq_none.2 fun y hy heq => hchained.not_mem.1 ?_
          exact of_decide_eq_true heq ▸ List.mem_map_of_mem hy
        rw [hi, List.find?_append, hbefore, List.find?_cons_of_pos (by simp)]
        rfl
      obtain ⟨hdone, hholds⟩ := h.unlink hi
      simp only [LinkedLists.step, Deques.step, hfind]
      exact ⟨hdone, hholds⟩
    · obtain ⟨data, hn⟩ := Option.ne_none_iff_exists'.1 hloose
      have hfind : (d.lists i).find? (fun y => y.1 = n) = none := by
        refine List.find?_eq_none.2 fun y hy heq => ?_
        have hmem : n ∈ d.nodesOf i := of_decide_eq_true heq ▸ List.mem_map_of_mem hy
        exact nomatch hn.symm.trans (h.free i n hmem)
      simp only [LinkedLists.step, Deques.step, hfind, h.unlink_loose hn]
      exact ⟨rfl, h⟩
  | appendNode i n =>
    obtain ⟨data, hn⟩ := Option.ne_none_iff_exists'.1 hop
    exact ⟨rfl, h.appendNode hn⟩
  | append i data address => exact h.createThen hop fun _ _ _ h hn => h.appendNode hn
  | appendleftNode i n =>
    obtain ⟨data, hn⟩ := Option.ne_none_iff_exists'.1 hop
    exact ⟨rfl, h.appendleftNode hn⟩
  | appendleft i data address => exact h.createThen hop fun _ _ _ h hn => h.appendleftNode hn
  | popNode i =>
    simp only [LinkedLists.step, Deques.step]
    rcases List.eq_nil_or_concat' (d.lists i) with hi | ⟨l, x, hi⟩
    · rw [h.popNode_nil hi, hi]
      exact ⟨rfl, h⟩
    · rw [h.popNode hi, hi, List.getLast?_append_cons]
      exact h.takeNode hi
  | pop i =>
    simp only [LinkedLists.step, Deques.step, pop]
    rcases List.eq_nil_or_concat' (d.lists i) with hi | ⟨l, x, hi⟩
    · rw [h.popNode_nil hi, hi]
      exact ⟨rfl, h⟩
    · rw [h.popNode hi, hi, List.getLast?_append_cons]
      exact h.takeData hi
  | popleftNode i =>
    simp only [LinkedLists.step, Deques.step]
    cases hi : d.lists i with
    | nil =>
      rw [h.popleftNode_nil hi]
      exact ⟨rfl, h⟩
    | cons x l =>
      rw [h.popleftNode hi]
      exact h.takeNode (l := []) hi
  | popleft i =>
    simp only [LinkedLists.step, Deques.step, popleft]
    cases hi : d.lists i with
    | nil =>
      rw [h.popleftNode_nil hi]
      exact ⟨rfl, h⟩
    | cons x l =>
      rw [h.popleftNode hi]
      exact h.takeData (l := []) hi
  | extend i j =>
    simp only [LinkedLists.step, Deques.step]
    split
    · rename_i hij
      subst hij
      refine ⟨rfl, ?_⟩
      rw [extend_self (h.chained i)]
      exact h
    · exact ⟨rfl, h.extend ‹_›⟩

theorem Holds.run (h : Holds w d) {ops : List (Op ι α)} (hops : d.AllowedRun ops) :
    (w.run ops).1 = (d.run ops).1 ∧ Holds (w.run ops).2 (d.run ops).2 := by
  induction ops generalizing w d with
  | nil => exact ⟨rfl, h⟩
  | cons op ops ih =>
    obtain ⟨hout, hholds⟩ := h.step hops.1
    obtain ⟨houts, hrest⟩ := ih hholds hops.2
    exact ⟨congrArg₂ List.cons hout houts, hrest⟩

/-- **Some lists are some deques.** In every allowed run the operations on the lists return what those on the
deques return, the links, ends and counters are those of the deques, and unlinking a node that is in no list
returns an error and changes nothing. -/
theorem lists_are_deques (ops : List (Op ι α)) (hops : (Deques.empty : Deques ι α).AllowedRun ops) :
    ((init : LinkedLists ι α).run ops).1 = (Deques.empty.run ops).1 ∧
      Holds ((init : LinkedLists ι α).run ops).2 (Deques.empty.run ops).2 ∧
      ∀ i n, (Deques.empty.run ops).2.loose n ≠ none →
        ∃ error, ((init : LinkedLists ι α).run ops).2.unlinkNode i n =
          (.failed error, ((init : LinkedLists ι α).run ops).2) := by
  obtain ⟨houts, hholds⟩ := holds_init.run hops
  refine ⟨houts, hholds, fun i n hn => ?_⟩
  obtain ⟨data, hn⟩ := Option.ne_none_iff_exists'.1 hn
  exact ⟨_, hholds.unlink_loose hn⟩

/-- Three nodes in two lists, one of them unlinked twice and then put in the other list. -/
theorem lists_are_deques_three :
    (((init : LinkedLists Bool ℕ).run [.append false 10 (some 0), .append false 11 (some 1),
      .appendleft true 12 (some 2), .unlinkNode false 0, .unlinkNode false 0, .appendNode true 0,
      .extend false true, .popleft false]).1) =
    [.done, .done, .done, .done, .failed .nodeNotInList, .done, .done, .data 11] := by
  refine (lists_are_deques _ ?_).1.trans ?_
  · decide
  · decide

/-- A node that was unlinked and is in another list by now is unlinked from that list, and it is the ends and the
counter of the first one that change; a node that `pop` returned the data of is gone, and its links are read all
the same. -/
theorem unlinked_again :
    (((init : LinkedLists Bool ℕ).run [.append false 10 (some 0), .append false 11 (some 1), .unlinkNode false 0,
        .appendNode true 0, .append true 12 (some 2), .unlinkNode false 0]).1.getLast? = some .done ∧
      ((init : LinkedLists Bool ℕ).run [.append false 10 (some 0), .append false 11 (some 1), .unlinkNode false 0,
        .appendNode true 0, .append true 12 (some 2), .unlinkNode false 0]).2.lists false =
          ⟨some 2, some 1, 0⟩) ∧
    ((init : LinkedLists Bool ℕ).run [.append false 10 (some 0), .append false 11 (some 1), .pop false,
      .unlinkNode false 1]).2.fault = true := by
  decide

end Lists

end LinkedLists

end Talyn
