import Talyn.Utils.LruCache

/-!
# The nodes of an `LRUCache`

`Holds c l` says that the linked list and the map of a cache both hold the nodes `l`, and `Refines` that
these are the entries of an `Lru`. Every operation is an operation of the `Lru`, and what leaves the cache
there is what `evict_callback` is called with.
-/

namespace Talyn

namespace LRUCache

open Chain

variable {K V : Type} {c : LRUCache K V} {l l' : List (ℕ × K × V)} {x : ℕ × K × V}

/-- The linked list holds these nodes. -/
structure Links (c : LRUCache K V) (l : List (ℕ × K × V)) : Prop where
  linked : Linked c.nodes none l none
  head : c.head = firstOf l none
  tail : c.tail = lastOf none l
  nodup : (l.map Prod.fst).Nodup

/-! ### The linked list -/

section Node

variable {i : ℕ} {cell : Cell (K × V)}

theorem setNext_of_node (h : c.nodes i = some cell) (next : Option ℕ) :
    c.setNext i next = { c with nodes := Chain.setNext c.nodes i next } := if_pos (by rw [h]; rfl)

theorem setPrev_of_node (h : c.nodes i = some cell) (prev : Option ℕ) :
    c.setPrev i prev = { c with nodes := Chain.setPrev c.nodes i prev } := if_pos (by rw [h]; rfl)

theorem destroy_of_node (h : c.nodes i = some cell) :
    c.destroy i = { c with nodes := Function.update c.nodes i none } := if_pos (by rw [h]; rfl)

end Node

theorem Links.node (h : Links c (l ++ x :: l')) :
    c.nodes x.1 = some ⟨x.2, lastOf none l, firstOf l' none⟩ := (linked_append.1 h.linked).2.1

/-- The numbers of the nodes around a node. -/
theorem Links.not_mem (h : Links c (l ++ x :: l')) :
    x.1 ∉ l.map Prod.fst ∧ x.1 ∉ l'.map Prod.fst ∧ ((l ++ l').map Prod.fst).Nodup := by
  have hnodup := h.nodup
  rw [List.map_append, List.map_cons, List.nodup_middle, List.nodup_cons, List.mem_append, not_or,
    ← List.map_append] at hnodup
  exact ⟨hnodup.1.1, hnodup.1.2, hnodup.2⟩

/-- `remove_node` links the neighbours of the node to each other. -/
theorem removeNode_eq (h : Links c (l ++ x :: l')) :
    c.removeNode x.1 = { c with
      nodes := unlink c.nodes (lastOf none l) (firstOf l' none)
      head := firstOf (l ++ l') none
      tail := lastOf none (l ++ l') } := by
  obtain ⟨hx, hx', hnodup⟩ := h.not_mem
  have hprev : c.unlinkPrev x.1 = { c with
      nodes := (lastOf none l).elim c.nodes fun p => Chain.setNext c.nodes p (firstOf l' none)
      head := firstOf (l ++ l') none } := by
    rw [unlinkPrev, h.node]
    dsimp only
    rcases List.eq_nil_or_concat' l with rfl | ⟨front, y, rfl⟩
    · rfl
    · have hfront : Links c (front ++ y :: (x :: l')) := by simpa using h
      have hhead : c.head = firstOf (front ++ [y] ++ l') none := by
        rw [h.head]
        simp
      rw [lastOf_append, lastOf_cons, lastOf_nil]
      dsimp only
      rw [setNext_of_node hfront.node, ← hhead, Option.elim_some]
  have hsame : ∀ i, i ∉ l.map Prod.fst → (c.unlinkPrev x.1).nodes i = c.nodes i := by
    intro i hi
    rw [hprev]
    dsimp only
    cases hlast : lastOf none l with
    | none => rfl
    | some p =>
      have hne := ne_lastOf (Option.some_ne_none i).symm hi
      rw [hlast] at hne
      exact setNext_of_ne (fun heq => hne (congrArg some heq.symm)) _
  rw [removeNode, unlinkNext, hsame _ hx, h.node]
  dsimp only
  cases l' with
  | nil =>
    rw [hprev, List.append_nil]
    cases lastOf none l <;> rfl
  | cons z rest =>
    have hz : Links c ((l ++ [x]) ++ z :: rest) := by simpa using h
    have hz' : z.1 ∉ l.map Prod.fst := by
      have hnot := hz.not_mem.1
      rw [List.map_append, List.mem_append, not_or] at hnot
      exact hnot.1
    have htail : c.tail = lastOf none (l ++ z :: rest) := by
      rw [h.tail]
      simp
    rw [firstOf_cons]
    dsimp only
    rw [setPrev_of_node ((hsame _ hz').trans hz.node), hprev, ← htail]
    cases lastOf none l <;> rfl

/-- The links without the node. -/
theorem Links.removeNode (h : Links c (l ++ x :: l')) : Links (c.removeNode x.1) (l ++ l') := by
  rw [removeNode_eq h]
  exact ⟨h.linked.unlink h.nodup, rfl, rfl, h.not_mem.2.2⟩

/-- `prepend` links a node before the first one. -/
theorem prepend_eq {i : ℕ} {cell : Cell (K × V)} (h : Links c l) (hi : i ∉ l.map Prod.fst)
    (hcell : c.nodes i = some cell) :
    c.prepend i = { c with
      nodes := push c.nodes i (firstOf l none)
      head := some i
      tail := lastOf (some i) l } := by
  have hset : (c.setNext i c.head).setPrev i none = { c with
      nodes := Chain.setPrev (Chain.setNext c.nodes i (firstOf l none)) i none } := by
    have hnode : Chain.setNext c.nodes i c.head i = some { cell with next := c.head } := by
      rw [Chain.setNext, Function.update_self, hcell]
      rfl
    rw [setNext_of_node hcell, setPrev_of_node hnode, h.head]
  rw [prepend, hset]
  dsimp only
  cases l with
  | nil =>
    rw [h.head, h.tail]
    rfl
  | cons z rest =>
    have hz : (Chain.setPrev (Chain.setNext c.nodes i (firstOf (z :: rest) none)) i none) z.1 =
        some ⟨z.2, none, firstOf rest none⟩ := by
      have hne : z.1 ≠ i := fun heq => hi (heq ▸ List.mem_cons_self)
      rw [setPrev_of_ne hne, setNext_of_ne hne]
      exact h.linked.1
    have htail : c.tail = lastOf (some i) (z :: rest) := h.tail
    have hsome : c.tail ≠ none := by
      obtain ⟨y, -, hlast⟩ := lastOf_mem (List.cons_ne_nil z rest) (some i)
      rw [htail, hlast]
      exact Option.some_ne_none _
    rw [h.head, firstOf_cons]
    dsimp only
    rw [firstOf_cons] at hz
    rw [setPrev_of_node hz, setHead, if_neg hsome, ← htail]
    rfl

/-- The links with a new first node. -/
theorem Links.prepend {i : ℕ} {cell : Cell (K × V)} (h : Links c l) (hi : i ∉ l.map Prod.fst)
    (hcell : c.nodes i = some cell) : Links (c.prepend i) ((i, cell.item) :: l) := by
  rw [prepend_eq h hi hcell]
  exact ⟨h.linked.push hi h.nodup hcell, rfl, rfl, List.nodup_cons.2 ⟨hi, h.nodup⟩⟩

/-- Only the nodes and the ends count. -/
theorem Links.congr {c' : LRUCache K V} (h : Links c l) (hnodes : c'.nodes = c.nodes)
    (hhead : c'.head = c.head) (htail : c'.tail = c.tail) : Links c' l :=
  ⟨hnodes ▸ h.linked, hhead.trans h.head, htail.trans h.tail, h.nodup⟩

/-! ### The map -/

section Map

variable {C : Type} {content : K → C} {key : K}

/-- The linked list and the map hold these nodes, and nothing else is there. -/
structure Holds (content : K → C) (c : LRUCache K V) (l : List (ℕ × K × V)) : Prop where
  links : Links c l
  map : c.map.Perm (l.map fun x => (x.2.1, x.1))
  contents : (l.map fun x => content x.2.1).Nodup
  dead : ∀ i, i ∉ l.map Prod.fst → c.nodes i = none
  freed : ∀ x ∈ l, x.2.1 ∉ c.freed
  sound : c.fault = false

theorem Holds.readKeys_eq [DecidableEq K] (h : Holds content c l) (hkey : key ∉ c.freed) : c.readKeys key = c := by
  have hread : ¬∃ k ∈ key :: c.map.map Prod.fst, k ∈ c.freed := by
    rintro ⟨k, hk, hfreed⟩
    rcases List.mem_cons.1 hk with rfl | hk
    · exact hkey hfreed
    · obtain ⟨entry, hentry, rfl⟩ := List.mem_map.1 hk
      obtain ⟨x, hx, rfl⟩ := List.mem_map.1 (h.map.mem_iff.1 hentry)
      exact h.freed x hx hfreed
  rw [readKeys, decide_eq_false hread, Bool.or_false]

/-- The entries of the map with this content. -/
theorem Holds.mem_map (h : Holds content c (l ++ x :: l')) {entry : K × ℕ} (hentry : entry ∈ c.map) :
    content entry.1 = content x.2.1 ↔ entry = (x.2.1, x.1) := by
  obtain ⟨y, hy, rfl⟩ := List.mem_map.1 (h.map.mem_iff.1 hentry)
  constructor
  · intro heq
    rw [List.inj_on_of_nodup_map h.contents hy (List.mem_append_right _ List.mem_cons_self) heq]
  · intro heq
    rw [(Prod.mk.inj heq).1]

/-! ### The callback -/

theorem evict_of_node {i : ℕ} {cell : Cell (K × V)} (h : c.nodes i = some cell) :
    c.evict i = c.callEvict cell.item := by
  rw [evict, h]

/-- What a call of `evict_callback` adds to the record. -/
def called (c : LRUCache K V) (entries : List (K × V)) : List (K × V) :=
  if c.evictCallback = .null then [] else entries

/-- The keys that are freed by these calls. -/
def frees (c : LRUCache K V) (entries : List (K × V)) : List K :=
  if c.evictCallback = .freesKey then entries.map Prod.fst else []

theorem callEvict_eq (entry : K × V) : c.callEvict entry =
    { c with calls := c.calls ++ c.called [entry], freed := c.frees [entry] ++ c.freed } := by
  cases hc : c.evictCallback with
  | null =>
    obtain ⟨capacity, nodes, map, head, tail, evictCallback, calls, freed, fault⟩ := c
    cases hc
    simp [callEvict, called, frees]
  | keepsKey => simp [callEvict, called, frees, hc]
  | freesKey => simp [callEvict, called, frees, hc]

theorem Links.callEvict {entry : K × V} (h : Links c l) : Links (c.callEvict entry) l := by
  rw [callEvict_eq]
  exact h.congr rfl rfl rfl

theorem Holds.callEvict {entry : K × V} (h : Holds content c l) (hentry : ∀ x ∈ l, x.2.1 ≠ entry.1) :
    Holds content (c.callEvict entry) l := by
  have hlinks : Links (c.callEvict entry) l := h.links.callEvict
  rw [callEvict_eq] at hlinks ⊢
  refine ⟨hlinks, h.map, h.contents, h.dead, fun x hx hmem => ?_, h.sound⟩
  rcases List.mem_append.1 hmem with hmem | hmem
  · unfold frees at hmem
    split_ifs at hmem
    · exact hentry x hx (List.mem_singleton.1 hmem)
    · exact absurd hmem List.not_mem_nil
  · exact h.freed x hx hmem

/-- An entry that is dropped has another key than those that stay. -/
theorem Holds.key_ne (h : Holds content c (l ++ x :: l')) : ∀ y ∈ l ++ l', y.2.1 ≠ x.2.1 := by
  have hcontents := h.contents
  rw [List.map_append, List.map_cons, List.nodup_middle, List.nodup_cons, ← List.map_append] at hcontents
  intro y hy heq
  exact hcontents.1 (List.mem_map.2 ⟨y, hy, congrArg content heq⟩)

/-- The node is still there when its neighbours are linked to each other. -/
theorem Links.unlink_node (h : Links c (l ++ x :: l')) :
    unlink c.nodes (lastOf none l) (firstOf l' none) x.1 =
      some ⟨x.2, lastOf none l, firstOf l' none⟩ := by
  obtain ⟨hx, hx', -⟩ := h.not_mem
  rw [unlink_of_ne (ne_lastOf (by simp) hx) (ne_firstOf hx'), h.node]

variable [DecidableEq C]

/-- The cache without a node. -/
def without (content : K → C) (c : LRUCache K V) (l : List (ℕ × K × V)) (x : ℕ × K × V)
    (l' : List (ℕ × K × V)) : LRUCache K V :=
  { c with
    nodes := Function.update (unlink c.nodes (lastOf none l) (firstOf l' none)) x.1 none
    map := c.map.filter fun entry => content entry.1 ≠ content x.2.1
    head := firstOf (l ++ l') none
    tail := lastOf none (l ++ l') }

theorem Holds.without (h : Holds content c (l ++ x :: l')) :
    Holds content (without content c l x l') (l ++ l') := by
  obtain ⟨hx, hx', hnodup⟩ := h.links.not_mem
  have hnot : x.1 ∉ (l ++ l').map Prod.fst := by
    rw [List.map_append, List.mem_append]
    exact fun hmem => hmem.elim hx hx'
  have hcontents := h.contents
  rw [List.map_append, List.map_cons, List.nodup_middle, List.nodup_cons, ← List.map_append] at hcontents
  have hsub : ∀ y ∈ l ++ l', y ∈ l ++ x :: l' := by
    intro y hy
    rcases List.mem_append.1 hy with hy | hy
    · exact List.mem_append_left _ hy
    · exact List.mem_append_right _ (List.mem_cons_of_mem _ hy)
  refine ⟨⟨(h.links.linked.unlink h.links.nodup).update hnot, rfl, rfl, hnodup⟩, ?_, hcontents.2, ?_, ?_,
    h.sound⟩
  · have hfilter : ((l ++ x :: l').map fun y => (y.2.1, y.1)).filter
        (fun entry => content entry.1 ≠ content x.2.1) = (l ++ l').map fun y => (y.2.1, y.1) := by
      have hkeep : ∀ l₁ : List (ℕ × K × V), (∀ y ∈ l₁, y ∈ l ++ l') →
          (l₁.map fun y => (y.2.1, y.1)).filter (fun entry => content entry.1 ≠ content x.2.1) =
            l₁.map fun y => (y.2.1, y.1) := by
        intro l₁ hl₁
        rw [List.filter_eq_self]
        intro entry hentry
        obtain ⟨y, hy, rfl⟩ := List.mem_map.1 hentry
        have hne : content y.2.1 ≠ content x.2.1 := fun heq =>
          hcontents.1 (heq ▸ List.mem_map.2 ⟨y, hl₁ y hy, rfl⟩)
        simpa using hne
      rw [List.map_append, List.map_cons, List.filter_append, List.filter_cons, if_neg (by simp),
        hkeep l fun y hy => List.mem_append_left _ hy, hkeep l' fun y hy => List.mem_append_right _ hy,
        List.map_append]
    rw [← hfilter]
    exact h.map.filter _
  · intro i hi
    by_cases hix : i = x.1
    · subst hix
      exact Function.update_self _ _ _
    · refine (Function.update_of_ne hix _ _).trans ?_
      have hi' : i ∉ l.map Prod.fst ∧ i ∉ l'.map Prod.fst := by
        rwa [List.map_append, List.mem_append, not_or] at hi
      rw [unlink_of_ne (ne_lastOf (by simp) hi'.1) (ne_firstOf hi'.2)]
      refine h.dead i ?_
      rw [List.map_append, List.map_cons, List.mem_append, List.mem_cons, not_or, not_or]
      exact ⟨hi'.1, hix, hi'.2⟩
  · exact fun y hy => h.freed y (hsub y hy)

variable [DecidableEq K]

theorem Holds.mapGet_hit (h : Holds content c (l ++ x :: l')) (hx : content x.2.1 = content key)
    (hkey : key ∉ c.freed) : c.mapGet content key = (some x.1, c) := by
  have hmem : (x.2.1, x.1) ∈ c.map :=
    h.map.mem_iff.2 (List.mem_map.2 ⟨x, List.mem_append_right _ List.mem_cons_self, rfl⟩)
  have hfind : c.map.find? (fun entry => content entry.1 = content key) = some (x.2.1, x.1) := by
    have hsome : (c.map.find? fun entry => content entry.1 = content key).isSome := by
      rw [List.find?_isSome]
      exact ⟨_, hmem, by simpa using hx⟩
    obtain ⟨entry, hentry⟩ := Option.isSome_iff_exists.1 hsome
    have heq : content entry.1 = content key := by simpa using List.find?_some hentry
    rw [hentry, (h.mem_map (List.mem_of_find?_eq_some hentry)).1 (heq.trans hx.symm)]
  rw [mapGet, hfind, h.readKeys_eq hkey]
  rfl

theorem Holds.mapGet_miss (h : Holds content c l) (hmiss : ∀ x ∈ l, content x.2.1 ≠ content key)
    (hkey : key ∉ c.freed) : c.mapGet content key = (none, c) := by
  have hfind : c.map.find? (fun entry => content entry.1 = content key) = none := by
    rw [List.find?_eq_none]
    intro entry hentry
    obtain ⟨x, hx, rfl⟩ := List.mem_map.1 (h.map.mem_iff.1 hentry)
    simpa using hmiss x hx
  rw [mapGet, hfind, h.readKeys_eq hkey]
  rfl

/-! ### Dropping a node -/

theorem Holds.mapRemove_eq (h : Holds content c (l ++ x :: l')) (hkey : key ∉ c.freed)
    (hx : content x.2.1 = content key) : c.mapRemove content key =
      { c with map := c.map.filter fun entry => content entry.1 ≠ content x.2.1 } := by
  rw [mapRemove, h.readKeys_eq hkey, hx]

theorem Holds.mapRemoveNode_eq (h : Holds content c (l ++ x :: l')) : c.mapRemoveNode content x.1 =
    { c with map := c.map.filter fun entry => content entry.1 ≠ content x.2.1 } := by
  rw [mapRemoveNode, h.links.node]
  exact h.mapRemove_eq (h.freed x (List.mem_append_right _ List.mem_cons_self)) rfl

/-- `put` and `evict_last` drop a node. -/
theorem Holds.drop_eq (h : Holds content c (l ++ x :: l')) :
    (((c.mapRemoveNode content x.1).removeNode x.1).evict x.1).destroy x.1 =
      (LRUCache.without content c l x l').callEvict x.2 := by
  have hlinks : Links { c with map := c.map.filter fun entry => content entry.1 ≠ content x.2.1 }
      (l ++ x :: l') := h.links.congr rfl rfl rfl
  rw [h.mapRemoveNode_eq, removeNode_eq hlinks, evict_of_node h.links.unlink_node, callEvict_eq,
    destroy_of_node h.links.unlink_node, callEvict_eq]
  rfl

/-- `remove` drops a node. -/
theorem Holds.remove_eq (h : Holds content c (l ++ x :: l')) (hkey : key ∉ c.freed)
    (hx : content x.2.1 = content key) :
    (((c.mapRemove content key).evict x.1).removeNode x.1).destroy x.1 =
      (LRUCache.without content c l x l').callEvict x.2 := by
  have hlinks : Links { c with map := c.map.filter fun entry => content entry.1 ≠ content x.2.1 }
      (l ++ x :: l') := h.links.congr rfl rfl rfl
  rw [h.mapRemove_eq hkey hx, evict_of_node hlinks.node, removeNode_eq hlinks.callEvict, callEvict_eq,
    destroy_of_node h.links.unlink_node, callEvict_eq]
  rfl

/-- `pop_tail` drops a node. -/
theorem Holds.pop_eq (h : Holds content c (l ++ x :: l')) :
    ((c.mapRemoveNode content x.1).removeNode x.1).destroy x.1 = LRUCache.without content c l x l' := by
  have hlinks : Links { c with map := c.map.filter fun entry => content entry.1 ≠ content x.2.1 }
      (l ++ x :: l') := h.links.congr rfl rfl rfl
  rw [h.mapRemoveNode_eq, removeNode_eq hlinks, destroy_of_node h.links.unlink_node]
  rfl

end Map

end LRUCache

end Talyn
