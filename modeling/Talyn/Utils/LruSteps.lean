import Talyn.Utils.LruNodes

/-!
# The operations of an `LRUCache` on its nodes

One lemma for every case of an operation: the nodes afterwards, what is returned, and in `Evicts` the
entries `evict_callback` was called with.
-/

namespace Talyn

namespace LRUCache

open Chain

variable {K V C : Type} {content : K → C} {c c' c'' : LRUCache K V} {l l' : List (ℕ × K × V)} {x : ℕ × K × V}
  {key : K} {es es' : List (K × V)}

/-! ### The record -/

/-- `evict_callback` was called with these entries, and nothing else was freed. -/
structure Evicts (c c' : LRUCache K V) (es : List (K × V)) : Prop where
  capacity : c'.capacity = c.capacity
  evictCallback : c'.evictCallback = c.evictCallback
  calls : c'.calls = c.calls ++ c.called es
  freed : ∀ k, k ∈ c'.freed ↔ k ∈ c.frees es ∨ k ∈ c.freed

theorem called_nil : c.called [] = [] := ite_self _

theorem frees_nil : c.frees [] = [] := ite_self _

theorem called_append (es es' : List (K × V)) : c.called (es ++ es') = c.called es ++ c.called es' := by
  unfold called
  split_ifs <;> rfl

theorem mem_frees {k : K} : k ∈ c.frees es ↔ c.evictCallback = .freesKey ∧ k ∈ es.map Prod.fst := by
  unfold frees
  split_ifs with h
  · exact ⟨fun hk => ⟨h, hk⟩, And.right⟩
  · exact ⟨fun hk => absurd hk List.not_mem_nil, fun hk => absurd hk.1 h⟩

/-- Nothing is called when the record stays as it is. -/
theorem Evicts.of_record (hcapacity : c'.capacity = c.capacity) (hcallback : c'.evictCallback = c.evictCallback)
    (hcalls : c'.calls = c.calls) (hfreed : c'.freed = c.freed) : Evicts c c' [] := by
  refine ⟨hcapacity, hcallback, ?_, fun k => ?_⟩
  · rw [hcalls, called_nil, List.append_nil]
  · rw [hfreed, frees_nil]
    exact ⟨.inr, fun hk => hk.resolve_left List.not_mem_nil⟩

theorem Evicts.refl : Evicts c c [] := .of_record rfl rfl rfl rfl

theorem Evicts.trans (h : Evicts c c' es) (h' : Evicts c' c'' es') : Evicts c c'' (es ++ es') := by
  have hcalled : c'.called es' = c.called es' := by
    unfold called
    rw [h.evictCallback]
  have hfrees : c'.frees es' = c.frees es' := by
    unfold frees
    rw [h.evictCallback]
  refine ⟨h'.capacity.trans h.capacity, h'.evictCallback.trans h.evictCallback, ?_, fun k => ?_⟩
  · rw [h'.calls, h.calls, hcalled, List.append_assoc, called_append]
  · rw [h'.freed, h.freed, hfrees, ← or_assoc, mem_frees, mem_frees, mem_frees, List.map_append,
      List.mem_append, and_or_left, or_comm (a := _ ∧ k ∈ es'.map Prod.fst)]

theorem evicts_callEvict (entry : K × V) : Evicts c (c.callEvict entry) [entry] := by
  rw [callEvict_eq]
  exact ⟨rfl, rfl, rfl, fun _ => List.mem_append⟩

/-- A key that is none of theirs is not freed with the entries. -/
theorem Evicts.not_freed (h : Evicts c c' es) (hkey : key ∉ c.freed)
    (hes : c.evictCallback = .freesKey → key ∉ es.map Prod.fst) : key ∉ c'.freed := by
  intro hk
  rcases (h.freed key).1 hk with hk | hk
  · rw [mem_frees] at hk
    exact hes hk.1 hk.2
  · exact hkey hk

/-! ### To the front -/

theorem Holds.length_map (h : Holds content c l) : c.map.length = l.length := by
  rw [h.map.length_eq, List.length_map]

theorem Holds.not_mem_of_none {node : ℕ} (h : Holds content c l) (hnode : c.nodes node = none) :
    node ∉ l.map Prod.fst := by
  intro hmem
  obtain ⟨x, hx, rfl⟩ := List.mem_map.1 hmem
  obtain ⟨prev, next, hcell⟩ := h.links.linked.isSome hx
  rw [hnode] at hcell
  exact nomatch hcell

/-- `move_to_front` changes the links only. -/
theorem Holds.moveToFront (h : Holds content c (l ++ x :: l')) :
    Holds content (c.moveToFront x.1) (x :: (l ++ l')) ∧ Evicts c (c.moveToFront x.1) [] := by
  have hperm : (l ++ x :: l').Perm (x :: (l ++ l')) := List.perm_middle
  unfold LRUCache.moveToFront
  by_cases hhead : some x.1 = c.head
  · rw [if_pos hhead]
    have hl : l = [] := by
      cases l with
      | nil => rfl
      | cons y l =>
        rw [h.links.head] at hhead
        exact absurd (List.mem_map.2 ⟨y, List.mem_cons_self, (Option.some.inj hhead).symm⟩) h.links.not_mem.1
    subst hl
    exact ⟨h, .refl⟩
  · rw [if_neg hhead]
    obtain ⟨hx, hx', -⟩ := h.links.not_mem
    have hnot : x.1 ∉ (l ++ l').map Prod.fst := by
      rw [List.map_append, List.mem_append]
      exact fun hmem => hmem.elim hx hx'
    have hremoved : Links (c.removeNode x.1) (l ++ l') := h.links.removeNode
    have hcell : (c.removeNode x.1).nodes x.1 = some ⟨x.2, lastOf none l, firstOf l' none⟩ := by
      rw [removeNode_eq h.links]
      exact h.links.unlink_node
    have hlinks : Links ((c.removeNode x.1).prepend x.1) (x :: (l ++ l')) := hremoved.prepend hnot hcell
    rw [prepend_eq hremoved hnot hcell, removeNode_eq h.links] at hlinks ⊢
    refine ⟨⟨hlinks, h.map.trans (hperm.map _), (hperm.map _).nodup_iff.1 h.contents, fun i hi => ?_,
      fun y hy => h.freed y (hperm.mem_iff.2 hy), h.sound⟩, .of_record rfl rfl rfl rfl⟩
    rw [List.map_cons, List.mem_cons, not_or, List.map_append, List.mem_append, not_or] at hi
    obtain ⟨hix, hil, hil'⟩ := hi
    have hfirst : firstOf (l ++ l') none ≠ some i := by
      refine ne_firstOf ?_
      rw [List.map_append, List.mem_append, not_or]
      exact ⟨hil, hil'⟩
    refine (push_of_ne hix hfirst).trans ?_
    refine (unlink_of_ne (ne_lastOf (by simp) hil) (ne_firstOf hil')).trans (h.dead i ?_)
    rw [List.map_append, List.map_cons, List.mem_append, List.mem_cons, not_or, not_or]
    exact ⟨hil, hix, hil'⟩

section Operations

variable [DecidableEq C] [DecidableEq K]

/-- `put` puts the new node in front. -/
theorem Holds.insert {node : ℕ} (value : V) (h : Holds content c l) (hkey : key ∉ c.freed)
    (hnode : c.nodes node = none) (hmiss : ∀ x ∈ l, content x.2.1 ≠ content key) :
    (c.insert content key value (some node) true).1 = true ∧
      Holds content (c.insert content key value (some node) true).2 ((node, key, value) :: l) ∧
      Evicts c (c.insert content key value (some node) true).2 [] := by
  have hnot := h.not_mem_of_none hnode
  have hlinks : Links (c.create node key value) l :=
    ⟨h.links.linked.update hnot, h.links.head, h.links.tail, h.links.nodup⟩
  have hcell : (c.create node key value).nodes node = some ⟨(key, value), none, none⟩ :=
    Function.update_self _ _ _
  have hread : (c.create node key value).readKeys key = c.create node key value := by
    have hread := h.readKeys_eq hkey
    unfold readKeys at hread ⊢
    rw [show (c.create node key value).fault = c.fault from rfl]
    exact congrArg (fun fault => { c.create node key value with fault }) (congrArg LRUCache.fault hread)
  have hput : (c.create node key value).mapPut content key node =
      { c.create node key value with map := c.map ++ [(key, node)] } := by
    have hany : ¬(c.map.any fun entry => content entry.1 = content key) = true := by
      rw [List.any_eq_true]
      rintro ⟨entry, hentry, heq⟩
      obtain ⟨x, hx, rfl⟩ := List.mem_map.1 (h.map.mem_iff.1 hentry)
      exact hmiss x hx (of_decide_eq_true heq)
    rw [mapPut, hread]
    exact congrArg (fun map => { c.create node key value with map }) (if_neg hany)
  have hlinks' : Links { c.create node key value with map := c.map ++ [(key, node)] } l :=
    hlinks.congr rfl rfl rfl
  have hfront := hlinks'.prepend hnot hcell
  unfold LRUCache.insert
  dsimp only
  rw [if_pos rfl, hput]
  rw [prepend_eq hlinks' hnot hcell] at hfront ⊢
  refine ⟨rfl, ⟨hfront, ?_, List.nodup_cons.2 ⟨?_, h.contents⟩, fun i hi => ?_, ?_, h.sound⟩,
    .of_record rfl rfl rfl rfl⟩
  · have hperm : (c.map ++ [(key, node)]).Perm ((key, node) :: c.map) := List.perm_append_comm
    exact hperm.trans (h.map.cons _)
  · intro hmem
    obtain ⟨x, hx, heq⟩ := List.mem_map.1 hmem
    exact hmiss x hx heq
  · rw [List.map_cons, List.mem_cons, not_or] at hi
    refine (push_of_ne hi.1 (ne_firstOf hi.2)).trans ((Function.update_of_ne hi.1 _ _).trans ?_)
    exact h.dead i hi.2
  · intro y hy
    rcases List.mem_cons.1 hy with rfl | hy
    · exact hkey
    · exact h.freed y hy

/-- `put` and `evict_last` drop a node. -/
theorem Holds.drop (h : Holds content c (l ++ x :: l')) :
    Holds content ((((c.mapRemoveNode content x.1).removeNode x.1).evict x.1).destroy x.1) (l ++ l') ∧
      Evicts c ((((c.mapRemoveNode content x.1).removeNode x.1).evict x.1).destroy x.1) [x.2] := by
  rw [h.drop_eq]
  have hevicts : Evicts (LRUCache.without content c l x l')
      ((LRUCache.without content c l x l').callEvict x.2) [x.2] := evicts_callEvict x.2
  exact ⟨h.without.callEvict h.key_ne, hevicts.capacity, hevicts.evictCallback, hevicts.calls, hevicts.freed⟩

/-- `evict_last` drops the last node. -/
theorem Holds.evictLast (h : Holds content c (l ++ [x])) :
    Holds content (c.evictLast content) l ∧ Evicts c (c.evictLast content) [x.2] := by
  have htail : c.tail = some x.1 := by
    rw [h.links.tail, lastOf_append]
    rfl
  have hdrop := h.drop
  rw [List.append_nil] at hdrop
  rw [LRUCache.evictLast, htail]
  exact hdrop

/-! ### `get` -/

theorem Holds.get_hit (h : Holds content c (l ++ x :: l')) (hx : content x.2.1 = content key)
    (hkey : key ∉ c.freed) :
    (c.get content key).1 = some x.2.2 ∧ Holds content (c.get content key).2 (x :: (l ++ l')) ∧
      Evicts c (c.get content key).2 [] := by
  have hfront := h.moveToFront
  have hnode : (c.moveToFront x.1).nodes x.1 = some ⟨x.2, none, firstOf (l ++ l') none⟩ := hfront.1.links.linked.1
  rw [LRUCache.get, h.mapGet_hit hx hkey]
  dsimp only
  rw [hnode]
  exact ⟨rfl, hfront⟩

theorem Holds.get_miss (h : Holds content c l) (hmiss : ∀ x ∈ l, content x.2.1 ≠ content key)
    (hkey : key ∉ c.freed) : c.get content key = (none, c) := by
  rw [LRUCache.get, h.mapGet_miss hmiss hkey]

/-! ### `put` -/

section Put

variable {node : ℕ} (value : V)

/-- A cache without room for entries. -/
theorem put_off (hcapacity : c.capacity = 0) :
    c.put content key value (some node) true = (true, c) := if_pos hcapacity

/-- `put` replaces the entry of the key. -/
theorem Holds.put_replace (h : Holds content c (l ++ x :: l')) (hbound : (l ++ x :: l').length ≤ c.capacity)
    (hx : content x.2.1 = content key) (hkey : key ∉ c.freed)
    (hown : c.evictCallback = .freesKey → key ≠ x.2.1) (hnode : (c.roomFor content key).nodes node = none) :
    (c.put content key value (some node) true).1 = true ∧
      Holds content (c.put content key value (some node) true).2 ((node, key, value) :: (l ++ l')) ∧
      Evicts c (c.put content key value (some node) true).2 [x.2] := by
  obtain ⟨hdropped, hevicts⟩ := h.drop
  rw [List.length_append, List.length_cons] at hbound
  have hroom : c.roomFor content key =
      (((c.mapRemoveNode content x.1).removeNode x.1).evict x.1).destroy x.1 := by
    rw [roomFor, h.mapGet_hit hx hkey]
    dsimp only
    rw [if_neg]
    rw [hdropped.length_map, hevicts.capacity, List.length_append]
    omega
  have hmiss : ∀ y ∈ l ++ l', content y.2.1 ≠ content key := by
    have hcontents := h.contents
    rw [List.map_append, List.map_cons, List.nodup_middle, List.nodup_cons, ← List.map_append] at hcontents
    intro y hy heq
    exact hcontents.1 (List.mem_map.2 ⟨y, hy, heq.trans hx.symm⟩)
  have hkey' := hevicts.not_freed hkey fun hfrees hmem => hown hfrees (List.mem_singleton.1 hmem)
  rw [hroom] at hnode
  obtain ⟨hok, hholds, hinsert⟩ := hdropped.insert value hkey' hnode hmiss
  rw [put, if_neg (by omega), hroom]
  exact ⟨hok, hholds, hevicts.trans hinsert⟩

/-- `put` adds an entry to a cache that is not full. -/
theorem Holds.put_insert (h : Holds content c l) (hbound : l.length < c.capacity)
    (hmiss : ∀ x ∈ l, content x.2.1 ≠ content key) (hkey : key ∉ c.freed)
    (hnode : (c.roomFor content key).nodes node = none) :
    (c.put content key value (some node) true).1 = true ∧
      Holds content (c.put content key value (some node) true).2 ((node, key, value) :: l) ∧
      Evicts c (c.put content key value (some node) true).2 [] := by
  have hroom : c.roomFor content key = c := by
    rw [roomFor, h.mapGet_miss hmiss hkey]
    dsimp only
    rw [if_neg]
    rw [h.length_map]
    omega
  rw [hroom] at hnode
  rw [put, if_neg (by omega), hroom]
  exact h.insert value hkey hnode hmiss

/-- `put` adds an entry to a full cache, whose last entry is evicted. -/
theorem Holds.put_full (h : Holds content c (l ++ [x])) (hfull : (l ++ [x]).length = c.capacity)
    (hmiss : ∀ y ∈ l ++ [x], content y.2.1 ≠ content key) (hkey : key ∉ c.freed)
    (hnode : (c.roomFor content key).nodes node = none) :
    (c.put content key value (some node) true).1 = true ∧
      Holds content (c.put content key value (some node) true).2 ((node, key, value) :: l) ∧
      Evicts c (c.put content key value (some node) true).2 [x.2] := by
  obtain ⟨hdropped, hevicts⟩ := h.evictLast
  rw [List.length_append, List.length_singleton] at hfull
  have hroom : c.roomFor content key = c.evictLast content := by
    rw [roomFor, h.mapGet_miss hmiss hkey]
    dsimp only
    rw [if_pos]
    rw [h.length_map, List.length_append, List.length_singleton]
    omega
  have hkey' := hevicts.not_freed hkey fun _ hmem =>
    hmiss x (List.mem_append_right _ (List.mem_singleton.2 rfl)) (congrArg content (List.mem_singleton.1 hmem).symm)
  rw [hroom] at hnode
  obtain ⟨hok, hholds, hinsert⟩ := hdropped.insert value hkey' hnode
    fun y hy => hmiss y (List.mem_append_left _ hy)
  rw [put, if_neg (by omega), hroom]
  exact ⟨hok, hholds, hevicts.trans hinsert⟩

end Put

/-! ### `remove` and `pop_tail` -/

theorem Holds.remove_hit (h : Holds content c (l ++ x :: l')) (hx : content x.2.1 = content key)
    (hkey : key ∉ c.freed) :
    (c.remove content key).1 = true ∧ Holds content (c.remove content key).2 (l ++ l') ∧
      Evicts c (c.remove content key).2 [x.2] := by
  have hdrop := h.drop
  rw [h.drop_eq, ← h.remove_eq hkey hx] at hdrop
  rw [LRUCache.remove, h.mapGet_hit hx hkey]
  exact ⟨rfl, hdrop⟩

theorem Holds.remove_miss (h : Holds content c l) (hmiss : ∀ x ∈ l, content x.2.1 ≠ content key)
    (hkey : key ∉ c.freed) : c.remove content key = (false, c) := by
  rw [LRUCache.remove, h.mapGet_miss hmiss hkey]

/-- `pop_tail` takes the last entry; `evict_callback` is not called. -/
theorem Holds.popTail (h : Holds content c (l ++ [x])) :
    (c.popTail content).1 = some x.2.2 ∧ Holds content (c.popTail content).2 l ∧
      Evicts c (c.popTail content).2 [] := by
  have htail : c.tail = some x.1 := by
    rw [h.links.tail, lastOf_append]
    rfl
  have hholds := h.without
  rw [List.append_nil] at hholds
  rw [LRUCache.popTail, htail]
  dsimp only
  rw [h.links.node]
  dsimp only
  rw [h.pop_eq]
  exact ⟨rfl, hholds, .of_record rfl rfl rfl rfl⟩

theorem Holds.popTail_nil (h : Holds content c []) : c.popTail content = (none, c) := by
  rw [LRUCache.popTail, h.links.tail]
  rfl

end Operations

/-! ### `deinit` -/

/-- A turn of `deinit` at a node. -/
theorem evicts_destroy {i : ℕ} {cell : Cell (K × V)} (hcell : c.nodes i = some cell) :
    Evicts c ((c.evict i).destroy i) [cell.item] ∧ ((c.evict i).destroy i).fault = c.fault ∧
      ((c.evict i).destroy i).nodes = Function.update c.nodes i none := by
  have hnode : (c.callEvict cell.item).nodes i = some cell := by
    rw [callEvict_eq]
    exact hcell
  rw [evict_of_node hcell, destroy_of_node hnode, callEvict_eq]
  exact ⟨⟨rfl, rfl, rfl, fun _ => List.mem_append⟩, rfl, rfl⟩

/-- The loop of `deinit` over entries of the map. -/
theorem sweep (m : List (K × ℕ)) (hnodup : (m.map Prod.snd).Nodup)
    (hcells : ∀ entry ∈ m, (c.nodes entry.2).isSome) :
    let c' := m.foldl (fun c entry => (c.evict entry.2).destroy entry.2) c
    Evicts c c' (m.filterMap fun entry => (c.nodes entry.2).map Cell.item) ∧ c'.fault = c.fault ∧
      (∀ i ∈ m.map Prod.snd, c'.nodes i = none) ∧ ∀ i, c.nodes i = none → c'.nodes i = none := by
  induction m generalizing c with
  | nil => exact ⟨.refl, rfl, fun i hi => absurd hi List.not_mem_nil, fun _ hi => hi⟩
  | cons entry m ih =>
    rw [List.map_cons, List.nodup_cons] at hnodup
    obtain ⟨cell, hcell⟩ := Option.isSome_iff_exists.1 (hcells entry List.mem_cons_self)
    obtain ⟨hevicts, hfault, hnodes⟩ := evicts_destroy hcell
    -- the other nodes are still there
    have hother : ∀ entry' ∈ m, ((c.evict entry.2).destroy entry.2).nodes entry'.2 = c.nodes entry'.2 := by
      intro entry' hentry'
      rw [hnodes]
      refine Function.update_of_ne (fun heq => hnodup.1 ?_) _ _
      exact heq ▸ List.mem_map_of_mem hentry'
    have hitems : (m.filterMap fun entry' =>
        (((c.evict entry.2).destroy entry.2).nodes entry'.2).map Cell.item) =
          m.filterMap fun entry' => (c.nodes entry'.2).map Cell.item :=
      List.filterMap_congr fun entry' hentry' => by rw [hother entry' hentry']
    obtain ⟨hevicts', hfault', hgone, hnone⟩ := ih hnodup.2 fun entry' hentry' => by
      rw [hother entry' hentry']
      exact hcells entry' (List.mem_cons_of_mem _ hentry')
    rw [hitems] at hevicts'
    have hevicts'' := hevicts.trans hevicts'
    refine ⟨?_, hfault'.trans hfault, fun i hi => ?_, fun i hi => hnone i ?_⟩
    · rw [List.filterMap_cons, hcell]
      exact hevicts''
    · rcases List.mem_cons.1 hi with rfl | hi
      · refine hnone _ ?_
        rw [hnodes, Function.update_self]
      · exact hgone i hi
    · rw [hnodes]
      by_cases hie : i = entry.2
      · rw [hie, Function.update_self]
      · rw [Function.update_of_ne hie, hi]

/-- `deinit` calls `evict_callback` for every entry and leaves no node. -/
theorem Holds.deinit (h : Holds content c l) :
    ∃ es, es.Perm (l.map Prod.snd) ∧ Evicts c c.deinit es ∧ c.deinit.fault = false ∧
      ∀ i, c.deinit.nodes i = none := by
  have hnodes : (c.map.map Prod.snd).Perm (l.map Prod.fst) := by
    have hperm := h.map.map Prod.snd
    rwa [List.map_map] at hperm
  have hcell : ∀ x ∈ l, (c.nodes x.1).map Cell.item = some x.2 := by
    intro x hx
    obtain ⟨prev, next, hcell⟩ := h.links.linked.isSome hx
    rw [hcell]
    rfl
  have hcells : ∀ entry ∈ c.map, (c.nodes entry.2).isSome := by
    intro entry hentry
    obtain ⟨x, hx, rfl⟩ := List.mem_map.1 (h.map.mem_iff.1 hentry)
    rw [← Option.isSome_map, hcell x hx]
    rfl
  have hitems : (c.map.filterMap fun entry => (c.nodes entry.2).map Cell.item).Perm (l.map Prod.snd) := by
    refine (h.map.filterMap _).trans (.of_eq ?_)
    rw [List.filterMap_map, ← List.filterMap_eq_map]
    exact List.filterMap_congr fun x hx => hcell x hx
  obtain ⟨hevicts, hfault, hgone, hnone⟩ := sweep c.map (hnodes.nodup_iff.2 h.links.nodup) hcells
  refine ⟨_, hitems, ⟨hevicts.capacity, hevicts.evictCallback, hevicts.calls, hevicts.freed⟩,
    hfault.trans h.sound, fun i => ?_⟩
  by_cases hi : i ∈ l.map Prod.fst
  · exact hgone i (hnodes.mem_iff.2 hi)
  · exact hnone i (h.dead i hi)

end LRUCache

end Talyn
