import Talyn.Utils.LruSteps

/-!
# `LRUCache` is a bounded map ordered by use

`Recency.Step` is the map: a list of entries, the one used last in front, with what an operation returns and
the entries that leave for `evict_callback`. In every run of an `LRUCache` the linked list and the map hold
the entries of such a list, `evict_callback` was called with what left, and no key that was freed was read.
-/

namespace Talyn

/-- An operation; `node` is the address of the new node. -/
inductive LruOp (K V : Type)
  | put (key : K) (value : V) (node : ℕ)
  | get (key : K)
  | remove (key : K)
  | popTail

/-- What an operation returns. -/
inductive LruResult (V : Type)
  | put (ok : Bool)
  | value (value : Option V)
  | removed (found : Bool)

variable {K V C : Type} (content : K → C)

/-! ### The bounded map -/

namespace Recency

/-- A step of the map: the entries, the operation and its result, the entries that leave for the callback, and
the entries afterwards. -/
inductive Step (capacity : ℕ) :
    List (K × V) → LruOp K V → LruResult V → List (K × V) → List (K × V) → Prop
  | off (es key value node) (hcapacity : capacity = 0) :
      Step capacity es (.put key value node) (.put true) [] es
  | replace (es es' entry key value node) (hcapacity : 0 < capacity)
      (hentry : content entry.1 = content key) :
      Step capacity (es ++ entry :: es') (.put key value node) (.put true) [entry] ((key, value) :: (es ++ es'))
  | insert (es key value node) (hroom : es.length < capacity)
      (hmiss : ∀ entry ∈ es, content entry.1 ≠ content key) :
      Step capacity es (.put key value node) (.put true) [] ((key, value) :: es)
  | full (es last key value node) (hfull : (es ++ [last]).length = capacity)
      (hmiss : ∀ entry ∈ es ++ [last], content entry.1 ≠ content key) :
      Step capacity (es ++ [last]) (.put key value node) (.put true) [last] ((key, value) :: es)
  | get (es es' entry key) (hentry : content entry.1 = content key) :
      Step capacity (es ++ entry :: es') (.get key) (.value (some entry.2)) [] (entry :: (es ++ es'))
  | getMiss (es key) (hmiss : ∀ entry ∈ es, content entry.1 ≠ content key) :
      Step capacity es (.get key) (.value none) [] es
  | remove (es es' entry key) (hentry : content entry.1 = content key) :
      Step capacity (es ++ entry :: es') (.remove key) (.removed true) [entry] (es ++ es')
  | removeMiss (es key) (hmiss : ∀ entry ∈ es, content entry.1 ≠ content key) :
      Step capacity es (.remove key) (.removed false) [] es
  | popTail (es last) : Step capacity (es ++ [last]) .popTail (.value (some last.2)) [] es
  | popEmpty : Step capacity [] .popTail (.value none) [] []

/-- A run of the map. -/
inductive Run (capacity : ℕ) :
    List (K × V) → List (LruOp K V) → List (LruResult V) → List (K × V) → List (K × V) → Prop
  | nil (es) : Run capacity es [] [] [] es
  | cons {es es' es'' op result ops results left left'}
      (step : Step content capacity es op result left es')
      (run : Run capacity es' ops results left' es'') :
      Run capacity es (op :: ops) (result :: results) (left ++ left') es''

end Recency

/-! ### Runs of the cache -/

namespace LRUCache

section Run

variable [DecidableEq C] [DecidableEq K]

/-- What the caller owes: a key that is not freed, with `put` one that the cache does not hold when the
callback frees its keys, and the allocator a node that is not in use then. -/
def Allowed (c : LRUCache K V) : LruOp K V → Prop
  | .put key _ node =>
    key ∉ c.freed ∧ (c.evictCallback = .freesKey → key ∉ c.map.map Prod.fst) ∧
      (0 < c.capacity → (c.roomFor content key).nodes node = none)
  | .get key | .remove key => key ∉ c.freed
  | .popTail => True

instance (c : LRUCache K V) (op : LruOp K V) : Decidable (c.Allowed content op) :=
  match op with
  | .put _ _ _ => inferInstanceAs (Decidable (_ ∧ _ ∧ (_ → _)))
  | .get _ | .remove _ => inferInstanceAs (Decidable (¬_))
  | .popTail => inferInstanceAs (Decidable True)

/-- An operation on the cache; allocation succeeds. -/
def step (c : LRUCache K V) : LruOp K V → LruResult V × LRUCache K V
  | .put key value node => (c.put content key value (some node) true).map .put id
  | .get key => (c.get content key).map .value id
  | .remove key => (c.remove content key).map .removed id
  | .popTail => (c.popTail content).map .value id

/-- The results of operations, and the cache after them. -/
def run (c : LRUCache K V) : List (LruOp K V) → List (LruResult V) × LRUCache K V
  | [] => ([], c)
  | op :: ops => (run (c.step content op).2 ops).map ((c.step content op).1 :: ·) id

/-- Every operation of a run is allowed. -/
def AllAllowed (c : LRUCache K V) : List (LruOp K V) → Prop
  | [] => True
  | op :: ops => c.Allowed content op ∧ AllAllowed (c.step content op).2 ops

instance decidableAllAllowed (c : LRUCache K V) : (ops : List (LruOp K V)) → Decidable (c.AllAllowed content ops)
  | [] => inferInstanceAs (Decidable True)
  | op :: ops =>
    have := decidableAllAllowed (c.step content op).2 ops
    inferInstanceAs (Decidable (c.Allowed content op ∧ (c.step content op).2.AllAllowed content ops))

end Run

open Recency Chain

variable {content} {c : LRUCache K V} {l : List (ℕ × K × V)}

theorem holds_init (capacity : ℕ) (evictCallback : EvictCallback) :
    Holds content (init capacity evictCallback : LRUCache K V) [] :=
  ⟨⟨trivial, rfl, rfl, List.nodup_nil⟩, .nil, List.nodup_nil, fun _ _ => rfl, nofun, rfl⟩

/-- A node with the key, or none. -/
theorem hit_or_miss [DecidableEq C] (content : K → C) (l : List (ℕ × K × V)) (key : K) :
    (∃ l₁ x l₂, l = l₁ ++ x :: l₂ ∧ content x.2.1 = content key) ∨ ∀ x ∈ l, content x.2.1 ≠ content key := by
  by_cases h : ∃ x ∈ l, content x.2.1 = content key
  · obtain ⟨x, hx, heq⟩ := h
    obtain ⟨l₁, l₂, rfl⟩ := List.append_of_mem hx
    exact .inl ⟨l₁, x, l₂, rfl, heq⟩
  · exact .inr fun x hx heq => h ⟨x, hx, heq⟩

theorem miss_entries {key : K} (h : ∀ x ∈ l, content x.2.1 ≠ content key) :
    ∀ entry ∈ l.map Prod.snd, content entry.1 ≠ content key := by
  intro entry hentry
  obtain ⟨x, hx, rfl⟩ := List.mem_map.1 hentry
  exact h x hx

variable [DecidableEq C] [DecidableEq K]

/-- An operation is a step of the map. -/
theorem Holds.step (h : Holds content c l) (hbound : l.length ≤ c.capacity) (op : LruOp K V)
    (hop : c.Allowed content op) :
    ∃ left l', Step content c.capacity (l.map Prod.snd) op (c.step content op).1 left (l'.map Prod.snd) ∧
      Holds content (c.step content op).2 l' ∧ Evicts c (c.step content op).2 left ∧
      l'.length ≤ c.capacity := by
  cases op with
  | put key value node =>
    obtain ⟨hkey, hown, hnode⟩ := hop
    rcases Nat.eq_zero_or_pos c.capacity with hcapacity | hcapacity
    · have hput : c.put content key value (some node) true = (true, c) := put_off value hcapacity
      refine ⟨[], l, ?_⟩
      rw [LRUCache.step, hput]
      exact ⟨.off _ _ _ _ hcapacity, h, .refl, hbound⟩
    rcases hit_or_miss content l key with ⟨l₁, x, l₂, rfl, hx⟩ | hmiss
    · have hown' : c.evictCallback = .freesKey → key ≠ x.2.1 := by
        intro hfrees heq
        refine hown hfrees (List.mem_map.2 ⟨(x.2.1, x.1), h.map.mem_iff.2 ?_, heq.symm⟩)
        exact List.mem_map.2 ⟨x, List.mem_append_right _ List.mem_cons_self, rfl⟩
      obtain ⟨hok, hholds, hevicts⟩ := h.put_replace value hbound hx hkey hown' (hnode hcapacity)
      refine ⟨[x.2], _, ?_, hholds, hevicts, ?_⟩
      · rw [LRUCache.step, Prod.map_fst, hok, List.map_append, List.map_cons, List.map_cons, List.map_append]
        exact .replace _ _ _ _ _ _ hcapacity hx
      · simp only [List.length_append, List.length_cons] at hbound ⊢
        omega
    rcases Nat.lt_or_eq_of_le hbound with hroom | hfull
    · obtain ⟨hok, hholds, hevicts⟩ := h.put_insert value hroom hmiss hkey (hnode hcapacity)
      refine ⟨[], _, ?_, hholds, hevicts, hroom⟩
      rw [LRUCache.step, Prod.map_fst, hok]
      exact .insert _ _ _ _ (by rwa [List.length_map]) (miss_entries hmiss)
    · rcases List.eq_nil_or_concat' l with rfl | ⟨l, x, rfl⟩
      · rw [List.length_nil] at hfull
        omega
      obtain ⟨hok, hholds, hevicts⟩ := h.put_full value hfull hmiss hkey (hnode hcapacity)
      refine ⟨[x.2], _, ?_, hholds, hevicts, ?_⟩
      · rw [LRUCache.step, Prod.map_fst, hok, List.map_append]
        refine .full _ _ _ _ _ ?_ ?_
        · rw [← hfull]
          simp
        · have hmiss' := miss_entries hmiss
          rwa [List.map_append] at hmiss'
      · rwa [List.length_append] at hbound
  | get key =>
    rcases hit_or_miss content l key with ⟨l₁, x, l₂, rfl, hx⟩ | hmiss
    · obtain ⟨hvalue, hholds, hevicts⟩ := h.get_hit hx hop
      refine ⟨[], _, ?_, hholds, hevicts, ?_⟩
      · rw [LRUCache.step, Prod.map_fst, hvalue, List.map_append, List.map_cons, List.map_cons, List.map_append]
        exact .get _ _ _ _ hx
      · rwa [← List.perm_middle.length_eq]
    · refine ⟨[], l, ?_⟩
      rw [LRUCache.step, h.get_miss hmiss hop]
      exact ⟨.getMiss _ _ (miss_entries hmiss), h, .refl, hbound⟩
  | remove key =>
    rcases hit_or_miss content l key with ⟨l₁, x, l₂, rfl, hx⟩ | hmiss
    · obtain ⟨hfound, hholds, hevicts⟩ := h.remove_hit hx hop
      refine ⟨[x.2], _, ?_, hholds, hevicts, ?_⟩
      · rw [LRUCache.step, Prod.map_fst, hfound, List.map_append, List.map_cons, List.map_append]
        exact .remove _ _ _ _ hx
      · simp only [List.length_append, List.length_cons] at hbound ⊢
        omega
    · refine ⟨[], l, ?_⟩
      rw [LRUCache.step, h.remove_miss hmiss hop]
      exact ⟨.removeMiss _ _ (miss_entries hmiss), h, .refl, hbound⟩
  | popTail =>
    rcases List.eq_nil_or_concat' l with rfl | ⟨l, x, rfl⟩
    · refine ⟨[], [], ?_⟩
      rw [LRUCache.step, h.popTail_nil]
      exact ⟨.popEmpty, h, .refl, hbound⟩
    · obtain ⟨hvalue, hholds, hevicts⟩ := h.popTail
      refine ⟨[], l, ?_, hholds, hevicts, ?_⟩
      · rw [LRUCache.step, Prod.map_fst, hvalue, List.map_append]
        exact .popTail _ _
      · rw [List.length_append] at hbound
        omega

/-- Operations are a run of the map. -/
theorem Holds.run (h : Holds content c l) (hbound : l.length ≤ c.capacity) (ops : List (LruOp K V))
    (hops : c.AllAllowed content ops) :
    ∃ left l', Run content c.capacity (l.map Prod.snd) ops (c.run content ops).1 left (l'.map Prod.snd) ∧
      Holds content (c.run content ops).2 l' ∧ Evicts c (c.run content ops).2 left ∧
      l'.length ≤ c.capacity := by
  induction ops generalizing c l with
  | nil => exact ⟨[], l, .nil _, h, .refl, hbound⟩
  | cons op ops ih =>
    obtain ⟨left, l', hstep, hholds, hevicts, hbound'⟩ := h.step hbound op hops.1
    rw [← hevicts.capacity] at hbound'
    obtain ⟨left', l'', hrun, hholds', hevicts', hbound''⟩ := ih hholds hbound' hops.2
    rw [hevicts.capacity] at hrun hbound''
    exact ⟨left ++ left', l'', .cons hstep hrun, hholds', hevicts.trans hevicts', hbound''⟩

/-- In every run the linked list and the map hold the entries of the bounded map, at most `capacity`;
`evict_callback` was called with the entries that left through `put` and `remove`, and `deinit` calls it with
the others; no freed key is read. -/
theorem refines_recency (content : K → C) (capacity : ℕ) (evictCallback : EvictCallback)
    (ops : List (LruOp K V)) (hops : (init capacity evictCallback).AllAllowed content ops) :
    let c := ((init capacity evictCallback).run content ops).2
    ∃ left l rest, Run content capacity [] ops ((init capacity evictCallback).run content ops).1 left
        (l.map Prod.snd) ∧ Holds content c l ∧ l.length ≤ capacity ∧
      c.calls = (init capacity evictCallback).called left ∧
      (∀ key, key ∈ c.freed ↔ evictCallback = .freesKey ∧ key ∈ left.map Prod.fst) ∧ c.fault = false ∧
      rest.Perm (l.map Prod.snd) ∧
      c.deinit.calls = (init capacity evictCallback).called (left ++ rest) ∧ c.deinit.fault = false ∧
      ∀ node, c.deinit.nodes node = none := by
  intro c
  obtain ⟨left, l, hrun, hholds, hevicts, hbound⟩ := (holds_init capacity evictCallback).run (Nat.zero_le _) ops hops
  obtain ⟨rest, hrest, hevicts', hfault, hnodes⟩ := hholds.deinit
  have hall := hevicts.trans hevicts'
  refine ⟨left, l, rest, hrun, hholds, hbound, hevicts.calls, fun key => ?_, hholds.sound, hrest, hall.calls,
    hfault, hnodes⟩
  rw [hevicts.freed, mem_frees]
  exact or_iff_left List.not_mem_nil

/-- The third `put` evicts an entry and uses its node again, and the fourth frees the key it replaces. -/
theorem refines_recency_reuse :
    let ops : List (LruOp (ℕ × Char) ℕ) := [.put (0, 'a') 10 0, .put (1, 'b') 20 1, .get (2, 'a'),
      .put (3, 'c') 30 1, .put (4, 'a') 11 0, .popTail, .remove (5, 'a')]
    let c := ((init 2 .freesKey).run Prod.snd ops).2
    ∃ left l, Run Prod.snd 2 [] ops ((init 2 .freesKey).run Prod.snd ops).1 left (l.map Prod.snd) ∧
      Holds Prod.snd c l ∧ c.calls = left ∧ c.fault = false := by
  intro ops c
  obtain ⟨left, l, -, hrun, hholds, -, hcalls, -, hfault, -⟩ :=
    refines_recency Prod.snd 2 .freesKey ops (by decide)
  exact ⟨left, l, hrun, hholds, hcalls, hfault⟩

end LRUCache

end Talyn
