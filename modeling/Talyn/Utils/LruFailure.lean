import Talyn.Utils.LruRefinement

/-!
# `LRUCache.put` without memory

`put` drops the entry of its key, and the entry used first of a full cache, before it allocates the node and
grows the map. A `put` that fails is undone by an `errdefer` for the node only, so what it dropped is gone.
-/

namespace Talyn

namespace LRUCache

/-- The memory there is for a `put`: for the node, and for the map. -/
structure Memory where
  create : Bool
  grow : Bool
  deriving DecidableEq, Repr

variable {K V C : Type} (content : K → C)

section Run

variable [DecidableEq C] [DecidableEq K]

/-- `put` with the memory there is; `node` is the address of the new node. -/
def tryPut (c : LRUCache K V) (key : K) (value : V) (node : ℕ) (memory : Memory) : Bool × LRUCache K V :=
  c.put content key value (if memory.create then some node else none) memory.grow

/-- An operation on the cache with the memory there is. -/
def call (c : LRUCache K V) (op : LruOp K V) (memory : Memory) : LRUCache K V :=
  match op with
  | .put key value node => (c.tryPut content key value node memory).2
  | op => (c.step content op).2

/-- The cache after operations, of which some may fail. -/
def runCalls (c : LRUCache K V) (calls : List (LruOp K V × Memory)) : LRUCache K V :=
  calls.foldl (fun c call => c.call content call.1 call.2) c

/-- Every operation is allowed. -/
def AllCallsAllowed (c : LRUCache K V) : List (LruOp K V × Memory) → Prop
  | [] => True
  | (op, memory) :: calls => c.Allowed content op ∧ AllCallsAllowed (c.call content op memory) calls

instance decidableAllCallsAllowed (c : LRUCache K V) :
    (calls : List (LruOp K V × Memory)) → Decidable (c.AllCallsAllowed content calls)
  | [] => inferInstanceAs (Decidable True)
  | (op, memory) :: calls =>
    have := decidableAllCallsAllowed (c.call content op memory) calls
    inferInstanceAs (Decidable (c.Allowed content op ∧ (c.call content op memory).AllCallsAllowed content calls))

end Run

/-- The content of the cache, from the entry used last to the one used first. -/
def Entries (c : LRUCache K V) (es : List (K × V)) : Prop := ∃ l, Holds content c l ∧ l.map Prod.snd = es

/-- Content and order are the same, and `evict_callback` was not called. -/
structure Unchanged (c c' : LRUCache K V) : Prop where
  entries : ∀ es, Entries content c es ↔ Entries content c' es
  calls : c'.calls = c.calls

open Chain

variable {content} {c c' : LRUCache K V} {l : List (ℕ × K × V)} {key : K}

theorem Entries.length_map {es : List (K × V)} (h : Entries content c es) : c.map.length = es.length := by
  obtain ⟨l, hholds, rfl⟩ := h
  rw [hholds.length_map, List.length_map]

/-- A cache that holds fewer entries is not the same. -/
theorem Holds.not_unchanged (h : Holds content c l) (hless : c'.map.length < c.map.length) :
    ¬Unchanged content c c' := by
  intro hsame
  have hentries : Entries content c' (l.map Prod.snd) := (hsame.entries _).1 ⟨l, h, rfl⟩
  have hlength := hentries.length_map
  rw [List.length_map, ← h.length_map] at hlength
  omega

section Put

variable [DecidableEq C] [DecidableEq K]

/-- The key has no entry, and there is room for one. -/
def HasRoom (content : K → C) (c : LRUCache K V) (key : K) : Prop :=
  (∀ entry ∈ c.map, content entry.1 ≠ content key) ∧ c.map.length < c.capacity

instance (key : K) : Decidable (HasRoom content c key) := inferInstanceAs (Decidable (_ ∧ _))

theorem Holds.roomFor_eq (h : Holds content c l) (hkey : key ∉ c.freed) (hroom : HasRoom content c key) :
    c.roomFor content key = c := by
  have hmiss : ∀ x ∈ l, content x.2.1 ≠ content key := fun x hx =>
    hroom.1 (x.2.1, x.1) (h.map.mem_iff.2 (List.mem_map_of_mem hx))
  rw [roomFor, h.mapGet_miss hmiss hkey]
  exact if_neg (Nat.not_le.2 hroom.2)

/-- What `put` drops before it allocates. -/
theorem Holds.roomFor (h : Holds content c l) (hbound : l.length ≤ c.capacity) (hcapacity : 0 < c.capacity)
    (hkey : key ∉ c.freed) :
    ∃ left l', Holds content (c.roomFor content key) l' ∧ Evicts c (c.roomFor content key) left ∧
      l'.length ≤ c.capacity ∧ left ⊆ l.map Prod.snd ∧ (¬HasRoom content c key → l'.length < l.length) := by
  by_cases hroom : HasRoom content c key
  · rw [h.roomFor_eq hkey hroom]
    exact ⟨[], l, h, .refl, hbound, List.nil_subset _, fun hnot => absurd hroom hnot⟩
  rcases hit_or_miss content l key with ⟨l₁, x, l₂, rfl, hx⟩ | hmiss
  · obtain ⟨hdropped, hevicts⟩ := h.drop
    rw [List.length_append, List.length_cons] at hbound
    have heq : c.roomFor content key =
        (((c.mapRemoveNode content x.1).removeNode x.1).evict x.1).destroy x.1 := by
      rw [LRUCache.roomFor, h.mapGet_hit hx hkey]
      dsimp only
      rw [if_neg]
      rw [hdropped.length_map, hevicts.capacity, List.length_append]
      omega
    rw [heq]
    refine ⟨[x.2], l₁ ++ l₂, hdropped, hevicts, ?_, by simp, fun _ => ?_⟩
    · rw [List.length_append]
      omega
    · simp only [List.length_append, List.length_cons]
      omega
  · have hfull : c.capacity ≤ c.map.length := by
      refine Nat.not_lt.1 fun hlt => hroom ⟨fun entry hentry => ?_, hlt⟩
      obtain ⟨x, hx, rfl⟩ := List.mem_map.1 (h.map.mem_iff.1 hentry)
      exact hmiss x hx
    have heq : c.roomFor content key = c.evictLast content := by
      rw [LRUCache.roomFor, h.mapGet_miss hmiss hkey]
      exact if_pos hfull
    rw [h.length_map] at hfull
    obtain rfl | ⟨l, x, rfl⟩ := List.eq_nil_or_concat' l
    · rw [List.length_nil] at hfull
      omega
    obtain ⟨hdropped, hevicts⟩ := h.evictLast
    rw [heq]
    rw [List.length_append, List.length_singleton] at hbound
    refine ⟨[x.2], l, hdropped, hevicts, by omega, by simp, fun _ => ?_⟩
    rw [List.length_append, List.length_singleton]
    exact Nat.lt_succ_self _

/-- A failing `put` stops after the dropping: the node, if there is one, is destroyed again. -/
theorem Holds.insert_failed {value : V} {node : Option ℕ} {room : Bool} (h : Holds content c l)
    (hkey : key ∉ c.freed) (hnode : ∀ i ∈ node, c.nodes i = none)
    (hfail : (c.insert content key value node room).1 = false) :
    (c.insert content key value node room).2 = c := by
  unfold LRUCache.insert at hfail ⊢
  cases node with
  | none => rfl
  | some i =>
    dsimp only at hfail ⊢
    split at hfail
    · exact nomatch hfail
    · rename_i hroom
      have hcell : (c.create i key value).nodes i = some ⟨(key, value), none, none⟩ := Function.update_self _ _ _
      have hread : (c.create i key value).readKeys key = c.create i key value := by
        have hread := h.readKeys_eq hkey
        unfold readKeys at hread ⊢
        exact congrArg (fun fault => { c.create i key value with fault }) (congrArg LRUCache.fault hread)
      rw [if_neg hroom, hread, destroy_of_node hcell]
      have hnodes : Function.update (Function.update c.nodes i (some ⟨(key, value), none, none⟩)) i none =
          c.nodes := by
        rw [Function.update_idem, Function.update_eq_self_iff]
        exact (hnode i rfl).symm
      exact congrArg (fun nodes => { c with nodes }) hnodes

/-- After a failing `put` what it dropped is gone. -/
theorem Holds.put_failed {value : V} {node : ℕ} {memory : Memory} (h : Holds content c l)
    (hbound : l.length ≤ c.capacity) (hop : c.Allowed content (.put key value node))
    (hfail : (c.tryPut content key value node memory).1 = false) :
    ∃ left l', Holds content (c.tryPut content key value node memory).2 l' ∧
      Evicts c (c.tryPut content key value node memory).2 left ∧ l'.length ≤ c.capacity ∧
      (c.tryPut content key value node memory).2 = c.roomFor content key ∧
      (¬HasRoom content c key → l'.length < l.length) := by
  obtain ⟨hkey, hown, hnode⟩ := hop
  have hcapacity : c.capacity ≠ 0 := by
    intro hzero
    rw [tryPut, LRUCache.put, if_pos hzero] at hfail
    cases hfail
  obtain ⟨left, l', hholds, hevicts, hbound', hsub, hless⟩ :=
    h.roomFor hbound (Nat.pos_of_ne_zero hcapacity) hkey
  have hkey' : key ∉ (c.roomFor content key).freed := by
    refine hevicts.not_freed hkey fun hfrees hmem => hown hfrees ?_
    obtain ⟨entry, hentry, rfl⟩ := List.mem_map.1 hmem
    obtain ⟨x, hx, rfl⟩ := List.mem_map.1 (hsub hentry)
    exact List.mem_map.2 ⟨(x.2.1, x.1), h.map.mem_iff.2 (List.mem_map_of_mem hx), rfl⟩
  have heq : (c.tryPut content key value node memory).2 = c.roomFor content key := by
    rw [tryPut, LRUCache.put, if_neg hcapacity] at hfail ⊢
    refine hholds.insert_failed hkey' (fun i hi => ?_) hfail
    split at hi
    · obtain rfl := Option.some.inj hi
      exact hnode (Nat.pos_of_ne_zero hcapacity)
    · cases hi
  rw [heq]
  exact ⟨left, l', hholds, hevicts, hbound', rfl, hless⟩

/-- Every call, failing or not, leaves a cache that is in order. -/
theorem Holds.call (h : Holds content c l) (hbound : l.length ≤ c.capacity) (op : LruOp K V) (memory : Memory)
    (hop : c.Allowed content op) :
    ∃ l', Holds content (c.call content op memory) l' ∧ (c.call content op memory).capacity = c.capacity ∧
      l'.length ≤ c.capacity := by
  obtain ⟨left, l', -, hholds, hevicts, hbound'⟩ := h.step hbound op hop
  cases op with
  | put key value node =>
    show ∃ l', Holds content (c.tryPut content key value node memory).2 l' ∧
      (c.tryPut content key value node memory).2.capacity = c.capacity ∧ l'.length ≤ c.capacity
    cases hok : (c.tryPut content key value node memory).1 with
    | false =>
      obtain ⟨left, l', hholds, hevicts, hbound', -⟩ := h.put_failed hbound hop hok
      exact ⟨l', hholds, hevicts.capacity, hbound'⟩
    | true =>
      have heq : c.tryPut content key value node memory = c.put content key value (some node) true := by
        unfold tryPut LRUCache.put at hok ⊢
        split_ifs at hok ⊢
        · rfl
        · cases hgrow : memory.grow with
          | true => rfl
          | false =>
            rw [hgrow] at hok
            exact nomatch hok
        · exact nomatch hok
      rw [heq]
      exact ⟨l', hholds, hevicts.capacity, hbound'⟩
  | get key => exact ⟨l', hholds, hevicts.capacity, hbound'⟩
  | remove key => exact ⟨l', hholds, hevicts.capacity, hbound'⟩
  | popTail => exact ⟨l', hholds, hevicts.capacity, hbound'⟩

theorem Holds.runCalls (h : Holds content c l) (hbound : l.length ≤ c.capacity)
    (calls : List (LruOp K V × Memory)) (hcalls : c.AllCallsAllowed content calls) :
    ∃ l', Holds content (c.runCalls content calls) l' ∧ l'.length ≤ (c.runCalls content calls).capacity := by
  induction calls generalizing c l with
  | nil => exact ⟨l, h, hbound⟩
  | cons call calls ih =>
    obtain ⟨l', hholds, hcapacity, hbound'⟩ := h.call hbound call.1 call.2 hcalls.1
    exact ih hholds (hcapacity ▸ hbound') hcalls.2

/-- **A `put` that fails** leaves content and order as they are, and calls `evict_callback` for no entry,
exactly when the key has no entry and the cache is not full. -/
theorem failed_put_unchanged_iff (content : K → C) (capacity : ℕ) (evictCallback : EvictCallback)
    (calls : List (LruOp K V × Memory)) (hcalls : (init capacity evictCallback).AllCallsAllowed content calls)
    (key : K) (value : V) (node : ℕ) (memory : Memory) :
    let c := (init capacity evictCallback).runCalls content calls
    c.Allowed content (.put key value node) → (c.tryPut content key value node memory).1 = false →
      (Unchanged content c (c.tryPut content key value node memory).2 ↔ HasRoom content c key) := by
  intro c hop hfail
  obtain ⟨l, hholds, hbound⟩ := (holds_init capacity evictCallback).runCalls (Nat.zero_le _) calls hcalls
  obtain ⟨left, l', hholds', -, -, heq, hless⟩ := hholds.put_failed hbound hop hfail
  constructor
  · intro hsame
    by_contra hnot
    refine hholds.not_unchanged ?_ hsame
    rw [hholds'.length_map, hholds.length_map]
    exact hless hnot
  · intro hroom
    rw [heq, hholds.roomFor_eq hop.1 hroom]
    exact ⟨fun _ => Iff.rfl, rfl⟩

/-- A `put` of a new key into a cache with room for it. -/
theorem failed_put_unchanged_room :
    let c : LRUCache ℕ ℕ := (init 2 .keepsKey).runCalls id [(.put 1 100 0, ⟨true, true⟩)]
    Unchanged id c (c.tryPut id 2 200 1 ⟨false, true⟩).2 :=
  (failed_put_unchanged_iff id 2 .keepsKey [(.put 1 100 0, ⟨true, true⟩)] (by decide) 2 200 1 ⟨false, true⟩
    (by decide) (by decide)).2 (by decide)

/-- A full cache: the `put` fails for want of a node, and the entry used first is evicted all the same. -/
theorem failed_put_evicts :
    let c : LRUCache ℕ ℕ := (init 1 .keepsKey).runCalls id [(.put 1 100 0, ⟨true, true⟩)]
    (c.tryPut id 2 200 1 ⟨false, true⟩).1 = false ∧ ¬Unchanged id c (c.tryPut id 2 200 1 ⟨false, true⟩).2 := by
  intro c
  refine ⟨by decide, fun h => ?_⟩
  have hcalls : (c.tryPut id 2 200 1 ⟨false, true⟩).2.calls = [(1, 100)] := by decide
  exact absurd (h.calls.symm.trans hcalls) (by decide)

end Put

end LRUCache

end Talyn
