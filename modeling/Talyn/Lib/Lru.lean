import Mathlib.Tactic

/-!
# A cache that evicts the least recently used entry

`Lru K V capacity` is the list of the entries of a cache, the one used last in front. Its keys are
distinct and it has at most `capacity` entries. `get` moves an entry to the front; `put` replaces the
entry of the key and evicts the last entry of a full cache, `remove` drops an entry. What leaves the
cache is returned: the caller disposes of it (`entries_perm_put`, `entries_perm_remove`).
-/

/-- The entries, the one used last in front. -/
structure Lru (K V : Type*) (capacity : ℕ) where
  entries : List (K × V)
  nodup : (entries.map Prod.fst).Nodup
  bounded : entries.length ≤ capacity

namespace Lru

variable {K V : Type*} {capacity : ℕ}

/-- A cache without entries. -/
def empty : Lru K V capacity := ⟨[], List.nodup_nil, Nat.zero_le _⟩

/-- Take a sublist of the entries. -/
def restrict (c : Lru K V capacity) (es : List (K × V)) (h : es.Sublist c.entries) :
    Lru K V capacity :=
  ⟨es, c.nodup.sublist (h.map _), h.length_le.trans c.bounded⟩

/-- Drop the last entry of a full cache. -/
def makeRoom (c : Lru K V capacity) : Lru K V capacity :=
  if capacity ≤ c.entries.length then c.restrict c.entries.dropLast (List.dropLast_sublist _) else c

/-- The entry `makeRoom` drops. -/
def overflow (c : Lru K V capacity) : List (K × V) :=
  if capacity ≤ c.entries.length then c.entries.getLast?.toList else []

theorem entries_makeRoom (c : Lru K V capacity) :
    c.makeRoom.entries ++ c.overflow = c.entries := by
  unfold makeRoom overflow
  split
  · cases h : c.entries.getLast? with
    | none => simp [restrict, List.getLast?_eq_none_iff.1 h]
    | some p => exact List.dropLast_append_getLast? p h
  · simp

theorem length_makeRoom (c : Lru K V capacity) (h : 0 < capacity) :
    c.makeRoom.entries.length < capacity := by
  have hle := c.bounded
  unfold makeRoom
  split
  · simp only [restrict, List.length_dropLast]
    omega
  · omega

variable [DecidableEq K]

/-- The value of a key. -/
def find? (c : Lru K V capacity) (k : K) : Option V := (c.entries.find? (·.1 = k)).map Prod.snd

/-- Drop the entry of a key. -/
def erase (c : Lru K V capacity) (k : K) : Lru K V capacity :=
  c.restrict (c.entries.filter (·.1 ≠ k)) List.filter_sublist

/-- Put a new entry in front. -/
def prepend (c : Lru K V capacity) (k : K) (v : V) (hk : k ∉ c.entries.map Prod.fst)
    (hroom : c.entries.length < capacity) : Lru K V capacity :=
  ⟨(k, v) :: c.entries, List.nodup_cons.2 ⟨hk, c.nodup⟩, hroom⟩

theorem find?_eq_some {c : Lru K V capacity} {k : K} {v : V} :
    c.find? k = some v ↔ (k, v) ∈ c.entries := by
  unfold find?
  constructor
  · intro h
    obtain ⟨⟨k', v'⟩, hp, rfl⟩ := Option.map_eq_some_iff.1 h
    have hk : k' = k := by simpa using List.find?_some hp
    exact hk ▸ List.mem_of_find?_eq_some hp
  · intro h
    have hsome : (c.entries.find? (·.1 = k)).isSome := by
      rw [List.find?_isSome]
      exact ⟨(k, v), h, by simp⟩
    obtain ⟨⟨k', v'⟩, hp⟩ := Option.isSome_iff_exists.1 hsome
    have hk : k' = k := by simpa using List.find?_some hp
    subst hk
    rw [hp, Option.map_some, Option.some.injEq]
    -- the keys are distinct, so the entry found is this one
    have := List.inj_on_of_nodup_map c.nodup (List.mem_of_find?_eq_some hp) h rfl
    exact congrArg Prod.snd this

theorem find?_eq_none {c : Lru K V capacity} {k : K} :
    c.find? k = none ↔ k ∉ c.entries.map Prod.fst := by
  constructor
  · intro h hk
    obtain ⟨⟨k', v⟩, hp, rfl⟩ := List.mem_map.1 hk
    rw [find?_eq_some.2 hp] at h
    exact nomatch h
  · intro h
    by_contra hne
    obtain ⟨v, hv⟩ := Option.ne_none_iff_exists'.1 hne
    exact h (List.mem_map_of_mem (find?_eq_some.1 hv))

theorem mem_erase {c : Lru K V capacity} {k : K} {p : K × V} :
    p ∈ (c.erase k).entries ↔ p ∈ c.entries ∧ p.1 ≠ k := by
  simp [erase, restrict]

theorem not_mem_erase (c : Lru K V capacity) (k : K) : k ∉ (c.erase k).entries.map Prod.fst := by
  simp [erase, restrict]

theorem length_erase {c : Lru K V capacity} {k : K} {v : V} (h : c.find? k = some v) :
    (c.erase k).entries.length < capacity :=
  lt_of_lt_of_le
    (List.length_filter_lt_length_iff_exists.2 ⟨(k, v), find?_eq_some.1 h, by simp⟩) c.bounded

/-- `get`: the value of the key, whose entry becomes the first. -/
def get (c : Lru K V capacity) (k : K) : Option V × Lru K V capacity :=
  match h : c.find? k with
  | none => (none, c)
  | some v => (some v, (c.erase k).prepend k v (c.not_mem_erase k) (length_erase h))

/-- `remove`: the entry dropped, and the cache without it. -/
def remove (c : Lru K V capacity) (k : K) : List (K × V) × Lru K V capacity :=
  ((c.find? k).toList.map (k, ·), c.erase k)

/-- The cache with room for the key. -/
def roomFor (c : Lru K V capacity) (k : K) : Lru K V capacity := (c.erase k).makeRoom

/-- The entries `put` evicts: the old one of the key, and the last one of a cache that is full. -/
def evicted (c : Lru K V capacity) (k : K) : List (K × V) :=
  (c.find? k).toList.map (k, ·) ++ (c.erase k).overflow

theorem not_mem_roomFor (c : Lru K V capacity) (k : K) :
    k ∉ (c.roomFor k).entries.map Prod.fst := by
  intro hk
  have hsub : (c.roomFor k).entries.Sublist (c.erase k).entries := by
    rw [← entries_makeRoom (c.erase k)]
    exact List.sublist_append_left _ _
  exact c.not_mem_erase k ((hsub.map _).subset hk)

/-- `put`: the entries evicted, the cache, and whether the new entry could be allocated. -/
def put (c : Lru K V capacity) (k : K) (v : V) (alloc : Bool) :
    List (K × V) × Lru K V capacity × Bool :=
  if hcap : 0 < capacity then
    if alloc then
      (c.evicted k,
        (c.roomFor k).prepend k v (c.not_mem_roomFor k) ((c.erase k).length_makeRoom hcap), true)
    else (c.evicted k, c.roomFor k, false)
  else ([], c, true)

/-! ### What the operations do to the entries -/

theorem get_fst (c : Lru K V capacity) (k : K) : (c.get k).1 = c.find? k := by
  unfold get
  split <;> simp [*]

/-- Dropping the entry of a key. -/
theorem entries_perm_remove (c : Lru K V capacity) (k : K) :
    c.entries.Perm ((c.remove k).1 ++ (c.remove k).2.entries) := by
  cases h : c.find? k with
  | none =>
    have hsame : (c.erase k).entries = c.entries := by
      rw [erase, restrict, List.filter_eq_self]
      intro p hp
      rw [find?_eq_none] at h
      simp only [decide_eq_true_eq, ne_eq]
      exact fun hk => h (hk ▸ List.mem_map_of_mem hp)
    simp [remove, h, hsame]
  | some v =>
    have hnodup : c.entries.Nodup := c.nodup.of_map _
    rw [List.perm_ext_iff_of_nodup hnodup]
    · intro p
      simp only [remove, h, Option.toList_some, List.map_cons, List.map_nil, List.singleton_append,
        List.mem_cons, mem_erase]
      constructor
      · intro hp
        by_cases hk : p.1 = k
        · exact .inl (List.inj_on_of_nodup_map c.nodup hp (find?_eq_some.1 h) hk)
        · exact .inr ⟨hp, hk⟩
      · rintro (rfl | hp)
        · exact find?_eq_some.1 h
        · exact hp.1
    · simp only [remove, h, Option.toList_some, List.map_cons, List.map_nil, List.singleton_append,
        List.nodup_cons, mem_erase]
      exact ⟨fun hp => hp.2 rfl, hnodup.sublist List.filter_sublist⟩

theorem entries_perm_get (c : Lru K V capacity) (k : K) : c.entries.Perm (c.get k).2.entries := by
  unfold get
  split
  · exact .refl _
  · rename_i v h
    have := entries_perm_remove c k
    simpa [remove, h, prepend] using this

/-- A full turn of `put`: what it evicts and what it keeps are the entries there were. -/
theorem entries_perm_put (c : Lru K V capacity) (k : K) :
    c.entries.Perm (c.evicted k ++ (c.roomFor k).entries) := by
  have hsplit : (c.erase k).entries.Perm ((c.erase k).overflow ++ (c.roomFor k).entries) := by
    rw [← entries_makeRoom (c.erase k)]
    exact List.perm_append_comm
  refine (entries_perm_remove c k).trans ?_
  rw [evicted, List.append_assoc]
  exact hsplit.append_left _

/-- A put that replaces the entry of its key evicts nothing else. -/
theorem evicted_of_find? {c : Lru K V capacity} {k : K} {v : V} (h : c.find? k = some v) :
    c.evicted k = [(k, v)] := by
  have hroom := length_erase h
  simp [evicted, overflow, h, Nat.not_le.2 hroom]

theorem roomFor_of_lt {c : Lru K V capacity} {k : K} (h : (c.erase k).entries.length < capacity) :
    c.roomFor k = c.erase k := if_neg (Nat.not_le.2 h)

theorem put_of_pos (c : Lru K V capacity) (k : K) (v : V) (h : 0 < capacity) :
    (c.put k v true).1 = c.evicted k ∧ (c.put k v true).2.1.entries = (k, v) :: (c.roomFor k).entries ∧
      (c.put k v true).2.2 = true := by
  rw [put, dif_pos h, if_pos rfl]
  exact ⟨rfl, rfl, rfl⟩

theorem entries_get_of_find? {c : Lru K V capacity} {k : K} {v : V} (h : c.find? k = some v) :
    (c.get k).2.entries = (k, v) :: (c.erase k).entries := by
  unfold get
  split
  · rename_i hnone
    exact nomatch h.symm.trans hnone
  · rename_i v' hv
    obtain rfl := Option.some.inj (h.symm.trans hv)
    rfl

theorem get_of_find?_none {c : Lru K V capacity} {k : K} (h : c.find? k = none) : c.get k = (none, c) := by
  unfold get
  split
  · rfl
  · rename_i v hv
    exact nomatch h.symm.trans hv

end Lru
