import Talyn.Utils.BTreeRemoval
import Talyn.Utils.BTreeSplit

/-!
# The B-tree is a finite map

What the B-tree is for: a finite map from keys to values that can be asked for its smallest and its
biggest key. The operations on the nodes give the results that the operations on the map give, along
every run from the empty tree.
-/

namespace Talyn.BTree

/-! ### The map -/

/-- The abstract state. -/
abbrev Map (K V : Type) := Finmap fun _ : K => V

/-- The operations that change the tree. -/
inductive Op (K V : Type)
  | insert (key : K) (value : V)
  | replace (key : K) (value : V)
  | delete (key : K)
  | pop

/-- What they return: `insert` a flag, `replace` and `delete` the value that was there, `pop` the
entry it removed. -/
inductive Result (K V : Type)
  | inserted (done : Bool)
  | previous (value : Option V)
  | popped (entry : Option (K × V))
  deriving DecidableEq

variable {K V : Type} [LinearOrder K]

namespace Map

/-- The entry with the biggest key. -/
def maxEntry (m : Map K V) : Option (K × V) :=
  m.keys.max.recBotCoe none fun k => (m.lookup k).map (Prod.mk k)

/-- The entry with the smallest key. -/
def minEntry (m : Map K V) : Option (K × V) :=
  m.keys.min.recTopCoe none fun k => (m.lookup k).map (Prod.mk k)

/-- One operation on the map. -/
def apply (m : Map K V) : Op K V → Map K V × Result K V
  | .insert k v => if k ∈ m then (m, .inserted false) else (Finmap.insert k v m, .inserted true)
  | .replace k v => (Finmap.insert k v m, .previous (m.lookup k))
  | .delete k => (m.erase k, .previous (m.lookup k))
  | .pop => ((m.maxEntry.map fun e => m.erase e.1).getD m, .popped m.maxEntry)

/-- The operations one after the other. -/
def run (m : Map K V) : List (Op K V) → Map K V × List (Result K V)
  | [] => (m, [])
  | op :: ops => (run (m.apply op).1 ops).map id ((m.apply op).2 :: ·)

end Map

/-! ### The tree -/

section

variable [Inhabited K] [Inhabited V]

/-- One operation on the tree. -/
def apply (degree : ℕ) (alloc : ℕ → Bool) (t : BTree K V) :
    Op K V → Option (BTree K V × Result K V)
  | .insert k v => (t.insert degree alloc k v).map fun r => (r.1, .inserted r.2)
  | .replace k v => (t.replace degree alloc k v).map fun r => (r.1, .previous r.2)
  | .delete k => (t.delete k).map fun r => (r.1, .previous r.2)
  | .pop => t.pop.map fun r => (r.1, .popped r.2)

/-- The operations one after the other; `none` when one of them fails. -/
def run (degree : ℕ) (alloc : ℕ → Bool) (t : BTree K V) :
    List (Op K V) → Option (BTree K V × List (Result K V))
  | [] => some (t, [])
  | op :: ops =>
    (t.apply degree alloc op).bind fun r =>
      (run degree alloc r.1 ops).map fun s => (s.1, r.2 :: s.2)

end

/-- The representation invariant, in terms of the nodes. By `child` and `linked` the parent pointers
are the child pointers turned round, so what is `Under` a node is what its child pointers reach. -/
structure Proper (degree : ℕ) (t : BTree K V) : Prop where
  root : ∃ n, t.heap t.root = some n ∧ n.parent = none
  ascending : ∀ p n i j, t.heap p = some n → i < j → j < n.nkeys → n.keys i < n.keys j
  separating : ∀ p n i c q k, t.heap p = some n → n.childs i = some c → Under t c q →
    HasKey t q k → (∀ j < i, n.keys j < k) ∧ ∀ j, i ≤ j → j < n.nkeys → k < n.keys j
  size : ∀ p n, t.heap p = some n → n.nkeys < degree
  slots : ∀ p n i, t.heap p = some n → n.nkeys < i → n.childs i = none
  child : ∀ p n i c, t.heap p = some n → n.childs i = some c →
    ∃ nc, t.heap c = some nc ∧ nc.parent = some p
  linked : ∀ p n, t.heap p = some n → p ≠ t.root →
    ∃ q nq i, n.parent = some q ∧ t.heap q = some nq ∧ nq.childs i = some p
  reached : ∀ p n, t.heap p = some n → Under t t.root p
  nonempty : ∀ p n, t.heap p = some n → p ≠ t.root → 0 < n.nkeys

theorem Inv.proper {degree : ℕ} {g : Ranges K} {t : BTree K V} (h : Inv degree g none t) :
    Proper degree t where
  root := h.root
  ascending := fun p n i j hp => (h.sorted p n hp).ascending i j
  separating := by
    intro p n i c q k hp hc hu hk
    obtain ⟨-, hlo, hhi, -⟩ := h.child p n i c hp hc
    obtain ⟨hklo, hkhi⟩ := h.key_range hk
    obtain ⟨nq, -, hq, -, -⟩ := hk
    obtain ⟨hulo, huhi, -⟩ := h.under_range hu ⟨nq, hq⟩
    have hfits := (h.sorted p n hp).fits (h.slot_le hp hc)
      (lt_of_le_of_lt (hlo ▸ hulo) hklo) (lt_of_lt_of_le hkhi (hhi ▸ huhi))
    exact ⟨hfits.before, hfits.after⟩
  size := fun p n hp => (h.size p n hp).resolve_right nofun
  slots := h.slots
  child := fun p n i c hp hc => (h.child p n i c hp hc).1
  linked := h.linked
  reached := fun p n hp => h.under_root ⟨n, hp⟩
  nonempty := fun p n hp hr => (h.nonempty p n hp hr).resolve_right nofun

/-- The tree holds what the map holds. -/
structure Represents (degree : ℕ) (t : BTree K V) (m : Map K V) : Prop where
  inv : ∃ g, Inv degree g none t
  holds : ∀ k v, Holds t k v ↔ m.lookup k = some v

/-! ### Maps -/

namespace Map

variable {m : Map K V} {k : K} {v : V}

theorem mem_keys_of_lookup (h : m.lookup k = some v) : k ∈ m.keys :=
  Finmap.mem_keys.2 (Finmap.lookup_isSome.1 (by rw [h]; rfl))

theorem exists_lookup_of_mem_keys (h : k ∈ m.keys) : ∃ v, m.lookup k = some v :=
  Option.isSome_iff_exists.1 (Finmap.lookup_isSome.2 (Finmap.mem_keys.1 h))

theorem maxEntry_eq (h : m.lookup k = some v) (hmax : ∀ k' v', m.lookup k' = some v' → k' ≤ k) :
    m.maxEntry = some (k, v) := by
  have heq : m.keys.max = (k : WithBot K) := by
    apply le_antisymm
    · refine Finset.max_le fun k' hk' => ?_
      obtain ⟨v', hv'⟩ := exists_lookup_of_mem_keys hk'
      exact WithBot.coe_le_coe.2 (hmax k' v' hv')
    · exact Finset.le_max (mem_keys_of_lookup h)
  simp [maxEntry, heq, h]

theorem minEntry_eq (h : m.lookup k = some v) (hmin : ∀ k' v', m.lookup k' = some v' → k ≤ k') :
    m.minEntry = some (k, v) := by
  have heq : m.keys.min = (k : WithTop K) := by
    apply le_antisymm
    · exact Finset.min_le (mem_keys_of_lookup h)
    · refine Finset.le_min fun k' hk' => ?_
      obtain ⟨v', hv'⟩ := exists_lookup_of_mem_keys hk'
      exact WithTop.coe_le_coe.2 (hmin k' v' hv')
  simp [minEntry, heq, h]

theorem keys_eq_empty (h : ∀ k v, m.lookup k ≠ some v) : m.keys = ∅ := by
  refine Finset.eq_empty_of_forall_notMem fun k hk => ?_
  obtain ⟨v, hv⟩ := exists_lookup_of_mem_keys hk
  exact h k v hv

theorem maxEntry_empty (h : ∀ k v, m.lookup k ≠ some v) : m.maxEntry = none := by
  simp [maxEntry, keys_eq_empty h]

theorem minEntry_empty (h : ∀ k v, m.lookup k ≠ some v) : m.minEntry = none := by
  simp [minEntry, keys_eq_empty h]

end Map

/-! ### The lookups -/

namespace Represents

variable {degree : ℕ} {t : BTree K V} {m : Map K V}

/-- `get_value_ptr` finds the node and the place of the key. -/
theorem getValuePtr_spec (h : Represents degree t m) (k : K) :
    ∃ g, Inv degree g none t ∧ ∃ p n, t.heap p = some n ∧
      ((∃ i, t.getValuePtr k = some (p, some i) ∧ i < n.nkeys ∧ n.keys i = k ∧
          m.lookup k = some (n.values i)) ∨
        t.getValuePtr k = some (p, none) ∧ m.lookup k = none ∧ g.lo p < (k : K) ∧
          (k : K) < g.hi p ∧ n.Fits k (n.position k) ∧ n.childs (n.position k) = none) := by
  obtain ⟨g, hinv⟩ := h.inv
  refine ⟨g, hinv, ?_⟩
  obtain ⟨nr, hr, -⟩ := hinv.root
  obtain ⟨p, n, hp, ⟨i, hs, hi, hk⟩ | ⟨hs, hno, hlo, hhi, hfits, hnone⟩⟩ :=
    hinv.search_spec (x := k) (Nat.le_add_right t.next (g.depth t.root)) ⟨nr, hr⟩
      (by rw [hinv.rootRange.1]; exact WithBot.bot_lt_coe k)
      (by rw [hinv.rootRange.2]; exact WithTop.coe_lt_top k)
      (fun q hq => hinv.under_root (by obtain ⟨nq, -, hnq, -⟩ := hq; exact ⟨nq, hnq⟩))
  · exact ⟨p, n, hp, .inl ⟨i, hs, hi, hk, (h.holds k _).1 ⟨p, n, hp, i, hi, hk, rfl⟩⟩⟩
  · refine ⟨p, n, hp, .inr ⟨hs, ?_, hlo, hhi, hfits, hnone⟩⟩
    cases hv : m.lookup k with
    | none => rfl
    | some v =>
      obtain ⟨q, hq⟩ := ((h.holds k v).2 hv).hasKey
      exact absurd hq (hno q)

/-- `get_value` is `lookup`. -/
theorem getValue_eq (h : Represents degree t m) (k : K) : t.getValue k = some (m.lookup k) := by
  obtain ⟨g, -, p, n, hp, ⟨i, hs, -, -, hv⟩ | ⟨hs, hv, -⟩⟩ := h.getValuePtr_spec k
  · simp only [getValue, hs, hp, hv, Option.map_some]
  · simp only [getValue, hs, hv]

/-- Only the root can be empty, and nothing is below it then. -/
theorem empty_of_nkeys {p : ℕ} {n : Node K V} (h : Represents degree t m) (hp : t.heap p = some n)
    (hzero : n.nkeys = 0) (k : K) (v : V) : m.lookup k ≠ some v := by
  obtain ⟨g, hinv⟩ := h.inv
  intro hv
  obtain ⟨q, hq⟩ := ((h.holds k v).2 hv).hasKey
  have hroot : p = t.root := by
    by_contra hne
    have := (hinv.nonempty p n hp hne).resolve_right nofun
    omega
  obtain ⟨nq, j, hnq, hj, -⟩ := id hq
  rcases hinv.under_cases (hinv.under_root ⟨nq, hnq⟩) with heq | ⟨n', i, c, hn', hc, -⟩
  · rw [heq, ← hroot] at hnq
    obtain rfl := Option.some.inj (hp.symm.trans hnq)
    omega
  · rw [← hroot] at hn'
    obtain rfl := Option.some.inj (hp.symm.trans hn')
    have hle := hinv.slot_le hp hc
    obtain rfl : i = 0 := by omega
    rw [(hinv.empty p n hp hzero).resolve_right nofun] at hc
    exact nomatch hc

/-- The walk to the biggest key ends at an empty root or at the entry. -/
theorem findMax_spec (h : Represents degree t m) :
    ∃ p n, t.findMaxFrom t.next t.root = some p ∧ t.heap p = some n ∧
      (n.nkeys = 0 ∧ m.maxEntry = none ∨
        0 < n.nkeys ∧ m.maxEntry = some (n.keys (n.nkeys - 1), n.values (n.nkeys - 1))) := by
  obtain ⟨g, hinv⟩ := h.inv
  obtain ⟨nr, hr, -⟩ := hinv.root
  obtain ⟨p, n, hfind, hp, -, -, -, hmax, -⟩ :=
    hinv.findMaxFrom_spec (Nat.le_add_right t.next (g.depth t.root)) hr
  refine ⟨p, n, hfind, hp, ?_⟩
  rcases Nat.eq_zero_or_pos n.nkeys with hzero | hpos
  · exact .inl ⟨hzero, Map.maxEntry_empty (h.empty_of_nkeys hp hzero)⟩
  · refine .inr ⟨hpos, Map.maxEntry_eq ((h.holds _ _).1 ⟨p, n, hp, n.nkeys - 1, by omega, rfl, rfl⟩) ?_⟩
    intro k v hv
    obtain ⟨q, hq⟩ := ((h.holds k v).2 hv).hasKey
    obtain ⟨nq, -, hnq, -, -⟩ := id hq
    exact hmax q k (hinv.under_root ⟨nq, hnq⟩) hq

/-- `get_max_value` is the biggest entry. -/
theorem getMaxValue_eq (h : Represents degree t m) : t.getMaxValue = some m.maxEntry := by
  obtain ⟨p, n, hfind, hp, ⟨hzero, hmax⟩ | ⟨hpos, hmax⟩⟩ := h.findMax_spec
  · simp only [getMaxValue, hfind, hp, hmax, Option.map_some, hzero, if_true]
  · simp only [getMaxValue, hfind, hp, hmax, Option.map_some, hpos.ne', if_false]

/-- `get_min_value` is the smallest entry. -/
theorem getMinValue_eq (h : Represents degree t m) : t.getMinValue = some m.minEntry := by
  obtain ⟨g, hinv⟩ := h.inv
  obtain ⟨nr, hr, -⟩ := hinv.root
  obtain ⟨p, n, hfind, hp, -, -, -, hmin, -⟩ :=
    hinv.findMinFrom_spec (Nat.le_add_right t.next (g.depth t.root)) hr
  rcases Nat.eq_zero_or_pos n.nkeys with hzero | hpos
  · have hempty := Map.minEntry_empty (h.empty_of_nkeys hp hzero)
    simp only [getMinValue, hfind, hp, hempty, Option.map_some, hzero, if_true]
  · have hentry : m.minEntry = some (n.keys 0, n.values 0) := by
      refine Map.minEntry_eq ((h.holds _ _).1 ⟨p, n, hp, 0, hpos, rfl, rfl⟩) ?_
      intro k v hv
      obtain ⟨q, hq⟩ := ((h.holds k v).2 hv).hasKey
      obtain ⟨nq, -, hnq, -, -⟩ := id hq
      exact hmin q k (hinv.under_root ⟨nq, hnq⟩) hq
    simp only [getMinValue, hfind, hp, hentry, Option.map_some, hpos.ne', if_false]

/-! ### The operations -/

/-- `insert_in_node` at the empty slot the key fits into. -/
theorem insertInNode_spec [Inhabited K] [Inhabited V] {alloc : ℕ → Bool} {g : Ranges K} {p : ℕ}
    {n : Node K V} {k : K} {v : V} (h : Represents degree t m) (hodd : degree % 2 = 1)
    (h3 : 3 ≤ degree) (halloc : ∀ a, alloc a = true) (hinv : Inv degree g none t)
    (hp : t.heap p = some n) (hlo : g.lo p < (k : K)) (hhi : (k : K) < g.hi p)
    (hfits : n.Fits k (n.position k)) (hnone : n.childs (n.position k) = none)
    (hnew : m.lookup k = none) :
    ∃ t', insertInNode degree alloc t p k v = some (t', true) ∧
      Represents degree t' (Finmap.insert k v m) := by
  have hins := Node.insertEntry_inserted hfits (fun j => hinv.slots p n j hp) v none
  have hset : t.doInsertion p k v none = t.set p (n.insertEntry k v none) := modify_eq hp _
  have hodd' := hinv.insertAt hp hfits hnone hlo hhi hins
  obtain ⟨t', g', hloop, hinv', hholds⟩ := hodd'.splitNodes_spec
    (show degree = 2 * ((degree - 1) / 2) + 1 by omega) (by omega) halloc (hinv.depth p n hp)
    (heap_set_self t p _) (by rw [hins.nkeys]; omega)
  refine ⟨t', by rw [insertInNode, hset, hloop], ⟨g', hinv'⟩, ?_⟩
  intro k' v'
  rw [hholds]
  rw [hins.holds_iff hp hfits.le, h.holds]
  by_cases hk : k' = k
  · subst hk
    rw [Finmap.lookup_insert, hnew]
    simp [eq_comm]
  · rw [Finmap.lookup_insert_of_ne m hk]
    simp [hk]

/-- The map without the key that a deletion took out. -/
theorem of_erased {t' : BTree K V} {k : K} (h : Represents degree t m)
    (hinv : ∃ g, Inv degree g none t')
    (hholds : ∀ k' v', Holds t' k' v' ↔ Holds t k' v' ∧ k' ≠ k) :
    Represents degree t' (m.erase k) := by
  refine ⟨hinv, ?_⟩
  intro k' v'
  rw [hholds, h.holds]
  by_cases hk : k' = k
  · subst hk
    simp
  · rw [Finmap.lookup_erase_ne hk]
    simp [hk]

theorem delete_spec (h : Represents degree t m) (k : K) :
    ∃ t', t.delete k = some (t', m.lookup k) ∧ Represents degree t' (m.erase k) := by
  obtain ⟨g, hinv, p, n, hp, ⟨i, hs, hi, hk, hv⟩ | ⟨hs, hv, -⟩⟩ := h.getValuePtr_spec k
  · have hfind : ((List.range n.nkeys).find? fun j => k = n.keys j) = some i := by
      rw [List.find?_range_eq_some]
      refine ⟨by simp [hk], List.mem_range.2 hi, ?_⟩
      intro j hj
      simp only [Bool.not_eq_true', decide_eq_false_iff_not, ← hk]
      exact ((hinv.sorted p n hp).ascending j i hj hi).ne'
    obtain ⟨t', g', hdel, hinv', hholds⟩ := hinv.deleteKeyFromNode_spec hp hi
    refine ⟨t', ?_, h.of_erased ⟨g', hinv'⟩ (hk ▸ hholds)⟩
    simp only [BTree.delete, hs, hp, hfind, hdel, Option.map_some, hv]
  · refine ⟨t, ?_, ?_⟩
    · simp only [BTree.delete, hs, hv]
    · have herase : m.erase k = m := by
        apply Finmap.ext_lookup
        intro k'
        by_cases hk : k' = k
        · rw [hk, Finmap.lookup_erase, hv]
        · rw [Finmap.lookup_erase_ne hk]
      rw [herase]
      exact h

theorem pop_spec (h : Represents degree t m) :
    ∃ t', t.pop = some (t', m.maxEntry) ∧
      Represents degree t' ((m.maxEntry.map fun e => m.erase e.1).getD m) := by
  obtain ⟨g, hinv⟩ := h.inv
  obtain ⟨p, n, hfind, hp, ⟨hzero, hmax⟩ | ⟨hpos, hmax⟩⟩ := h.findMax_spec
  · refine ⟨t, ?_, ?_⟩
    · simp only [BTree.pop, hfind, hp, hzero, if_true, hmax]
    · rw [hmax]
      exact h
  · obtain ⟨t', g', hdel, hinv', hholds⟩ := hinv.deleteKeyFromNode_spec hp
      (show n.nkeys - 1 < n.nkeys by omega)
    refine ⟨t', ?_, ?_⟩
    · simp only [BTree.pop, hfind, hp, hpos.ne', if_false, hdel, Option.map_some, hmax]
    · rw [hmax]
      exact h.of_erased ⟨g', hinv'⟩ hholds

variable [Inhabited K] [Inhabited V] {alloc : ℕ → Bool}

theorem insert_spec (h : Represents degree t m) (hodd : degree % 2 = 1) (h3 : 3 ≤ degree)
    (halloc : ∀ a, alloc a = true) (k : K) (v : V) :
    ∃ t', t.insert degree alloc k v = some (t', decide (k ∉ m)) ∧
      Represents degree t' (if k ∈ m then m else Finmap.insert k v m) := by
  obtain ⟨g, hinv, p, n, hp, ⟨i, hs, -, -, hv⟩ | ⟨hs, hv, hlo, hhi, hfits, hnone⟩⟩ :=
    h.getValuePtr_spec k
  · have hmem : k ∈ m := Finmap.lookup_isSome.1 (by rw [hv]; rfl)
    refine ⟨t, ?_, ?_⟩
    · simp only [BTree.insert, hs, hmem, not_true_eq_false, decide_false]
    · rw [if_pos hmem]
      exact h
  · have hmem : k ∉ m := Finmap.lookup_eq_none.1 hv
    obtain ⟨t', hins, hrep⟩ :=
      h.insertInNode_spec (v := v) hodd h3 halloc hinv hp hlo hhi hfits hnone hv
    refine ⟨t', ?_, ?_⟩
    · simp only [BTree.insert, hs, hins, hmem, not_false_eq_true, decide_true]
    · rw [if_neg hmem]
      exact hrep

theorem replace_spec (h : Represents degree t m) (hodd : degree % 2 = 1) (h3 : 3 ≤ degree)
    (halloc : ∀ a, alloc a = true) (k : K) (v : V) :
    ∃ t', t.replace degree alloc k v = some (t', m.lookup k) ∧
      Represents degree t' (Finmap.insert k v m) := by
  obtain ⟨g, hinv, p, n, hp, ⟨i, hs, hi, hk, hv⟩ | ⟨hs, hv, hlo, hhi, hfits, hnone⟩⟩ :=
    h.getValuePtr_spec k
  · -- the value is written over; for the ranges the key is exchanged for itself
    have hself : ({ n with values := Function.update n.values i v } : Node K V) =
        { n with keys := Function.update n.keys i k, values := Function.update n.values i v } := by
      rw [← hk, Function.update_eq_self]
    obtain ⟨hklo, hkhi⟩ := hinv.key_range (x := k) (q := p) ⟨n, i, hp, hi, hk⟩
    have hinv' := hinv.setKey hp hi hklo hkhi (fun q z _ hz => hk ▸ hz) (fun q z _ hz => hk ▸ hz) v
    refine ⟨_, ?_, ⟨_, hself ▸ hinv'⟩, ?_⟩
    · simp only [BTree.replace, hs, hp, Option.map_some, hv]
    · intro k' v'
      rw [hself, hinv.holds_setKey hp hi, h.holds, hk]
      by_cases hkk : k' = k
      · subst hkk
        rw [Finmap.lookup_insert]
        simp [eq_comm]
      · rw [Finmap.lookup_insert_of_ne m hkk]
        simp [hkk]
  · obtain ⟨t', hins, hrep⟩ :=
      h.insertInNode_spec (v := v) hodd h3 halloc hinv hp hlo hhi hfits hnone hv
    refine ⟨t', ?_, hrep⟩
    simp only [BTree.replace, hs, hins, Option.map_some, hv]

/-- One operation on the tree is one operation on the map. -/
theorem apply_spec (h : Represents degree t m) (hodd : degree % 2 = 1) (h3 : 3 ≤ degree)
    (halloc : ∀ a, alloc a = true) (op : Op K V) :
    ∃ t', t.apply degree alloc op = some (t', (m.apply op).2) ∧
      Represents degree t' (m.apply op).1 := by
  cases op with
  | insert k v =>
    obtain ⟨t', hop, hrep⟩ := h.insert_spec hodd h3 halloc k v
    by_cases hmem : k ∈ m
    · refine ⟨t', by simp [BTree.apply, Map.apply, hop, hmem], ?_⟩
      simpa [Map.apply, hmem] using hrep
    · refine ⟨t', by simp [BTree.apply, Map.apply, hop, hmem], ?_⟩
      simpa [Map.apply, hmem] using hrep
  | replace k v =>
    obtain ⟨t', hop, hrep⟩ := h.replace_spec hodd h3 halloc k v
    exact ⟨t', by simp [BTree.apply, Map.apply, hop], hrep⟩
  | delete k =>
    obtain ⟨t', hop, hrep⟩ := h.delete_spec k
    exact ⟨t', by simp [BTree.apply, Map.apply, hop], hrep⟩
  | pop =>
    obtain ⟨t', hop, hrep⟩ := h.pop_spec
    exact ⟨t', by simp [BTree.apply, Map.apply, hop], hrep⟩

/-- A run on the tree is a run on the map. -/
theorem run_spec (h : Represents degree t m) (hodd : degree % 2 = 1) (h3 : 3 ≤ degree)
    (halloc : ∀ a, alloc a = true) (ops : List (Op K V)) :
    ∃ t', t.run degree alloc ops = some (t', (m.run ops).2) ∧ Represents degree t' (m.run ops).1 := by
  induction ops generalizing t m with
  | nil => exact ⟨t, rfl, h⟩
  | cons op ops ih =>
    obtain ⟨t₁, hop, hrep₁⟩ := h.apply_spec hodd h3 halloc op
    obtain ⟨t', hrun, hrep⟩ := ih hrep₁
    refine ⟨t', ?_, hrep⟩
    simp only [BTree.run, hop, Option.bind_some, hrun, Option.map_some]
    rfl

/-- The empty tree. -/
theorem init_empty (h3 : 3 ≤ degree) : Represents degree (init : BTree K V) ∅ := by
  have hget : ∀ p (n : Node K V), (init : BTree K V).heap p = some n → p = 0 ∧ n = .new := by
    intro p n hp
    simp only [init] at hp
    split at hp
    · exact ⟨‹_›, (Option.some.inj hp).symm⟩
    · exact nomatch hp
  refine ⟨⟨⟨fun _ => ⊥, fun _ => ⊤, fun _ => 0⟩, ?_⟩, ?_⟩
  · refine ⟨⟨.new, rfl, rfl⟩, ⟨rfl, rfl⟩, ?_, ?_, ?_, ?_, ?_, ?_, ?_, ?_, ?_⟩
    · intro p hp
      have : p ≠ 0 := by
        rintro rfl
        exact absurd hp (Nat.not_le.2 Nat.one_pos)
      exact if_neg this
    · intro p n hp
      obtain ⟨-, rfl⟩ := hget p n hp
      exact .inl (show 0 < degree by omega)
    · intro p n hp hr
      exact absurd (hget p n hp).1 hr
    · intro p n hp _
      obtain ⟨-, rfl⟩ := hget p n hp
      exact .inl rfl
    · intro p n hp
      obtain ⟨-, rfl⟩ := hget p n hp
      refine ⟨fun i j _ hj => ?_, fun i hi => ?_, fun i hi => ?_⟩
      · exact absurd hj (Nat.not_lt_zero j)
      · exact absurd hi (Nat.not_lt_zero i)
      · exact absurd hi (Nat.not_lt_zero i)
    · intro p n i hp _
      obtain ⟨-, rfl⟩ := hget p n hp
      rfl
    · intro p n i c hp hc
      obtain ⟨-, rfl⟩ := hget p n hp
      exact nomatch hc
    · intro p n hp hr
      exact absurd (hget p n hp).1 hr
    · intro p n hp
      exact Nat.one_pos
  · intro k v
    rw [Finmap.lookup_empty]
    constructor
    · rintro ⟨p, n, hp, i, hi, -⟩
      obtain ⟨-, rfl⟩ := hget p n hp
      exact absurd hi (Nat.not_lt_zero i)
    · exact nofun

end Represents

/-! ### The refinement -/

/-- From the empty tree every sequence of `insert`, `replace`, `delete` and `pop` in which allocation
succeeds gives the results of the finite map, and the tree it leaves has the representation
invariant and answers `get_value`, `get_min_value` and `get_max_value` as the map does. -/
theorem btree_refines_map [Inhabited K] [Inhabited V] {degree : ℕ} (hodd : degree % 2 = 1)
    (h3 : 3 ≤ degree) {alloc : ℕ → Bool} (halloc : ∀ a, alloc a = true) (ops : List (Op K V)) :
    ∃ t, (init : BTree K V).run degree alloc ops = some (t, (Map.run ∅ ops).2) ∧
      (∀ k, t.getValue k = some ((Map.run ∅ ops).1.lookup k)) ∧
      t.getMinValue = some (Map.run ∅ ops).1.minEntry ∧
      t.getMaxValue = some (Map.run ∅ ops).1.maxEntry ∧
      Proper degree t := by
  obtain ⟨t, hrun, hrep⟩ := (Represents.init_empty h3).run_spec hodd h3 halloc ops
  obtain ⟨g, hinv⟩ := hrep.inv
  exact ⟨t, hrun, hrep.getValue_eq, hrep.getMinValue_eq, hrep.getMaxValue_eq, hinv.proper⟩

/-- Seven insertions split the root of a tree of degree 3 twice. Then the key of the root goes away,
for its neighbour on the left, and the biggest one. -/
theorem btree_refines_map_degree_three :
    (3 % 2 = 1 ∧ 3 ≤ 3) ∧ (Map.run (∅ : Map ℕ ℕ)
      [.insert 1 10, .insert 2 20, .insert 3 30, .insert 4 40, .insert 5 50, .insert 6 60,
        .insert 7 70, .insert 5 51, .delete 4, .replace 2 21, .pop, .delete 4]).2 =
      [.inserted true, .inserted true, .inserted true, .inserted true, .inserted true,
        .inserted true, .inserted true, .inserted false, .previous (some 40), .previous (some 20),
        .popped (some (7, 70)), .previous none] := by
  refine ⟨by decide, ?_⟩
  obtain ⟨t, hrun, -⟩ := btree_refines_map (K := ℕ) (V := ℕ) (show 3 % 2 = 1 from rfl) le_rfl
    (fun _ => rfl : ∀ a, (fun _ : ℕ => true) a = true)
    [.insert 1 10, .insert 2 20, .insert 3 30, .insert 4 40, .insert 5 50, .insert 6 60,
      .insert 7 70, .insert 5 51, .delete 4, .replace 2 21, .pop, .delete 4]
  have heval : ((init : BTree ℕ ℕ).run 3 (fun _ => true)
      [.insert 1 10, .insert 2 20, .insert 3 30, .insert 4 40, .insert 5 50, .insert 6 60,
        .insert 7 70, .insert 5 51, .delete 4, .replace 2 21, .pop, .delete 4]).map Prod.snd =
      some [.inserted true, .inserted true, .inserted true, .inserted true, .inserted true,
        .inserted true, .inserted true, .inserted false, .previous (some 40), .previous (some 20),
        .popped (some (7, 70)), .previous none] := by
    decide +kernel
  rw [hrun] at heval
  exact Option.some.inj heval

end Talyn.BTree
