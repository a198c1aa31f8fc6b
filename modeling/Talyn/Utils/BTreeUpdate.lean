import Talyn.Utils.BTreeInvariant

/-!
# The steps of insertion and deletion

Each operation of the B-tree is made of a few steps, and each of them keeps the invariant: an entry is
put into a node (`Inserted`), an entry and an empty child slot are taken out of it (`Removed`), a key
is exchanged for its neighbour in the order, a node without keys is bypassed, and a full node is
split. What changes besides is the ranges: the bound that goes away is replaced wherever it occurs.
-/

namespace Talyn.BTree

variable {K V : Type} [LinearOrder K]

/-! ### Memory -/

section

omit [LinearOrder K]

variable {t : BTree K V} {p : ℕ} {n : Node K V}

theorem modify_eq (hp : t.heap p = some n) (f : Node K V → Node K V) :
    t.modify p f = t.set p (f n) := by
  simp [modify, set, hp]

@[simp] theorem heap_set (t : BTree K V) (p : ℕ) (n : Node K V) (a : ℕ) :
    (t.set p n).heap a = if a = p then some n else t.heap a := by
  simp [set, Function.update_apply]

theorem heap_set_self (t : BTree K V) (p : ℕ) (n : Node K V) : (t.set p n).heap p = some n := by
  simp

@[simp] theorem heap_modify (t : BTree K V) (p : ℕ) (f : Node K V → Node K V) (a : ℕ) :
    (t.modify p f).heap a = if a = p then (t.heap p).map f else t.heap a := by
  simp [modify, Function.update_apply]

@[simp] theorem heap_destroy (t : BTree K V) (p a : ℕ) :
    (t.destroy p).heap a = if a = p then none else t.heap a := by
  simp [destroy, Function.update_apply]

@[simp] theorem root_set (t : BTree K V) (p : ℕ) (n : Node K V) : (t.set p n).root = t.root := rfl

@[simp] theorem next_set (t : BTree K V) (p : ℕ) (n : Node K V) : (t.set p n).next = t.next := rfl

theorem heap_setParent? (t : BTree K V) (child : Option ℕ) (parent a : ℕ) :
    (t.setParent? child parent).heap a =
      if child = some a then (t.heap a).map fun n => { n with parent := some parent }
      else t.heap a := by
  cases child with
  | none => simp [setParent?]
  | some c =>
    simp only [setParent?, setParent, heap_modify, Option.some.injEq]
    by_cases hac : a = c
    · subst hac
      simp
    · simp [hac, Ne.symm hac]

@[simp] theorem root_setParent? (t : BTree K V) (child : Option ℕ) (parent : ℕ) :
    (t.setParent? child parent).root = t.root := by
  cases child <;> rfl

@[simp] theorem next_setParent? (t : BTree K V) (child : Option ℕ) (parent : ℕ) :
    (t.setParent? child parent).next = t.next := by
  cases child <;> rfl

end

/-! ### An entry is put into a node -/

namespace Node

/-- `n'` is `n` with the entry `x`, `v` at `i` and the child `child` behind it. -/
structure Inserted (n n' : Node K V) (i : ℕ) (x : K) (v : V) (child : Option ℕ) : Prop where
  parent : n'.parent = n.parent
  nkeys : n'.nkeys = n.nkeys + 1
  keys_lt : ∀ j < i, n'.keys j = n.keys j
  keys_eq : n'.keys i = x
  keys_gt : ∀ j, i ≤ j → j < n.nkeys → n'.keys (j + 1) = n.keys j
  values_lt : ∀ j < i, n'.values j = n.values j
  values_eq : n'.values i = v
  values_gt : ∀ j, i ≤ j → j < n.nkeys → n'.values (j + 1) = n.values j
  childs_le : ∀ j ≤ i, n'.childs j = n.childs j
  childs_eq : n'.childs (i + 1) = child
  childs_gt : ∀ j, i < j → n'.childs (j + 1) = n.childs j

/-- An array in which an entry was put at `i`: what is before it stays where it was. -/
theorem put_shiftUp_lt {α : Type} (f : ℕ → α) (x : α) {i j : ℕ} (upto : ℕ) (h : j < i) :
    Function.update (shiftUp f i upto) i x j = f j := by
  have hnot : ¬i < j := by omega
  rw [Function.update_of_ne h.ne]
  simp [shiftUp, hnot]

/-- What is behind it moves by one. -/
theorem put_shiftUp_gt {α : Type} (f : ℕ → α) (x : α) {i j upto : ℕ} (h : i ≤ j) (hupto : j < upto) :
    Function.update (shiftUp f i upto) i x (j + 1) = f j := by
  have hne : j + 1 ≠ i := by omega
  rw [Function.update_of_ne hne]
  simp [shiftUp, Nat.lt_succ_of_le h, hupto]

theorem insertEntry_inserted [Inhabited K] [Inhabited V] {n : Node K V} {x : K} {i : ℕ}
    (hfits : n.Fits x i) (hslots : ∀ j, n.nkeys < j → n.childs j = none) (v : V)
    (child : Option ℕ) : Inserted n (n.insertEntry x v child) i x v child := by
  have hle := hfits.le
  unfold insertEntry
  split
  · rename_i hzero
    obtain rfl : i = 0 := by omega
    constructor
    · rfl
    · simp [hzero]
    · intro j hj
      omega
    · simp
    · intro j _ hj
      omega
    · intro j hj
      omega
    · simp
    · intro j _ hj
      omega
    · intro j hj
      obtain rfl : j = 0 := by omega
      simp
    · simp
    · intro j hj
      have h1 : j + 1 ≠ 1 := by omega
      show Function.update n.childs 1 child (j + 1) = _
      rw [Function.update_of_ne h1, hslots j (by omega), hslots (j + 1) (by omega)]
  · dsimp only
    rw [hfits.insertionIndex_eq]
    constructor
    · rfl
    · rfl
    · intro j hj
      exact put_shiftUp_lt n.keys x n.nkeys hj
    · simp
    · intro j hj hj'
      exact put_shiftUp_gt n.keys x hj hj'
    · intro j hj
      exact put_shiftUp_lt n.values v n.nkeys hj
    · simp
    · intro j hj hj'
      exact put_shiftUp_gt n.values v hj hj'
    · intro j hj
      exact put_shiftUp_lt n.childs child (n.nkeys + 1) (Nat.lt_succ_of_le hj)
    · simp
    · intro j hj
      by_cases hj' : j ≤ n.nkeys
      · exact put_shiftUp_gt n.childs child hj (Nat.lt_succ_of_le hj')
      · have h1 : j ≠ i := by omega
        simp [shiftUp, h1, hj', hslots j (by omega), hslots (j + 1) (by omega)]

namespace Inserted

variable {n n' : Node K V} {i : ℕ} {x : K} {v : V} {child : Option ℕ} {lo : WithBot K}
  {hi : WithTop K}

section

omit [LinearOrder K]

/-- The entries of the new node. -/
theorem entry_cases (h : Inserted n n' i x v child) {j : ℕ} (hj : j < n'.nkeys) :
    (j < i ∧ n'.keys j = n.keys j ∧ n'.values j = n.values j) ∨
      (j = i ∧ n'.keys j = x ∧ n'.values j = v) ∨
      ∃ k, j = k + 1 ∧ i ≤ k ∧ k < n.nkeys ∧ n'.keys j = n.keys k ∧ n'.values j = n.values k := by
  have hn := h.nkeys
  rcases Nat.lt_trichotomy j i with hlt | rfl | hgt
  · exact .inl ⟨hlt, h.keys_lt j hlt, h.values_lt j hlt⟩
  · exact .inr (.inl ⟨rfl, h.keys_eq, h.values_eq⟩)
  · obtain ⟨k, rfl⟩ : ∃ k, j = k + 1 := ⟨j - 1, by omega⟩
    exact .inr (.inr ⟨k, rfl, by omega, by omega, h.keys_gt k (by omega) (by omega),
      h.values_gt k (by omega) (by omega)⟩)

theorem has_iff (h : Inserted n n' i x v child) (hle : i ≤ n.nkeys) (k : K) (w : V) :
    n'.Has k w ↔ n.Has k w ∨ k = x ∧ w = v := by
  have hn := h.nkeys
  constructor
  · rintro ⟨j, hj, rfl, rfl⟩
    rcases h.entry_cases hj with ⟨hji, hk, hv⟩ | ⟨-, hk, hv⟩ | ⟨m, -, -, hm, hk, hv⟩
    · exact .inl ⟨j, by omega, hk.symm, hv.symm⟩
    · exact .inr ⟨hk, hv⟩
    · exact .inl ⟨m, hm, hk.symm, hv.symm⟩
  · rintro (⟨j, hj, rfl, rfl⟩ | ⟨rfl, rfl⟩)
    · rcases Nat.lt_or_ge j i with hlt | hge
      · exact ⟨j, by omega, h.keys_lt j hlt, h.values_lt j hlt⟩
      · exact ⟨j + 1, by omega, h.keys_gt j hge hj, h.values_gt j hge hj⟩
    · exact ⟨i, by omega, h.keys_eq, h.values_eq⟩

/-- The content of the tree with the new entry in the node. -/
theorem holds_iff {t : BTree K V} {p : ℕ} (h : Inserted n n' i x v child) (hp : t.heap p = some n)
    (hle : i ≤ n.nkeys) (k : K) (w : V) : Holds (t.set p n') k w ↔ Holds t k w ∨ k = x ∧ w = v := by
  constructor
  · rintro ⟨q, nq, hq, hhas⟩
    rw [heap_set] at hq
    split at hq
    · obtain rfl := Option.some.inj hq
      exact ((h.has_iff hle k w).1 hhas).imp_left fun hhas' => ⟨p, n, hp, hhas'⟩
    · exact .inl ⟨q, nq, hq, hhas⟩
  · rintro (⟨q, nq, hq, hhas⟩ | heq)
    · by_cases hqp : q = p
      · subst hqp
        obtain rfl := Option.some.inj (hp.symm.trans hq)
        exact ⟨q, _, heap_set_self t q _, (h.has_iff hle k w).2 (.inl hhas)⟩
      · exact ⟨q, nq, by simp [hqp, hq], hhas⟩
    · exact ⟨p, _, heap_set_self t p _, (h.has_iff hle k w).2 (.inr heq)⟩

end

theorem sorted (h : Inserted n n' i x v child) (hs : n.Sorted lo hi) (hfits : n.Fits x i)
    (hlo : lo < (x : K)) (hhi : (x : K) < hi) : n'.Sorted lo hi := by
  have hle := hfits.le
  have hn := h.nkeys
  refine ⟨?_, ?_, ?_⟩
  · intro j k hjk hk
    rcases h.entry_cases (j := k) hk with ⟨hki, hk', -⟩ | ⟨rfl, hk', -⟩ | ⟨k, rfl, hik, hkn, hk', -⟩
    · rw [hk', h.keys_lt j (by omega)]
      exact hs.ascending j k hjk (by omega)
    · rw [hk', h.keys_lt j hjk]
      exact hfits.before j hjk
    · rw [hk']
      rcases h.entry_cases (j := j) (by omega) with ⟨hji, hj', -⟩ | ⟨rfl, hj', -⟩ | ⟨j, rfl, hij, -, hj', -⟩
      · rw [hj']
        exact hs.ascending j k (by omega) hkn
      · rw [hj']
        exact hfits.after k hik hkn
      · rw [hj']
        exact hs.ascending j k (by omega) hkn
  · intro j hj
    rcases h.entry_cases hj with ⟨hji, hj', -⟩ | ⟨-, hj', -⟩ | ⟨k, -, -, hk, hj', -⟩
    · rw [hj']
      exact hs.lower j (by omega)
    · rw [hj']
      exact hlo
    · rw [hj']
      exact hs.lower k hk
  · intro j hj
    rcases h.entry_cases hj with ⟨hji, hj', -⟩ | ⟨-, hj', -⟩ | ⟨k, -, -, hk, hj', -⟩
    · rw [hj']
      exact hs.upper j (by omega)
    · rw [hj']
      exact hhi
    · rw [hj']
      exact hs.upper k hk

section

omit [LinearOrder K]

/-- The bounds of the slots of the new node. -/
theorem bounds_lt (h : Inserted n n' i x v child) (lo : WithBot K) (hi : WithTop K)
    (hle : i ≤ n.nkeys) {j : ℕ} (hj : j < i) :
    n'.below lo j = n.below lo j ∧ n'.above hi j = n.above hi j := by
  have hn := h.nkeys
  constructor
  · unfold below
    split
    · rfl
    · rw [h.keys_lt (j - 1) (by omega)]
  · unfold above
    rw [if_pos (by omega), if_pos (by omega), h.keys_lt j hj]

theorem bounds_eq (h : Inserted n n' i x v child) (lo : WithBot K) (hi : WithTop K)
    (hle : i ≤ n.nkeys) :
    n'.below lo i = n.below lo i ∧ n'.above hi i = (x : K) := by
  have hn := h.nkeys
  constructor
  · unfold below
    split
    · rfl
    · rw [h.keys_lt (i - 1) (by omega)]
  · unfold above
    rw [if_pos (by omega), h.keys_eq]

theorem bounds_new (h : Inserted n n' i x v child) (lo : WithBot K) (hi : WithTop K)
    (hle : i ≤ n.nkeys) :
    n'.below lo (i + 1) = (x : K) ∧ n'.above hi (i + 1) = n.above hi i := by
  have hn := h.nkeys
  constructor
  · unfold below
    rw [if_neg (by omega), Nat.add_sub_cancel, h.keys_eq]
  · unfold above
    by_cases hlt : i < n.nkeys
    · rw [if_pos (by omega), if_pos hlt, h.keys_gt i le_rfl hlt]
    · rw [if_neg (by omega), if_neg hlt]

theorem bounds_gt (h : Inserted n n' i x v child) (lo : WithBot K) (hi : WithTop K)
    {j : ℕ} (hj : i < j) (hjn : j ≤ n.nkeys) :
    n'.below lo (j + 1) = n.below lo j ∧ n'.above hi (j + 1) = n.above hi j := by
  have hn := h.nkeys
  constructor
  · unfold below
    rw [if_neg (by omega), if_neg (by omega), Nat.add_sub_cancel]
    obtain ⟨k, rfl⟩ : ∃ k, j = k + 1 := ⟨j - 1, by omega⟩
    rw [h.keys_gt k (by omega) (by omega), Nat.add_sub_cancel]
  · unfold above
    by_cases hlt : j < n.nkeys
    · rw [if_pos (by omega), if_pos hlt, h.keys_gt j (by omega) hlt]
    · rw [if_neg (by omega), if_neg hlt]

/-- The children of the new node. -/
theorem child_cases (h : Inserted n n' i x v child) (j : ℕ) :
    (j ≤ i ∧ n'.childs j = n.childs j) ∨ (j = i + 1 ∧ n'.childs j = child) ∨
      ∃ k, j = k + 1 ∧ i < k ∧ n'.childs j = n.childs k := by
  rcases Nat.lt_trichotomy j (i + 1) with hlt | rfl | hgt
  · exact .inl ⟨by omega, h.childs_le j (by omega)⟩
  · exact .inr (.inl ⟨rfl, h.childs_eq⟩)
  · obtain ⟨k, rfl⟩ : ∃ k, j = k + 1 := ⟨j - 1, by omega⟩
    exact .inr (.inr ⟨k, rfl, by omega, h.childs_gt k (by omega)⟩)

end

end Inserted

/-! ### An entry is taken out of a node -/

/-- `n'` is `n` without the entry at `i` and without the child slot `d`. -/
structure Removed (n n' : Node K V) (i d : ℕ) : Prop where
  parent : n'.parent = n.parent
  nkeys : n'.nkeys + 1 = n.nkeys
  keys_lt : ∀ j < i, n'.keys j = n.keys j
  keys_ge : ∀ j, i ≤ j → j < n'.nkeys → n'.keys j = n.keys (j + 1)
  values_lt : ∀ j < i, n'.values j = n.values j
  values_ge : ∀ j, i ≤ j → j < n'.nkeys → n'.values j = n.values (j + 1)
  childs_lt : ∀ j < d, n'.childs j = n.childs j
  childs_ge : ∀ j, d ≤ j → n'.childs j = n.childs (j + 1)

omit [LinearOrder K] in
/-- The last entry goes when `nkeys` is lowered. -/
theorem removed_last {n : Node K V} (hpos : 0 < n.nkeys)
    (hslots : ∀ j, n.nkeys ≤ j → n.childs j = none) :
    Removed n { n with nkeys := n.nkeys - 1 } (n.nkeys - 1) n.nkeys := by
  constructor
  · rfl
  · exact Nat.sub_add_cancel hpos
  · intro j _
    rfl
  · intro j hj hj'
    exact absurd hj (Nat.not_le.2 hj')
  · intro j _
    rfl
  · intro j hj hj'
    exact absurd hj (Nat.not_le.2 hj')
  · intro j _
    rfl
  · intro j hj
    show n.childs j = _
    rw [hslots j hj, hslots (j + 1) (by omega)]

omit [LinearOrder K] in
theorem removeEntry_removed {n : Node K V} {i : ℕ} (hi : i < n.nkeys)
    (hslots : ∀ j, n.nkeys < j → n.childs j = none) : Removed n (n.removeEntry i) i i := by
  unfold removeEntry
  dsimp only
  constructor
  · rfl
  · exact Nat.sub_add_cancel (by omega)
  · intro j hj
    have : ¬i ≤ j := by omega
    simp [shiftDown, this]
  · intro j hj hj'
    replace hj' : j < n.nkeys - 1 := hj'
    simp [shiftDown, hj, hj']
  · intro j hj
    have : ¬i ≤ j := by omega
    simp [shiftDown, this]
  · intro j hj hj'
    replace hj' : j < n.nkeys - 1 := hj'
    simp [shiftDown, hj, hj']
  · intro j hj
    have h1 : j ≠ n.nkeys - 1 + 1 := by omega
    have h2 : ¬i ≤ j := by omega
    simp [shiftDown, h1, h2]
  · intro j hj
    by_cases hj' : j = n.nkeys - 1 + 1
    · rw [hj', hslots _ (by omega)]
      simp
    · by_cases hlt : j < n.nkeys - 1 + 1
      · simp [shiftDown, hj', hj, hlt]
      · simp [shiftDown, hj', hlt, hslots j (by omega), hslots (j + 1) (by omega)]

namespace Removed

variable {n n' : Node K V} {i d : ℕ} {lo : WithBot K} {hi : WithTop K}

omit [LinearOrder K] in
/-- The entries of the new node. -/
theorem entry_cases (h : Removed n n' i d) {j : ℕ} (hj : j < n'.nkeys) :
    (j < i ∧ n'.keys j = n.keys j ∧ n'.values j = n.values j) ∨
      (i ≤ j ∧ j + 1 < n.nkeys ∧ n'.keys j = n.keys (j + 1) ∧ n'.values j = n.values (j + 1)) := by
  have hn := h.nkeys
  rcases Nat.lt_or_ge j i with hlt | hge
  · exact .inl ⟨hlt, h.keys_lt j hlt, h.values_lt j hlt⟩
  · exact .inr ⟨hge, by omega, h.keys_ge j hge hj, h.values_ge j hge hj⟩

theorem has_iff (h : Removed n n' i d) (hs : n.Sorted lo hi) (hi' : i < n.nkeys) (k : K) (w : V) :
    n'.Has k w ↔ n.Has k w ∧ k ≠ n.keys i := by
  have hn := h.nkeys
  constructor
  · rintro ⟨j, hj, rfl, rfl⟩
    rcases h.entry_cases hj with ⟨hji, hk, hv⟩ | ⟨hij, hjn, hk, hv⟩
    · refine ⟨⟨j, by omega, hk.symm, hv.symm⟩, ?_⟩
      rw [hk]
      exact (hs.ascending j i hji hi').ne
    · refine ⟨⟨j + 1, hjn, hk.symm, hv.symm⟩, ?_⟩
      rw [hk]
      exact (hs.ascending i (j + 1) (by omega) hjn).ne'
  · rintro ⟨⟨j, hj, rfl, rfl⟩, hne⟩
    rcases Nat.lt_trichotomy j i with hlt | rfl | hgt
    · exact ⟨j, by omega, h.keys_lt j hlt, h.values_lt j hlt⟩
    · exact absurd rfl hne
    · obtain ⟨m, rfl⟩ : ∃ m, j = m + 1 := ⟨j - 1, by omega⟩
      exact ⟨m, by omega, h.keys_ge m (by omega) (by omega), h.values_ge m (by omega) (by omega)⟩

/-- The keys of the new node are keys of the old one, in the same order. -/
theorem sorted (h : Removed n n' i d) (hs : n.Sorted lo hi) : n'.Sorted lo hi := by
  have hn := h.nkeys
  refine ⟨?_, ?_, ?_⟩
  · intro j k hjk hk
    rcases h.entry_cases (j := j) (by omega) with ⟨-, hj', -⟩ | ⟨hij, -, hj', -⟩
    · rw [hj']
      rcases h.entry_cases hk with ⟨-, hk', -⟩ | ⟨-, hkn, hk', -⟩
      · rw [hk']
        exact hs.ascending j k hjk (by omega)
      · rw [hk']
        exact hs.ascending j (k + 1) (by omega) hkn
    · rcases h.entry_cases hk with ⟨hki, -, -⟩ | ⟨-, hkn, hk', -⟩
      · omega
      · rw [hj', hk']
        exact hs.ascending (j + 1) (k + 1) (by omega) hkn
  · intro j hj
    rcases h.entry_cases hj with ⟨-, hj', -⟩ | ⟨-, hjn, hj', -⟩
    · rw [hj']
      exact hs.lower j (by omega)
    · rw [hj']
      exact hs.lower (j + 1) hjn
  · intro j hj
    rcases h.entry_cases hj with ⟨-, hj', -⟩ | ⟨-, hjn, hj', -⟩
    · rw [hj']
      exact hs.upper j (by omega)
    · rw [hj']
      exact hs.upper (j + 1) hjn

section

omit [LinearOrder K]

/-- The bounds of the slots before, at and behind the removed entry. -/
theorem below_le (h : Removed n n' i d) {j : ℕ} (hj : j ≤ i) : n'.below lo j = n.below lo j := by
  unfold below
  split
  · rfl
  · rw [h.keys_lt (j - 1) (by omega)]

theorem below_gt (h : Removed n n' i d) {j : ℕ} (hj : i < j) (hjn : j ≤ n'.nkeys) :
    n'.below lo j = n.below lo (j + 1) := by
  unfold below
  rw [if_neg (by omega), if_neg (by omega), Nat.add_sub_cancel, h.keys_ge (j - 1) (by omega) (by omega)]
  congr 2
  omega

theorem above_lt (h : Removed n n' i d) (hi' : i ≤ n'.nkeys) {j : ℕ} (hj : j < i) :
    n'.above hi j = n.above hi j := by
  have hn := h.nkeys
  unfold above
  rw [if_pos (by omega), if_pos (by omega), h.keys_lt j hj]

theorem above_ge (h : Removed n n' i d) {j : ℕ} (hj : i ≤ j) :
    n'.above hi j = n.above hi (j + 1) := by
  have hn := h.nkeys
  unfold above
  by_cases hlt : j < n'.nkeys
  · rw [if_pos hlt, if_pos (by omega), h.keys_ge j hj hlt]
  · rw [if_neg hlt, if_neg (by omega)]

end

end Removed

end Node

/-! ### One node is overwritten -/

namespace Inv

variable {degree : ℕ} {g g' : Ranges K} {odd odd' : Option ℕ} {t : BTree K V} {p : ℕ}
  {n n' : Node K V}

/-- A node is overwritten by one with the same parent and the same children; the ranges of all nodes
may change. -/
theorem setNode (h : Inv degree g odd t) (hp : t.heap p = some n)
    (hpar : n'.parent = n.parent)
    (hsize : n'.nkeys < degree ∨ odd' = some p ∧ n'.nkeys = degree)
    (hodd : ∀ q, q ≠ p → odd = some q → odd' = some q)
    (hne : p ≠ t.root → 0 < n'.nkeys ∨ odd' = some p)
    (hempty : n'.nkeys = 0 → n'.childs 0 = none ∨ odd' = some p)
    (hslots : ∀ i, n'.nkeys < i → n'.childs i = none)
    (hkids : ∀ i c, n'.childs i = some c → ∃ j, n.childs j = some c)
    (hkids' : ∀ i c, n.childs i = some c → ∃ j, n'.childs j = some c)
    (hroot : g'.lo t.root = ⊥ ∧ g'.hi t.root = ⊤)
    (hdepth : g'.depth = g.depth)
    (hsorted : ∀ q nq, (t.set p n').heap q = some nq → nq.Sorted (g'.lo q) (g'.hi q))
    (hranges : ∀ q nq i c, (t.set p n').heap q = some nq → nq.childs i = some c →
      g'.lo c = nq.below (g'.lo q) i ∧ g'.hi c = nq.above (g'.hi q) i) :
    Inv degree g' odd' (t.set p n') := by
  have hget : ∀ q nq, (t.set p n').heap q = some nq →
      (q = p ∧ nq = n') ∨ (q ≠ p ∧ t.heap q = some nq) := by
    intro q nq hq
    rw [heap_set] at hq
    split at hq
    · exact .inl ⟨‹_›, (Option.some.inj hq).symm⟩
    · exact .inr ⟨‹_›, hq⟩
  -- every node of the old tree is there, with the same parent
  have hold : ∀ q nq, t.heap q = some nq →
      ∃ nq', (t.set p n').heap q = some nq' ∧ nq'.parent = nq.parent := by
    intro q nq hq
    by_cases hqp : q = p
    · subst hqp
      obtain rfl := Option.some.inj (hp.symm.trans hq)
      exact ⟨n', by simp, hpar⟩
    · exact ⟨nq, by simp [hqp, hq], rfl⟩
  refine ⟨?_, hroot, ?_, ?_, ?_, ?_, hsorted, ?_, ?_, ?_, ?_⟩
  · obtain ⟨nr, hr, hnone⟩ := h.root
    obtain ⟨nr', hr', hpar'⟩ := hold _ _ hr
    exact ⟨nr', hr', hpar'.trans hnone⟩
  · intro q hq
    have hqp : q ≠ p := by
      rintro rfl
      exact absurd (h.fresh q hq) (by simp [hp])
    simpa [hqp] using h.fresh q hq
  · intro q nq hq
    rcases hget q nq hq with ⟨rfl, rfl⟩ | ⟨hqp, hq⟩
    · exact hsize
    · exact (h.size q nq hq).imp id fun ho => ⟨hodd q hqp ho.1, ho.2⟩
  · intro q nq hq hqr
    rcases hget q nq hq with ⟨rfl, rfl⟩ | ⟨hqp, hq⟩
    · exact hne hqr
    · exact (h.nonempty q nq hq hqr).imp id (hodd q hqp)
  · intro q nq hq hzero
    rcases hget q nq hq with ⟨rfl, rfl⟩ | ⟨hqp, hq⟩
    · exact hempty hzero
    · exact (h.empty q nq hq hzero).imp id (hodd q hqp)
  · intro q nq i hq hi
    rcases hget q nq hq with ⟨rfl, rfl⟩ | ⟨-, hq⟩
    · exact hslots i hi
    · exact h.slots q nq i hq hi
  · intro q nq i c hq hc
    obtain ⟨hlo, hhi⟩ := hranges q nq i c hq hc
    have hchild : (∃ nc, t.heap c = some nc ∧ nc.parent = some q) ∧ g.depth q < g.depth c := by
      rcases hget q nq hq with ⟨rfl, rfl⟩ | ⟨-, hq⟩
      · obtain ⟨j, hj⟩ := hkids i c hc
        obtain ⟨hlive, -, -, hd⟩ := h.child q n j c hp hj
        exact ⟨hlive, hd⟩
      · obtain ⟨hlive, -, -, hd⟩ := h.child q nq i c hq hc
        exact ⟨hlive, hd⟩
    obtain ⟨⟨nc, hnc, hcpar⟩, hd⟩ := hchild
    obtain ⟨nc', hnc', hcpar'⟩ := hold c nc hnc
    exact ⟨⟨nc', hnc', hcpar'.trans hcpar⟩, hlo, hhi, by rw [hdepth]; exact hd⟩
  · intro q nq hq hqr
    obtain ⟨nq₀, hq₀, hpar₀⟩ : ∃ nq₀, t.heap q = some nq₀ ∧ nq.parent = nq₀.parent := by
      rcases hget q nq hq with ⟨rfl, rfl⟩ | ⟨-, hq⟩
      · exact ⟨n, hp, hpar⟩
      · exact ⟨nq, hq, rfl⟩
    obtain ⟨a, na, i, hqpar, ha, hai⟩ := h.linked q nq₀ hq₀ hqr
    by_cases hap : a = p
    · subst hap
      obtain rfl := Option.some.inj (hp.symm.trans ha)
      obtain ⟨j, hj⟩ := hkids' i q hai
      exact ⟨a, n', j, hpar₀.trans hqpar, by simp, hj⟩
    · exact ⟨a, na, i, hpar₀.trans hqpar, by simp [hap, ha], hai⟩
  · intro q nq hq
    rw [hdepth]
    rcases hget q nq hq with ⟨rfl, rfl⟩ | ⟨-, hq⟩
    · exact h.depth q n hp
    · exact h.depth q nq hq

/-- The odd node turned out to be a proper one. -/
theorem settle (h : Inv degree g (some p) t) (hp : t.heap p = some n) (hsize : n.nkeys < degree)
    (hne : p ≠ t.root → 0 < n.nkeys) (hempty : n.nkeys = 0 → n.childs 0 = none) :
    Inv degree g none t := by
  have hodd : ∀ q nq, t.heap q = some nq → some p = some q → nq = n := by
    intro q nq hq heq
    obtain rfl := Option.some.inj heq
    exact Option.some.inj (hq.symm.trans hp)
  refine { h with size := ?_, nonempty := ?_, empty := ?_ }
  · intro q nq hq
    rcases h.size q nq hq with hlt | ⟨heq, -⟩
    · exact .inl hlt
    · rw [hodd q nq hq heq]
      exact .inl hsize
  · intro q nq hq hqr
    rcases h.nonempty q nq hq hqr with hpos | heq
    · exact .inl hpos
    · obtain rfl := Option.some.inj heq
      rw [hodd _ nq hq rfl]
      exact .inl (hne hqr)
  · intro q nq hq hzero
    rcases h.empty q nq hq hzero with hnone | heq
    · exact .inl hnone
    · rw [hodd q nq hq heq] at hzero ⊢
      exact .inl (hempty hzero)

/-! ### An entry is put into a node without a child -/

theorem insertAt {i : ℕ} {x : K} {v : V} (h : Inv degree g none t) (hp : t.heap p = some n)
    (hfits : n.Fits x i) (hnone : n.childs i = none) (hlo : g.lo p < (x : K))
    (hhi : (x : K) < g.hi p) (hins : n.Inserted n' i x v none) :
    Inv degree g (some p) (t.set p n') := by
  have hn := hins.nkeys
  have hle := hfits.le
  have hlt := (h.size p n hp).resolve_right nofun
  refine h.setNode hp hins.parent ?_ nofun (fun _ => .inr rfl) (fun _ => .inr rfl) ?_ ?_ ?_
    h.rootRange rfl ?_ ?_
  · rcases Nat.lt_or_eq_of_le (Nat.succ_le_of_lt hlt) with hlt' | heq
    · exact .inl (by omega)
    · exact .inr ⟨rfl, by omega⟩
  · intro j hj
    obtain ⟨m, rfl⟩ : ∃ m, j = m + 1 := ⟨j - 1, by omega⟩
    rw [hins.childs_gt m (by omega)]
    exact h.slots p n m hp (by omega)
  · intro j c hc
    rcases hins.child_cases j with ⟨-, he⟩ | ⟨-, he⟩ | ⟨m, -, -, he⟩
    · exact ⟨j, he ▸ hc⟩
    · rw [he] at hc
      exact nomatch hc
    · exact ⟨m, he ▸ hc⟩
  · intro j c hc
    rcases Nat.lt_trichotomy j i with hlt' | rfl | hgt
    · exact ⟨j, (hins.childs_le j hlt'.le).trans hc⟩
    · rw [hnone] at hc
      exact nomatch hc
    · exact ⟨j + 1, (hins.childs_gt j hgt).trans hc⟩
  · intro q nq hq
    rw [heap_set] at hq
    split at hq
    · rename_i hqp
      subst hqp
      obtain rfl := Option.some.inj hq
      exact hins.sorted (h.sorted q n hp) hfits hlo hhi
    · exact h.sorted q nq hq
  · intro q nq j c hq hc
    rw [heap_set] at hq
    split at hq
    · rename_i hqp
      subst hqp
      obtain rfl := Option.some.inj hq
      rcases hins.child_cases j with ⟨hji, he⟩ | ⟨-, he⟩ | ⟨m, rfl, him, he⟩
      · rw [he] at hc
        obtain ⟨-, hclo, hchi, -⟩ := h.child q n j c hp hc
        have hne : j ≠ i := by
          rintro rfl
          rw [hnone] at hc
          exact nomatch hc
        obtain ⟨hb, ha⟩ := hins.bounds_lt (g.lo q) (g.hi q) hle (lt_of_le_of_ne hji hne)
        rw [hb, ha]
        exact ⟨hclo, hchi⟩
      · rw [he] at hc
        exact nomatch hc
      · rw [he] at hc
        obtain ⟨-, hclo, hchi, -⟩ := h.child q n m c hp hc
        obtain ⟨hb, ha⟩ := hins.bounds_gt (g.lo q) (g.hi q) him (h.slot_le hp hc)
        rw [hb, ha]
        exact ⟨hclo, hchi⟩
    · obtain ⟨-, hclo, hchi, -⟩ := h.child q nq j c hq hc
      exact ⟨hclo, hchi⟩

end Inv

end Talyn.BTree
