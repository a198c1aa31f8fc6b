import Talyn.Utils.BTreeUpdate

/-!
# Insertion into the B-tree

An entry is put into the node where the walk ended. A node with `Degree` keys is split: its right
half moves to a new node, the middle entry to the parent, which may be full then in turn. A full root
keeps its place and hands both halves to new nodes. What a split does to the memory is said first, in
one formula for each of the two (`SplitOff`, `SplitRoot`).
-/

namespace Talyn.BTree

variable {K V : Type}

/-! ### Parent pointers -/

/-- `change_parent` on a list of slots. -/
theorem heap_foldl_setParent? (childs : ℕ → Option ℕ) (p : ℕ) (l : List ℕ) (t : BTree K V)
    (a : ℕ) :
    (l.foldl (fun t i => t.setParent? (childs i) p) t).heap a =
      if ∃ i ∈ l, childs i = some a then (t.heap a).map fun n => { n with parent := some p }
      else t.heap a := by
  induction l generalizing t with
  | nil => simp
  | cons i l ih =>
    rw [List.foldl_cons, ih, heap_setParent?]
    by_cases hi : childs i = some a
    · by_cases hl : ∃ j ∈ l, childs j = some a
      · simp [hi, hl, Function.comp_def]
      · simp [hi, hl]
    · simp [hi]

theorem foldl_setParent?_root (childs : ℕ → Option ℕ) (p : ℕ) (l : List ℕ) (t : BTree K V) :
    (l.foldl (fun t i => t.setParent? (childs i) p) t).root = t.root ∧
      (l.foldl (fun t i => t.setParent? (childs i) p) t).next = t.next := by
  induction l generalizing t with
  | nil => exact ⟨rfl, rfl⟩
  | cons i l ih =>
    rw [List.foldl_cons]
    obtain ⟨hroot, hnext⟩ := ih (t.setParent? (childs i) p)
    exact ⟨hroot.trans (root_setParent? _ _ _), hnext.trans (next_setParent? _ _ _)⟩

section

variable {degree p : ℕ} {t : BTree K V} {n : Node K V}

theorem heap_changeParent (hp : t.heap p = some n) (a : ℕ) :
    (t.changeParent degree p).heap a =
      if ∃ i < degree + 1, n.childs i = some a then
        (t.heap a).map fun n => { n with parent := some p }
      else t.heap a := by
  rw [changeParent, hp]
  dsimp only
  rw [heap_foldl_setParent?]
  simp only [List.mem_range]

@[simp] theorem root_changeParent (t : BTree K V) : (t.changeParent degree p).root = t.root := by
  unfold changeParent
  split
  · exact (foldl_setParent?_root _ _ _ _).1
  · rfl

@[simp] theorem next_changeParent (t : BTree K V) : (t.changeParent degree p).next = t.next := by
  unfold changeParent
  split
  · exact (foldl_setParent?_root _ _ _ _).2
  · rfl

@[simp] theorem root_modify (t : BTree K V) (f : Node K V → Node K V) :
    (t.modify p f).root = t.root := rfl

@[simp] theorem next_modify (t : BTree K V) (f : Node K V → Node K V) :
    (t.modify p f).next = t.next := rfl

end

/-- The children of the halves of a full node. -/
theorem Node.rightHalf_child_iff {degree middle a : ℕ} (hdeg : degree = 2 * middle + 1)
    (n : Node K V) : (∃ i < degree + 1, (n.rightHalf middle).childs i = some a) ↔
      ∃ i < middle + 1, n.childs (middle + 1 + i) = some a := by
  constructor
  · rintro ⟨i, -, hc⟩
    simp only [rightHalf] at hc
    split at hc
    · exact ⟨i, by omega, hc⟩
    · exact nomatch hc
  · rintro ⟨i, hi, hc⟩
    exact ⟨i, by omega, by simp only [rightHalf, if_pos (Nat.le_of_lt_succ hi), hc]⟩

theorem Node.leftHalf_child_iff {degree middle a : ℕ} (hdeg : degree = 2 * middle + 1)
    (n : Node K V) : (∃ i < degree + 1, (if i ≤ middle then n.childs i else none) = some a) ↔
      ∃ i < middle + 1, n.childs i = some a := by
  constructor
  · rintro ⟨i, -, hc⟩
    split at hc
    · exact ⟨i, by omega, hc⟩
    · exact nomatch hc
  · rintro ⟨i, hi, hc⟩
    exact ⟨i, by omega, by rw [if_pos (Nat.le_of_lt_succ hi), hc]⟩

variable [LinearOrder K]

/-! ### The halves of a full node -/

namespace Node

variable {middle j c : ℕ} {n : Node K V} {lo : WithBot K} {hi : WithTop K}

omit [LinearOrder K] in
theorem leftHalf_childs (hc : (n.leftHalf middle).childs j = some c) :
    j ≤ middle ∧ n.childs j = some c := by
  simp only [leftHalf] at hc
  split at hc
  · exact ⟨‹_›, hc⟩
  · exact nomatch hc

omit [LinearOrder K] in
theorem rightHalf_childs (hc : (n.rightHalf middle).childs j = some c) :
    j ≤ middle ∧ n.childs (middle + 1 + j) = some c := by
  simp only [rightHalf] at hc
  split at hc
  · exact ⟨‹_›, hc⟩
  · exact nomatch hc

theorem Sorted.leftHalf (hs : n.Sorted lo hi) (hn : n.nkeys = 2 * middle + 1) :
    (n.leftHalf middle).Sorted lo (n.keys middle) := by
  refine ⟨?_, ?_, ?_⟩
  · intro j k hjk hk
    replace hk : k < middle := hk
    exact hs.ascending _ _ hjk (by omega)
  · intro j hj
    replace hj : j < middle := hj
    exact hs.lower _ (by omega)
  · intro j hj
    replace hj : j < middle := hj
    exact WithTop.coe_lt_coe.2 (hs.ascending _ _ hj (by omega))

theorem Sorted.rightHalf (hs : n.Sorted lo hi) (hn : n.nkeys = 2 * middle + 1) :
    (n.rightHalf middle).Sorted (n.keys middle) hi := by
  refine ⟨?_, ?_, ?_⟩
  · intro j k hjk hk
    replace hk : k < middle := hk
    exact hs.ascending _ _ (by omega) (by omega)
  · intro j hj
    replace hj : j < middle := hj
    exact WithBot.coe_lt_coe.2 (hs.ascending _ _ (by omega) (by omega))
  · intro j hj
    replace hj : j < middle := hj
    exact hs.upper _ (by omega)

omit [LinearOrder K] in
/-- The bounds around a child slot of a half. -/
theorem above_leftHalf (hn : n.nkeys = 2 * middle + 1) (hj : j ≤ middle) :
    n.above hi j = (n.leftHalf middle).above (n.keys middle) j := by
  unfold above
  rw [if_pos (by omega)]
  by_cases hlt : j < middle
  · exact (if_pos hlt).symm
  · rw [show j = middle by omega]
    exact (if_neg (lt_irrefl middle)).symm

omit [LinearOrder K] in
theorem below_rightHalf : n.below lo (middle + 1 + j) = (n.rightHalf middle).below (n.keys middle) j := by
  unfold below
  rw [if_neg (by omega)]
  split
  · rw [show middle + 1 + j - 1 = middle by omega]
  · simp only [rightHalf]
    rw [show middle + 1 + j - 1 = middle + 1 + (j - 1) by omega]

omit [LinearOrder K] in
theorem above_rightHalf (hn : n.nkeys = 2 * middle + 1) :
    n.above hi (middle + 1 + j) = (n.rightHalf middle).above hi j := by
  unfold above
  by_cases hlt : j < middle
  · rw [if_pos (by omega)]
    exact (if_pos hlt).symm
  · rw [if_neg (by omega)]
    exact (if_neg hlt).symm

omit [LinearOrder K] in
/-- The entries of a full node are those of the halves and the one between them. -/
theorem has_iff_halves (hn : n.nkeys = 2 * middle + 1) (k : K) (v : V) :
    n.Has k v ↔ (n.leftHalf middle).Has k v ∨ (n.keys middle = k ∧ n.values middle = v) ∨
      (n.rightHalf middle).Has k v := by
  constructor
  · rintro ⟨j, hj, hk, hv⟩
    rcases Nat.lt_trichotomy j middle with hlt | rfl | hgt
    · exact .inl ⟨j, hlt, hk, hv⟩
    · exact .inr (.inl ⟨hk, hv⟩)
    · obtain ⟨i, rfl⟩ := Nat.exists_eq_add_of_le (Nat.succ_le_of_lt hgt)
      refine .inr (.inr ⟨i, ?_, hk, hv⟩)
      show i < middle
      omega
  · rintro (⟨j, hj, hk, hv⟩ | ⟨hk, hv⟩ | ⟨j, hj, hk, hv⟩)
    · replace hj : j < middle := hj
      exact ⟨j, by omega, hk, hv⟩
    · exact ⟨middle, by omega, hk, hv⟩
    · replace hj : j < middle := hj
      exact ⟨middle + 1 + j, by omega, hk, hv⟩

end Node

/-! ### The memory after a split -/

/-- The middle of a full node moves to its parent `q`, the right half to the node `r`. -/
structure SplitOff (t t' : BTree K V) (p q r middle : ℕ) (n nq' : Node K V) : Prop where
  root : t'.root = t.root
  next : t'.next = t.next + 1
  heap : ∀ a, t'.heap a =
    if a = r then some { n.rightHalf middle with parent := some q }
    else if a = p then
      some { n with childs := fun i => if i ≤ middle then n.childs i else none, nkeys := middle }
    else if a = q then some nq'
    else if ∃ i < middle + 1, n.childs (middle + 1 + i) = some a then
      (t.heap a).map fun n => { n with parent := some r }
    else t.heap a

/-- A full root keeps its middle entry; the halves move to the nodes `r₁` and `r₂`. -/
structure SplitRoot (t t' : BTree K V) (p r₁ r₂ middle : ℕ) (n : Node K V) : Prop where
  root : t'.root = t.root
  next : t'.next = t.next + 2
  heap : ∀ a, t'.heap a =
    if a = r₁ then some { n.leftHalf middle with parent := some p }
    else if a = r₂ then some { n.rightHalf middle with parent := some p }
    else if a = p then some
      { n with
        keys := Function.update n.keys 0 (n.keys middle)
        values := Function.update n.values 0 (n.values middle)
        childs := fun i => if i = 0 then some r₁ else if i = 1 then some r₂ else none
        nkeys := 1 }
    else if ∃ i < middle + 1, n.childs i = some a then
      (t.heap a).map fun n => { n with parent := some r₁ }
    else if ∃ i < middle + 1, n.childs (middle + 1 + i) = some a then
      (t.heap a).map fun n => { n with parent := some r₂ }
    else t.heap a

namespace Inv

variable {degree middle : ℕ} {g : Ranges K} {odd : Option ℕ} {t : BTree K V} {p q : ℕ}
  {n nq : Node K V}

/-- `split_node` and what follows it. -/
theorem splitNode_eq [Inhabited K] [Inhabited V] (h : Inv degree g odd t)
    (hdeg : degree = 2 * middle + 1) (hp : t.heap p = some n) (hpar : n.parent = some q)
    (hq : t.heap q = some nq) :
    SplitOff t (t.createNode.splitNode degree p n q t.next) p q t.next middle n
      (nq.insertEntry (n.keys middle) (n.values middle) (some t.next)) := by
  obtain ⟨np, i, hnp, hslot⟩ := h.parent_slot hp hpar
  obtain rfl := Option.some.inj (hq.symm.trans hnp)
  have hpq : p ≠ q := h.child_ne_self hq hslot
  have hpr : p ≠ t.next := (h.lt_next hp).ne
  have hqr : q ≠ t.next := (h.lt_next hq).ne
  have hmid : (degree - 1) / 2 = middle := by omega
  -- no child of the node is one of the three
  have hcp : ∀ i, n.childs i ≠ some p := fun i hc => h.child_ne_self hp hc rfl
  have hcq : ∀ i, n.childs i ≠ some q := fun i => h.grandchild_ne hp hq hslot
  have hcr : ∀ i, n.childs i ≠ some t.next := fun i hc => (h.child_lt_next hp hc).ne rfl
  refine ⟨?_, ?_, ?_⟩
  · simp [splitNode, createNode, doInsertion, setParent, hmid]
  · simp [splitNode, createNode, doInsertion, setParent, hmid]
  · -- the three trees on the way, as far as they matter
    obtain ⟨t₁, ht₁⟩ : ∃ t₁, t₁ =
      (t.createNode.set t.next (n.rightHalf middle)).changeParent degree t.next := ⟨_, rfl⟩
    have heap₁ : ∀ a, t₁.heap a =
        if ∃ i < middle + 1, n.childs (middle + 1 + i) = some a then
          (t.heap a).map fun n => { n with parent := some t.next }
        else if a = t.next then some (n.rightHalf middle) else t.heap a := by
      intro a
      rw [ht₁, heap_changeParent (heap_set_self _ _ _), heap_set]
      simp only [Node.rightHalf_child_iff hdeg, createNode, Function.update_apply]
      by_cases har : a = t.next
      · subst har
        simp [hcr]
      · simp [har]
    obtain ⟨t₂, ht₂⟩ : ∃ t₂, t₂ =
      (t₁.modify p fun n =>
        { n with childs := fun i => if middle + 1 ≤ i then none else n.childs i }).doInsertion q
          (n.keys middle) (n.values middle) (some t.next) := ⟨_, rfl⟩
    have hcut : (fun i => if middle + 1 ≤ i then none else n.childs i) =
        fun i => if i ≤ middle then n.childs i else none := by
      funext i
      by_cases hi : i ≤ middle
      · rw [if_pos hi, if_neg (by omega)]
      · rw [if_neg hi, if_pos (by omega)]
    have heap₂p : t₂.heap p =
        some { n with childs := fun i => if i ≤ middle then n.childs i else none } := by
      rw [← hcut, ht₂]
      simp [doInsertion, heap_setParent?, heap₁, hpq, hpr.symm, hcp, hpr, hp]
    have heap₂ : ∀ a, a ≠ p → t₂.heap a =
        if a = t.next then some { n.rightHalf middle with parent := some q }
        else if a = q then
          some (nq.insertEntry (n.keys middle) (n.values middle) (some t.next))
        else t₁.heap a := by
      intro a hap
      rw [ht₂]
      by_cases haq : a = q
      · subst haq
        simp [doInsertion, heap_setParent?, heap₁, hpq.symm, hqr, hqr.symm, hcq, hq]
      · by_cases har : a = t.next
        · subst har
          simp [doInsertion, heap_setParent?, heap₁, haq, hap, hcr]
        · simp [doInsertion, heap_setParent?, haq, hap, har, Ne.symm har]
    -- a left child has the right parent already
    have hleft : ∀ a, (∃ i < middle + 1, n.childs i = some a) →
        ((t₁.heap a).map fun n => { n with parent := some p }) = t₁.heap a := by
      rintro a ⟨i, hi, hc⟩
      have hnot : ¬∃ j < middle + 1, n.childs (middle + 1 + j) = some a := by
        rintro ⟨j, -, hc'⟩
        have := h.slot_unique hp hc hc'
        omega
      obtain ⟨⟨na, hna, hapar⟩, -⟩ := h.child p n i a hp hc
      have har : a ≠ t.next := (h.lt_next hna).ne
      rw [heap₁, if_neg hnot, if_neg har, hna, Option.map_some, ← hapar]
    intro a
    unfold splitNode
    dsimp only
    rw [hmid, ← ht₁, ← ht₂]
    by_cases hap : a = p
    · subst hap
      simp [setParent, heap_changeParent heap₂p, hpr, heap₂p, hcp]
    · by_cases har : a = t.next
      · subst har
        simp [setParent, heap_changeParent heap₂p, hpr.symm, heap₂, hcr]
      · rw [if_neg har, if_neg hap]
        simp only [setParent, heap_modify, if_neg hap, if_neg har, heap_changeParent heap₂p,
          Node.leftHalf_child_iff hdeg, heap₂ a hap]
        by_cases haq : a = q
        · subst haq
          simp [hcq]
        · rw [if_neg haq, if_neg haq]
          have := heap₁ a
          rw [if_neg har] at this
          rw [← this]
          split
          · exact hleft a ‹_›
          · rfl

/-- `split_root_node` and what follows it. -/
theorem splitRootNode_eq [Inhabited K] [Inhabited V] (h : Inv degree g odd t)
    (hdeg : degree = 2 * middle + 1) (hp : t.heap p = some n) :
    SplitRoot t (t.createNode.createNode.splitRootNode degree p n t.next (t.next + 1)) p t.next
      (t.next + 1) middle n := by
  have hlt := h.lt_next hp
  have hp₁ : p ≠ t.next := by omega
  have hp₂ : p ≠ t.next + 1 := by omega
  have h₁₂ : t.next ≠ t.next + 1 := by omega
  have hmid : (degree - 1) / 2 = middle := by omega
  have hcp : ∀ i, n.childs i ≠ some p := fun i hc => h.child_ne_self hp hc rfl
  have hc₁ : ∀ i, n.childs i ≠ some t.next := fun i hc => (h.child_lt_next hp hc).ne rfl
  have hc₂ : ∀ i, n.childs i ≠ some (t.next + 1) := by
    intro i hc
    have := h.child_lt_next hp hc
    omega
  have hright : ∀ a, (∃ i < middle + 1, n.childs (middle + 1 + i) = some a) →
      ¬∃ i < middle + 1, n.childs i = some a := by
    rintro a ⟨i, -, hc⟩ ⟨j, hj, hc'⟩
    have := h.slot_unique hp hc hc'
    omega
  refine ⟨?_, ?_, ?_⟩
  · simp [splitRootNode, createNode, setParent, hmid]
  · simp [splitRootNode, createNode, setParent, hmid]
  · obtain ⟨t₀, ht₀⟩ : ∃ t₀, t₀ = (t.createNode.createNode.set t.next (n.leftHalf middle)).set
      (t.next + 1) (n.rightHalf middle) := ⟨_, rfl⟩
    have heap₀ : ∀ a, t₀.heap a =
        if a = t.next then some (n.leftHalf middle)
        else if a = t.next + 1 then some (n.rightHalf middle) else t.heap a := by
      intro a
      rw [ht₀]
      by_cases ha₁ : a = t.next
      · subst ha₁
        simp
      · by_cases ha₂ : a = t.next + 1
        · subst ha₂
          simp
        · simp [createNode, ha₁, ha₂]
    have hr₁ : t₀.heap t.next = some (n.leftHalf middle) := by rw [heap₀, if_pos rfl]
    obtain ⟨t₁, ht₁⟩ : ∃ t₁, t₁ = t₀.changeParent degree t.next := ⟨_, rfl⟩
    have heap₁ : ∀ a, t₁.heap a =
        if ∃ i < middle + 1, n.childs i = some a then
          (t₀.heap a).map fun n => { n with parent := some t.next }
        else t₀.heap a := by
      intro a
      rw [ht₁, heap_changeParent hr₁]
      simp only [Node.leftHalf, Node.leftHalf_child_iff hdeg]
    have hr₂ : t₁.heap (t.next + 1) = some (n.rightHalf middle) := by
      rw [heap₁, if_neg (by simp [hc₂]), heap₀, if_neg h₁₂.symm, if_pos rfl]
    intro a
    unfold splitRootNode
    dsimp only
    rw [hmid, ← ht₀, ← ht₁]
    simp only [setParent, heap_modify, heap_changeParent hr₂, Node.rightHalf_child_iff hdeg,
      heap₁, heap₀]
    by_cases ha₁ : a = t.next
    · subst ha₁
      simp [hp₁.symm, hc₁]
    · by_cases ha₂ : a = t.next + 1
      · subst ha₂
        simp [hp₂.symm, hc₂]
      · by_cases hap : a = p
        · subst hap
          simp [ha₁, ha₂, hcp, hp]
        · simp only [ha₁, ha₂, hap, if_false]
          by_cases hl : ∃ i < middle + 1, n.childs i = some a
          · rw [if_pos hl, if_pos hl, if_neg fun hr => hright a hr hl]
          · rw [if_neg hl, if_neg hl]

/-- A child of a node is no child of another one. -/
theorem child_unique {i j c : ℕ} (h : Inv degree g odd t) (hp : t.heap p = some n)
    (hq : t.heap q = some nq) (hi : n.childs i = some c) (hj : nq.childs j = some c) : p = q := by
  obtain ⟨⟨nc, hnc, hpar⟩, -⟩ := h.child p n i c hp hi
  obtain ⟨⟨nc', hnc', hpar'⟩, -⟩ := h.child q nq j c hq hj
  obtain rfl := Option.some.inj (hnc.symm.trans hnc')
  exact Option.some.inj (hpar.symm.trans hpar')

end Inv

/-! ### A split keeps the invariant -/

/-- The range of the split node ends at its middle key, where that of the new one begins. -/
def Ranges.splitOff (g : Ranges K) (p r : ℕ) (x : K) : Ranges K where
  lo := Function.update g.lo r (x : K)
  hi := Function.update (Function.update g.hi r (g.hi p)) p (x : K)
  depth := Function.update g.depth r (g.depth p)

section

omit [LinearOrder K]

variable {g : Ranges K} {p r a : ℕ} {x : K}

theorem Ranges.splitOff_lo (ha : a ≠ r) : (g.splitOff p r x).lo a = g.lo a :=
  Function.update_of_ne ha _ _

theorem Ranges.splitOff_hi (ha : a ≠ r) (hp : a ≠ p) : (g.splitOff p r x).hi a = g.hi a := by
  simp [splitOff, ha, hp]

theorem Ranges.splitOff_depth (ha : a ≠ r) : (g.splitOff p r x).depth a = g.depth a :=
  Function.update_of_ne ha _ _

theorem Ranges.splitOff_new (hr : r ≠ p) : (g.splitOff p r x).lo r = (x : K) ∧
    (g.splitOff p r x).hi r = g.hi p ∧ (g.splitOff p r x).depth r = g.depth p := by
  simp [splitOff, hr]

theorem Ranges.splitOff_old : (g.splitOff p r x).hi p = (x : K) := Function.update_self _ _ _

end

namespace SplitOff

variable {degree middle : ℕ} {g : Ranges K} {t t' : BTree K V} {p q r i : ℕ} {n nq nq' : Node K V}

omit [LinearOrder K] in
/-- The nodes after the split. -/
theorem get (hsp : SplitOff t t' p q r middle n nq') {a : ℕ} {na' : Node K V}
    (ha : t'.heap a = some na') :
    (a = r ∧ na' = { n.rightHalf middle with parent := some q }) ∨
    (a ≠ r ∧ a = p ∧ na' =
      { n with childs := fun i => if i ≤ middle then n.childs i else none, nkeys := middle }) ∨
    (a ≠ r ∧ a ≠ p ∧ a = q ∧ na' = nq') ∨
    (a ≠ r ∧ a ≠ p ∧ a ≠ q ∧ ∃ na par, t.heap a = some na ∧ na' = { na with parent := par } ∧
      par = if ∃ i < middle + 1, n.childs (middle + 1 + i) = some a then some r
        else na.parent) := by
  rw [hsp.heap a] at ha
  split at ha
  · exact .inl ⟨‹_›, (Option.some.inj ha).symm⟩
  · rename_i har
    split at ha
    · exact .inr (.inl ⟨har, ‹_›, (Option.some.inj ha).symm⟩)
    · rename_i hap
      split at ha
      · exact .inr (.inr (.inl ⟨har, hap, ‹_›, (Option.some.inj ha).symm⟩))
      · rename_i haq
        refine .inr (.inr (.inr ⟨har, hap, haq, ?_⟩))
        split at ha
        · rename_i hmoved
          obtain ⟨na, hna, rfl⟩ := Option.map_eq_some_iff.1 ha
          exact ⟨na, _, hna, rfl, by rw [if_pos hmoved]⟩
        · rename_i hmoved
          exact ⟨na', _, ha, rfl, by rw [if_neg hmoved]⟩

/-- Where the old nodes are after the split, and who their parent is. -/
theorem put (hsp : SplitOff t t' p q r middle n nq') (h : Inv degree g (some p) t)
    (hp : t.heap p = some n) (hq : t.heap q = some nq) (hslot : nq.childs i = some p)
    (hr : t.heap r = none) (hpar : nq'.parent = nq.parent) {a : ℕ} {na : Node K V}
    (ha : t.heap a = some na) :
    a ≠ r ∧ ∃ na', t'.heap a = some na' ∧ na'.parent =
      if ∃ i < middle + 1, n.childs (middle + 1 + i) = some a then some r else na.parent := by
  have har : a ≠ r := by
    rintro rfl
    rw [hr] at ha
    exact nomatch ha
  refine ⟨har, ?_⟩
  rw [hsp.heap a, if_neg har]
  by_cases hap : a = p
  · subst hap
    obtain rfl := Option.some.inj (hp.symm.trans ha)
    rw [if_pos rfl]
    refine ⟨_, rfl, ?_⟩
    rw [if_neg]
    rintro ⟨j, -, hc⟩
    exact h.child_ne_self hp hc rfl
  · rw [if_neg hap]
    by_cases haq : a = q
    · subst haq
      obtain rfl := Option.some.inj (hq.symm.trans ha)
      rw [if_pos rfl]
      refine ⟨nq', rfl, ?_⟩
      rw [if_neg, hpar]
      rintro ⟨j, -, hc⟩
      exact h.grandchild_ne hp hq hslot hc
    · rw [if_neg haq]
      split
      · exact ⟨{ na with parent := some r }, by rw [ha]; rfl, rfl⟩
      · exact ⟨na, ha, rfl⟩

/-- The children after the split. -/
theorem child (hsp : SplitOff t t' p q t.next middle n nq') (h : Inv degree g (some p) t)
    (hdeg : degree = 2 * middle + 1) (hp : t.heap p = some n) (hn : n.nkeys = degree)
    (hq : t.heap q = some nq) (hslot : nq.childs i = some p)
    (hins : nq.Inserted nq' i (n.keys middle) (n.values middle) (some t.next)) {a j c : ℕ}
    {na' : Node K V} (ha : t'.heap a = some na') (hc : na'.childs j = some c) :
    (∃ nc, t'.heap c = some nc ∧ nc.parent = some a) ∧
      (g.splitOff p t.next (n.keys middle)).lo c =
        na'.below ((g.splitOff p t.next (n.keys middle)).lo a) j ∧
      (g.splitOff p t.next (n.keys middle)).hi c =
        na'.above ((g.splitOff p t.next (n.keys middle)).hi a) j ∧
      (g.splitOff p t.next (n.keys middle)).depth a <
        (g.splitOff p t.next (n.keys middle)).depth c := by
  have hr : t.heap t.next = none := h.fresh _ le_rfl
  have hpr : p ≠ t.next := (h.lt_next hp).ne
  have hqr : q ≠ t.next := (h.lt_next hq).ne
  have hpq : p ≠ q := h.child_ne_self hq hslot
  have hile := h.slot_le hq hslot
  obtain ⟨hlor, hhir, hdepr⟩ := Ranges.splitOff_new (g := g) (x := n.keys middle) hpr.symm
  -- a child that was there: only those of the right half get a new parent
  have hold : ∀ b nb k, t.heap b = some nb → nb.childs k = some c →
      c ≠ t.next ∧ (∃ nc, t'.heap c = some nc ∧ nc.parent =
        if b = p ∧ middle < k then some t.next else some b) := by
    intro b nb k hb hk
    obtain ⟨⟨nc, hnc, hcpar⟩, -⟩ := h.child b nb k c hb hk
    obtain ⟨hcr, nc', hnc', hcpar'⟩ := hsp.put h hp hq hslot hr hins.parent hnc
    refine ⟨hcr, nc', hnc', ?_⟩
    rw [hcpar', hcpar]
    by_cases hbp : b = p ∧ middle < k
    · rw [if_pos hbp, if_pos]
      obtain ⟨rfl, hk'⟩ := hbp
      obtain rfl := Option.some.inj (hp.symm.trans hb)
      have := h.slot_le hp hk
      refine ⟨k - (middle + 1), by omega, ?_⟩
      rw [← hk]
      congr 1
      omega
    · rw [if_neg hbp, if_neg]
      rintro ⟨l, -, hl⟩
      obtain rfl := h.child_unique hb hp hk hl
      obtain rfl := Option.some.inj (hp.symm.trans hb)
      have := h.slot_unique hp hk hl
      exact hbp ⟨rfl, by omega⟩
  rcases hsp.get ha with ⟨rfl, rfl⟩ | ⟨har, rfl, rfl⟩ | ⟨har, hap, rfl, rfl⟩ |
    ⟨har, hap, haq, na, par, hna, rfl, -⟩
  · -- the new node
    obtain ⟨hj, hc⟩ := Node.rightHalf_childs hc
    obtain ⟨hcr, nc, hnc, hcpar⟩ := hold p n _ hp hc
    obtain ⟨-, hclo, hchi, hcd⟩ := h.child p n _ c hp hc
    have hcp := h.child_ne_self hp hc
    rw [if_pos ⟨rfl, by omega⟩] at hcpar
    rw [Ranges.splitOff_lo hcr, Ranges.splitOff_hi hcr hcp, Ranges.splitOff_depth hcr, hlor, hhir,
      hdepr, hclo, hchi]
    exact ⟨⟨nc, hnc, hcpar⟩, Node.below_rightHalf, Node.above_rightHalf (hn.trans hdeg), hcd⟩
  · -- the left half
    obtain ⟨hj, hc⟩ := Node.leftHalf_childs hc
    obtain ⟨hcr, nc, hnc, hcpar⟩ := hold a n _ hp hc
    obtain ⟨-, hclo, hchi, hcd⟩ := h.child a n _ c hp hc
    have hcp := h.child_ne_self hp hc
    rw [if_neg fun hbp => absurd hj (by omega)] at hcpar
    rw [Ranges.splitOff_lo hcr, Ranges.splitOff_hi hcr hcp, Ranges.splitOff_depth hcr,
      Ranges.splitOff_lo har, Ranges.splitOff_old, Ranges.splitOff_depth har, hclo, hchi]
    exact ⟨⟨nc, hnc, hcpar⟩, rfl, Node.above_leftHalf (hn.trans hdeg) hj, hcd⟩
  · -- the parent
    rw [Ranges.splitOff_lo har, Ranges.splitOff_hi har hap, Ranges.splitOff_depth har]
    obtain ⟨-, hplo, hphi, hpd⟩ := h.child a nq i p hq hslot
    rcases hins.child_cases j with ⟨hj, he⟩ | ⟨rfl, he⟩ | ⟨k, rfl, hk, he⟩
    · rw [he] at hc
      obtain ⟨hcr, nc, hnc, hcpar⟩ := hold a nq _ hq hc
      obtain ⟨-, hclo, hchi, hcd⟩ := h.child a nq _ c hq hc
      rw [if_neg fun hbp => hap hbp.1] at hcpar
      rw [Ranges.splitOff_lo hcr, Ranges.splitOff_depth hcr]
      rcases Nat.lt_or_eq_of_le hj with hlt | rfl
      · obtain ⟨hb, hab⟩ := hins.bounds_lt (g.lo a) (g.hi a) hile hlt
        have hcp : c ≠ p := by
          rintro rfl
          exact hlt.ne (h.slot_unique hq hc hslot)
        rw [Ranges.splitOff_hi hcr hcp, hb, hab]
        exact ⟨⟨nc, hnc, hcpar⟩, hclo, hchi, hcd⟩
      · obtain ⟨hb, hab⟩ := hins.bounds_eq (g.lo a) (g.hi a) hile
        obtain rfl := Option.some.inj (hslot.symm.trans hc)
        rw [Ranges.splitOff_old, hb, hab]
        exact ⟨⟨nc, hnc, hcpar⟩, hclo, rfl, hcd⟩
    · rw [he] at hc
      obtain rfl := Option.some.inj hc
      obtain ⟨hb, hab⟩ := hins.bounds_new (g.lo a) (g.hi a) hile
      rw [hlor, hhir, hdepr, hb, hab]
      exact ⟨⟨{ n.rightHalf middle with parent := some a }, by rw [hsp.heap, if_pos rfl], rfl⟩, rfl,
        hphi, hpd⟩
    · rw [he] at hc
      obtain ⟨hcr, nc, hnc, hcpar⟩ := hold a nq _ hq hc
      obtain ⟨-, hclo, hchi, hcd⟩ := h.child a nq _ c hq hc
      have hcp : c ≠ p := by
        rintro rfl
        exact hk.ne' (h.slot_unique hq hc hslot)
      obtain ⟨hb, hab⟩ := hins.bounds_gt (g.lo a) (g.hi a) hk (h.slot_le hq hc)
      rw [if_neg fun hbp => hap hbp.1] at hcpar
      rw [Ranges.splitOff_lo hcr, Ranges.splitOff_depth hcr, Ranges.splitOff_hi hcr hcp, hb, hab]
      exact ⟨⟨nc, hnc, hcpar⟩, hclo, hchi, hcd⟩
  · obtain ⟨hcr, nc, hnc, hcpar⟩ := hold a na _ hna hc
    obtain ⟨-, hclo, hchi, hcd⟩ := h.child a na _ c hna hc
    have hcp : c ≠ p := by
      rintro rfl
      exact haq (h.child_unique hna hq hc hslot)
    rw [if_neg fun hbp => hap hbp.1] at hcpar
    rw [Ranges.splitOff_lo hcr, Ranges.splitOff_depth hcr, Ranges.splitOff_hi hcr hcp,
      Ranges.splitOff_lo har, Ranges.splitOff_depth har, Ranges.splitOff_hi har hap]
    exact ⟨⟨nc, hnc, hcpar⟩, hclo, hchi, hcd⟩

/-- Every node is a child of its parent after the split. -/
theorem linked (hsp : SplitOff t t' p q t.next middle n nq') (h : Inv degree g (some p) t)
    (hdeg : degree = 2 * middle + 1) (hp : t.heap p = some n) (hn : n.nkeys = degree)
    (hq : t.heap q = some nq) (hslot : nq.childs i = some p)
    (hins : nq.Inserted nq' i (n.keys middle) (n.values middle) (some t.next)) {a : ℕ}
    {na' : Node K V} (ha : t'.heap a = some na') (hroot : a ≠ t'.root) :
    ∃ b nb j, na'.parent = some b ∧ t'.heap b = some nb ∧ nb.childs j = some a := by
  have hr : t.heap t.next = none := h.fresh _ le_rfl
  have hpr : p ≠ t.next := (h.lt_next hp).ne
  have hqr : q ≠ t.next := (h.lt_next hq).ne
  have hpq : p ≠ q := h.child_ne_self hq hslot
  have hq' : t'.heap q = some nq' := by
    rw [hsp.heap, if_neg hqr, if_neg hpq.symm, if_pos rfl]
  by_cases har : a = t.next
  · rw [hsp.heap, if_pos har] at ha
    obtain rfl := Option.some.inj ha
    exact ⟨q, nq', i + 1, rfl, hq', hins.childs_eq.trans (congrArg some har.symm)⟩
  · obtain ⟨na, hna⟩ : ∃ na, t.heap a = some na := by
      rcases hsp.get ha with ⟨har', -⟩ | ⟨-, rfl, -⟩ | ⟨-, -, rfl, -⟩ | ⟨-, -, -, na, -, hna, -, -⟩
      · exact absurd har' har
      · exact ⟨n, hp⟩
      · exact ⟨nq, hq⟩
      · exact ⟨na, hna⟩
    obtain ⟨-, na₁, hna₁, hapar⟩ := hsp.put h hp hq hslot hr hins.parent hna
    obtain rfl := Option.some.inj (ha.symm.trans hna₁)
    obtain ⟨b, nb, j, hbpar, hb, hbj⟩ := h.linked a na hna (hsp.root ▸ hroot)
    rw [hbpar] at hapar
    by_cases hmoved : ∃ k < middle + 1, n.childs (middle + 1 + k) = some a
    · rw [if_pos hmoved] at hapar
      obtain ⟨k, hk, hka⟩ := hmoved
      refine ⟨t.next, _, k, hapar, by rw [hsp.heap, if_pos rfl], ?_⟩
      simp only [Node.rightHalf, if_pos (Nat.le_of_lt_succ hk), hka]
    · rw [if_neg hmoved] at hapar
      have hbr : b ≠ t.next := (h.lt_next hb).ne
      by_cases hbp : b = p
      · subst hbp
        obtain rfl := Option.some.inj (hp.symm.trans hb)
        have hjn := h.slot_le hp hbj
        have hj : j ≤ middle := by
          by_contra hgt
          refine hmoved ⟨j - (middle + 1), by omega, ?_⟩
          rw [← hbj]
          congr 1
          omega
        refine ⟨b, _, j, hapar, by rw [hsp.heap, if_neg hbr, if_pos rfl], ?_⟩
        simp only [if_pos hj, hbj]
      · by_cases hbq : b = q
        · subst hbq
          obtain rfl := Option.some.inj (hq.symm.trans hb)
          rcases Nat.lt_or_ge i j with hij | hij
          · exact ⟨b, nq', j + 1, hapar, hq', (hins.childs_gt j hij).trans hbj⟩
          · exact ⟨b, nq', j, hapar, hq', (hins.childs_le j hij).trans hbj⟩
        · obtain ⟨-, nb', hb', -⟩ := hsp.put h hp hq hslot hr hins.parent hb
          rcases hsp.get hb' with ⟨hbr', -⟩ | ⟨-, hbp', -⟩ | ⟨-, -, hbq', -⟩ |
            ⟨-, -, -, nb₀, par, hnb₀, rfl, -⟩
          · exact absurd hbr' hbr
          · exact absurd hbp' hbp
          · exact absurd hbq' hbq
          · obtain rfl := Option.some.inj (hb.symm.trans hnb₀)
            exact ⟨b, _, j, hapar, hb', hbj⟩

theorem inv (hsp : SplitOff t t' p q t.next middle n nq') (h : Inv degree g (some p) t)
    (hdeg : degree = 2 * middle + 1) (hmid : 0 < middle) (hp : t.heap p = some n)
    (hn : n.nkeys = degree) (hpar : n.parent = some q) (hq : t.heap q = some nq)
    (hslot : nq.childs i = some p)
    (hins : nq.Inserted nq' i (n.keys middle) (n.values middle) (some t.next)) :
    Inv degree (g.splitOff p t.next (n.keys middle)) (some q) t' := by
  have hs := h.sorted p n hp
  have hsq := h.sorted q nq hq
  have hqn := hins.nkeys
  have hr : t.heap t.next = none := h.fresh _ le_rfl
  have hput := fun (a : ℕ) (na : Node K V) (ha : t.heap a = some na) =>
    hsp.put h hp hq hslot hr hins.parent ha
  have hpr : p ≠ t.next := (hput p n hp).1
  have hqr : q ≠ t.next := (hput q nq hq).1
  have hpq : p ≠ q := h.child_ne_self hq hslot
  have hile := h.slot_le hq hslot
  obtain ⟨-, hplo, hphi, hpd⟩ := h.child q nq i p hq hslot
  obtain ⟨hlor, hhir, hdepr⟩ := Ranges.splitOff_new (g := g) (x := n.keys middle) hpr.symm
  have hxlo : g.lo p < (n.keys middle : K) := hs.lower middle (by omega)
  have hxhi : (n.keys middle : K) < g.hi p := hs.upper middle (by omega)
  have hfits : nq.Fits (n.keys middle) i :=
    hsq.fits hile (hplo ▸ hxlo) (hphi ▸ hxhi)
  refine ⟨?_, ?_, ?_, ?_, ?_, ?_, ?_, ?_, ?_, ?_, ?_⟩
  · obtain ⟨nr, hroot, hnone⟩ := h.root
    obtain ⟨-, nr', hroot', hpar'⟩ := hput _ nr hroot
    refine ⟨nr', hsp.root ▸ hroot', ?_⟩
    rw [hpar', if_neg, hnone]
    rintro ⟨k, -, hk⟩
    obtain ⟨⟨nc, hnc, hcpar⟩, -⟩ := h.child p n _ _ hp hk
    obtain rfl := Option.some.inj (hroot.symm.trans hnc)
    rw [hnone] at hcpar
    exact nomatch hcpar
  · obtain ⟨nr, hroot, hnone⟩ := h.root
    have hrr := (hput _ nr hroot).1
    have hrp : t.root ≠ p := by
      intro heq
      rw [heq] at hroot
      obtain rfl := Option.some.inj (hp.symm.trans hroot)
      rw [hpar] at hnone
      exact nomatch hnone
    rw [hsp.root, Ranges.splitOff_lo hrr, Ranges.splitOff_hi hrr hrp]
    exact h.rootRange
  · intro a ha
    rw [hsp.next] at ha
    have hnone := h.fresh a (by omega)
    have hap : a ≠ p := by
      have := h.lt_next hp
      omega
    have haq : a ≠ q := by
      have := h.lt_next hq
      omega
    rw [hsp.heap a, if_neg (by omega), if_neg hap, if_neg haq, hnone]
    split <;> rfl
  · intro a na' ha
    rcases hsp.get ha with ⟨-, rfl⟩ | ⟨-, -, rfl⟩ | ⟨-, -, rfl, rfl⟩ | ⟨-, hap, -, na, par, hna, rfl, -⟩
    · exact .inl (show middle < degree by omega)
    · exact .inl (show middle < degree by omega)
    · rcases h.size a nq hq with hlt | ⟨heq, -⟩
      · rcases Nat.lt_or_eq_of_le (Nat.succ_le_of_lt hlt) with hlt' | heq
        · exact .inl (by omega)
        · exact .inr ⟨rfl, by omega⟩
      · exact absurd (Option.some.inj heq) hpq
    · refine .inl ((h.size a na hna).resolve_right ?_)
      exact fun heq => hap (Option.some.inj heq.1).symm
  · intro a na' ha har
    rcases hsp.get ha with ⟨-, rfl⟩ | ⟨-, -, rfl⟩ | ⟨-, -, rfl, rfl⟩ | ⟨-, hap, -, na, par, hna, rfl, -⟩
    · exact .inl hmid
    · exact .inl hmid
    · exact .inr rfl
    · refine .inl ((h.nonempty a na hna (hsp.root ▸ har)).resolve_right ?_)
      exact fun heq => hap (Option.some.inj heq).symm
  · intro a na' ha hzero
    rcases hsp.get ha with ⟨-, rfl⟩ | ⟨-, -, rfl⟩ | ⟨-, -, rfl, rfl⟩ | ⟨-, hap, -, na, par, hna, rfl, -⟩
    · exact absurd hzero hmid.ne'
    · exact absurd hzero hmid.ne'
    · exact .inr rfl
    · refine .inl ((h.empty a na hna hzero).resolve_right ?_)
      exact fun heq => hap (Option.some.inj heq).symm
  · intro a na' ha
    rcases hsp.get ha with ⟨rfl, rfl⟩ | ⟨har, rfl, rfl⟩ | ⟨har, hap, rfl, rfl⟩ |
      ⟨har, hap, -, na, par, hna, rfl, -⟩
    · rw [hlor, hhir]
      have hright := hs.rightHalf (hn.trans hdeg)
      exact ⟨hright.ascending, hright.lower, hright.upper⟩
    · rw [Ranges.splitOff_lo har, Ranges.splitOff_old]
      have hleft := hs.leftHalf (hn.trans hdeg)
      exact ⟨hleft.ascending, hleft.lower, hleft.upper⟩
    · rw [Ranges.splitOff_lo har, Ranges.splitOff_hi har hap]
      refine hins.sorted hsq hfits ?_ ?_
      · exact lt_of_le_of_lt (hsq.le_below hile) (hplo ▸ hxlo)
      · exact lt_of_lt_of_le (hphi ▸ hxhi) (hsq.above_le i)
    · rw [Ranges.splitOff_lo har, Ranges.splitOff_hi har hap]
      have hsa := h.sorted a na hna
      exact ⟨hsa.ascending, hsa.lower, hsa.upper⟩
  · intro a na' j ha hj
    rcases hsp.get ha with ⟨-, rfl⟩ | ⟨-, -, rfl⟩ | ⟨-, -, rfl, rfl⟩ | ⟨-, -, -, na, par, hna, rfl, -⟩
    · replace hj : middle < j := hj
      exact if_neg (by omega)
    · replace hj : middle < j := hj
      exact if_neg (by omega)
    · obtain ⟨k, rfl⟩ : ∃ k, j = k + 1 := ⟨j - 1, by omega⟩
      rw [hins.childs_gt k (by omega)]
      exact h.slots a nq k hq (by omega)
    · exact h.slots a na j hna hj
  · intro a na' j c ha hc
    exact hsp.child h hdeg hp hn hq hslot hins ha hc
  · intro a na' ha har
    exact hsp.linked h hdeg hp hn hq hslot hins ha har
  · intro a na' ha
    rw [hsp.next]
    rcases hsp.get ha with ⟨rfl, -⟩ | ⟨har, rfl, -⟩ | ⟨har, -, rfl, -⟩ | ⟨har, -, -, na, par, hna, -, -⟩
    · rw [hdepr]
      have := h.depth p n hp
      omega
    · rw [Ranges.splitOff_depth har]
      have := h.depth a n hp
      omega
    · rw [Ranges.splitOff_depth har]
      have := h.depth a nq hq
      omega
    · rw [Ranges.splitOff_depth har]
      have := h.depth a na hna
      omega

end SplitOff

/-- The ranges of the two halves of the root; all the other nodes are one level deeper. -/
def Ranges.splitRoot (g : Ranges K) (p r₁ r₂ : ℕ) (x : K) : Ranges K where
  lo := Function.update (Function.update g.lo r₁ (g.lo p)) r₂ (x : K)
  hi := Function.update (Function.update g.hi r₁ (x : K)) r₂ (g.hi p)
  depth := fun a =>
    if a = p then g.depth p else if a = r₁ ∨ a = r₂ then g.depth p + 1 else g.depth a + 1

section

omit [LinearOrder K]

variable {g : Ranges K} {p r₁ r₂ a : ℕ} {x : K}

theorem Ranges.splitRoot_other (h₁ : a ≠ r₁) (h₂ : a ≠ r₂) :
    (g.splitRoot p r₁ r₂ x).lo a = g.lo a ∧ (g.splitRoot p r₁ r₂ x).hi a = g.hi a := by
  simp [splitRoot, h₁, h₂]

theorem Ranges.splitRoot_left (h : r₁ ≠ r₂) (hp : r₁ ≠ p) :
    (g.splitRoot p r₁ r₂ x).lo r₁ = g.lo p ∧ (g.splitRoot p r₁ r₂ x).hi r₁ = (x : K) ∧
      (g.splitRoot p r₁ r₂ x).depth r₁ = g.depth p + 1 := by
  simp [splitRoot, h, hp]

theorem Ranges.splitRoot_right (r₁ : ℕ) (hp : r₂ ≠ p) :
    (g.splitRoot p r₁ r₂ x).lo r₂ = (x : K) ∧ (g.splitRoot p r₁ r₂ x).hi r₂ = g.hi p ∧
      (g.splitRoot p r₁ r₂ x).depth r₂ = g.depth p + 1 := by
  simp [splitRoot, hp]

theorem Ranges.splitRoot_depth (h₁ : a ≠ r₁) (h₂ : a ≠ r₂) (hp : a ≠ p) :
    (g.splitRoot p r₁ r₂ x).depth a = g.depth a + 1 := by
  simp [splitRoot, h₁, h₂, hp]

theorem Ranges.splitRoot_depth_root : (g.splitRoot p r₁ r₂ x).depth p = g.depth p := by
  simp [splitRoot]

end

namespace SplitRoot

variable {degree middle : ℕ} {g : Ranges K} {t t' : BTree K V} {p r₁ r₂ : ℕ} {n : Node K V}

omit [LinearOrder K] in
/-- The nodes after the split. -/
theorem get (hsp : SplitRoot t t' p r₁ r₂ middle n) {a : ℕ} {na' : Node K V}
    (ha : t'.heap a = some na') :
    (a = r₁ ∧ na' = { n.leftHalf middle with parent := some p }) ∨
    (a = r₂ ∧ na' = { n.rightHalf middle with parent := some p }) ∨
    (a ≠ r₁ ∧ a ≠ r₂ ∧ a = p ∧ na' =
      { n with
        keys := Function.update n.keys 0 (n.keys middle)
        values := Function.update n.values 0 (n.values middle)
        childs := fun i => if i = 0 then some r₁ else if i = 1 then some r₂ else none
        nkeys := 1 }) ∨
    (a ≠ r₁ ∧ a ≠ r₂ ∧ a ≠ p ∧ ∃ na par, t.heap a = some na ∧ na' = { na with parent := par } ∧
      par = if ∃ i < middle + 1, n.childs i = some a then some r₁
        else if ∃ i < middle + 1, n.childs (middle + 1 + i) = some a then some r₂
        else na.parent) := by
  rw [hsp.heap a] at ha
  split at ha
  · exact .inl ⟨‹_›, (Option.some.inj ha).symm⟩
  · rename_i ha₁
    split at ha
    · exact .inr (.inl ⟨‹_›, (Option.some.inj ha).symm⟩)
    · rename_i ha₂
      split at ha
      · exact .inr (.inr (.inl ⟨ha₁, ha₂, ‹_›, (Option.some.inj ha).symm⟩))
      · rename_i hap
        refine .inr (.inr (.inr ⟨ha₁, ha₂, hap, ?_⟩))
        split at ha
        · rename_i hleft
          obtain ⟨na, hna, rfl⟩ := Option.map_eq_some_iff.1 ha
          exact ⟨na, _, hna, rfl, by rw [if_pos hleft]⟩
        · rename_i hleft
          split at ha
          · rename_i hright
            obtain ⟨na, hna, rfl⟩ := Option.map_eq_some_iff.1 ha
            exact ⟨na, _, hna, rfl, by rw [if_neg hleft, if_pos hright]⟩
          · rename_i hright
            exact ⟨na', _, ha, rfl, by rw [if_neg hleft, if_neg hright]⟩

omit [LinearOrder K] in
/-- Where the old nodes are after the split, and who their parent is. -/
theorem put (hsp : SplitRoot t t' p r₁ r₂ middle n) {a : ℕ} {na : Node K V} (h₁ : a ≠ r₁)
    (h₂ : a ≠ r₂) (hap : a ≠ p) (ha : t.heap a = some na) :
    ∃ par, t'.heap a = some { na with parent := par } ∧
      par = if ∃ i < middle + 1, n.childs i = some a then some r₁
        else if ∃ i < middle + 1, n.childs (middle + 1 + i) = some a then some r₂
        else na.parent := by
  rw [hsp.heap a, if_neg h₁, if_neg h₂, if_neg hap]
  split
  · exact ⟨some r₁, by rw [ha]; rfl, rfl⟩
  · split
    · exact ⟨some r₂, by rw [ha]; rfl, rfl⟩
    · exact ⟨na.parent, ha, rfl⟩

/-- The parent of an old node after the split. -/
theorem parent_of_child (hsp : SplitRoot t t' p t.next (t.next + 1) middle n)
    (h : Inv degree g (some p) t) (hdeg : degree = 2 * middle + 1) (hp : t.heap p = some n)
    (hn : n.nkeys = degree) {b k c : ℕ} {nb : Node K V} (hb : t.heap b = some nb)
    (hk : nb.childs k = some c) :
    (c ≠ t.next ∧ c ≠ t.next + 1) ∧ ∃ nc, t'.heap c = some nc ∧ (c ≠ p → nc.parent =
      if b = p then (if k ≤ middle then some t.next else some (t.next + 1)) else some b) := by
  have hlt := h.child_lt_next hb hk
  refine ⟨⟨by omega, by omega⟩, ?_⟩
  obtain ⟨⟨nc, hnc, hcpar⟩, -⟩ := h.child b nb k c hb hk
  by_cases hcp : c = p
  · subst hcp
    exact ⟨_, by rw [hsp.heap, if_neg (by omega), if_neg (by omega), if_pos rfl],
      fun hne => absurd rfl hne⟩
  · obtain ⟨par, hpar, heq⟩ := hsp.put (by omega) (by omega) hcp hnc
    refine ⟨_, hpar, fun _ => ?_⟩
    rw [heq, hcpar]
    by_cases hbp : b = p
    · subst hbp
      obtain rfl := Option.some.inj (hp.symm.trans hb)
      have hkn := h.slot_le hp hk
      rw [if_pos rfl]
      by_cases hkm : k ≤ middle
      · rw [if_pos hkm, if_pos ⟨k, by omega, hk⟩]
      · rw [if_neg hkm, if_neg, if_pos]
        · refine ⟨k - (middle + 1), by omega, ?_⟩
          rw [← hk]
          congr 1
          omega
        · rintro ⟨l, hl, hl'⟩
          have := h.slot_unique hp hk hl'
          omega
    · rw [if_neg hbp, if_neg, if_neg]
      · rintro ⟨l, -, hl⟩
        exact hbp (h.child_unique hb hp hk hl)
      · rintro ⟨l, -, hl⟩
        exact hbp (h.child_unique hb hp hk hl)

/-- The children after the split of the root. -/
theorem child (hsp : SplitRoot t t' p t.next (t.next + 1) middle n) (h : Inv degree g (some p) t)
    (hdeg : degree = 2 * middle + 1) (hp : t.heap p = some n) (hn : n.nkeys = degree)
    (hroot : n.parent = none) {a j c : ℕ} {na' : Node K V} (ha : t'.heap a = some na')
    (hc : na'.childs j = some c) :
    (∃ nc, t'.heap c = some nc ∧ nc.parent = some a) ∧
      (g.splitRoot p t.next (t.next + 1) (n.keys middle)).lo c =
        na'.below ((g.splitRoot p t.next (t.next + 1) (n.keys middle)).lo a) j ∧
      (g.splitRoot p t.next (t.next + 1) (n.keys middle)).hi c =
        na'.above ((g.splitRoot p t.next (t.next + 1) (n.keys middle)).hi a) j ∧
      (g.splitRoot p t.next (t.next + 1) (n.keys middle)).depth a <
        (g.splitRoot p t.next (t.next + 1) (n.keys middle)).depth c := by
  have hlt := h.lt_next hp
  obtain ⟨hlo₁, hhi₁, hd₁⟩ := Ranges.splitRoot_left (g := g) (p := p) (x := n.keys middle)
    (show t.next ≠ t.next + 1 by omega) (by omega)
  obtain ⟨hlo₂, hhi₂, hd₂⟩ := Ranges.splitRoot_right (g := g) (p := p) (x := n.keys middle)
    t.next (show t.next + 1 ≠ p by omega)
  rcases hsp.get ha with ⟨rfl, rfl⟩ | ⟨rfl, rfl⟩ | ⟨ha₁, ha₂, rfl, rfl⟩ |
    ⟨ha₁, ha₂, hap, na, par, hna, rfl, -⟩
  · -- the left half
    obtain ⟨hj, hc⟩ := Node.leftHalf_childs hc
    obtain ⟨⟨hc₁, hc₂⟩, nc, hnc, hcpar⟩ := hsp.parent_of_child h hdeg hp hn hp hc
    obtain ⟨-, hclo, hchi, hcd⟩ := h.child p n j c hp hc
    have hcp := h.child_ne_self hp hc
    obtain ⟨hlo, hhi⟩ := Ranges.splitRoot_other (g := g) (p := p) (x := n.keys middle) hc₁ hc₂
    have hcpar := hcpar hcp
    rw [if_pos rfl, if_pos hj] at hcpar
    rw [hlo, hhi, Ranges.splitRoot_depth hc₁ hc₂ hcp, hlo₁, hhi₁, hd₁, hclo, hchi]
    exact ⟨⟨nc, hnc, hcpar⟩, rfl, Node.above_leftHalf (hn.trans hdeg) hj, by omega⟩
  · -- the right half
    obtain ⟨hj, hc⟩ := Node.rightHalf_childs hc
    obtain ⟨⟨hc₁, hc₂⟩, nc, hnc, hcpar⟩ := hsp.parent_of_child h hdeg hp hn hp hc
    obtain ⟨-, hclo, hchi, hcd⟩ := h.child p n _ c hp hc
    have hcp := h.child_ne_self hp hc
    obtain ⟨hlo, hhi⟩ := Ranges.splitRoot_other (g := g) (p := p) (x := n.keys middle) hc₁ hc₂
    have hcpar := hcpar hcp
    rw [if_pos rfl, if_neg (by omega)] at hcpar
    rw [hlo, hhi, Ranges.splitRoot_depth hc₁ hc₂ hcp, hlo₂, hhi₂, hd₂, hclo, hchi]
    exact ⟨⟨nc, hnc, hcpar⟩, Node.below_rightHalf, Node.above_rightHalf (hn.trans hdeg), by omega⟩
  · -- the root
    obtain ⟨hlo, hhi⟩ := Ranges.splitRoot_other (g := g) (p := a) (x := n.keys middle) ha₁ ha₂
    rw [hlo, hhi, Ranges.splitRoot_depth_root]
    dsimp only at hc
    split at hc
    · rename_i hj
      obtain rfl := Option.some.inj hc
      rw [hlo₁, hhi₁, hd₁, hj]
      refine ⟨⟨{ n.leftHalf middle with parent := some a }, by rw [hsp.heap, if_pos rfl], rfl⟩, ?_,
        ?_, by omega⟩
      · exact (if_pos rfl).symm
      · unfold Node.above
        rw [if_pos Nat.one_pos]
        simp
    · split at hc
      · rename_i hj
        obtain rfl := Option.some.inj hc
        rw [hlo₂, hhi₂, hd₂, hj]
        refine ⟨⟨{ n.rightHalf middle with parent := some a },
          by rw [hsp.heap, if_neg (by omega), if_pos rfl], rfl⟩, ?_, ?_, by omega⟩
        · unfold Node.below
          rw [if_neg Nat.one_ne_zero]
          simp
        · exact (if_neg (lt_irrefl 1)).symm
      · exact nomatch hc
  · -- the other nodes
    obtain ⟨⟨hc₁, hc₂⟩, nc, hnc, hcpar⟩ := hsp.parent_of_child h hdeg hp hn hna hc
    obtain ⟨⟨nc₀, hnc₀, hcpar₀⟩, hclo, hchi, hcd⟩ := h.child a na j c hna hc
    have hcp : c ≠ p := by
      rintro rfl
      obtain rfl := Option.some.inj (hp.symm.trans hnc₀)
      rw [hroot] at hcpar₀
      exact nomatch hcpar₀
    have hcpar := hcpar hcp
    rw [if_neg hap] at hcpar
    obtain ⟨hlo, hhi⟩ := Ranges.splitRoot_other (g := g) (p := p) (x := n.keys middle) hc₁ hc₂
    obtain ⟨hloa, hhia⟩ := Ranges.splitRoot_other (g := g) (p := p) (x := n.keys middle) ha₁ ha₂
    rw [hlo, hhi, hloa, hhia, Ranges.splitRoot_depth hc₁ hc₂ hcp, Ranges.splitRoot_depth ha₁ ha₂ hap]
    exact ⟨⟨nc, hnc, hcpar⟩, hclo, hchi, by omega⟩

theorem linked (hsp : SplitRoot t t' p t.next (t.next + 1) middle n) (h : Inv degree g (some p) t)
    (hdeg : degree = 2 * middle + 1) (hp : t.heap p = some n) (hn : n.nkeys = degree)
    (hpr : p = t.root) {a : ℕ} {na' : Node K V} (ha : t'.heap a = some na') (hroot : a ≠ t'.root) :
    ∃ b nb j, na'.parent = some b ∧ t'.heap b = some nb ∧ nb.childs j = some a := by
  have hlt := h.lt_next hp
  have hp' := hsp.heap p
  rw [if_neg (by omega), if_neg (by omega), if_pos rfl] at hp'
  rcases hsp.get ha with ⟨rfl, rfl⟩ | ⟨rfl, rfl⟩ | ⟨-, -, rfl, -⟩ | ⟨ha₁, ha₂, hap, na, par, hna, rfl, -⟩
  · exact ⟨p, _, 0, rfl, hp', by simp⟩
  · exact ⟨p, _, 1, rfl, hp', by simp⟩
  · rw [hsp.root] at hroot
    exact absurd hpr hroot
  · obtain ⟨b, nb, j, hbpar, hb, hbj⟩ := h.linked a na hna (hsp.root ▸ hroot)
    obtain ⟨-, na₁, hna₁, hapar⟩ := hsp.parent_of_child h hdeg hp hn hb hbj
    obtain rfl := Option.some.inj (ha.symm.trans hna₁)
    have hapar := hapar hap
    by_cases hbp : b = p
    · subst hbp
      obtain rfl := Option.some.inj (hp.symm.trans hb)
      have hjn := h.slot_le hp hbj
      rw [if_pos rfl] at hapar
      by_cases hj : j ≤ middle
      · rw [if_pos hj] at hapar
        refine ⟨t.next, { n.leftHalf middle with parent := some b }, j, hapar,
          by rw [hsp.heap, if_pos rfl], ?_⟩
        simp only [Node.leftHalf, if_pos hj, hbj]
      · rw [if_neg hj] at hapar
        refine ⟨t.next + 1, { n.rightHalf middle with parent := some b }, j - (middle + 1), hapar,
          by rw [hsp.heap, if_neg (by omega), if_pos rfl], ?_⟩
        simp only [Node.rightHalf, if_pos (show j - (middle + 1) ≤ middle by omega)]
        rw [← hbj]
        congr 1
        omega
    · rw [if_neg hbp] at hapar
      have hbr := h.lt_next hb
      obtain ⟨par', hb', -⟩ := hsp.put (show b ≠ t.next by omega) (show b ≠ t.next + 1 by omega) hbp hb
      exact ⟨b, _, j, hapar, hb', hbj⟩

theorem inv (hsp : SplitRoot t t' p t.next (t.next + 1) middle n) (h : Inv degree g (some p) t)
    (hdeg : degree = 2 * middle + 1) (hmid : 0 < middle) (hp : t.heap p = some n)
    (hn : n.nkeys = degree) (hpar : n.parent = none) (hpr : p = t.root) :
    Inv degree (g.splitRoot p t.next (t.next + 1) (n.keys middle)) none t' := by
  have hs := h.sorted p n hp
  have hlt := h.lt_next hp
  obtain ⟨hlo₁, hhi₁, hd₁⟩ := Ranges.splitRoot_left (g := g) (p := p) (x := n.keys middle)
    (show t.next ≠ t.next + 1 by omega) (by omega)
  obtain ⟨hlo₂, hhi₂, hd₂⟩ := Ranges.splitRoot_right (g := g) (p := p) (x := n.keys middle)
    t.next (show t.next + 1 ≠ p by omega)
  have hother := fun a (ha₁ : a ≠ t.next) (ha₂ : a ≠ t.next + 1) =>
    Ranges.splitRoot_other (g := g) (p := p) (x := n.keys middle) ha₁ ha₂
  refine ⟨?_, ?_, ?_, ?_, ?_, ?_, ?_, ?_, ?_, ?_, ?_⟩
  · have hp' := hsp.heap p
    rw [if_neg (by omega), if_neg (by omega), if_pos rfl] at hp'
    rw [hsp.root, ← hpr]
    exact ⟨_, hp', hpar⟩
  · obtain ⟨hlo, hhi⟩ := hother p (by omega) (by omega)
    rw [hsp.root, ← hpr, hlo, hhi, hpr]
    exact h.rootRange
  · intro a ha
    rw [hsp.next] at ha
    rw [hsp.heap a, if_neg (by omega), if_neg (by omega), if_neg (by omega), h.fresh a (by omega)]
    simp
  · intro a na' ha
    rcases hsp.get ha with ⟨-, rfl⟩ | ⟨-, rfl⟩ | ⟨-, -, -, rfl⟩ | ⟨-, -, hap, na, par, hna, rfl, -⟩
    · exact .inl (show middle < degree by omega)
    · exact .inl (show middle < degree by omega)
    · exact .inl (show 1 < degree by omega)
    · refine .inl ((h.size a na hna).resolve_right ?_)
      exact fun heq => hap (Option.some.inj heq.1).symm
  · intro a na' ha har
    rcases hsp.get ha with ⟨-, rfl⟩ | ⟨-, rfl⟩ | ⟨-, -, -, rfl⟩ | ⟨-, -, hap, na, par, hna, rfl, -⟩
    · exact .inl hmid
    · exact .inl hmid
    · exact .inl Nat.one_pos
    · refine .inl ((h.nonempty a na hna (hsp.root ▸ har)).resolve_right ?_)
      exact fun heq => hap (Option.some.inj heq).symm
  · intro a na' ha hzero
    rcases hsp.get ha with ⟨-, rfl⟩ | ⟨-, rfl⟩ | ⟨-, -, -, rfl⟩ | ⟨-, -, hap, na, par, hna, rfl, -⟩
    · exact absurd hzero hmid.ne'
    · exact absurd hzero hmid.ne'
    · exact absurd hzero Nat.one_ne_zero
    · refine .inl ((h.empty a na hna hzero).resolve_right ?_)
      exact fun heq => hap (Option.some.inj heq).symm
  · intro a na' ha
    rcases hsp.get ha with ⟨rfl, rfl⟩ | ⟨rfl, rfl⟩ | ⟨ha₁, ha₂, rfl, rfl⟩ |
      ⟨ha₁, ha₂, hap, na, par, hna, rfl, -⟩
    · rw [hlo₁, hhi₁]
      have hleft := hs.leftHalf (hn.trans hdeg)
      exact ⟨hleft.ascending, hleft.lower, hleft.upper⟩
    · rw [hlo₂, hhi₂]
      have hright := hs.rightHalf (hn.trans hdeg)
      exact ⟨hright.ascending, hright.lower, hright.upper⟩
    · rw [(hother a ha₁ ha₂).1, (hother a ha₁ ha₂).2]
      have hfirst : ∀ j < 1, Function.update n.keys 0 (n.keys middle) j = n.keys middle := by
        intro j hj
        obtain rfl : j = 0 := by omega
        exact Function.update_self _ _ _
      refine ⟨?_, ?_, ?_⟩
      · intro j k hjk hk
        replace hk : k < 1 := hk
        omega
      · intro j hj
        show g.lo a < ((Function.update n.keys 0 (n.keys middle) j : K) : WithBot K)
        rw [hfirst j hj]
        exact hs.lower _ (by omega)
      · intro j hj
        show ((Function.update n.keys 0 (n.keys middle) j : K) : WithTop K) < g.hi a
        rw [hfirst j hj]
        exact hs.upper _ (by omega)
    · rw [(hother a ha₁ ha₂).1, (hother a ha₁ ha₂).2]
      have hsa := h.sorted a na hna
      exact ⟨hsa.ascending, hsa.lower, hsa.upper⟩
  · intro a na' j ha hj
    rcases hsp.get ha with ⟨-, rfl⟩ | ⟨-, rfl⟩ | ⟨-, -, -, rfl⟩ | ⟨-, -, -, na, par, hna, rfl, -⟩
    · replace hj : middle < j := hj
      exact if_neg (by omega)
    · replace hj : middle < j := hj
      exact if_neg (by omega)
    · replace hj : 1 < j := hj
      show (if j = 0 then some t.next else if j = 1 then some (t.next + 1) else none) = none
      rw [if_neg (by omega), if_neg (by omega)]
    · exact h.slots a na j hna hj
  · intro a na' j c ha hc
    exact hsp.child h hdeg hp hn hpar ha hc
  · intro a na' ha har
    exact hsp.linked h hdeg hp hn hpr ha har
  · intro a na' ha
    rw [hsp.next]
    have hpd := h.depth p n hp
    rcases hsp.get ha with ⟨rfl, -⟩ | ⟨rfl, -⟩ | ⟨-, -, rfl, -⟩ | ⟨ha₁, ha₂, hap, na, par, hna, -, -⟩
    · omega
    · omega
    · rw [Ranges.splitRoot_depth_root]
      omega
    · rw [Ranges.splitRoot_depth ha₁ ha₂ hap]
      have := h.depth a na hna
      omega

end SplitRoot

/-! ### A split keeps the content -/

theorem SplitOff.holds_iff {degree middle p q i : ℕ} {g : Ranges K} {t t' : BTree K V}
    {n nq nq' : Node K V} (hsp : SplitOff t t' p q t.next middle n nq')
    (h : Inv degree g (some p) t) (hdeg : degree = 2 * middle + 1) (hp : t.heap p = some n)
    (hn : n.nkeys = degree) (hq : t.heap q = some nq) (hslot : nq.childs i = some p)
    (hins : nq.Inserted nq' i (n.keys middle) (n.values middle) (some t.next)) (k : K) (v : V) :
    Holds t' k v ↔ Holds t k v := by
  have hpr : p ≠ t.next := (h.lt_next hp).ne
  have hqr : q ≠ t.next := (h.lt_next hq).ne
  have hpq : p ≠ q := h.child_ne_self hq hslot
  have hile := h.slot_le hq hslot
  have hhalves := Node.has_iff_halves (hn.trans hdeg) k v
  constructor
  · rintro ⟨a, na', ha, hhas⟩
    rcases hsp.get ha with ⟨rfl, rfl⟩ | ⟨-, rfl, rfl⟩ | ⟨-, -, rfl, rfl⟩ | ⟨-, -, -, na, par, hna, rfl, -⟩
    · exact ⟨p, n, hp, hhalves.2 (.inr (.inr hhas))⟩
    · exact ⟨a, n, hp, hhalves.2 (.inl hhas)⟩
    · rcases (hins.has_iff hile k v).1 hhas with hhas' | ⟨rfl, rfl⟩
      · exact ⟨a, nq, hq, hhas'⟩
      · exact ⟨p, n, hp, hhalves.2 (.inr (.inl ⟨rfl, rfl⟩))⟩
    · exact ⟨a, na, hna, hhas⟩
  · rintro ⟨a, na, ha, hhas⟩
    have har : a ≠ t.next := (h.lt_next ha).ne
    have hq' : t'.heap q = some nq' := by rw [hsp.heap, if_neg hqr, if_neg hpq.symm, if_pos rfl]
    by_cases hap : a = p
    · subst hap
      obtain rfl := Option.some.inj (hp.symm.trans ha)
      rcases hhalves.1 hhas with hleft | ⟨hk, hv⟩ | hright
      · have ha' := hsp.heap a
        rw [if_neg har, if_pos rfl] at ha'
        exact ⟨a, _, ha', hleft⟩
      · exact ⟨q, nq', hq', (hins.has_iff hile k v).2 (.inr ⟨hk.symm, hv.symm⟩)⟩
      · have hr' := hsp.heap t.next
        rw [if_pos rfl] at hr'
        exact ⟨t.next, _, hr', hright⟩
    · by_cases haq : a = q
      · subst haq
        obtain rfl := Option.some.inj (hq.symm.trans ha)
        exact ⟨a, nq', hq', (hins.has_iff hile k v).2 (.inl hhas)⟩
      · have ha' := hsp.heap a
        rw [if_neg har, if_neg hap, if_neg haq, ha] at ha'
        split at ha'
        · exact ⟨a, _, ha', hhas⟩
        · exact ⟨a, _, ha', hhas⟩

theorem SplitRoot.holds_iff {degree middle p : ℕ} {g : Ranges K} {t t' : BTree K V} {n : Node K V}
    (hsp : SplitRoot t t' p t.next (t.next + 1) middle n) (h : Inv degree g (some p) t)
    (hdeg : degree = 2 * middle + 1) (hp : t.heap p = some n) (hn : n.nkeys = degree)
    (k : K) (v : V) : Holds t' k v ↔ Holds t k v := by
  have hlt := h.lt_next hp
  have hhalves := Node.has_iff_halves (hn.trans hdeg) k v
  constructor
  · rintro ⟨a, na', ha, hhas⟩
    rcases hsp.get ha with ⟨-, rfl⟩ | ⟨-, rfl⟩ | ⟨-, -, -, rfl⟩ | ⟨-, -, -, na, par, hna, rfl, -⟩
    · exact ⟨p, n, hp, hhalves.2 (.inl hhas)⟩
    · exact ⟨p, n, hp, hhalves.2 (.inr (.inr hhas))⟩
    · obtain ⟨j, hj, hk, hv⟩ := hhas
      obtain rfl : j = 0 := Nat.lt_one_iff.1 hj
      exact ⟨p, n, hp, hhalves.2 (.inr (.inl ⟨by simpa using hk, by simpa using hv⟩))⟩
    · exact ⟨a, na, hna, hhas⟩
  · rintro ⟨a, na, ha, hhas⟩
    have har := h.lt_next ha
    by_cases hap : a = p
    · subst hap
      obtain rfl := Option.some.inj (hp.symm.trans ha)
      rcases hhalves.1 hhas with hleft | ⟨hk, hv⟩ | hright
      · have hr' := hsp.heap t.next
        rw [if_pos rfl] at hr'
        exact ⟨t.next, _, hr', hleft⟩
      · have ha' := hsp.heap a
        rw [if_neg (by omega), if_neg (by omega), if_pos rfl] at ha'
        exact ⟨a, _, ha', 0, Nat.one_pos, by simp [hk], by simp [hv]⟩
      · have hr' := hsp.heap (t.next + 1)
        rw [if_neg (by omega), if_pos rfl] at hr'
        exact ⟨t.next + 1, _, hr', hright⟩
    · obtain ⟨par, ha', -⟩ := hsp.put (show a ≠ t.next by omega) (show a ≠ t.next + 1 by omega) hap ha
      exact ⟨a, _, ha', hhas⟩

/-! ### The loop -/

section Turn

variable [Inhabited K] [Inhabited V] {degree middle p : ℕ} {g : Ranges K} {t : BTree K V} {n : Node K V}

/-- A turn of the loop that goes on with the parent: its depth is smaller, and it has a key. -/
theorem Inv.splitNode_turn {q : ℕ} (h : Inv degree g (some p) t) (hdeg : degree = 2 * middle + 1)
    (hmid : 0 < middle) (hp : t.heap p = some n) (hfull : n.nkeys = degree) (hpar : n.parent = some q) :
    ∃ g' nq', Inv degree g' (some q) (t.createNode.splitNode degree p n q t.next) ∧
      g'.depth q < g.depth p ∧
      (t.createNode.splitNode degree p n q t.next).heap q = some nq' ∧ 0 < nq'.nkeys ∧
      ∀ k v, Holds (t.createNode.splitNode degree p n q t.next) k v ↔ Holds t k v := by
  obtain ⟨nq, i, hq, hslot⟩ := h.parent_slot hp hpar
  obtain ⟨-, hplo, hphi, hpd⟩ := h.child q nq i p hq hslot
  have hs := h.sorted p n hp
  have hfits : nq.Fits (n.keys middle) i := (h.sorted q nq hq).fits (h.slot_le hq hslot)
    (hplo ▸ hs.lower middle (by omega)) (hphi ▸ hs.upper middle (by omega))
  have hins := Node.insertEntry_inserted hfits (fun j => h.slots q nq j hq) (n.values middle)
    (some t.next)
  have hsp := h.splitNode_eq hdeg hp hpar hq
  have hpq : p ≠ q := h.child_ne_self hq hslot
  have hqr : q ≠ t.next := (h.lt_next hq).ne
  have hq' := hsp.heap q
  rw [if_neg hqr, if_neg hpq.symm, if_pos rfl] at hq'
  refine ⟨_, _, hsp.inv h hdeg hmid hp hfull hpar hq hslot hins, ?_, hq', ?_,
    hsp.holds_iff h hdeg hp hfull hq hslot hins⟩
  · rw [Ranges.splitOff_depth hqr]
    exact hpd
  · rw [hins.nkeys]
    exact Nat.succ_pos _

omit [Inhabited K] [Inhabited V] in
/-- A node without a parent is the root. -/
theorem Inv.eq_root {odd : Option ℕ} (h : Inv degree g odd t) (hp : t.heap p = some n)
    (hpar : n.parent = none) : p = t.root := by
  by_contra hne
  obtain ⟨q, -, -, hq, -⟩ := h.linked p n hp hne
  exact nomatch hpar.symm.trans hq

end Turn

/-- The loop of `split_nodes` ends with all nodes of a proper size, and the content stays. Each turn
goes up one level, so the depth of the node bounds their number. -/
theorem Inv.splitNodes_spec [Inhabited K] [Inhabited V] {degree middle fuel p : ℕ} {g : Ranges K}
    {alloc : ℕ → Bool} {t : BTree K V} {n : Node K V} (h : Inv degree g (some p) t)
    (hdeg : degree = 2 * middle + 1) (hmid : 0 < middle) (halloc : ∀ a, alloc a = true)
    (hfuel : g.depth p < fuel) (hp : t.heap p = some n) (hpos : 0 < n.nkeys) :
    ∃ t' g', splitNodes degree alloc fuel t p = some (t', true) ∧ Inv degree g' none t' ∧
      ∀ k v, Holds t' k v ↔ Holds t k v := by
  induction fuel generalizing t g p n with
  | zero => exact absurd hfuel (Nat.not_lt_zero _)
  | succ fuel ih =>
    by_cases hfull : n.nkeys = degree
    · cases hpar : n.parent with
      | none =>
        have hpr := h.eq_root hp hpar
        have hsp := h.splitRootNode_eq hdeg hp
        refine ⟨_, _, ?_, hsp.inv h hdeg hmid hp hfull hpar hpr, hsp.holds_iff h hdeg hp hfull⟩
        simp only [splitNodes, hp, hfull, halloc, hpar, if_true]
      | some q =>
        obtain ⟨g₁, nq', hinv, hdepth, hq', hpos', hholds₁⟩ := h.splitNode_turn hdeg hmid hp hfull hpar
        obtain ⟨t', g', hloop, hinv', hholds⟩ := ih hinv (by omega) hq' hpos'
        refine ⟨t', g', ?_, hinv', fun k v => (hholds k v).trans (hholds₁ k v)⟩
        simp only [splitNodes, hp, hfull, halloc, hpar, if_true, hloop]
    · refine ⟨t, g, ?_, ?_, fun k v => Iff.rfl⟩
      · simp only [splitNodes, hp, if_neg hfull]
      · have hlt : n.nkeys < degree := (h.size p n hp).resolve_right fun heq => hfull heq.2
        exact h.settle hp hlt (fun _ => hpos) fun hzero => absurd hpos (by omega)

end Talyn.BTree
