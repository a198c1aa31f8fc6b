import Talyn.Utils.BTreeRefinement

/-!
# Insertions without memory

`insert` and `replace` put the new entry into its node before the node is split. When an allocation of
`split_nodes` fails, at whatever level, the entry stays in the tree, and the node that was not split
stays with `Degree` keys: the `false` of `insert` does not mean that nothing was inserted.
-/

namespace Talyn.BTree

variable {K V : Type} [LinearOrder K]

/-- Two trees with the same keys and values. -/
def SameContent (t t' : BTree K V) : Prop := ∀ k v, Holds t' k v ↔ Holds t k v

/-- Every node has room for one more key. -/
def Sized (degree : ℕ) (t : BTree K V) : Prop := ∀ p n, t.heap p = some n → n.nkeys < degree

section

variable [Inhabited K] [Inhabited V] {degree middle : ℕ} {alloc : ℕ → Bool} {t : BTree K V}

/-- The key is new, and an allocation that `split_nodes` makes for it fails. -/
def SplitFails (degree : ℕ) (alloc : ℕ → Bool) (t : BTree K V) (k : K) (v : V) : Prop :=
  ∃ p, t.getValuePtr k = some (p, none) ∧
    (insertInNode degree alloc t p k v).map Prod.snd = some false

/-! ### The loop of `split_nodes` -/

omit [LinearOrder K] in
theorem holds_createNode_destroy (h : t.heap t.next = none) (k : K) (v : V) :
    Holds (t.createNode.destroy t.next) k v ↔ Holds t k v := by
  have hheap : (t.createNode.destroy t.next).heap = t.heap := by
    show Function.update (Function.update t.heap t.next (some .new)) t.next none = t.heap
    rw [Function.update_idem, ← h, Function.update_eq_self]
  unfold Holds
  rw [hheap]

/-- The loop keeps the content, whichever allocations fail; when one does, a node keeps `Degree`
keys. The induction follows the splits up the tree. -/
theorem Inv.splitNodes_content {fuel p : ℕ} {g : Ranges K} {n : Node K V} (h : Inv degree g (some p) t)
    (hdeg : degree = 2 * middle + 1) (hmid : 0 < middle) (hfuel : g.depth p < fuel)
    (hp : t.heap p = some n) :
    ∃ t' ok, splitNodes degree alloc fuel t p = some (t', ok) ∧ SameContent t t' ∧
      (ok = false → ¬Sized degree t') := by
  induction fuel generalizing t g p n with
  | zero => exact absurd hfuel (Nat.not_lt_zero _)
  | succ fuel ih =>
    rw [splitNodes, hp]
    dsimp only
    by_cases hfull : n.nkeys = degree
    · rw [if_pos hfull]
      have hsized : ∀ {t' : BTree K V}, t'.heap p = some n → ¬Sized degree t' :=
        fun hp' hsize => absurd hfull (hsize p n hp').ne
      by_cases hone : alloc t.next = true
      · rw [if_pos hone]
        cases hpar : n.parent with
        | none =>
          dsimp only
          by_cases htwo : alloc (t.next + 1) = true
          · rw [if_pos htwo]
            have hsp := h.splitRootNode_eq hdeg hp
            exact ⟨_, _, rfl, hsp.holds_iff h hdeg hp hfull, by simp⟩
          · -- the first new node is given back
            rw [if_neg htwo]
            refine ⟨_, _, rfl, holds_createNode_destroy (h.fresh _ le_rfl), fun _ => hsized ?_⟩
            show Function.update (Function.update t.heap t.next (some .new)) t.next none p = some n
            have hne := (h.lt_next hp).ne
            rw [Function.update_of_ne hne, Function.update_of_ne hne, hp]
        | some q =>
          dsimp only
          obtain ⟨g₁, nq', hinv, hdepth, hq', -, hholds⟩ := h.splitNode_turn hdeg hmid hp hfull hpar
          obtain ⟨t', ok, hloop, hcontent, hfails⟩ := ih hinv (by omega) hq'
          exact ⟨t', ok, hloop, fun k v => (hcontent k v).trans (hholds k v), hfails⟩
      · rw [if_neg hone]
        exact ⟨t, false, rfl, fun _ _ => Iff.rfl, fun _ => hsized hp⟩
    · rw [if_neg hfull]
      exact ⟨t, true, rfl, fun _ _ => Iff.rfl, by simp⟩

/-! ### The insertion -/

variable {m : Map K V} {k : K} {v : V}

/-- The tree after an insertion that could not split a node. -/
theorem Represents.splitFails (h : Represents degree t m) (hodd : degree % 2 = 1) (h3 : 3 ≤ degree)
    (hfails : SplitFails degree alloc t k v) :
    ∃ p t', t.getValuePtr k = some (p, none) ∧ insertInNode degree alloc t p k v = some (t', false) ∧
      Holds t' k v ∧ m.lookup k = none ∧ ¬Sized degree t' := by
  obtain ⟨p, hptr, hflag⟩ := hfails
  obtain ⟨g, hinv, p', n, hp, ⟨i, hs, -⟩ | ⟨hs, hv, hlo, hhi, hfits, hnone⟩⟩ := h.getValuePtr_spec k
  · exact nomatch hptr.symm.trans hs
  obtain ⟨rfl, -⟩ := Prod.mk.inj (Option.some.inj (hptr.symm.trans hs))
  have hins := Node.insertEntry_inserted hfits (fun j => hinv.slots p n j hp) v none
  have hset : t.doInsertion p k v none = t.set p (n.insertEntry k v none) := modify_eq hp _
  obtain ⟨t', ok, hloop, hcontent, hfull⟩ :
      ∃ t' ok, splitNodes degree alloc t.next (t.set p (n.insertEntry k v none)) p = some (t', ok) ∧
        SameContent (t.set p (n.insertEntry k v none)) t' ∧ (ok = false → ¬Sized degree t') :=
    (hinv.insertAt hp hfits hnone hlo hhi hins).splitNodes_content
      (show degree = 2 * ((degree - 1) / 2) + 1 by omega) (by omega) (hinv.depth p n hp)
      (heap_set_self t p _)
  have hrun : insertInNode degree alloc t p k v = some (t', ok) := by
    rw [insertInNode, hset]
    exact hloop
  rw [hrun] at hflag
  obtain rfl : ok = false := Option.some.inj hflag
  refine ⟨p, t', hptr, hrun, ?_, hv, hfull rfl⟩
  rw [hcontent, hins.holds_iff hp hfits.le]
  exact .inr ⟨rfl, rfl⟩

/-- **Insertions without memory.** When an allocation of `split_nodes` fails, neither `insert`, which
returns `false`, nor `replace`, which returns `null`, leaves the content as it was or every node with
less than `Degree` keys. -/
theorem failed_split_not_atomic (h : Represents degree t m) (hodd : degree % 2 = 1) (h3 : 3 ≤ degree)
    (hfails : SplitFails degree alloc t k v) :
    ∃ t', t.insert degree alloc k v = some (t', false) ∧ t.replace degree alloc k v = some (t', none) ∧
      ¬SameContent t t' ∧ ¬Sized degree t' := by
  obtain ⟨p, t', hptr, hrun, hholds, hnew, hsized⟩ := h.splitFails hodd h3 hfails
  refine ⟨t', ?_, ?_, fun hsame => ?_, hsized⟩
  · simp only [BTree.insert, hptr, hrun]
  · simp only [BTree.replace, hptr, hrun, Option.map_some]
  · have hold := (h.holds k v).1 ((hsame k v).1 hholds)
    cases hnew.symm.trans hold

end

/-- The third key of a tree of degree 3. -/
theorem failed_split_not_atomic_degree_three :
    ∃ (t : BTree ℕ ℕ) (m : Map ℕ ℕ), Represents 3 t m ∧ 3 % 2 = 1 ∧ 3 ≤ 3 ∧
      SplitFails 3 (fun _ => false) t 3 30 ∧
        ∃ t', t.insert 3 (fun _ => false) 3 30 = some (t', false) ∧
          t.replace 3 (fun _ => false) 3 30 = some (t', none) ∧ ¬SameContent t t' ∧ ¬Sized 3 t' := by
  obtain ⟨t, hrun, hrep⟩ := (Represents.init_empty (K := ℕ) (V := ℕ) le_rfl).run_spec rfl le_rfl
    (fun _ => rfl : ∀ a, (fun _ : ℕ => true) a = true) [.insert 1 10, .insert 2 20]
  have heval : ((init : BTree ℕ ℕ).run 3 (fun _ => true) [.insert 1 10, .insert 2 20]).map
      (fun r => (r.1.getValuePtr 3,
        (insertInNode 3 (fun _ => false) r.1 0 3 30).map Prod.snd)) = some (some (0, none), some false) := by
    decide +kernel
  rw [hrun] at heval
  obtain ⟨hptr, hflag⟩ := Prod.mk.inj (Option.some.inj heval)
  have hfails : SplitFails 3 (fun _ => false) t 3 30 := ⟨0, hptr, hflag⟩
  exact ⟨t, _, hrep, rfl, le_rfl, hfails, failed_split_not_atomic hrep rfl le_rfl hfails⟩

/-- An insertion that fails: the key is found afterwards, and its node has three keys. -/
theorem full_node_left :
    ∃ t t' : BTree ℕ ℕ,
      ((init : BTree ℕ ℕ).run 3 (fun _ => true) [.insert 1 10, .insert 2 20]).map Prod.fst = some t ∧
        t.insert 3 (fun _ => false) 3 30 = some (t', false) ∧ t.getValue 3 = some none ∧
          t'.getValue 3 = some (some 30) ∧ ¬Sized 3 t' := by
  have hrun : ∃ t, ((init : BTree ℕ ℕ).run 3 (fun _ => true) [.insert 1 10, .insert 2 20]).map Prod.fst =
      some t ∧ t.getValue 3 = some none ∧ ∃ t', t.insert 3 (fun _ => false) 3 30 = some (t', false) ∧
        t'.getValue 3 = some (some 30) ∧ (t'.heap 0).map Node.nkeys = some 3 :=
    ⟨_, rfl, rfl, _, rfl, rfl, rfl⟩
  obtain ⟨t, ht, hbefore, t', hinsert, hafter, hnkeys⟩ := hrun
  refine ⟨t, t', ht, hinsert, hbefore, hafter, fun hsized => ?_⟩
  obtain ⟨n, hn, hthree⟩ := Option.map_eq_some_iff.1 hnkeys
  exact absurd hthree (hsized 0 n hn).ne

end Talyn.BTree
