import Talyn.Utils.BTree

/-!
# The invariant of the B-tree

The invariant is stated node by node. Every node is responsible for a range of keys, and the range of
a child is what lies between the two keys around its slot; the ranges (and a depth, which grows along
the child pointers) are not stored anywhere, they are chosen by the proof (`Ranges`).

With it: every node is below the root, a key that the tree holds is found where the walk of
`get_value_ptr` looks for it, and the walks to the biggest and the smallest key end there.
-/

namespace Talyn.BTree

variable {K V : Type} [LinearOrder K]

/-- The range of keys and the depth of each node. -/
structure Ranges (K : Type) where
  lo : ℕ → WithBot K
  hi : ℕ → WithTop K
  depth : ℕ → ℕ

namespace Node

/-- The bound below a child slot. -/
def below (n : Node K V) (lo : WithBot K) (i : ℕ) : WithBot K :=
  if i = 0 then lo else (n.keys (i - 1) : K)

/-- The bound above a child slot. -/
def above (n : Node K V) (hi : WithTop K) (i : ℕ) : WithTop K :=
  if i < n.nkeys then (n.keys i : K) else hi

/-- The keys ascend and lie in the range of the node. -/
structure Sorted (n : Node K V) (lo : WithBot K) (hi : WithTop K) : Prop where
  ascending : ∀ i j, i < j → j < n.nkeys → n.keys i < n.keys j
  lower : ∀ i < n.nkeys, lo < (n.keys i : K)
  upper : ∀ i < n.nkeys, (n.keys i : K) < hi

end Node

/-- The invariant. In the middle of an operation the node `odd` may have one key too many or, with a
child left, no key at all. -/
structure Inv (degree : ℕ) (g : Ranges K) (odd : Option ℕ) (t : BTree K V) : Prop where
  root : ∃ n, t.heap t.root = some n ∧ n.parent = none
  rootRange : g.lo t.root = ⊥ ∧ g.hi t.root = ⊤
  fresh : ∀ p, t.next ≤ p → t.heap p = none
  size : ∀ p n, t.heap p = some n → n.nkeys < degree ∨ odd = some p ∧ n.nkeys = degree
  nonempty : ∀ p n, t.heap p = some n → p ≠ t.root → 0 < n.nkeys ∨ odd = some p
  empty : ∀ p n, t.heap p = some n → n.nkeys = 0 → n.childs 0 = none ∨ odd = some p
  sorted : ∀ p n, t.heap p = some n → n.Sorted (g.lo p) (g.hi p)
  slots : ∀ p n i, t.heap p = some n → n.nkeys < i → n.childs i = none
  child : ∀ p n i c, t.heap p = some n → n.childs i = some c →
    (∃ nc, t.heap c = some nc ∧ nc.parent = some p) ∧
      g.lo c = n.below (g.lo p) i ∧ g.hi c = n.above (g.hi p) i ∧ g.depth p < g.depth c
  linked : ∀ p n, t.heap p = some n → p ≠ t.root →
    ∃ q nq i, n.parent = some q ∧ t.heap q = some nq ∧ nq.childs i = some p
  depth : ∀ p n, t.heap p = some n → g.depth p < t.next

/-- A node has a key with a value. -/
def Node.Has (n : Node K V) (k : K) (v : V) : Prop :=
  ∃ i < n.nkeys, n.keys i = k ∧ n.values i = v

/-- The tree holds a key with a value. -/
def Holds (t : BTree K V) (k : K) (v : V) : Prop := ∃ p n, t.heap p = some n ∧ n.Has k v

/-- The node `p` has a key. -/
def HasKey (t : BTree K V) (p : ℕ) (k : K) : Prop :=
  ∃ n i, t.heap p = some n ∧ i < n.nkeys ∧ n.keys i = k

omit [LinearOrder K] in
theorem Holds.hasKey {t : BTree K V} {k : K} {v : V} (h : Holds t k v) : ∃ p, HasKey t p k := by
  obtain ⟨p, n, hp, i, hi, hk, -⟩ := h
  exact ⟨p, n, i, hp, hi, hk⟩

/-! ### Positions in a node -/

namespace Node

variable {n : Node K V} {lo : WithBot K} {hi : WithTop K} {x : K} {i : ℕ}

/-- The first index below `bound` with a property, as a loop finds it. -/
theorem find?_range_getD {P : ℕ → Bool} {bound : ℕ} :
    ((List.range bound).find? P).getD bound ≤ bound ∧
      (∀ j < ((List.range bound).find? P).getD bound, P j = false) ∧
      (((List.range bound).find? P).getD bound < bound →
        P (((List.range bound).find? P).getD bound) = true) := by
  cases hf : (List.range bound).find? P with
  | none =>
    rw [List.find?_range_eq_none] at hf
    simp only [Option.getD_none, le_refl, lt_self_iff_false, false_imp_iff, and_true, true_and]
    exact fun j hj => by simpa using hf j hj
  | some i =>
    rw [List.find?_range_eq_some] at hf
    obtain ⟨hp, hlt, hbefore⟩ := hf
    simp only [Option.getD_some]
    exact ⟨(List.mem_range.1 hlt).le, fun j hj => by simpa using hbefore j hj, fun _ => hp⟩

theorem position_le (n : Node K V) (x : K) : n.position x ≤ n.nkeys :=
  find?_range_getD.1

theorem lt_of_lt_position {j : ℕ} (hj : j < n.position x) : n.keys j < x := by
  have := (@find?_range_getD (fun i => decide (x ≤ n.keys i)) n.nkeys).2.1 j hj
  simpa using this

theorem le_position (h : n.position x < n.nkeys) : x ≤ n.keys (n.position x) :=
  of_decide_eq_true ((@find?_range_getD (fun i => decide (x ≤ n.keys i)) n.nkeys).2.2 h)

/-- A key that the node does not have belongs into the child slot `i`. -/
structure Fits (n : Node K V) (x : K) (i : ℕ) : Prop where
  le : i ≤ n.nkeys
  before : ∀ j < i, n.keys j < x
  after : ∀ j, i ≤ j → j < n.nkeys → x < n.keys j

/-- The bounds of a slot say which keys fit. -/
theorem Sorted.fits (h : n.Sorted lo hi) (hle : i ≤ n.nkeys) (hb : n.below lo i < (x : K))
    (ha : (x : K) < n.above hi i) : n.Fits x i := by
  refine ⟨hle, ?_, ?_⟩
  · intro j hj
    have hpos : i ≠ 0 := by omega
    rw [below, if_neg hpos, WithBot.coe_lt_coe] at hb
    rcases Nat.lt_or_eq_of_le (Nat.le_sub_one_of_lt hj) with hlt | rfl
    · exact (h.ascending j (i - 1) hlt (by omega)).trans hb
    · exact hb
  · intro j hij hj
    rw [above, if_pos (by omega), WithTop.coe_lt_coe] at ha
    rcases Nat.lt_or_eq_of_le hij with hlt | rfl
    · exact ha.trans (h.ascending i j hlt hj)
    · exact ha

theorem Fits.below_lt (h : n.Fits x i) (hlo : lo < (x : K)) : n.below lo i < (x : K) := by
  unfold below
  split
  · exact hlo
  · exact WithBot.coe_lt_coe.2 (h.before _ (by omega))

theorem Fits.lt_above (h : n.Fits x i) (hhi : (x : K) < hi) : (x : K) < n.above hi i := by
  unfold above
  split
  · rename_i hlt
    exact WithTop.coe_lt_coe.2 (h.after i le_rfl hlt)
  · exact hhi

theorem Fits.ne (h : n.Fits x i) {j : ℕ} (hj : j < n.nkeys) : n.keys j ≠ x := by
  rcases Nat.lt_or_ge j i with hlt | hge
  · exact (h.before j hlt).ne
  · exact (h.after j hge hj).ne'

/-- A key fits into one slot, and the loops of `get_value_ptr` and `do_insertion` find it. -/
theorem Fits.position_eq (h : n.Fits x i) : n.position x = i := by
  rcases Nat.lt_trichotomy (n.position x) i with hlt | heq | hgt
  · exact absurd (le_position (lt_of_lt_of_le hlt h.le)) (not_le.2 (h.before _ hlt))
  · exact heq
  · exact absurd (lt_of_lt_position hgt)
      (not_lt.2 (h.after i le_rfl (lt_of_lt_of_le hgt (position_le n x))).le)

theorem Fits.insertionIndex_eq (h : n.Fits x i) : n.insertionIndex x = i := by
  obtain ⟨hle, hbefore, hat⟩ := @find?_range_getD (fun i => decide (x < n.keys i)) n.nkeys
  rcases Nat.lt_trichotomy (n.insertionIndex x) i with hlt | heq | hgt
  · have := of_decide_eq_true (hat (lt_of_lt_of_le hlt h.le))
    exact absurd this (not_lt.2 (h.before _ hlt).le)
  · exact heq
  · have := of_decide_eq_false (hbefore i hgt)
    exact absurd (h.after i le_rfl (lt_of_lt_of_le hgt hle)) this

/-- The walk stops at the key or at the slot it fits into. -/
theorem Sorted.position_cases (h : n.Sorted lo hi) (x : K) :
    (n.position x < n.nkeys ∧ n.keys (n.position x) = x) ∨
      ¬(n.position x < n.nkeys ∧ n.keys (n.position x) = x) ∧ n.Fits x (n.position x) := by
  by_cases hfound : n.position x < n.nkeys ∧ n.keys (n.position x) = x
  · exact .inl hfound
  · refine .inr ⟨hfound, position_le n x, fun j => lt_of_lt_position, ?_⟩
    intro j hj hlt
    have hp : n.position x < n.nkeys := lt_of_le_of_lt hj hlt
    have hx : x < n.keys (n.position x) :=
      lt_of_le_of_ne (le_position hp) fun heq => hfound ⟨hp, heq.symm⟩
    rcases Nat.lt_or_eq_of_le hj with hlt' | heq
    · exact hx.trans (h.ascending _ _ hlt' hlt)
    · rw [← heq]
      exact hx

/-- The bounds of a slot are in the range of the node. -/
theorem Sorted.le_below (h : n.Sorted lo hi) (hle : i ≤ n.nkeys) : lo ≤ n.below lo i := by
  unfold below
  split
  · exact le_rfl
  · exact (h.lower _ (by omega)).le

theorem Sorted.above_le (h : n.Sorted lo hi) (i : ℕ) : n.above hi i ≤ hi := by
  unfold above
  split
  · rename_i hlt
    exact (h.upper i hlt).le
  · exact le_rfl

theorem Sorted.keys_inj {j : ℕ} (hs : n.Sorted lo hi) (hi' : i < n.nkeys) (hj : j < n.nkeys)
    (heq : n.keys i = n.keys j) : i = j := by
  rcases Nat.lt_trichotomy i j with hlt | hij | hgt
  · exact absurd heq (hs.ascending i j hlt hj).ne
  · exact hij
  · exact absurd heq (hs.ascending j i hgt hi').ne'

end Node

/-! ### Below a node -/

/-- `q` is `p` or reaches it by parent pointers. -/
inductive Under (t : BTree K V) (p : ℕ) : ℕ → Prop
  | refl : Under t p p
  | step {q q' : ℕ} {n : Node K V} : t.heap q = some n → n.parent = some q' → Under t p q' → Under t p q

omit [LinearOrder K] in
theorem Under.trans {t : BTree K V} {p q r : ℕ} (h : Under t p q) (h' : Under t q r) :
    Under t p r := by
  induction h' with
  | refl => exact h
  | step hn hpar _ ih => exact .step hn hpar ih

namespace Inv

variable {degree : ℕ} {g : Ranges K} {odd : Option ℕ} {t : BTree K V} {p q : ℕ} {x : K}

theorem slot_le {n : Node K V} {i c : ℕ} (h : Inv degree g odd t) (hp : t.heap p = some n)
    (hc : n.childs i = some c) : i ≤ n.nkeys := by
  by_contra hlt
  rw [h.slots p n i hp (by omega)] at hc
  exact nomatch hc

/-- A node other than the root is a child of its parent. -/
theorem parent_slot {n : Node K V} (h : Inv degree g odd t) (hq : t.heap q = some n)
    (hp : n.parent = some p) : ∃ np i, t.heap p = some np ∧ np.childs i = some q := by
  have hne : q ≠ t.root := by
    rintro rfl
    obtain ⟨nr, hr, hnone⟩ := h.root
    obtain rfl := Option.some.inj (hq.symm.trans hr)
    rw [hnone] at hp
    exact nomatch hp
  obtain ⟨p', np, i, hp', hnp, hc⟩ := h.linked q n hq hne
  obtain rfl := Option.some.inj (hp.symm.trans hp')
  exact ⟨np, i, hnp, hc⟩

/-- The range and the depth below a node. -/
theorem under_range (h : Inv degree g odd t) (hu : Under t p q) (hq : ∃ n, t.heap q = some n) :
    g.lo p ≤ g.lo q ∧ g.hi q ≤ g.hi p ∧ g.depth p ≤ g.depth q := by
  induction hu with
  | refl => exact ⟨le_rfl, le_rfl, le_rfl⟩
  | step hn hpar _ ih =>
    obtain ⟨np, i, hnp, hc⟩ := h.parent_slot hn hpar
    obtain ⟨-, hlo, hhi, hd⟩ := h.child _ _ _ _ hnp hc
    obtain ⟨hlo', hhi', hd'⟩ := ih ⟨np, hnp⟩
    have hs := h.sorted _ _ hnp
    refine ⟨hlo'.trans ?_, le_trans ?_ hhi', by omega⟩
    · rw [hlo]
      exact hs.le_below (h.slot_le hnp hc)
    · rw [hhi]
      exact hs.above_le i

/-- Below a node is the node itself or what is below one of its children. -/
theorem under_cases (h : Inv degree g odd t) (hu : Under t p q) :
    q = p ∨ ∃ n i c, t.heap p = some n ∧ n.childs i = some c ∧ Under t c q := by
  induction hu with
  | refl => exact .inl rfl
  | @step q q' n hn hpar _ ih =>
    rcases ih with rfl | ⟨np, i, c, hnp, hc, hu⟩
    · obtain ⟨np, i, hnp, hc⟩ := h.parent_slot hn hpar
      exact .inr ⟨np, i, q, hnp, hc, .refl⟩
    · exact .inr ⟨np, i, c, hnp, hc, .step hn hpar hu⟩

theorem under_root (h : Inv degree g odd t) (hq : ∃ n, t.heap q = some n) : Under t t.root q := by
  induction hd : g.depth q using Nat.strong_induction_on generalizing q with
  | _ d ih =>
    obtain ⟨n, hn⟩ := hq
    by_cases hroot : q = t.root
    · rw [hroot]
      exact .refl
    · obtain ⟨p, np, i, hpar, hnp, hc⟩ := h.linked q n hn hroot
      have := (h.child p np i q hnp hc).2.2.2
      exact .step hn hpar (ih (g.depth p) (by omega) ⟨np, hnp⟩ rfl)

/-- The key of a node lies in its range. -/
theorem key_range (h : Inv degree g odd t) (hk : HasKey t q x) :
    g.lo q < (x : K) ∧ (x : K) < g.hi q := by
  obtain ⟨n, i, hn, hi, rfl⟩ := hk
  exact ⟨(h.sorted q n hn).lower i hi, (h.sorted q n hn).upper i hi⟩

/-- A key below a node that the node does not have is below the child into whose slot it fits. -/
theorem descend {n : Node K V} {i : ℕ} (h : Inv degree g odd t) (hp : t.heap p = some n)
    (hfits : n.Fits x i) (hk : HasKey t q x) (hu : Under t p q) :
    ∃ c, n.childs i = some c ∧ Under t c q := by
  rcases h.under_cases hu with rfl | ⟨n', j, c, hn', hc, hu'⟩
  · obtain ⟨n', j, hn', hj, rfl⟩ := hk
    obtain rfl := Option.some.inj (hp.symm.trans hn')
    exact absurd rfl (hfits.ne hj)
  · obtain rfl := Option.some.inj (hp.symm.trans hn')
    obtain ⟨-, hlo, hhi, -⟩ := h.child p n j c hp hc
    obtain ⟨hxlo, hxhi⟩ := h.key_range hk
    obtain ⟨nq, -, hq, -, -⟩ := hk
    obtain ⟨hlo', hhi', -⟩ := h.under_range hu' ⟨nq, hq⟩
    have hfits' := (h.sorted p n hp).fits (h.slot_le hp hc)
      (lt_of_le_of_lt (hlo ▸ hlo') hxlo) (lt_of_lt_of_le hxhi (hhi ▸ hhi'))
    obtain rfl : i = j := hfits.position_eq.symm.trans hfits'.position_eq
    exact ⟨c, hc, hu'⟩

/-! ### The walks -/

/-- Where the walk of `get_value_ptr` ends: at the key, or at the empty slot it fits into when the
tree does not hold it. -/
theorem search_spec (h : Inv degree g none t) {fuel : ℕ} (hfuel : t.next ≤ fuel + g.depth p)
    (hp : ∃ n, t.heap p = some n) (hlo : g.lo p < (x : K)) (hhi : (x : K) < g.hi p)
    (hall : ∀ q, HasKey t q x → Under t p q) :
    ∃ q nq, t.heap q = some nq ∧
      ((∃ i, t.search x fuel p = some (q, some i) ∧ i < nq.nkeys ∧ nq.keys i = x) ∨
        t.search x fuel p = some (q, none) ∧ (∀ q', ¬HasKey t q' x) ∧
          g.lo q < (x : K) ∧ (x : K) < g.hi q ∧
          nq.Fits x (nq.position x) ∧ nq.childs (nq.position x) = none) := by
  induction fuel generalizing p with
  | zero =>
    obtain ⟨n, hn⟩ := hp
    have := h.depth p n hn
    omega
  | succ fuel ih =>
    obtain ⟨n, hn⟩ := hp
    have hsorted := h.sorted p n hn
    -- an empty slot on the way ends the walk, and nothing can be below it
    have hmiss : n.Fits x (n.position x) → n.childs (n.position x) = none →
        t.search x (fuel + 1) p = some (p, none) → ∃ q nq, t.heap q = some nq ∧
      ((∃ i, t.search x (fuel + 1) p = some (q, some i) ∧ i < nq.nkeys ∧ nq.keys i = x) ∨
        t.search x (fuel + 1) p = some (q, none) ∧ (∀ q', ¬HasKey t q' x) ∧
          g.lo q < (x : K) ∧ (x : K) < g.hi q ∧
          nq.Fits x (nq.position x) ∧ nq.childs (nq.position x) = none) := by
      intro hfits hnone hsearch
      refine ⟨p, n, hn, .inr ⟨hsearch, ?_, hlo, hhi, hfits, hnone⟩⟩
      intro q' hk
      obtain ⟨c, hc, -⟩ := h.descend hn hfits hk (hall q' hk)
      rw [hnone] at hc
      exact nomatch hc
    rcases hsorted.position_cases x with hfound | ⟨hnot, hfits⟩
    · refine ⟨p, n, hn, .inl ⟨n.position x, ?_, hfound.1, hfound.2⟩⟩
      have hpos : n.nkeys ≠ 0 := by omega
      simp [search, hn, hpos, hfound]
    · by_cases hzero : n.nkeys = 0
      · have hpos : n.position x = 0 := by
          have := Node.position_le n x
          omega
        apply hmiss hfits
        · rw [hpos]
          exact (h.empty p n hn hzero).resolve_right nofun
        · simp [search, hn, hzero]
      · cases hc : n.childs (n.position x) with
        | none =>
          apply hmiss hfits hc
          simp only [search, hn, hzero, if_false, if_neg hnot, hc]
        | some c =>
          obtain ⟨⟨nc, hnc, -⟩, hclo, hchi, hd⟩ := h.child p n _ c hn hc
          have hstep : t.search x (fuel + 1) p = t.search x fuel c := by
            simp only [search, hn, hzero, if_false, if_neg hnot, hc]
          rw [hstep]
          apply ih (by omega) ⟨nc, hnc⟩
          · rw [hclo]
            exact hfits.below_lt hlo
          · rw [hchi]
            exact hfits.lt_above hhi
          · intro q hk
            obtain ⟨c', hc', hu⟩ := h.descend hn hfits hk (hall q hk)
            obtain rfl := Option.some.inj (hc.symm.trans hc')
            exact hu

/-- A key is held by one node only. -/
theorem hasKey_unique (h : Inv degree g odd t) {p q : ℕ} (hp : HasKey t p x) (hq : HasKey t q x) :
    p = q := by
  -- both are below the root, and walking down towards `x` never separates them
  have key : ∀ a, (∃ n, t.heap a = some n) → Under t a p → Under t a q → p = q := by
    intro a ha hup huq
    induction hd : t.next - g.depth a using Nat.strong_induction_on generalizing a with
    | _ d ih =>
      obtain ⟨n, hn⟩ := ha
      rcases (h.sorted a n hn).position_cases x with hfound | ⟨-, hfits⟩
      · have hself : ∀ q, HasKey t q x → Under t a q → q = a := by
          intro q hk hu
          rcases h.under_cases hu with heq | ⟨n', j, c, hn', hc, hu'⟩
          · exact heq
          · obtain rfl := Option.some.inj (hn.symm.trans hn')
            obtain ⟨-, hlo, hhi, -⟩ := h.child a n j c hn hc
            obtain ⟨hxlo, hxhi⟩ := h.key_range hk
            obtain ⟨nq, -, hq, -, -⟩ := hk
            obtain ⟨hlo', hhi', -⟩ := h.under_range hu' ⟨nq, hq⟩
            have hfits := (h.sorted a n hn).fits (h.slot_le hn hc)
              (lt_of_le_of_lt (hlo ▸ hlo') hxlo) (lt_of_lt_of_le hxhi (hhi ▸ hhi'))
            exact absurd hfound.2 (hfits.ne hfound.1)
        rw [hself p hp hup, hself q hq huq]
      · obtain ⟨c, hc, hup'⟩ := h.descend hn hfits hp hup
        obtain ⟨c', hc', huq'⟩ := h.descend hn hfits hq huq
        obtain rfl := Option.some.inj (hc.symm.trans hc')
        obtain ⟨⟨nc, hnc, -⟩, -, -, hdep⟩ := h.child a n _ c hn hc
        have := h.depth c nc hnc
        exact ih _ (by omega) c ⟨nc, hnc⟩ hup' huq' rfl
  obtain ⟨nr, hr, -⟩ := h.root
  obtain ⟨np, -, hnp, -, -⟩ := id hp
  obtain ⟨nq, -, hnq, -, -⟩ := id hq
  exact key t.root ⟨nr, hr⟩ (h.under_root ⟨np, hnp⟩) (h.under_root ⟨nq, hnq⟩)

/-- A key bigger than the last one fits into the last slot. -/
theorem fits_last {n : Node K V} (h : Inv degree g odd t) (hp : t.heap p = some n)
    (hx : n.keys (n.nkeys - 1) < x) : n.Fits x n.nkeys := by
  refine ⟨le_rfl, ?_, fun j hj hj' => absurd hj' (by omega)⟩
  intro j hj
  rcases Nat.lt_or_eq_of_le (Nat.le_sub_one_of_lt hj) with hlt | rfl
  · exact ((h.sorted p n hp).ascending _ _ hlt (by omega)).trans hx
  · exact hx

/-- A key smaller than the first one fits into the first slot. -/
theorem fits_first {n : Node K V} (h : Inv degree g odd t) (hp : t.heap p = some n)
    (hx : x < n.keys 0) : n.Fits x 0 := by
  refine ⟨Nat.zero_le _, fun j hj => absurd hj (by omega), ?_⟩
  intro j _ hj
  rcases Nat.eq_zero_or_pos j with rfl | hpos
  · exact hx
  · exact hx.trans ((h.sorted p n hp).ascending _ _ hpos hj)

/-- A child is not empty. -/
theorem child_pos {n nc : Node K V} {i c : ℕ} (h : Inv degree g none t) (hp : t.heap p = some n)
    (hc : n.childs i = some c) (hnc : t.heap c = some nc) : 0 < nc.nkeys := by
  obtain ⟨⟨nc', hnc', hpar⟩, -⟩ := h.child p n i c hp hc
  obtain rfl := Option.some.inj (hnc.symm.trans hnc')
  refine (h.nonempty c nc hnc ?_).resolve_right nofun
  rintro rfl
  obtain ⟨nr, hr, hnopar⟩ := h.root
  obtain rfl := Option.some.inj (hnc.symm.trans hr)
  rw [hnopar] at hpar
  exact nomatch hpar

/-- The walk to the biggest key below a node. -/
theorem findMaxFrom_spec (h : Inv degree g none t) {fuel : ℕ} (hfuel : t.next ≤ fuel + g.depth p)
    {n : Node K V} (hp : t.heap p = some n) :
    ∃ m nm, t.findMaxFrom fuel p = some m ∧ t.heap m = some nm ∧ nm.childs nm.nkeys = none ∧
      Under t p m ∧ (0 < n.nkeys → 0 < nm.nkeys) ∧
      (∀ q x, Under t p q → HasKey t q x → x ≤ nm.keys (nm.nkeys - 1)) ∧
      (m = p ∨ ∃ q nq, nm.parent = some q ∧ t.heap q = some nq ∧ nq.childs nq.nkeys = some m) := by
  induction fuel generalizing p n with
  | zero =>
    have := h.depth p n hp
    omega
  | succ fuel ih =>
    cases hc : n.childs n.nkeys with
    | none =>
      refine ⟨p, n, ?_, hp, hc, .refl, id, ?_, .inl rfl⟩
      · by_cases hzero : n.nkeys = 0 <;> simp [findMaxFrom, hp, hc, hzero]
      · intro q x hu hk
        by_contra hlt
        obtain ⟨c, hc', -⟩ := h.descend hp (h.fits_last hp (not_le.1 hlt)) hk hu
        rw [hc] at hc'
        exact nomatch hc'
    | some c =>
      obtain ⟨⟨nc, hnc, hpar⟩, hlo, -, hd⟩ := h.child p n _ c hp hc
      have hzero : n.nkeys ≠ 0 := by
        intro hzero
        have := (h.empty p n hp hzero).resolve_right nofun
        rw [hzero, this] at hc
        exact nomatch hc
      obtain ⟨m, nm, hfind, hm, hnone, hu, hpos, hmax, hlast⟩ := ih (by omega) hnc
      have hmpos := hpos (h.child_pos hp hc hnc)
      refine ⟨m, nm, ?_, hm, hnone, (Under.step hnc hpar .refl).trans hu, fun _ => hmpos, ?_, ?_⟩
      · simp [findMaxFrom, hp, hc, hzero, hfind]
      · intro q x hq hk
        rcases le_or_gt x (n.keys (n.nkeys - 1)) with hle | hgt
        · -- the keys of the node are smaller than those below its last child
          have hlow := (h.sorted m nm hm).lower (nm.nkeys - 1) (by omega)
          have hrange := (h.under_range hu ⟨nm, hm⟩).1
          rw [hlo, Node.below, if_neg hzero] at hrange
          exact hle.trans (WithBot.coe_lt_coe.1 (lt_of_le_of_lt hrange hlow)).le
        · obtain ⟨c', hc', hq'⟩ := h.descend hp (h.fits_last hp hgt) hk hq
          obtain rfl := Option.some.inj (hc.symm.trans hc')
          exact hmax q x hq' hk
      · rcases hlast with rfl | hlast
        · obtain rfl := Option.some.inj (hnc.symm.trans hm)
          exact .inr ⟨p, n, hpar, hp, hc⟩
        · exact .inr hlast

/-- The walk to the smallest key below a node. -/
theorem findMinFrom_spec (h : Inv degree g none t) {fuel : ℕ} (hfuel : t.next ≤ fuel + g.depth p)
    {n : Node K V} (hp : t.heap p = some n) :
    ∃ m nm, t.findMinFrom fuel p = some m ∧ t.heap m = some nm ∧ nm.childs 0 = none ∧
      Under t p m ∧ (0 < n.nkeys → 0 < nm.nkeys) ∧
      (∀ q x, Under t p q → HasKey t q x → nm.keys 0 ≤ x) ∧
      (m = p ∨ ∃ q nq, nm.parent = some q ∧ t.heap q = some nq ∧ nq.childs 0 = some m) := by
  induction fuel generalizing p n with
  | zero =>
    have := h.depth p n hp
    omega
  | succ fuel ih =>
    cases hc : n.childs 0 with
    | none =>
      refine ⟨p, n, ?_, hp, hc, .refl, id, ?_, .inl rfl⟩
      · by_cases hzero : n.nkeys = 0 <;> simp [findMinFrom, hp, hc, hzero]
      · intro q x hu hk
        by_contra hlt
        obtain ⟨c, hc', -⟩ := h.descend hp (h.fits_first hp (not_le.1 hlt)) hk hu
        rw [hc] at hc'
        exact nomatch hc'
    | some c =>
      obtain ⟨⟨nc, hnc, hpar⟩, -, hhi, hd⟩ := h.child p n _ c hp hc
      have hzero : n.nkeys ≠ 0 := by
        intro hzero
        have := (h.empty p n hp hzero).resolve_right nofun
        rw [this] at hc
        exact nomatch hc
      obtain ⟨m, nm, hfind, hm, hnone, hu, hpos, hmin, hfirst⟩ := ih (by omega) hnc
      have hmpos := hpos (h.child_pos hp hc hnc)
      refine ⟨m, nm, ?_, hm, hnone, (Under.step hnc hpar .refl).trans hu, fun _ => hmpos, ?_, ?_⟩
      · simp [findMinFrom, hp, hc, hzero, hfind]
      · intro q x hq hk
        rcases le_or_gt (n.keys 0) x with hle | hgt
        · have hup := (h.sorted m nm hm).upper 0 hmpos
          have hrange := (h.under_range hu ⟨nm, hm⟩).2.1
          rw [hhi, Node.above, if_pos (Nat.pos_of_ne_zero hzero)] at hrange
          exact (WithTop.coe_lt_coe.1 (lt_of_lt_of_le hup hrange)).le.trans hle
        · obtain ⟨c', hc', hq'⟩ := h.descend hp (h.fits_first hp hgt) hk hq
          obtain rfl := Option.some.inj (hc.symm.trans hc')
          exact hmin q x hq' hk
      · rcases hfirst with rfl | hfirst
        · obtain rfl := Option.some.inj (hnc.symm.trans hm)
          exact .inr ⟨p, n, hpar, hp, hc⟩
        · exact .inr hfirst

/-! ### The order of the keys -/

/-- A key has one value. -/
theorem holds_unique {k : K} {v w : V} (h : Inv degree g odd t) (hv : Holds t k v)
    (hw : Holds t k w) : v = w := by
  obtain ⟨p, n, hp, i, hi, hk, rfl⟩ := hv
  obtain ⟨q, nq, hq, j, hj, hk', rfl⟩ := hw
  obtain rfl := h.hasKey_unique ⟨n, i, hp, hi, hk⟩ ⟨nq, j, hq, hj, hk'⟩
  obtain rfl := Option.some.inj (hp.symm.trans hq)
  rw [(h.sorted p n hp).keys_inj hi hj (hk.trans hk'.symm)]

/-- All the keys in the range of a node are below it. -/
theorem under_of_range {n : Node K V} (h : Inv degree g odd t) (hp : t.heap p = some n) (hk : HasKey t q x)
    (hlo : g.lo p < (x : K)) (hhi : (x : K) < g.hi p) : Under t p q := by
  induction hd : g.depth p using Nat.strong_induction_on generalizing p n with
  | _ d ih =>
    by_cases hroot : p = t.root
    · obtain ⟨nq, -, hnq, -, -⟩ := hk
      rw [hroot]
      exact h.under_root ⟨nq, hnq⟩
    · obtain ⟨a, na, j, -, hna, hc⟩ := h.linked p n hp hroot
      obtain ⟨-, hplo, hphi, hdep⟩ := h.child a na j p hna hc
      have hs := h.sorted a na hna
      have hj := h.slot_le hna hc
      rw [hplo] at hlo
      rw [hphi] at hhi
      have hu := ih (g.depth a) (by omega) hna (lt_of_le_of_lt (hs.le_below hj) hlo)
        (lt_of_lt_of_le hhi (hs.above_le j)) rfl
      obtain ⟨c, hc', hu'⟩ := h.descend hna (hs.fits hj hlo hhi) hk hu
      obtain rfl := Option.some.inj (hc.symm.trans hc')
      exact hu'

/-- A node is in one slot of its parent. -/
theorem slot_unique {n : Node K V} {i j c : ℕ} (h : Inv degree g odd t) (hp : t.heap p = some n)
    (hi : n.childs i = some c) (hj : n.childs j = some c) : i = j := by
  -- the bounds above two slots are different
  have hlt : ∀ i j, n.childs i = some c → n.childs j = some c → ¬i < j := by
    intro i j hi hj hij
    have hjle := h.slot_le hp hj
    obtain ⟨-, -, hhi, -⟩ := h.child p n i c hp hi
    obtain ⟨-, -, hhj, -⟩ := h.child p n j c hp hj
    rw [hhi, Node.above, if_pos (by omega)] at hhj
    unfold Node.above at hhj
    split at hhj
    · rename_i hjn
      exact ((h.sorted p n hp).ascending i j hij hjn).ne (WithTop.coe_injective hhj)
    · exact ((h.sorted p n hp).upper i (by omega)).ne hhj
  rcases Nat.lt_trichotomy i j with hij | heq | hij
  · exact absurd hij (hlt i j hi hj)
  · exact heq
  · exact absurd hij (hlt j i hj hi)

/-- A grandchild of a node is not the node. -/
theorem grandchild_ne {n nq : Node K V} {i j : ℕ} (h : Inv degree g odd t) (hp : t.heap p = some n)
    (hq : t.heap q = some nq) (hslot : nq.childs j = some p) : n.childs i ≠ some q := by
  intro hc
  have h1 := (h.child p n i q hp hc).2.2.2
  have h2 := (h.child q nq j p hq hslot).2.2.2
  omega

/-- A node is no child of itself. -/
theorem child_ne_self {n : Node K V} {i c : ℕ} (h : Inv degree g odd t) (hp : t.heap p = some n)
    (hc : n.childs i = some c) : c ≠ p := by
  rintro rfl
  exact absurd (h.child c n i c hp hc).2.2.2 (lt_irrefl _)

/-- What is in the tree was allocated. -/
theorem lt_next {n : Node K V} (h : Inv degree g odd t) (hp : t.heap p = some n) : p < t.next := by
  by_contra hge
  rw [h.fresh p (by omega)] at hp
  exact nomatch hp

theorem child_lt_next {n : Node K V} {i c : ℕ} (h : Inv degree g odd t) (hp : t.heap p = some n)
    (hc : n.childs i = some c) : c < t.next := by
  obtain ⟨⟨nc, hnc, -⟩, -⟩ := h.child p n i c hp hc
  exact h.lt_next hnc

end Inv

end Talyn.BTree
