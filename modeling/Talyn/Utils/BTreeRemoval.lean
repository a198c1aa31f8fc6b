import Talyn.Utils.BTreeUpdate

/-!
# Removal from the B-tree

A key is taken out of a node where one of the two child slots around it is empty. When such a slot is
missing, the biggest key on its left or the smallest on its right is taken out instead and exchanged
for it. A node that loses its last key is bypassed. Each of the three steps keeps the invariant, with
ranges in which the bound that went away is replaced.
-/

namespace Talyn.BTree

variable {K V : Type} [LinearOrder K]

/-- The bound `x` is replaced wherever it occurs. -/
def Ranges.replaceBound (g : Ranges K) (x : K) (lo : WithBot K) (hi : WithTop K) : Ranges K where
  lo := fun p => if g.lo p = (x : K) then lo else g.lo p
  hi := fun p => if g.hi p = (x : K) then hi else g.hi p
  depth := g.depth

section

variable {g : Ranges K} {x : K} {lo : WithBot K} {hi : WithTop K} {p : ℕ}

theorem Ranges.replaceBound_lo (h : g.lo p ≠ (x : K)) : (g.replaceBound x lo hi).lo p = g.lo p :=
  if_neg h

theorem Ranges.replaceBound_hi (h : g.hi p ≠ (x : K)) : (g.replaceBound x lo hi).hi p = g.hi p :=
  if_neg h

theorem Ranges.replaceBound_root (h : g.lo p = ⊥ ∧ g.hi p = ⊤) :
    (g.replaceBound x lo hi).lo p = ⊥ ∧ (g.replaceBound x lo hi).hi p = ⊤ := by
  constructor
  · rw [replaceBound_lo (by rw [h.1]; exact WithBot.bot_ne_coe), h.1]
  · rw [replaceBound_hi (by rw [h.2]; exact WithTop.top_ne_coe), h.2]

end

namespace Inv

variable {degree : ℕ} {g : Ranges K} {odd : Option ℕ} {t : BTree K V} {p q : ℕ}
  {n n' : Node K V} {x : K} {lo : WithBot K} {hi : WithTop K} {i : ℕ}

/-! ### The other nodes under new bounds -/

/-- In a node without the key `x` the bounds of the slots change as the range does. -/
theorem replaceBound_child {c : ℕ} (h : Inv degree g odd t) (hq : t.heap q = some n)
    (hc : n.childs i = some c) (hno : ∀ j < n.nkeys, n.keys j ≠ x) :
    (g.replaceBound x lo hi).lo c = n.below ((g.replaceBound x lo hi).lo q) i ∧
      (g.replaceBound x lo hi).hi c = n.above ((g.replaceBound x lo hi).hi q) i := by
  obtain ⟨-, hlo, hhi, -⟩ := h.child q n i c hq hc
  have hle := h.slot_le hq hc
  constructor
  · unfold Node.below at hlo ⊢
    split
    · rename_i hzero
      rw [if_pos hzero] at hlo
      simp only [Ranges.replaceBound, hlo]
    · rename_i hzero
      rw [if_neg hzero] at hlo
      rw [Ranges.replaceBound_lo, hlo]
      rw [hlo, Ne, WithBot.coe_inj]
      exact hno _ (by omega)
  · unfold Node.above at hhi ⊢
    split
    · rename_i hlt
      rw [if_pos hlt] at hhi
      rw [Ranges.replaceBound_hi, hhi]
      rw [hhi, Ne, WithTop.coe_inj]
      exact hno _ hlt
    · rename_i hlt
      rw [if_neg hlt] at hhi
      simp only [Ranges.replaceBound, hhi]

theorem ne_of_hasKey (h : Inv degree g odd t) (hx : HasKey t p x) (hq : t.heap q = some n)
    (hne : q ≠ p) : ∀ j < n.nkeys, n.keys j ≠ x := by
  intro j hj heq
  exact hne (h.hasKey_unique ⟨n, j, hq, hj, heq⟩ hx)

/-! ### An entry is taken out of a node -/

/-- Without the entry at `i` and the empty child slot `d` next to it. -/
theorem removeAt {d : ℕ} (h : Inv degree g none t) (hp : t.heap p = some n) (hi : i < n.nkeys)
    (hd : d = i ∨ d = i + 1) (hnone : n.childs d = none) (hrem : n.Removed n' i d) :
    Inv degree (g.replaceBound (n.keys i) (n.below (g.lo p) i) (n.above (g.hi p) (i + 1))) (some p)
      (t.set p n') := by
  have hn := hrem.nkeys
  have hs := h.sorted p n hp
  have hlt := (h.size p n hp).resolve_right nofun
  have hx : HasKey t p (n.keys i) := ⟨n, i, hp, hi, rfl⟩
  have hxlo := hs.lower i hi
  have hxhi := hs.upper i hi
  have hplo : (g.replaceBound (n.keys i) (n.below (g.lo p) i) (n.above (g.hi p) (i + 1))).lo p =
      g.lo p := Ranges.replaceBound_lo hxlo.ne
  have hphi : (g.replaceBound (n.keys i) (n.below (g.lo p) i) (n.above (g.hi p) (i + 1))).hi p =
      g.hi p := Ranges.replaceBound_hi hxhi.ne'
  have hbelow : n.below (g.lo p) i < (n.keys i : K) := by
    unfold Node.below
    split
    · exact hxlo
    · exact WithBot.coe_lt_coe.2 (hs.ascending _ _ (by omega) hi)
  have habove : (n.keys i : K) < n.above (g.hi p) (i + 1) := by
    unfold Node.above
    split
    · exact WithTop.coe_lt_coe.2 (hs.ascending _ _ (by omega) ‹_›)
    · exact hxhi
  -- the other keys of the node
  have hkey : ∀ j < n.nkeys, j ≠ i → n.keys j ≠ n.keys i := by
    intro j hj hji
    rcases Nat.lt_or_gt_of_ne hji with hlt | hgt
    · exact (hs.ascending j i hlt hi).ne
    · exact (hs.ascending i j hgt hj).ne'
  refine h.setNode hp hrem.parent (.inl (by omega)) nofun (fun _ => .inr rfl) (fun _ => .inr rfl)
    ?_ ?_ ?_ (Ranges.replaceBound_root h.rootRange) rfl ?_ ?_
  · intro j hj
    rw [hrem.childs_ge j (by omega)]
    exact h.slots p n (j + 1) hp (by omega)
  · intro j c hc
    rcases Nat.lt_or_ge j d with hlt | hge
    · exact ⟨j, hrem.childs_lt j hlt ▸ hc⟩
    · exact ⟨j + 1, hrem.childs_ge j hge ▸ hc⟩
  · intro j c hc
    rcases Nat.lt_trichotomy j d with hlt | rfl | hgt
    · exact ⟨j, (hrem.childs_lt j hlt).trans hc⟩
    · rw [hnone] at hc
      exact nomatch hc
    · obtain ⟨m, rfl⟩ : ∃ m, j = m + 1 := ⟨j - 1, by omega⟩
      exact ⟨m, (hrem.childs_ge m (by omega)).trans hc⟩
  · intro q nq hq
    rw [heap_set] at hq
    split at hq
    · rename_i hqp
      subst hqp
      obtain rfl := Option.some.inj hq
      rw [hplo, hphi]
      exact hrem.sorted hs
    · -- the range of the other nodes can only get bigger
      have hsq := h.sorted q nq hq
      refine ⟨hsq.ascending, ?_, ?_⟩
      · intro j hj
        refine lt_of_le_of_lt ?_ (hsq.lower j hj)
        simp only [Ranges.replaceBound]
        split
        · rename_i heq
          rw [heq]
          exact hbelow.le
        · exact le_rfl
      · intro j hj
        refine lt_of_lt_of_le (hsq.upper j hj) ?_
        simp only [Ranges.replaceBound]
        split
        · rename_i heq
          rw [heq]
          exact habove.le
        · exact le_rfl
  · intro q nq j c hq hc
    rw [heap_set] at hq
    split at hq
    · rename_i hqp
      subst hqp
      obtain rfl := Option.some.inj hq
      rw [hplo, hphi]
      -- the slot the child was in
      obtain ⟨k, hck, hbk, hak⟩ : ∃ k, n.childs k = some c ∧
          (if k = i + 1 then n.below (g.lo q) i else n.below (g.lo q) k) = n'.below (g.lo q) j ∧
          (if k = i then n.above (g.hi q) (i + 1) else n.above (g.hi q) k) =
            n'.above (g.hi q) j := by
        rcases Nat.lt_or_ge j d with hjd | hjd
        · rw [hrem.childs_lt j hjd] at hc
          refine ⟨j, hc, ?_, ?_⟩
          · rw [if_neg (by omega), hrem.below_le (by omega)]
          · by_cases hji : j = i
            · rw [if_pos hji, hji, hrem.above_ge le_rfl]
            · rw [if_neg hji, hrem.above_lt (by omega) (by omega)]
        · rw [hrem.childs_ge j hjd] at hc
          have hjn := h.slot_le hp hc
          refine ⟨j + 1, hc, ?_, ?_⟩
          · by_cases hji : j = i
            · rw [if_pos (by omega), hji, hrem.below_le le_rfl]
            · rw [if_neg (by omega), hrem.below_gt (by omega) (by omega)]
          · rw [if_neg (by omega), hrem.above_ge (by omega)]
      obtain ⟨-, hclo, hchi, -⟩ := h.child q n k c hp hck
      have hkn := h.slot_le hp hck
      rw [← hbk, ← hak]
      constructor
      · simp only [Ranges.replaceBound, hclo]
        by_cases hki : k = i + 1
        · rw [if_pos hki, if_pos]
          rw [Node.below, if_neg (by omega), hki, Nat.add_sub_cancel]
        · rw [if_neg hki, if_neg]
          unfold Node.below
          split
          · exact hxlo.ne
          · rw [WithBot.coe_inj]
            exact hkey _ (by omega) (by omega)
      · simp only [Ranges.replaceBound, hchi]
        by_cases hki : k = i
        · rw [if_pos hki, if_pos]
          rw [Node.above, if_pos (by omega), hki]
        · rw [if_neg hki, if_neg]
          unfold Node.above
          split
          · rw [WithTop.coe_inj]
            exact hkey _ ‹_› hki
          · exact hxhi.ne'
    · exact h.replaceBound_child hq hc (h.ne_of_hasKey hx hq ‹_›)

/-- Nothing else goes away. -/
theorem holds_removeAt {d : ℕ} (h : Inv degree g odd t) (hp : t.heap p = some n) (hi : i < n.nkeys)
    (hrem : n.Removed n' i d) (k : K) (v : V) :
    Holds (t.set p n') k v ↔ Holds t k v ∧ k ≠ n.keys i := by
  have hs := h.sorted p n hp
  constructor
  · rintro ⟨q, nq, hq, hhas⟩
    rw [heap_set] at hq
    split at hq
    · obtain rfl := Option.some.inj hq
      obtain ⟨hhas', hne⟩ := (hrem.has_iff hs hi k v).1 hhas
      exact ⟨⟨p, n, hp, hhas'⟩, hne⟩
    · rename_i hqp
      refine ⟨⟨q, nq, hq, hhas⟩, ?_⟩
      obtain ⟨j, hj, rfl, -⟩ := hhas
      exact h.ne_of_hasKey ⟨n, i, hp, hi, rfl⟩ hq hqp j hj
  · rintro ⟨⟨q, nq, hq, hhas⟩, hne⟩
    by_cases hqp : q = p
    · subst hqp
      obtain rfl := Option.some.inj (hp.symm.trans hq)
      exact ⟨q, n', by simp, (hrem.has_iff hs hi k v).2 ⟨hhas, hne⟩⟩
    · exact ⟨q, nq, by simp [hqp, hq], hhas⟩

/-! ### A key is exchanged for its neighbour -/

/-- The key at `i` becomes `y`, and no key of the tree lies between them. -/
theorem setKey {y : K} (h : Inv degree g none t) (hp : t.heap p = some n) (hi : i < n.nkeys)
    (hlo : g.lo p < (y : K)) (hhi : (y : K) < g.hi p)
    (hlt : ∀ q z, HasKey t q z → z < n.keys i → z < y)
    (hgt : ∀ q z, HasKey t q z → n.keys i < z → y < z) (v : V) :
    Inv degree (g.replaceBound (n.keys i) (y : K) (y : K)) none
      (t.set p { n with
        keys := Function.update n.keys i y, values := Function.update n.values i v }) := by
  have hs := h.sorted p n hp
  have hx : HasKey t p (n.keys i) := ⟨n, i, hp, hi, rfl⟩
  have hplo : (g.replaceBound (n.keys i) (y : K) (y : K)).lo p = g.lo p :=
    Ranges.replaceBound_lo (hs.lower i hi).ne
  have hphi : (g.replaceBound (n.keys i) (y : K) (y : K)).hi p = g.hi p :=
    Ranges.replaceBound_hi (hs.upper i hi).ne'
  have hkey : ∀ j < n.nkeys, HasKey t p (n.keys j) := fun j hj => ⟨n, j, hp, hj, rfl⟩
  have hne : ∀ j < n.nkeys, j ≠ i → n.keys j ≠ n.keys i := by
    intro j hj hji
    rcases Nat.lt_or_gt_of_ne hji with hlt | hgt
    · exact (hs.ascending j i hlt hi).ne
    · exact (hs.ascending i j hgt hj).ne'
  refine h.setNode hp rfl (.inl ((h.size p n hp).resolve_right nofun)) nofun ?_ ?_ ?_
    (fun j c hc => ⟨j, hc⟩) (fun j c hc => ⟨j, hc⟩) (Ranges.replaceBound_root h.rootRange) rfl ?_ ?_
  · exact fun hr => (h.nonempty p n hp hr)
  · exact fun hzero => absurd hi (by rw [show n.nkeys = 0 from hzero]; omega)
  · exact fun j hj => h.slots p n j hp hj
  · intro q nq hq
    rw [heap_set] at hq
    split at hq
    · rename_i hqp
      subst hqp
      obtain rfl := Option.some.inj hq
      rw [hplo, hphi]
      refine ⟨?_, ?_, ?_⟩
      · intro j k hjk hk
        replace hk : k < n.nkeys := hk
        have hj : j < n.nkeys := by omega
        simp only [Function.update_apply]
        split
        · rename_i hji
          rw [if_neg (by omega)]
          exact hgt q _ (hkey k hk) (hji ▸ hs.ascending j k hjk hk)
        · split
          · rename_i hki
            exact hlt q _ (hkey j hj) (hki ▸ hs.ascending j k hjk hk)
          · exact hs.ascending j k hjk hk
      · intro j hj
        simp only [Function.update_apply]
        split
        · exact hlo
        · exact hs.lower j hj
      · intro j hj
        simp only [Function.update_apply]
        split
        · exact hhi
        · exact hs.upper j hj
    · -- a node whose range ends at the key has all its keys on one side of it
      have hsq := h.sorted q nq hq
      refine ⟨hsq.ascending, ?_, ?_⟩
      · intro j hj
        simp only [Ranges.replaceBound]
        split
        · rename_i heq
          have := hsq.lower j hj
          rw [heq, WithBot.coe_lt_coe] at this
          exact WithBot.coe_lt_coe.2 (hgt q _ ⟨nq, j, hq, hj, rfl⟩ this)
        · exact hsq.lower j hj
      · intro j hj
        simp only [Ranges.replaceBound]
        split
        · rename_i heq
          have := hsq.upper j hj
          rw [heq, WithTop.coe_lt_coe] at this
          exact WithTop.coe_lt_coe.2 (hlt q _ ⟨nq, j, hq, hj, rfl⟩ this)
        · exact hsq.upper j hj
  · intro q nq j c hq hc
    rw [heap_set] at hq
    split at hq
    · rename_i hqp
      subst hqp
      obtain rfl := Option.some.inj hq
      replace hc : n.childs j = some c := hc
      obtain ⟨-, hclo, hchi, -⟩ := h.child q n j c hp hc
      have hjn := h.slot_le hp hc
      rw [hplo, hphi]
      constructor
      · simp only [Ranges.replaceBound, hclo, Node.below, Function.update_apply]
        by_cases hzero : j = 0
        · rw [if_pos hzero, if_pos hzero, if_neg (hs.lower i hi).ne]
        · rw [if_neg hzero, if_neg hzero]
          by_cases hji : j - 1 = i
          · rw [if_pos hji, hji, if_pos rfl]
          · rw [if_neg hji, if_neg]
            rw [WithBot.coe_inj]
            exact hne _ (by omega) hji
      · simp only [Ranges.replaceBound, hchi, Node.above, Function.update_apply]
        by_cases hlt' : j < n.nkeys
        · rw [if_pos hlt', if_pos hlt']
          by_cases hji : j = i
          · rw [if_pos hji, hji, if_pos rfl]
          · rw [if_neg hji, if_neg]
            rw [WithTop.coe_inj]
            exact hne _ hlt' hji
        · rw [if_neg hlt', if_neg hlt', if_neg (hs.upper i hi).ne']
    · exact h.replaceBound_child hq hc (h.ne_of_hasKey hx hq ‹_›)

theorem holds_setKey {y : K} {v : V} (h : Inv degree g odd t) (hp : t.heap p = some n)
    (hi : i < n.nkeys) (k : K) (w : V) :
    Holds (t.set p { n with
        keys := Function.update n.keys i y, values := Function.update n.values i v }) k w ↔
      (Holds t k w ∧ k ≠ n.keys i) ∨ k = y ∧ w = v := by
  have hs := h.sorted p n hp
  constructor
  · rintro ⟨q, nq, hq, hhas⟩
    rw [heap_set] at hq
    split at hq
    · obtain rfl := Option.some.inj hq
      obtain ⟨j, hj, hk, hw⟩ := hhas
      simp only [Function.update_apply] at hk hw
      split at hk
      · rename_i hji
        rw [if_pos hji] at hw
        exact .inr ⟨hk.symm, hw.symm⟩
      · rename_i hji
        rw [if_neg hji] at hw
        refine .inl ⟨⟨p, n, hp, j, hj, hk, hw⟩, ?_⟩
        rw [← hk]
        rcases Nat.lt_or_gt_of_ne hji with hlt | hgt
        · exact (hs.ascending j i hlt hi).ne
        · exact (hs.ascending i j hgt hj).ne'
    · rename_i hqp
      refine .inl ⟨⟨q, nq, hq, hhas⟩, ?_⟩
      obtain ⟨j, hj, rfl, -⟩ := hhas
      exact h.ne_of_hasKey ⟨n, i, hp, hi, rfl⟩ hq hqp j hj
  · rintro (⟨⟨q, nq, hq, j, hj, hk, hw⟩, hne⟩ | ⟨rfl, rfl⟩)
    · by_cases hqp : q = p
      · subst hqp
        obtain rfl := Option.some.inj (hp.symm.trans hq)
        have hji : j ≠ i := by
          rintro rfl
          exact hne hk.symm
        exact ⟨q, _, heap_set_self t q _, j, hj, by simp [hji, hk], by simp [hji, hw]⟩
      · exact ⟨q, nq, by simp [hqp, hq], j, hj, hk, hw⟩
    · exact ⟨p, _, heap_set_self t p _, i, hi, by simp, by simp⟩

end Inv

/-! ### A node without keys is bypassed -/

/-- In `t'` the node `r` is freed, and `rem` hangs in its slot `j` of the node `q`. -/
structure Bypassed (t t' : BTree K V) (q : ℕ) (nq : Node K V) (j r : ℕ) (rem : Option ℕ) :
    Prop where
  root : t'.root = t.root
  next : t'.next = t.next
  heap : ∀ a, t'.heap a =
    if a = r then none
    else if a = q then some { nq with childs := Function.update nq.childs j rem }
    else if rem = some a then (t.heap a).map fun n => { n with parent := some q }
    else t.heap a

namespace Bypassed

variable {t t' : BTree K V} {q j r : ℕ} {nq : Node K V} {rem : Option ℕ}

omit [LinearOrder K] in
/-- What is at an address, compared with what was there. -/
theorem get (hb : Bypassed t t' q nq j r rem) (hq : t.heap q = some nq) (hne : rem ≠ some q)
    {a : ℕ} {na' : Node K V} (ha : t'.heap a = some na') :
    a ≠ r ∧ ∃ na, t.heap a = some na ∧
      (na'.nkeys = na.nkeys ∧ na'.keys = na.keys ∧ na'.values = na.values) ∧
      na'.childs = (if a = q then Function.update na.childs j rem else na.childs) ∧
      na'.parent = (if rem = some a then some q else na.parent) := by
  rw [hb.heap a] at ha
  split at ha
  · exact nomatch ha
  · rename_i har
    refine ⟨har, ?_⟩
    split at ha
    · rename_i haq
      subst haq
      obtain rfl := Option.some.inj ha
      exact ⟨nq, hq, ⟨rfl, rfl, rfl⟩, by rw [if_pos rfl], by rw [if_neg hne]⟩
    · rename_i haq
      split at ha
      · rename_i hc
        obtain ⟨na, hna, rfl⟩ := Option.map_eq_some_iff.1 ha
        exact ⟨na, hna, ⟨rfl, rfl, rfl⟩, by rw [if_neg haq], by rw [if_pos hc]⟩
      · rename_i hc
        exact ⟨na', ha, ⟨rfl, rfl, rfl⟩, by rw [if_neg haq], by rw [if_neg hc]⟩

omit [LinearOrder K] in
/-- The other nodes are still there. -/
theorem put (hb : Bypassed t t' q nq j r rem) {a : ℕ} {na : Node K V} (har : a ≠ r)
    (ha : t.heap a = some na) : ∃ na', t'.heap a = some na' := by
  rw [hb.heap a, if_neg har]
  split
  · exact ⟨_, rfl⟩
  · split
    · exact ⟨_, by rw [ha]; rfl⟩
    · exact ⟨na, ha⟩

omit [LinearOrder K] in
theorem holds_iff (hb : Bypassed t t' q nq j r rem) (hq : t.heap q = some nq) (hne : rem ≠ some q)
    {nr : Node K V} (hr : t.heap r = some nr) (hzero : nr.nkeys = 0) (k : K) (v : V) :
    Holds t' k v ↔ Holds t k v := by
  constructor
  · rintro ⟨a, na', ha, i, hi, hk, hv⟩
    obtain ⟨-, na, hna, ⟨hnk, hkeys, hvals⟩, -⟩ := hb.get hq hne ha
    rw [hnk] at hi
    rw [hkeys] at hk
    rw [hvals] at hv
    exact ⟨a, na, hna, i, hi, hk, hv⟩
  · rintro ⟨a, na, ha, i, hi, hk, hv⟩
    have har : a ≠ r := by
      rintro rfl
      obtain rfl := Option.some.inj (hr.symm.trans ha)
      omega
    obtain ⟨na', ha'⟩ := hb.put har ha
    obtain ⟨-, na₀, hna₀, ⟨hnk, hkeys, hvals⟩, -⟩ := hb.get hq hne ha'
    obtain rfl := Option.some.inj (ha.symm.trans hna₀)
    exact ⟨a, na', ha', i, by rw [hnk]; exact hi, by rw [hkeys]; exact hk, by rw [hvals]; exact hv⟩

end Bypassed

namespace Inv

variable {degree : ℕ} {g : Ranges K} {t t' : BTree K V} {q j r : ℕ} {nq nr : Node K V}

/-- A child points back to its parent. -/
theorem parent_of_child {odd : Option ℕ} {a i : ℕ} {na n : Node K V} (h : Inv degree g odd t)
    (hr : t.heap r = some n) (hc : n.childs i = some a) (ha : t.heap a = some na) :
    na.parent = some r := by
  obtain ⟨⟨na', ha', hpar⟩, -⟩ := h.child r n i a hr hc
  obtain rfl := Option.some.inj (ha.symm.trans ha')
  exact hpar

/-- A child is not the root. -/
theorem child_ne_root {odd : Option ℕ} {i : ℕ} {n : Node K V} (h : Inv degree g odd t)
    (hq : t.heap q = some n) (hc : n.childs i = some r) : r ≠ t.root := by
  rintro rfl
  obtain ⟨root, hroot, hnone⟩ := h.root
  exact nomatch hnone.symm.trans (h.parent_of_child hq hc hroot)

section Bypass

variable (h : Inv degree g (some r) t) (hr : t.heap r = some nr) (hzero : nr.nkeys = 0)
  (hq : t.heap q = some nq) (hslot : nq.childs j = some r)
  (hb : Bypassed t t' q nq j r (nr.childs 0))

include h hr hq hslot hb

/-- A node whose parent is not `r` keeps it. -/
theorem bypassed_parent {a : ℕ} {na na' : Node K V} (ha : t.heap a = some na)
    (ha' : t'.heap a = some na') (hpar : na.parent ≠ some r) : na'.parent = na.parent := by
  obtain ⟨-, na₀, hna₀, -, -, hpar'⟩ := hb.get hq (h.grandchild_ne hr hq hslot) ha'
  obtain rfl := Option.some.inj (ha.symm.trans hna₀)
  rw [hpar', if_neg fun hc => hpar (h.parent_of_child hr hc ha)]

theorem bypassed_root : ∃ n', t'.heap t'.root = some n' ∧ n'.parent = none := by
  obtain ⟨n, hn, hnone⟩ := h.root
  obtain ⟨n', hn'⟩ := hb.put (h.child_ne_root hq hslot).symm hn
  refine ⟨n', hb.root ▸ hn', ?_⟩
  rw [h.bypassed_parent hr hq hslot hb hn hn' (by rw [hnone]; exact nofun), hnone]

/-- A leaf is still one. -/
theorem bypassed_empty {a : ℕ} {na' : Node K V} (ha : t'.heap a = some na') (hz : na'.nkeys = 0) :
    na'.childs 0 = none := by
  obtain ⟨har, na, hna, ⟨hnk, -⟩, hch, -⟩ := hb.get hq (h.grandchild_ne hr hq hslot) ha
  rw [hnk] at hz
  have hnone := (h.empty a na hna hz).resolve_right fun heq => har (Option.some.inj heq).symm
  rw [hch]
  split
  · rename_i haq
    subst haq
    obtain rfl := Option.some.inj (hq.symm.trans hna)
    have hle := h.slot_le hq hslot
    obtain rfl : j = 0 := by omega
    exact nomatch hnone.symm.trans hslot
  · exact hnone

/-- There is still nothing behind the last slot. -/
theorem bypassed_slots {a i : ℕ} {na' : Node K V} (ha : t'.heap a = some na') (hi : na'.nkeys < i) :
    na'.childs i = none := by
  obtain ⟨-, na, hna, ⟨hnk, -⟩, hch, -⟩ := hb.get hq (h.grandchild_ne hr hq hslot) ha
  rw [hnk] at hi
  have hnone := h.slots a na i hna hi
  rw [hch]
  split
  · rename_i haq
    subst haq
    obtain rfl := Option.some.inj (hq.symm.trans hna)
    have hle := h.slot_le hq hslot
    rw [Function.update_of_ne (by omega)]
    exact hnone
  · exact hnone

/-- A child in `t'` is the one of `r` in its place, or one that the node had before. -/
theorem bypassed_child_cases {a i c : ℕ} {na na' : Node K V} (hna : t.heap a = some na)
    (ha : t'.heap a = some na') (hc : na'.childs i = some c) :
    (a = q ∧ i = j ∧ nr.childs 0 = some c) ∨ (na.childs i = some c ∧ c ≠ r) := by
  obtain ⟨-, na₀, hna₀, -, hch, -⟩ := hb.get hq (h.grandchild_ne hr hq hslot) ha
  obtain rfl := Option.some.inj (hna.symm.trans hna₀)
  rw [hch] at hc
  split at hc
  · rename_i haq
    subst haq
    obtain rfl := Option.some.inj (hq.symm.trans hna)
    by_cases hij : i = j
    · subst hij
      rw [Function.update_self] at hc
      exact .inl ⟨rfl, rfl, hc⟩
    · rw [Function.update_of_ne hij] at hc
      refine .inr ⟨hc, ?_⟩
      rintro rfl
      exact hij (h.slot_unique hq hc hslot)
  · rename_i haq
    refine .inr ⟨hc, ?_⟩
    rintro rfl
    have hpar := h.parent_of_child hna hc hr
    exact haq (Option.some.inj (hpar.symm.trans (h.parent_of_child hq hslot hr)))

include hzero

/-- The bounds of the child of `r` are those of `r`. -/
theorem bypassed_child {a i c : ℕ} {na' : Node K V} (ha : t'.heap a = some na')
    (hc : na'.childs i = some c) :
    (∃ nc, t'.heap c = some nc ∧ nc.parent = some a) ∧
      g.lo c = na'.below (g.lo a) i ∧ g.hi c = na'.above (g.hi a) i ∧ g.depth a < g.depth c := by
  obtain ⟨har, na, hna, ⟨hnk, hk, -⟩, -⟩ := hb.get hq (h.grandchild_ne hr hq hslot) ha
  have hbelow : ∀ lo : WithBot K, na'.below lo i = na.below lo i := by
    intro lo
    simp only [Node.below, hk]
  have habove : ∀ hi : WithTop K, na'.above hi i = na.above hi i := by
    intro hi
    simp only [Node.above, hk, hnk]
  rw [hbelow, habove]
  obtain ⟨rfl, rfl, hc0⟩ | ⟨hc', hcr⟩ := h.bypassed_child_cases hr hq hslot hb hna ha hc
  · obtain rfl := Option.some.inj (hq.symm.trans hna)
    obtain ⟨-, hrlo, hrhi, hrdepth⟩ := h.child a nq i r hq hslot
    obtain ⟨⟨nc, hnc, -⟩, hclo, hchi, hcdepth⟩ := h.child r nr 0 c hr hc0
    obtain ⟨nc', hnc'⟩ := hb.put (h.child_ne_self hr hc0) hnc
    obtain ⟨-, _, -, -, -, hpar⟩ := hb.get hq (h.grandchild_ne hr hq hslot) hnc'
    rw [if_pos hc0] at hpar
    refine ⟨⟨nc', hnc', hpar⟩, ?_, ?_, by omega⟩
    · rw [hclo, Node.below, if_pos rfl, hrlo]
    · rw [hchi, Node.above, if_neg (by omega), hrhi]
  · obtain ⟨⟨nc, hnc, hpar⟩, hclo, hchi, hcdepth⟩ := h.child a na i c hna hc'
    obtain ⟨nc', hnc'⟩ := hb.put hcr hnc
    refine ⟨⟨nc', hnc', ?_⟩, hclo, hchi, hcdepth⟩
    rw [h.bypassed_parent hr hq hslot hb hnc hnc' ?_, hpar]
    exact fun heq => har (Option.some.inj (hpar.symm.trans heq))

theorem bypassed_linked {a : ℕ} {na' : Node K V} (ha : t'.heap a = some na') (hroot : a ≠ t.root) :
    ∃ b nb i, na'.parent = some b ∧ t'.heap b = some nb ∧ nb.childs i = some a := by
  have hne : nr.childs 0 ≠ some q := h.grandchild_ne hr hq hslot
  obtain ⟨har, na, hna, -, -, hpar⟩ := hb.get hq hne ha
  obtain ⟨b, nb, i, hbpar, hnb, hbi⟩ := h.linked a na hna hroot
  by_cases hbr : b = r
  · -- the child of `r` hangs below `q` now
    subst hbr
    obtain rfl := Option.some.inj (hr.symm.trans hnb)
    have hi := h.slot_le hr hbi
    obtain rfl : i = 0 := by omega
    obtain ⟨nq', hq'⟩ := hb.put (h.child_ne_self hq hslot).symm hq
    obtain ⟨-, nq₀, hq₀, -, hch, -⟩ := hb.get hq hne hq'
    obtain rfl := Option.some.inj (hq.symm.trans hq₀)
    refine ⟨q, nq', j, ?_, hq', ?_⟩
    · rw [hpar, if_pos hbi]
    · rw [hch, if_pos rfl, Function.update_self, hbi]
  · obtain ⟨nb', hb'⟩ := hb.put hbr hnb
    obtain ⟨-, nb₀, hb₀, -, hch, -⟩ := hb.get hq hne hb'
    obtain rfl := Option.some.inj (hnb.symm.trans hb₀)
    refine ⟨b, nb', i, ?_, hb', ?_⟩
    · rw [h.bypassed_parent hr hq hslot hb hna ha ?_, hbpar]
      exact fun heq => hbr (Option.some.inj (hbpar.symm.trans heq))
    · rw [hch]
      split
      · rename_i hbq
        subst hbq
        obtain rfl := Option.some.inj (hq.symm.trans hnb)
        rw [Function.update_of_ne, hbi]
        rintro rfl
        exact har (Option.some.inj (hbi.symm.trans hslot))
      · exact hbi

/-- The node `r` without keys goes away, and its only child takes its place. -/
theorem bypass : Inv degree g none t' := by
  have hne : nr.childs 0 ≠ some q := h.grandchild_ne hr hq hslot
  have hodd : ∀ a, a ≠ r → some r ≠ some a := fun a ha heq => ha (Option.some.inj heq).symm
  exact {
    root := h.bypassed_root hr hq hslot hb
    rootRange := hb.root ▸ h.rootRange
    fresh := by
      intro a ha
      rw [hb.next] at ha
      have hnone := h.fresh a ha
      have haq : a ≠ q := by
        rintro rfl
        exact nomatch hnone.symm.trans hq
      rw [hb.heap a, hnone]
      simp [haq]
    size := by
      intro a na' ha
      obtain ⟨har, na, hna, ⟨hnk, -⟩, -⟩ := hb.get hq hne ha
      rw [hnk]
      exact .inl ((h.size a na hna).resolve_right fun ho => hodd a har ho.1)
    nonempty := by
      intro a na' ha hroot
      obtain ⟨har, na, hna, ⟨hnk, -⟩, -⟩ := hb.get hq hne ha
      rw [hb.root] at hroot
      rw [hnk]
      exact .inl ((h.nonempty a na hna hroot).resolve_right (hodd a har))
    empty := fun a na' ha hz => .inl (h.bypassed_empty hr hq hslot hb ha hz)
    sorted := by
      intro a na' ha
      obtain ⟨-, na, hna, ⟨hnk, hk, -⟩, -⟩ := hb.get hq hne ha
      have hs := h.sorted a na hna
      constructor
      · rw [hk, hnk]
        exact hs.ascending
      · rw [hk, hnk]
        exact hs.lower
      · rw [hk, hnk]
        exact hs.upper
    slots := fun a na' i ha hi => h.bypassed_slots hr hq hslot hb ha hi
    child := fun a na' i c ha hc => h.bypassed_child hr hzero hq hslot hb ha hc
    linked := fun a na' ha hroot => h.bypassed_linked hr hzero hq hslot hb ha (hb.root ▸ hroot)
    depth := by
      intro a na' ha
      obtain ⟨-, na, hna, -⟩ := hb.get hq hne ha
      rw [hb.next]
      exact h.depth a na hna }

end Bypass

end Inv

/-! ### An entry is taken out of the tree -/

/-- In `t'` the node `m` has become `n'` or, when no key is left, has been bypassed. -/
def TakenOut (t t' : BTree K V) (m : ℕ) (n' : Node K V) : Prop :=
  (t' = t.set m n' ∧ (n'.nkeys = 0 → m = t.root ∧ n'.childs 0 = none)) ∨
    (n'.nkeys = 0 ∧ ∃ q nq j, t.heap q = some nq ∧ nq.childs j = some m ∧
      Bypassed (t.set m n') t' q nq j m (n'.childs 0))

section

variable {degree : ℕ} {g : Ranges K} {t t₂ t' : BTree K V} {q j r m p i d : ℕ} {n n' nq nm : Node K V}
  {rem : Option ℕ}

omit [LinearOrder K] in
/-- What is in a freed node does not matter. -/
theorem Bypassed.congr (hb : Bypassed t t' q nq j r rem) (hroot : t₂.root = t.root)
    (hnext : t₂.next = t.next) (hheap : ∀ a, a ≠ r → t₂.heap a = t.heap a) :
    Bypassed t₂ t' q nq j r rem := by
  refine ⟨hb.root.trans hroot.symm, hb.next.trans hnext.symm, ?_⟩
  intro a
  rw [hb.heap a]
  by_cases har : a = r
  · rw [if_pos har, if_pos har]
  · rw [hheap a har]

omit [LinearOrder K] in
/-- The end of `delete_from_left` and `delete_from_right`. -/
theorem bypassed_destroy (hq : t.heap q = some nq) (hne : rem ≠ some q) :
    Bypassed t (((t.setChild q j rem).setParent? rem q).destroy r) q nq j r rem := by
  refine ⟨by simp [destroy, setChild, modify], by simp [destroy, setChild, modify], ?_⟩
  intro a
  rw [heap_destroy, heap_setParent?]
  by_cases har : a = r
  · rw [if_pos har, if_pos har]
  · rw [if_neg har, if_neg har]
    by_cases haq : a = q
    · subst haq
      rw [if_neg hne, if_pos rfl]
      simp [setChild, hq]
    · simp [setChild, haq]

theorem TakenOut.inv (htaken : TakenOut t t' m n') (h : Inv degree g none t)
    (hm : t.heap m = some nm) (hi : i < nm.nkeys) (hd : d = i ∨ d = i + 1)
    (hnone : nm.childs d = none) (hrem : nm.Removed n' i d) :
    Inv degree (g.replaceBound (nm.keys i) (nm.below (g.lo m) i) (nm.above (g.hi m) (i + 1))) none
        t' ∧
      ∀ k v, Holds t' k v ↔ Holds t k v ∧ k ≠ nm.keys i := by
  have hset := h.removeAt hm hi hd hnone hrem
  have hsize := (h.size m nm hm).resolve_right nofun
  have hn := hrem.nkeys
  rcases htaken with ⟨rfl, hroot⟩ | ⟨hzero, q, nq, j, hq, hslot, hb⟩
  · refine ⟨hset.settle (heap_set_self t m n') (by omega) ?_ fun hzero => (hroot hzero).2, ?_⟩
    · intro hmr
      rcases Nat.eq_zero_or_pos n'.nkeys with hzero | hpos
      · exact absurd (hroot hzero).1 hmr
      · exact hpos
    · exact h.holds_removeAt hm hi hrem
  · have hqm : q ≠ m := by
      rintro rfl
      have := (h.child q nq j q hq hslot).2.2.2
      omega
    have hq' : (t.set m n').heap q = some nq := by simp [hqm, hq]
    have hne : n'.childs 0 ≠ some q := hset.grandchild_ne (heap_set_self t m n') hq' hslot
    refine ⟨hset.bypass (heap_set_self t m n') hzero hq' hslot hb, ?_⟩
    intro k v
    rw [hb.holds_iff hq' hne (heap_set_self t m n') hzero, h.holds_removeAt hm hi hrem]

/-- The entries of the other nodes stay. -/
theorem TakenOut.other (htaken : TakenOut t t' m n') (h : Inv degree g none t)
    (hm : t.heap m = some nm) (hrem : nm.Removed n' i d) (hpm : p ≠ m) (hp : t.heap p = some n) :
    ∃ n₁, t'.heap p = some n₁ ∧ n₁.nkeys = n.nkeys ∧ n₁.keys = n.keys := by
  rcases htaken with ⟨rfl, -⟩ | ⟨-, q, nq, j, hq, hslot, hb⟩
  · exact ⟨n, by simp [hpm, hp], rfl, rfl⟩
  · have hqm : q ≠ m := by
      rintro rfl
      have := (h.child q nq j q hq hslot).2.2.2
      omega
    have hq' : (t.set m n').heap q = some nq := by simp [hqm, hq]
    have hp' : (t.set m n').heap p = some n := by simp [hpm, hp]
    have hne : n'.childs 0 ≠ some q := by
      intro hc
      obtain ⟨k, hk⟩ : ∃ k, nm.childs k = some q := by
        rcases Nat.lt_or_ge 0 d with hlt | hge
        · exact ⟨0, hrem.childs_lt 0 hlt ▸ hc⟩
        · exact ⟨1, hrem.childs_ge 0 hge ▸ hc⟩
      exact h.grandchild_ne hm hq hslot hk
    obtain ⟨n₁, hn₁⟩ := hb.put hpm hp'
    obtain ⟨-, n₀, hn₀, ⟨hnk, hk, -⟩, -⟩ := hb.get hq' hne hn₁
    obtain rfl := Option.some.inj (hp'.symm.trans hn₀)
    exact ⟨n₁, hn₁, hnk, hk⟩

/-! ### The neighbour of a key -/

/-- `delete_from_left` takes out the biggest key below the child. -/
theorem Inv.deleteFromLeft_spec {c : ℕ} (h : Inv degree g none t) (hp : t.heap p = some n)
    (hi : i < n.nkeys) (hc : n.childs i = some c) :
    ∃ m nm t', t.deleteFromLeft p i c =
        some (t', nm.keys (nm.nkeys - 1), nm.values (nm.nkeys - 1)) ∧
      t.heap m = some nm ∧ Under t c m ∧ 0 < nm.nkeys ∧ nm.childs nm.nkeys = none ∧
      (∀ q x, Under t c q → HasKey t q x → x ≤ nm.keys (nm.nkeys - 1)) ∧
      TakenOut t t' m { nm with nkeys := nm.nkeys - 1 } := by
  obtain ⟨⟨nc, hnc, hcpar⟩, -, -, hcd⟩ := h.child p n i c hp hc
  obtain ⟨m, nm, hfind, hm, hnone, hu, hpos, hmax, hlast⟩ :=
    h.findMaxFrom_spec (Nat.le_add_right t.next (g.depth c)) hnc
  have hmpos : 0 < nm.nkeys := hpos (h.child_pos hp hc hnc)
  have hne : nm.nkeys ≠ 0 := by omega
  by_cases hzero : nm.nkeys - 1 = 0
  · -- the node is empty: the source clears the slot it is in
    obtain ⟨q, nq, hmpar, hq, j, hslot, hbranch⟩ : ∃ q nq, nm.parent = some q ∧
        t.heap q = some nq ∧ ∃ j, nq.childs j = some m ∧
          ∀ t₁ : BTree K V, (if nq.childs nq.nkeys = some m
            then t₁.setChild q nq.nkeys (nm.childs 0) else t₁.setChild p i (nm.childs 0)) =
              t₁.setChild q j (nm.childs 0) := by
      rcases hlast with rfl | ⟨q, nq, hmpar, hq, hslot⟩
      · obtain rfl := Option.some.inj (hnc.symm.trans hm)
        refine ⟨p, n, hcpar, hp, i, hc, ?_⟩
        intro t₁
        rw [if_neg]
        intro hslot
        have := h.slot_unique hp hc hslot
        omega
      · exact ⟨q, nq, hmpar, hq, nq.nkeys, hslot, fun t₁ => if_pos hslot⟩
    have hqm : q ≠ m := (h.child_ne_self hq hslot).symm
    have hq' : (t.modify m fun n => { n with nkeys := n.nkeys - 1 }).heap q = some nq := by
      simp [hqm, hq]
    refine ⟨m, nm, (((t.modify m fun n => { n with nkeys := n.nkeys - 1 }).setChild q j
      (nm.childs 0)).setParent? (nm.childs 0) q).destroy m, ?_, hm, hu, hmpos, hnone, hmax,
      .inr ⟨hzero, q, nq, j, hq, hslot, ?_⟩⟩
    · simp only [deleteFromLeft, hfind, hm, hne, hzero, if_false, if_true, hmpar, hq', hbranch]
    · rw [← modify_eq hm fun n => { n with nkeys := n.nkeys - 1 }]
      exact bypassed_destroy hq' (h.grandchild_ne hm hq hslot)
  · refine ⟨m, nm, t.modify m fun n => { n with nkeys := n.nkeys - 1 }, ?_, hm, hu, hmpos, hnone,
      hmax, .inl ⟨modify_eq hm _, fun hz => absurd hz hzero⟩⟩
    simp only [deleteFromLeft, hfind, hm, hne, hzero, if_false]

/-- `delete_from_right` takes out the smallest key below the child. -/
theorem Inv.deleteFromRight_spec {c : ℕ} (h : Inv degree g none t) (hp : t.heap p = some n)
    (hi : i ≠ 0) (hc : n.childs i = some c) :
    ∃ m nm t', t.deleteFromRight p i c = some (t', nm.keys 0, nm.values 0) ∧
      t.heap m = some nm ∧ Under t c m ∧ 0 < nm.nkeys ∧ nm.childs 0 = none ∧
      (∀ q x, Under t c q → HasKey t q x → nm.keys 0 ≤ x) ∧
      TakenOut t t' m (nm.removeEntry 0) := by
  obtain ⟨⟨nc, hnc, hcpar⟩, -, -, hcd⟩ := h.child p n i c hp hc
  obtain ⟨m, nm, hfind, hm, hnone, hu, hpos, hmin, hfirst⟩ :=
    h.findMinFrom_spec (Nat.le_add_right t.next (g.depth c)) hnc
  have hmpos : 0 < nm.nkeys := hpos (h.child_pos hp hc hnc)
  have hne : nm.nkeys ≠ 0 := by omega
  by_cases hzero : nm.nkeys - 1 = 0
  · obtain ⟨q, nq, hmpar, hq, j, hslot, hbranch⟩ : ∃ q nq, nm.parent = some q ∧
        t.heap q = some nq ∧ ∃ j, nq.childs j = some m ∧
          ∀ t₁ : BTree K V, (if nq.childs 0 = some m
            then t₁.setChild q 0 (nm.childs 1) else t₁.setChild p i (nm.childs 1)) =
              t₁.setChild q j (nm.childs 1) := by
      rcases hfirst with rfl | ⟨q, nq, hmpar, hq, hslot⟩
      · obtain rfl := Option.some.inj (hnc.symm.trans hm)
        refine ⟨p, n, hcpar, hp, i, hc, ?_⟩
        intro t₁
        rw [if_neg]
        intro hslot
        exact hi (h.slot_unique hp hc hslot)
      · exact ⟨q, nq, hmpar, hq, 0, hslot, fun t₁ => if_pos hslot⟩
    have hqm : q ≠ m := (h.child_ne_self hq hslot).symm
    have hq' : (t.modify m fun n => { n with nkeys := n.nkeys - 1 }).heap q = some nq := by
      simp [hqm, hq]
    -- the only child left is in slot 1, where `removeEntry` takes it from
    have hchild : (nm.removeEntry 0).childs 0 = nm.childs 1 :=
      (Node.removeEntry_removed hmpos fun k => h.slots m nm k hm).childs_ge 0 le_rfl
    refine ⟨m, nm, (((t.modify m fun n => { n with nkeys := n.nkeys - 1 }).setChild q j
      (nm.childs 1)).setParent? (nm.childs 1) q).destroy m, ?_, hm, hu, hmpos, hnone, hmin,
      .inr ⟨hzero, q, nq, j, hq, hslot, ?_⟩⟩
    · simp only [deleteFromRight, hfind, hm, hne, hzero, if_false, if_true, hmpar, hq', hbranch]
    · rw [hchild]
      refine (bypassed_destroy hq' (h.grandchild_ne hm hq hslot)).congr rfl rfl ?_
      intro a ha
      simp [ha]
  · refine ⟨m, nm, t.modify m fun n => n.removeEntry 0, ?_, hm, hu, hmpos, hnone, hmin,
      .inl ⟨modify_eq hm _, fun hz => absurd hz hzero⟩⟩
    simp only [deleteFromRight, hfind, hm, hne, hzero, if_false]

/-! ### `delete_key_from_node` -/

/-- The neighbour of a key, taken out below it, takes its place. -/
theorem Inv.exchange (h : Inv degree g none t) (hp : t.heap p = some n) (hi : i < n.nkeys)
    (hm : t.heap m = some nm) (hj : j < nm.nkeys) (hd : d = j ∨ d = j + 1)
    (hnone : nm.childs d = none) (hrem : nm.Removed n' j d) (htaken : TakenOut t t' m n')
    (hdepth : g.depth p < g.depth m) (hlo : g.lo p < (nm.keys j : K))
    (hhi : (nm.keys j : K) < g.hi p)
    (hlt : ∀ q z, HasKey t q z → z ≠ nm.keys j → z < n.keys i → z < nm.keys j)
    (hgt : ∀ q z, HasKey t q z → z ≠ nm.keys j → n.keys i < z → nm.keys j < z) :
    ∃ g', Inv degree g' none (t'.setEntry p i (nm.keys j, nm.values j)) ∧
      ∀ k v, Holds (t'.setEntry p i (nm.keys j, nm.values j)) k v ↔
        Holds t k v ∧ k ≠ n.keys i := by
  have hpm : p ≠ m := by
    rintro rfl
    omega
  obtain ⟨h', hholds⟩ := htaken.inv h hm hj hd hnone hrem
  obtain ⟨n₁, hn₁, hnk, hkeys⟩ := htaken.other h hm hrem hpm hp
  have hy : Holds t (nm.keys j) (nm.values j) := ⟨m, nm, hm, j, hj, rfl, rfl⟩
  have hne : nm.keys j ≠ n.keys i := fun heq =>
    hpm (h.hasKey_unique ⟨n, i, hp, hi, heq.symm⟩ ⟨nm, j, hm, hj, rfl⟩)
  have hold : ∀ q z, HasKey t' q z → (∃ q', HasKey t q' z) ∧ z ≠ nm.keys j := by
    rintro q z ⟨nq, l, hq, hl, hz⟩
    obtain ⟨hin, hzy⟩ := (hholds z (nq.values l)).1 ⟨q, nq, hq, l, hl, hz, rfl⟩
    exact ⟨hin.hasKey, hzy⟩
  have hi₁ : i < n₁.nkeys := hnk ▸ hi
  have hki : n₁.keys i = n.keys i := by rw [hkeys]
  rw [setEntry, modify_eq hn₁]
  refine ⟨_, h'.setKey hn₁ hi₁ ?_ ?_ ?_ ?_ (nm.values j), ?_⟩
  · rw [Ranges.replaceBound_lo hlo.ne]
    exact hlo
  · rw [Ranges.replaceBound_hi hhi.ne']
    exact hhi
  · intro q z hz hzi
    obtain ⟨⟨q', hz'⟩, hzy⟩ := hold q z hz
    exact hlt q' z hz' hzy (hki ▸ hzi)
  · intro q z hz hzi
    obtain ⟨⟨q', hz'⟩, hzy⟩ := hold q z hz
    exact hgt q' z hz' hzy (hki ▸ hzi)
  · intro k v
    rw [h'.holds_setKey hn₁ hi₁, hholds, hki]
    constructor
    · rintro (⟨⟨hk, -⟩, hki⟩ | ⟨rfl, rfl⟩)
      · exact ⟨hk, hki⟩
      · exact ⟨hy, hne⟩
    · rintro ⟨hk, hki⟩
      by_cases hky : k = nm.keys j
      · subst hky
        exact .inr ⟨rfl, h.holds_unique hk hy⟩
      · exact .inl ⟨⟨hk, hky⟩, hki⟩

/-- The last key of a node without children: an empty root stays, another node is unlinked. -/
theorem Inv.deleteLastKey (h : Inv degree g none t) (hp : t.heap p = some n) (hi : i < n.nkeys)
    (hzero : n.nkeys - 1 = 0) (hleft : n.childs i = none) (hright : n.childs (i + 1) = none) :
    ∃ t', t.deleteKeyFromNode p i = some t' ∧
      TakenOut t t' p { n with nkeys := n.nkeys - 1 } := by
  have hmod : t.modify p (fun n => { n with nkeys := n.nkeys - 1 }) =
      t.set p { n with nkeys := n.nkeys - 1 } := modify_eq hp _
  have hchild : n.childs 0 = none := by
    obtain rfl : i = 0 := by omega
    exact hleft
  by_cases hroot : p = t.root
  · have hpar : n.parent = none := by
      obtain ⟨nr, hr, hnone⟩ := h.root
      rw [← hroot] at hr
      obtain rfl := Option.some.inj (hp.symm.trans hr)
      exact hnone
    refine ⟨t.modify p fun n => { n with nkeys := n.nkeys - 1 }, ?_, .inl ⟨hmod, ?_⟩⟩
    · simp only [deleteKeyFromNode, hp, hleft, hright, hzero, if_true, hpar]
    · exact fun _ => ⟨hroot, hchild⟩
  · obtain ⟨q, nq, j, hpar, hq, hslot⟩ := h.linked p n hp hroot
    have hqp : q ≠ p := (h.child_ne_self hq hslot).symm
    have hq' : (t.modify p fun n => { n with nkeys := n.nkeys - 1 }).heap q = some nq := by
      simp [hqp, hq]
    -- the loop over the children of the parent finds the node
    have hfind : (List.range (nq.nkeys + 1)).find? (fun i => nq.childs i = some p) = some j := by
      rw [List.find?_range_eq_some]
      refine ⟨by simp [hslot], List.mem_range.2 (Nat.lt_succ_of_le (h.slot_le hq hslot)), ?_⟩
      intro i hij
      simp only [Bool.not_eq_true', decide_eq_false_iff_not]
      intro hi
      exact absurd (h.slot_unique hq hi hslot) (by omega)
    refine ⟨((t.modify p fun n => { n with nkeys := n.nkeys - 1 }).destroy p).setChild q j none, ?_,
      .inr ⟨hzero, q, nq, j, hq, hslot, ?_⟩⟩
    · simp only [deleteKeyFromNode, hp, hleft, hright, hzero, if_true, hpar, unlinkChild, hq', hfind]
    · rw [← hmod]
      refine ⟨rfl, rfl, ?_⟩
      intro a
      by_cases hap : a = p
      · simp [setChild, hap, hqp.symm]
      · by_cases haq : a = q
        · subst haq
          simp [setChild, hap, hq, hchild]
        · simp [setChild, hap, haq, hchild]

/-- `delete_key_from_node` removes one key of the tree. -/
theorem Inv.deleteKeyFromNode_spec (h : Inv degree g none t) (hp : t.heap p = some n)
    (hi : i < n.nkeys) :
    ∃ t' g', t.deleteKeyFromNode p i = some t' ∧ Inv degree g' none t' ∧
      ∀ k v, Holds t' k v ↔ Holds t k v ∧ k ≠ n.keys i := by
  have hs := h.sorted p n hp
  cases hleft : n.childs i with
  | some c =>
    obtain ⟨m, nm, t', hdel, hm, hu, hpos, hnone, hmax, htaken⟩ := h.deleteFromLeft_spec hp hi hleft
    obtain ⟨⟨nc, hnc, -⟩, hclo, hchi, hcd⟩ := h.child p n i c hp hleft
    obtain ⟨hulo, huhi, hud⟩ := h.under_range hu ⟨nm, hm⟩
    obtain ⟨hylo, hyhi⟩ := h.key_range (x := nm.keys (nm.nkeys - 1)) (q := m)
      ⟨nm, nm.nkeys - 1, hm, by omega, rfl⟩
    have hclo' : g.lo c < (nm.keys (nm.nkeys - 1) : K) := lt_of_le_of_lt hulo hylo
    have hchi' : (nm.keys (nm.nkeys - 1) : K) < g.hi c := lt_of_lt_of_le hyhi huhi
    have hyi : nm.keys (nm.nkeys - 1) < n.keys i := by
      rw [hchi, Node.above, if_pos hi, WithTop.coe_lt_coe] at hchi'
      exact hchi'
    have hslots : ∀ k, nm.nkeys ≤ k → nm.childs k = none := by
      intro k hk
      rcases Nat.lt_or_eq_of_le hk with hlt | rfl
      · exact h.slots m nm k hm hlt
      · exact hnone
    have hlt : ∀ q z, HasKey t q z → z ≠ nm.keys (nm.nkeys - 1) → z < n.keys i →
        z < nm.keys (nm.nkeys - 1) := by
      -- a key between the two would be below the child, and bigger than the biggest there
      intro q z hz hzy hzi
      by_contra hge
      have hlt : nm.keys (nm.nkeys - 1) < z := lt_of_le_of_ne (not_lt.1 hge) hzy.symm
      have hzc : (z : K) < g.hi c := by
        rw [hchi, Node.above, if_pos hi]
        exact WithTop.coe_lt_coe.2 hzi
      have huz := h.under_of_range hnc hz (hclo'.trans (WithBot.coe_lt_coe.2 hlt)) hzc
      exact absurd (hmax q z huz hz) (not_le.2 hlt)
    have hplo : g.lo p < (nm.keys (nm.nkeys - 1) : K) :=
      lt_of_le_of_lt (hs.le_below hi.le) (hclo ▸ hclo')
    have hphi : (nm.keys (nm.nkeys - 1) : K) < g.hi p :=
      lt_of_lt_of_le (hchi ▸ hchi') (hs.above_le i)
    obtain ⟨g', hinv, hholds⟩ := h.exchange hp hi hm (by omega) (.inr (by omega)) hnone
      (Node.removed_last hpos hslots) htaken (by omega) hplo hphi hlt
      fun _ _ _ _ hiz => hyi.trans hiz
    refine ⟨_, g', ?_, hinv, hholds⟩
    simp only [deleteKeyFromNode, hp, hleft, hdel, Option.map_some]
  | none =>
    cases hright : n.childs (i + 1) with
    | some c =>
      obtain ⟨m, nm, t', hdel, hm, hu, hpos, hnone, hmin, htaken⟩ :=
        h.deleteFromRight_spec hp (Nat.succ_ne_zero i) hright
      obtain ⟨⟨nc, hnc, -⟩, hclo, hchi, hcd⟩ := h.child p n (i + 1) c hp hright
      obtain ⟨hulo, huhi, hud⟩ := h.under_range hu ⟨nm, hm⟩
      obtain ⟨hylo, hyhi⟩ := h.key_range (x := nm.keys 0) (q := m) ⟨nm, 0, hm, hpos, rfl⟩
      have hclo' : g.lo c < (nm.keys 0 : K) := lt_of_le_of_lt hulo hylo
      have hchi' : (nm.keys 0 : K) < g.hi c := lt_of_lt_of_le hyhi huhi
      have hiy : n.keys i < nm.keys 0 := by
        rw [hclo, Node.below, if_neg (by omega), Nat.add_sub_cancel, WithBot.coe_lt_coe] at hclo'
        exact hclo'
      have hgt : ∀ q z, HasKey t q z → z ≠ nm.keys 0 → n.keys i < z → nm.keys 0 < z := by
        intro q z hz hzy hiz
        by_contra hge
        have hlt : z < nm.keys 0 := lt_of_le_of_ne (not_lt.1 hge) hzy
        have hzc : g.lo c < (z : K) := by
          rw [hclo, Node.below, if_neg (by omega), Nat.add_sub_cancel]
          exact WithBot.coe_lt_coe.2 hiz
        have huz := h.under_of_range hnc hz hzc ((WithTop.coe_lt_coe.2 hlt).trans hchi')
        exact absurd (hmin q z huz hz) (not_le.2 hlt)
      have hplo : g.lo p < (nm.keys 0 : K) := lt_of_le_of_lt (hs.le_below hi) (hclo ▸ hclo')
      have hphi : (nm.keys 0 : K) < g.hi p := lt_of_lt_of_le (hchi ▸ hchi') (hs.above_le (i + 1))
      obtain ⟨g', hinv, hholds⟩ := h.exchange hp hi hm hpos (.inl rfl) hnone
        (Node.removeEntry_removed hpos fun k => h.slots m nm k hm) htaken (by omega) hplo hphi
        (fun _ _ _ _ hzi => hzi.trans hiy) hgt
      refine ⟨_, g', ?_, hinv, hholds⟩
      simp only [deleteKeyFromNode, hp, hleft, hright, hdel, Option.map_some]
    | none =>
      by_cases hzero : n.nkeys - 1 = 0
      · -- the last key of the node: both its children are empty
        have hslots : ∀ k, n.nkeys ≤ k → n.childs k = none := by
          intro k hk
          rcases Nat.lt_or_eq_of_le hk with hlt | rfl
          · exact h.slots p n k hp hlt
          · rw [← hright]
            congr 1
            omega
        obtain ⟨t', hdel, htaken⟩ := h.deleteLastKey hp hi hzero hleft hright
        obtain rfl : i = n.nkeys - 1 := by omega
        obtain ⟨hinv, hholds⟩ := htaken.inv h hp hi (.inr (by omega)) (hslots n.nkeys le_rfl)
          (Node.removed_last (by omega) hslots)
        exact ⟨t', _, hdel, hinv, hholds⟩
      · have hrem := Node.removeEntry_removed hi fun k => h.slots p n k hp
        have htaken : TakenOut t (t.modify p fun n => n.removeEntry i) p (n.removeEntry i) :=
          .inl ⟨modify_eq hp _, fun hz => absurd hz hzero⟩
        obtain ⟨hinv, hholds⟩ := htaken.inv h hp hi (.inl rfl) hleft hrem
        refine ⟨_, _, ?_, hinv, hholds⟩
        simp only [deleteKeyFromNode, hp, hleft, hright, hzero, if_false]

end

end Talyn.BTree
