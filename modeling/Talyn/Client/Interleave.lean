import Mathlib.Data.UInt
import Talyn.Utils.Address

/-!
# The order of the addresses of a host

`interleave_address_list` puts `interleave` IPv6 addresses before each IPv4 address. The counter of the
IPv6 addresses that may still come is set again with each IPv4 address, and only then: behind the last
one it can run below zero.
-/

namespace Talyn.Client

/-- How `interleave_address_list` fails; `underflow` is `interleave_count -= 1` at zero. -/
inductive InterleaveError
  | outOfMemory
  | invalidOperation
  | underflow
  deriving DecidableEq, Repr

/-- The first loop: the two halves of `tmp_list`. -/
def splitFamilies : List SockAddr → List SockAddr → List SockAddr →
    Except InterleaveError (List SockAddr × List SockAddr)
  | [], ipv4, ipv6 => .ok (ipv4, ipv6)
  | address :: rest, ipv4, ipv6 =>
    match address with
    | .in4 .. => splitFamilies rest (ipv4 ++ [address]) ipv6
    | .in6 .. => splitFamilies rest ipv4 (ipv6 ++ [address])
    | _ => .error .invalidOperation

/-- The second loop, over the places of the list; `ipv4` and `ipv6` are what the two indices have not
passed yet. -/
def interleaveLoop (interleave : ℕ) : List SockAddr → ℕ → List SockAddr → List SockAddr →
    Except InterleaveError (List SockAddr)
  | [], _, _, _ => .ok []
  | v :: rest, interleaveCount, ipv4, ipv6 =>
    if h : (interleaveCount = 0 ∨ ipv6 = []) ∧ ipv4 ≠ [] then
      (interleaveLoop interleave rest interleave ipv4.tail ipv6).map (ipv4.head h.2 :: ·)
    else if h : ipv6 ≠ [] then
      if interleaveCount = 0 then .error .underflow
      else (interleaveLoop interleave rest (interleaveCount - 1) ipv4 ipv6.tail).map (ipv6.head h :: ·)
    else if h : ipv4 ≠ [] then
      (interleaveLoop interleave rest interleaveCount ipv4.tail ipv6).map (ipv4.head h :: ·)
    else .ok (v :: rest)

/-- `interleave_address_list`: the list it leaves. -/
def interleaveAddressList (addressList : List SockAddr) (interleave : ℕ) (alloc : Bool) :
    Except InterleaveError (List SockAddr) :=
  if alloc then
    match splitFamilies addressList [] [] with
    | .error e => .error e
    | .ok (ipv4, ipv6) =>
      if ipv6 = [] ∨ ipv4 = [] then .ok addressList
      else interleaveLoop interleave addressList interleave ipv4 ipv6
  else .error .outOfMemory

/-- The list is rearranged: both families keep their order, and before an IPv4 address stand
`interleave` IPv6 addresses for it and for each IPv4 address before it, or all of them if there are
fewer. -/
structure Interleaved (interleave : ℕ) (addressList out : List SockAddr) : Prop where
  perm : out.Perm addressList
  ipv4 : out.filter SockAddr.isIp4 = addressList.filter SockAddr.isIp4
  ipv6 : out.filter SockAddr.isIp6 = addressList.filter SockAddr.isIp6
  spacing : ∀ pre a post, out = pre ++ a :: post → a.isIp4 = true →
    pre.countP SockAddr.isIp6 =
      min (interleave * (pre.countP SockAddr.isIp4 + 1)) (addressList.countP SockAddr.isIp6)

/-! ### The two loops -/

theorem splitFamilies_eq {addressList : List SockAddr}
    (h : ∀ a ∈ addressList, a.isIp4 = true ∨ a.isIp6 = true) (ipv4 ipv6 : List SockAddr) :
    splitFamilies addressList ipv4 ipv6 =
      .ok (ipv4 ++ addressList.filter SockAddr.isIp4, ipv6 ++ addressList.filter SockAddr.isIp6) := by
  induction addressList generalizing ipv4 ipv6 with
  | nil => simp [splitFamilies]
  | cons a rest ih =>
    have hrest := fun b hb => h b (List.mem_cons_of_mem a hb)
    cases a with
    | in4 addr port => simp [splitFamilies, ih hrest, List.filter_cons]
    | in6 addr port flowinfo scopeId => simp [splitFamilies, ih hrest, List.filter_cons]
    | un path => exact absurd (h _ List.mem_cons_self) (by simp [SockAddr.isIp4, SockAddr.isIp6])
    | any => exact absurd (h _ List.mem_cons_self) (by simp [SockAddr.isIp4, SockAddr.isIp6])

/-- The IPv4 addresses with the IPv6 addresses between them, `count` of them before the first. -/
def spread (interleave : ℕ) : ℕ → List SockAddr → List SockAddr → List SockAddr
  | _, [], ipv6 => ipv6
  | count, a :: ipv4, ipv6 => ipv6.take count ++ a :: spread interleave interleave ipv4 (ipv6.drop count)

/-- The second loop, when it has a place for each address. -/
theorem interleaveLoop_eq {interleave : ℕ} {places : List SockAddr} {count : ℕ}
    {ipv4 ipv6 : List SockAddr} (hplaces : places.length = ipv4.length + ipv6.length) :
    interleaveLoop interleave places count ipv4 ipv6 =
      if ipv6.length ≤ count + interleave * ipv4.length then .ok (spread interleave count ipv4 ipv6)
      else .error .underflow := by
  induction places generalizing count ipv4 ipv6 with
  | nil =>
    obtain rfl : ipv4 = [] := List.length_eq_zero_iff.1 (by simp at hplaces; omega)
    obtain rfl : ipv6 = [] := List.length_eq_zero_iff.1 (by simp at hplaces; omega)
    simp [interleaveLoop, spread]
  | cons v rest ih =>
    rw [interleaveLoop]
    cases ipv4 with
    | nil =>
      cases ipv6 with
      | nil => exact absurd hplaces (by simp)
      | cons b ipv6 =>
        simp only [ne_eq, not_true_eq_false, and_false, dite_false, reduceCtorEq, not_false_eq_true,
          dite_true, List.tail_cons, List.head_cons]
        cases count with
        | zero => simp
        | succ count =>
          rw [if_neg (Nat.succ_ne_zero _), Nat.add_sub_cancel, ih (by simp at hplaces ⊢; omega)]
          simp only [List.length_nil, Nat.mul_zero, List.length_cons, spread]
          split
          · rw [if_pos (by omega)]
            rfl
          · rw [if_neg (by omega)]
            rfl
    | cons a ipv4 =>
      simp only [ne_eq, reduceCtorEq, not_false_eq_true, and_true, List.tail_cons, List.head_cons]
      by_cases hturn : count = 0 ∨ ipv6 = []
      · -- an IPv4 address is due
        rw [dif_pos hturn, ih (by simp at hplaces ⊢; omega)]
        have htake : ipv6.take count = [] := by
          rcases hturn with rfl | rfl
          · exact List.take_zero
          · exact List.take_nil
        have hdrop : ipv6.drop count = ipv6 := by
          rcases hturn with rfl | rfl
          · rfl
          · exact List.drop_nil
        have hsum : interleave + interleave * ipv4.length = interleave * (ipv4.length + 1) := by ring
        simp only [spread, htake, hdrop, List.length_cons, hsum, List.nil_append]
        by_cases hfit : ipv6.length ≤ interleave * (ipv4.length + 1)
        · rw [if_pos hfit, if_pos (by omega)]
          rfl
        · have hmore : ¬ipv6.length ≤ count + interleave * (ipv4.length + 1) := by
            rcases hturn with rfl | rfl
            · omega
            · simp at hfit
          rw [if_neg hfit, if_neg hmore]
          rfl
      · rw [not_or] at hturn
        rw [dif_neg (not_or.2 hturn)]
        cases ipv6 with
        | nil => exact absurd rfl hturn.2
        | cons b ipv6 =>
          obtain ⟨count, rfl⟩ := Nat.exists_eq_succ_of_ne_zero hturn.1
          simp only [reduceCtorEq, not_false_eq_true, dite_true, Nat.succ_eq_add_one, Nat.add_sub_cancel,
            List.tail_cons, List.head_cons, Nat.add_eq_zero_iff, one_ne_zero, and_false, if_false]
          rw [ih (by simp at hplaces ⊢; omega)]
          simp only [List.length_cons, spread, List.take_succ_cons, List.drop_succ_cons]
          split
          · rw [if_pos (by omega)]
            rfl
          · rw [if_neg (by omega)]
            rfl

/-! ### What the second loop leaves -/

theorem perm_spread (interleave count : ℕ) (ipv4 ipv6 : List SockAddr) :
    (spread interleave count ipv4 ipv6).Perm (ipv4 ++ ipv6) := by
  induction ipv4 generalizing count ipv6 with
  | nil => exact .refl _
  | cons a ipv4 ih =>
    have hrest : (ipv6.take count ++ spread interleave interleave ipv4 (ipv6.drop count)).Perm
        (ipv4 ++ ipv6) := by
      refine ((ih interleave (ipv6.drop count)).append_left _).trans ?_
      rw [← List.append_assoc]
      refine (List.perm_append_comm.append_right _).trans ?_
      rw [List.append_assoc, List.take_append_drop]
    exact List.perm_middle.trans (hrest.cons a)

/-- A predicate that holds of all addresses of one family and of none of the other. -/
theorem filter_spread {p : SockAddr → Bool} {ipv4 ipv6 : List SockAddr} (interleave count : ℕ)
    (h4 : ∀ a ∈ ipv4, p a = true) (h6 : ∀ a ∈ ipv6, p a = false) :
    (spread interleave count ipv4 ipv6).filter p = ipv4 := by
  induction ipv4 generalizing count ipv6 with
  | nil => exact List.filter_eq_nil_iff.2 fun a ha => by simp [h6 a ha]
  | cons a ipv4 ih =>
    have htake : (ipv6.take count).filter p = [] :=
      List.filter_eq_nil_iff.2 fun b hb => by simp [h6 b (List.mem_of_mem_take hb)]
    rw [spread, List.filter_append, htake, List.filter_cons_of_pos (h4 a List.mem_cons_self),
      ih interleave (fun b hb => h4 b (List.mem_cons_of_mem a hb)) fun b hb => h6 b (List.mem_of_mem_drop hb)]
    rfl

theorem filter_spread' {p : SockAddr → Bool} {ipv4 ipv6 : List SockAddr} (interleave count : ℕ)
    (h4 : ∀ a ∈ ipv4, p a = false) (h6 : ∀ a ∈ ipv6, p a = true) :
    (spread interleave count ipv4 ipv6).filter p = ipv6 := by
  induction ipv4 generalizing count ipv6 with
  | nil => exact List.filter_eq_self.2 h6
  | cons a ipv4 ih =>
    have htake : (ipv6.take count).filter p = ipv6.take count :=
      List.filter_eq_self.2 fun b hb => h6 b (List.mem_of_mem_take hb)
    have ha : ¬p a = true := by simp [h4 a List.mem_cons_self]
    rw [spread, List.filter_append, htake, List.filter_cons_of_neg ha,
      ih interleave (fun b hb => h4 b (List.mem_cons_of_mem a hb)) fun b hb => h6 b (List.mem_of_mem_drop hb),
      List.take_append_drop]

/-- The IPv6 addresses before an IPv4 address. -/
theorem spacing_spread {interleave count : ℕ} {ipv4 ipv6 pre post : List SockAddr} {a : SockAddr}
    (h4 : ∀ a ∈ ipv4, a.isIp6 = false ∧ a.isIp4 = true)
    (h6 : ∀ a ∈ ipv6, a.isIp6 = true ∧ a.isIp4 = false) (ha : a.isIp4 = true)
    (heq : spread interleave count ipv4 ipv6 = pre ++ a :: post) :
    pre.countP SockAddr.isIp6 =
      min (count + interleave * pre.countP SockAddr.isIp4) ipv6.length := by
  induction ipv4 generalizing count ipv6 pre with
  | nil =>
    have hmem : a ∈ ipv6 := by
      rw [spread] at heq
      rw [heq]
      exact List.mem_append_right _ List.mem_cons_self
    exact absurd ha (by simp [(h6 a hmem).2])
  | cons b ipv4 ih =>
    have hsix : ∀ c ∈ ipv6.take count, c.isIp6 = true ∧ c.isIp4 = false :=
      fun c hc => h6 c (List.mem_of_mem_take hc)
    have hcount6 : (ipv6.take count).countP SockAddr.isIp6 = min count ipv6.length := by
      rw [List.countP_eq_length.2 fun c hc => (hsix c hc).1, List.length_take]
    have hcount4 : (ipv6.take count).countP SockAddr.isIp4 = 0 :=
      List.countP_eq_zero.2 fun c hc => by simp [(hsix c hc).2]
    rw [spread, List.append_eq_append_iff] at heq
    rcases heq with ⟨pre', rfl, hrest⟩ | ⟨tail, htake, hrest⟩
    · cases pre' with
      | nil =>
        simp only [List.append_nil, hcount6, hcount4]
        simp
      | cons c pre' =>
        rw [List.cons_append, List.cons_eq_cons] at hrest
        obtain ⟨rfl, hrest⟩ := hrest
        obtain ⟨hb6, hb4⟩ := h4 _ List.mem_cons_self
        have hsub := ih (fun c hc => h4 c (List.mem_cons_of_mem _ hc))
          (fun c hc => h6 c (List.mem_of_mem_drop hc)) hrest
        rw [List.countP_append, List.countP_append, hcount6, hcount4,
          List.countP_cons_of_neg (by simp [hb6]), List.countP_cons_of_pos hb4, hsub, List.length_drop]
        have hmul : interleave * (0 + (pre'.countP SockAddr.isIp4 + 1)) =
            interleave + interleave * pre'.countP SockAddr.isIp4 := by ring
        rw [hmul]
        omega
    · -- the IPv4 address would be one of the IPv6 addresses
      cases tail with
      | nil =>
        rw [List.append_nil] at htake
        rw [← htake, hcount6, hcount4]
        simp
      | cons c tail =>
        rw [List.cons_append, List.cons_eq_cons] at hrest
        have hmem : a ∈ ipv6.take count := by
          rw [htake, hrest.1]
          exact List.mem_append_right _ List.mem_cons_self
        exact absurd ha (by simp [(hsix a hmem).2])

/-! ### The order -/

theorem filter_eq_nil_iff_countP {p : SockAddr → Bool} {l : List SockAddr} :
    l.filter p = [] ↔ l.countP p = 0 := by
  rw [List.countP_eq_length_filter, List.length_eq_zero_iff]

/-- A list with one family alone stays as it is. -/
theorem interleaved_self {interleave : ℕ} {addressList : List SockAddr}
    (h : addressList.countP SockAddr.isIp4 = 0 ∨ addressList.countP SockAddr.isIp6 = 0) :
    Interleaved interleave addressList addressList where
  perm := .refl _
  ipv4 := rfl
  ipv6 := rfl
  spacing pre a post heq ha := by
    rcases h with h4 | h6
    · have hmem : a ∈ addressList := by
        rw [heq]
        exact List.mem_append_right _ List.mem_cons_self
      exact absurd ha (by simpa using List.countP_eq_zero.1 h4 a hmem)
    · have hpre : pre.countP SockAddr.isIp6 = 0 := by
        rw [heq, List.countP_append] at h6
        omega
      rw [hpre, h6, Nat.min_zero]

theorem interleaved_spread {interleave : ℕ} {addressList : List SockAddr}
    (h : ∀ a ∈ addressList, a.isIp4 = true ∨ a.isIp6 = true) :
    Interleaved interleave addressList
      (spread interleave interleave (addressList.filter SockAddr.isIp4)
        (addressList.filter SockAddr.isIp6)) := by
  have h4 : ∀ a ∈ addressList.filter SockAddr.isIp4, a.isIp6 = false ∧ a.isIp4 = true := fun a ha =>
    ⟨SockAddr.isIp6_eq_false (List.mem_filter.1 ha).2, (List.mem_filter.1 ha).2⟩
  have h6 : ∀ a ∈ addressList.filter SockAddr.isIp6, a.isIp6 = true ∧ a.isIp4 = false := fun a ha =>
    ⟨(List.mem_filter.1 ha).2, SockAddr.isIp4_eq_false (List.mem_filter.1 ha).2⟩
  refine ⟨?_, ?_, ?_, ?_⟩
  · have hother : addressList.filter SockAddr.isIp6 =
        addressList.filter fun a => !a.isIp4 := by
      refine List.filter_congr fun a ha => ?_
      rcases h a ha with ha | ha
      · rw [SockAddr.isIp6_eq_false ha, ha]
        rfl
      · rw [SockAddr.isIp4_eq_false ha, ha]
        rfl
    refine (perm_spread _ _ _ _).trans ?_
    rw [hother]
    exact List.filter_append_perm SockAddr.isIp4 addressList
  · exact filter_spread _ _ (fun a ha => (h4 a ha).2) fun a ha => (h6 a ha).2
  · exact filter_spread' _ _ (fun a ha => (h4 a ha).1) fun a ha => (h6 a ha).1
  · intro pre a post heq ha
    rw [spacing_spread h4 h6 ha heq, List.countP_eq_length_filter (p := SockAddr.isIp6) (l := addressList),
      Nat.mul_add, Nat.mul_one, Nat.add_comm]

/-- **The order of the addresses.** The list is interleaved exactly when a family is missing or no more
IPv6 addresses are left behind the last IPv4 address than may stand before one. -/
theorem interleave_sound_iff {addressList : List SockAddr}
    (h : ∀ a ∈ addressList, a.isIp4 = true ∨ a.isIp6 = true) (interleave : ℕ) :
    (∃ out, interleaveAddressList addressList interleave true = .ok out ∧
      Interleaved interleave addressList out) ↔
      addressList.countP SockAddr.isIp4 = 0 ∨
        addressList.countP SockAddr.isIp6 ≤ interleave * (addressList.countP SockAddr.isIp4 + 1) := by
  rw [interleaveAddressList, if_pos rfl, splitFamilies_eq h]
  simp only [List.nil_append]
  by_cases hone : addressList.filter SockAddr.isIp6 = [] ∨ addressList.filter SockAddr.isIp4 = []
  · rw [if_pos hone]
    rw [filter_eq_nil_iff_countP, filter_eq_nil_iff_countP] at hone
    refine iff_of_true ⟨_, rfl, interleaved_self hone.symm⟩ ?_
    rcases hone with h6 | h4
    · exact .inr (h6 ▸ Nat.zero_le _)
    · exact .inl h4
  · have hplaces : addressList.length =
        (addressList.filter SockAddr.isIp4).length + (addressList.filter SockAddr.isIp6).length := by
      have hspread : Interleaved interleave addressList _ := interleaved_spread h
      have hlength := hspread.perm.length_eq
      rw [← hlength, (perm_spread _ _ _ _).length_eq, List.length_append]
    rw [if_neg hone, interleaveLoop_eq hplaces]
    rw [filter_eq_nil_iff_countP, filter_eq_nil_iff_countP, not_or] at hone
    rw [← List.countP_eq_length_filter, ← List.countP_eq_length_filter, or_iff_right hone.2,
      Nat.mul_add, Nat.mul_one, Nat.add_comm (interleave * _)]
    split
    · rename_i hfits
      exact iff_of_true ⟨_, rfl, interleaved_spread h⟩ hfits
    · rename_i hmore
      exact iff_of_false (fun ⟨_, hout, _⟩ => nomatch hout) hmore

/-- Two IPv4 addresses and three IPv6 addresses, one by one. -/
theorem interleave_sound_two_three :
    ∃ out, interleaveAddressList
        [.in4 0 1, .in4 0 2, .in6 0 1 0 0, .in6 0 2 0 0, .in6 0 3 0 0] 1 true = .ok out ∧
      Interleaved 1 [.in4 0 1, .in4 0 2, .in6 0 1 0 0, .in6 0 2 0 0, .in6 0 3 0 0] out :=
  (interleave_sound_iff (by simp) 1).2 (by decide)

/-- One IPv4 address and four IPv6 addresses: the counter is decremented at zero. -/
theorem interleave_underflow :
    ¬∃ out, interleaveAddressList
        [.in4 0 1, .in6 0 1 0 0, .in6 0 2 0 0, .in6 0 3 0 0, .in6 0 4 0 0] 1 true = .ok out := by
  have hrun : interleaveAddressList
      [.in4 0 1, .in6 0 1 0 0, .in6 0 2 0 0, .in6 0 3 0 0, .in6 0 4 0 0] 1 true =
        .error .underflow := by
    decide +kernel
  rintro ⟨out, hout⟩
  exact nomatch hrun.symm.trans hout

end Talyn.Client
