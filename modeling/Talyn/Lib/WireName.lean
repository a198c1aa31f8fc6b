import Mathlib.Tactic

/-!
# Names on the wire

A name in a message is a run of labels, each behind an octet with its length, that ends in a zero
octet; an octet whose two high bits are set starts a pointer to another offset, where the name goes
on. `Walk data pointers offset labels stop` says what a reader that starts at `offset` has passed
when it arrives at `stop`. Where a walk cannot go on, at a zero octet or outside the message, it is
the only one (`Walk.unique`), and the labels written by `encode` are walked without a pointer
(`walk_encode`).
-/

namespace WireName

variable {data : List UInt8} {n n' offset stop stop' : ℕ} {labels labels' : List (List UInt8)}

/-- The octet starts a pointer. -/
def IsPointer (b : UInt8) : Prop := b.toNat &&& 0xC0 = 0xC0

instance (b : UInt8) : Decidable (IsPointer b) :=
  inferInstanceAs (Decidable (b.toNat &&& 0xC0 = 0xC0))

/-- Where the pointer of two octets leads. -/
def target (b c : UInt8) : ℕ := (b.toNat &&& 0x3F) * 256 + c.toNat

theorem not_isPointer_zero : ¬IsPointer 0 := by decide

/-- A length up to 63 is no pointer. -/
theorem not_isPointer_ofNat {k : ℕ} (hk : k ≤ 63) : ¬IsPointer (UInt8.ofNat k) := by
  have hall : ∀ k < 64, ¬IsPointer (UInt8.ofNat k) := by decide
  exact hall k (by omega)

/-- From `offset` over `labels` and that many pointers to `stop`. -/
inductive Walk (data : List UInt8) : ℕ → ℕ → List (List UInt8) → ℕ → Prop
  | here (offset : ℕ) : Walk data 0 offset [] offset
  | label {n offset stop : ℕ} {labels : List (List UInt8)} {b : UInt8}
      (hb : data[offset]? = some b) (hzero : b ≠ 0) (hp : ¬IsPointer b)
      (hfit : offset + 1 + b.toNat ≤ data.length)
      (rest : Walk data n (offset + 1 + b.toNat) labels stop) :
      Walk data n offset ((data.drop (offset + 1)).take b.toNat :: labels) stop
  | pointer {n offset stop : ℕ} {labels : List (List UInt8)} {b c : UInt8}
      (hb : data[offset]? = some b) (hp : IsPointer b) (hc : data[offset + 1]? = some c)
      (rest : Walk data n (target b c) labels stop) : Walk data (n + 1) offset labels stop

/-- No walk goes on from here: the octet is zero, or there is none. -/
def Final (data : List UInt8) (stop : ℕ) : Prop := data[stop]? = some 0 ∨ data[stop]? = none

/-- No walk without a pointer arrives at one. -/
def PointerFree (data : List UInt8) (offset : ℕ) : Prop :=
  ∀ labels stop b, Walk data 0 offset labels stop → data[stop]? = some b → ¬IsPointer b

/-- A walk over at most `limit` pointers leaves the message. -/
def RunsOff (data : List UInt8) (limit offset : ℕ) : Prop :=
  ∃ n ≤ limit, ∃ labels stop, Walk data n offset labels stop ∧ data.length ≤ stop

/-- The name at `offset` ends in a zero octet of the message. -/
def Terminated (data : List UInt8) (offset : ℕ) (labels : List (List UInt8)) : Prop :=
  ∃ n stop, Walk data n offset labels stop ∧ data[stop]? = some 0

theorem final_of_le (h : data.length ≤ stop) : Final data stop :=
  Or.inr (List.getElem?_eq_none h)

namespace Walk

/-- A walk from a place where none goes on stays there. -/
theorem eq_of_final (h : Walk data n offset labels stop) (hf : Final data offset) :
    n = 0 ∧ labels = [] ∧ stop = offset := by
  cases h with
  | here => exact ⟨rfl, rfl, rfl⟩
  | label hb hzero =>
    rcases hf with hf | hf
    · exact absurd (Option.some.inj (hb.symm.trans hf)) hzero
    · exact nomatch hb.symm.trans hf
  | pointer hb hp =>
    rcases hf with hf | hf
    · obtain rfl := Option.some.inj (hb.symm.trans hf)
      exact absurd hp not_isPointer_zero
    · exact nomatch hb.symm.trans hf

/-- Two walks that cannot go on are the same. -/
theorem unique (h : Walk data n offset labels stop) (hf : Final data stop)
    (h' : Walk data n' offset labels' stop') (hf' : Final data stop') :
    n = n' ∧ labels = labels' ∧ stop = stop' := by
  induction h generalizing n' labels' stop' with
  | here =>
    obtain ⟨rfl, rfl, rfl⟩ := h'.eq_of_final hf
    exact ⟨rfl, rfl, rfl⟩
  | label hb hzero hp hfit rest ih =>
    cases h' with
    | here =>
      obtain ⟨rfl, h, rfl⟩ := (label hb hzero hp hfit rest).eq_of_final hf'
      exact ⟨rfl, h, rfl⟩
    | label hb' _ _ _ rest' =>
      obtain rfl := Option.some.inj (hb.symm.trans hb')
      obtain ⟨rfl, rfl, rfl⟩ := ih hf rest' hf'
      exact ⟨rfl, rfl, rfl⟩
    | pointer hb' hp' =>
      obtain rfl := Option.some.inj (hb.symm.trans hb')
      exact absurd hp' hp
  | pointer hb hp hc rest ih =>
    cases h' with
    | here =>
      obtain ⟨h, -, -⟩ := (pointer hb hp hc rest).eq_of_final hf'
      exact nomatch h
    | label hb' _ hp' =>
      obtain rfl := Option.some.inj (hb.symm.trans hb')
      exact absurd hp hp'
    | pointer hb' _ hc' rest' =>
      obtain rfl := Option.some.inj (hb.symm.trans hb')
      obtain rfl := Option.some.inj (hc.symm.trans hc')
      obtain ⟨rfl, rfl, rfl⟩ := ih hf rest' hf'
      exact ⟨rfl, rfl, rfl⟩

/-- A name that ends without a pointer has none on the way. -/
theorem plain (h : Walk data 0 offset labels stop) (hf : data[stop]? = some 0)
    (h' : Walk data n' offset labels' stop') :
    n' = 0 ∧ ∀ b, data[stop']? = some b → ¬IsPointer b := by
  induction h' generalizing labels with
  | here =>
    refine ⟨rfl, fun b hb => ?_⟩
    cases h with
    | here =>
      obtain rfl := Option.some.inj (hf.symm.trans hb)
      exact not_isPointer_zero
    | label hb' _ hp =>
      obtain rfl := Option.some.inj (hb.symm.trans hb')
      exact hp
  | label hb hzero hp _ rest ih =>
    cases h with
    | here => exact absurd (Option.some.inj (hb.symm.trans hf)) hzero
    | label hb' _ _ _ rest' =>
      obtain rfl := Option.some.inj (hb.symm.trans hb')
      exact ih rest'
  | pointer hb hp =>
    cases h with
    | here =>
      obtain rfl := Option.some.inj (hb.symm.trans hf)
      exact absurd hp not_isPointer_zero
    | label hb' _ hp' =>
      obtain rfl := Option.some.inj (hb.symm.trans hb')
      exact absurd hp hp'

/-- The labels of a walk are not empty. -/
theorem ne_nil (h : Walk data n offset labels stop) : ∀ label ∈ labels, label ≠ [] := by
  induction h with
  | here => exact fun _ h => absurd h List.not_mem_nil
  | @label n offset stop labels b hb hzero hp hfit rest ih =>
    intro label hmem
    rcases List.mem_cons.mp hmem with rfl | hmem
    · have hpos : 0 < b.toNat := by
        rcases Nat.eq_zero_or_pos b.toNat with h | h
        · exact absurd (UInt8.toNat_inj.mp h) hzero
        · exact h
      apply List.ne_nil_of_length_pos
      rw [List.length_take, List.length_drop]
      omega
    · exact ih label hmem
  | pointer _ _ _ _ ih => exact ih

end Walk

/-- Where no pointer is met, none is followed. -/
theorem PointerFree.pointers_eq_zero (hfree : PointerFree data offset)
    (h : Walk data n offset labels stop) : n = 0 := by
  induction h with
  | here => rfl
  | label hb hzero hp hfit rest ih =>
    exact ih fun labels stop b hwalk => hfree _ stop b (.label hb hzero hp hfit hwalk)
  | pointer hb hp => exact absurd hp (hfree [] _ _ (.here _) hb)

/-! ### Writing a name -/

/-- Each label behind its length. -/
def encode (labels : List (List UInt8)) : List UInt8 :=
  labels.flatMap fun label => UInt8.ofNat label.length :: label

@[simp] theorem encode_nil : encode [] = [] := rfl

@[simp] theorem encode_cons (label : List UInt8) (labels : List (List UInt8)) :
    encode (label :: labels) = UInt8.ofNat label.length :: label ++ encode labels := rfl

/-- The labels a length octet can carry. -/
def Encodable (labels : List (List UInt8)) : Prop :=
  ∀ label ∈ labels, 1 ≤ label.length ∧ label.length ≤ 63

/-- Behind any octets and before any others, the labels are read as they were written. -/
theorem walk_encode (before after : List UInt8) (h : Encodable labels) :
    Walk (before ++ encode labels ++ after) 0 before.length labels
      (before.length + (encode labels).length) := by
  induction labels generalizing before with
  | nil => exact .here _
  | cons label labels ih =>
    obtain ⟨hpos, hle⟩ := h label List.mem_cons_self
    have hlen : (UInt8.ofNat label.length).toNat = label.length := by
      rw [UInt8.toNat_ofNat']
      exact Nat.mod_eq_of_lt (by omega)
    have hrest := ih (before ++ UInt8.ofNat label.length :: label)
      fun l hl => h l (List.mem_cons_of_mem _ hl)
    have hdata : before ++ UInt8.ofNat label.length :: label ++ encode labels ++ after =
        before ++ encode (label :: labels) ++ after := by simp
    have hoffset : (before ++ UInt8.ofNat label.length :: label).length =
        before.length + 1 + (UInt8.ofNat label.length).toNat := by
      rw [hlen, List.length_append, List.length_cons]
      omega
    have hstop : (before ++ UInt8.ofNat label.length :: label).length + (encode labels).length =
        before.length + (encode (label :: labels)).length := by
      simp only [List.length_append, List.length_cons, encode_cons]
      omega
    rw [hdata, hoffset] at hrest
    rw [hoffset] at hstop
    rw [hstop] at hrest
    have hwalk := Walk.label (b := UInt8.ofNat label.length) (by simp) ?_
      (not_isPointer_ofNat hle) ?_ hrest
    · have htake : ((before ++ encode (label :: labels) ++ after).drop (before.length + 1)).take
          (UInt8.ofNat label.length).toNat = label := by
        rw [hlen, List.append_assoc, ← List.drop_drop, List.drop_left]
        simp
      rwa [htake] at hwalk
    · intro hzero
      rw [hzero] at hlen
      exact absurd hlen (by rw [UInt8.toNat_zero]; omega)
    · rw [hlen]
      simp only [List.length_append, encode_cons, List.length_cons]
      omega

end WireName
