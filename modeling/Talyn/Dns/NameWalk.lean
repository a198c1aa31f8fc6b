import Talyn.Dns.Message
import Talyn.Lib.WireName

/-!
# The two readers of names

`skip_name` and `parse_name` walk the same names. `parse_name` follows pointers, at most ten, and
leaves its loop at a zero octet or, without an error, where the walk leaves the message; `skip_name`
refuses the second. Both are stated here in terms of `WireName.Walk`.
-/

namespace Talyn.Dns

open WireName

variable {data : Datagram} {n offset stop fuel visited : ℕ} {labels : List Datagram}
  {result name : Datagram} {b c : UInt8}

theorem getD_of_getElem? (hb : data[offset]? = some b) : data.getD offset 0 = b := by
  simp [hb]

theorem lt_of_getElem? (hb : data[offset]? = some b) : offset < data.length :=
  (List.getElem?_eq_some_iff.mp hb).1

theorem toNat_ne_zero (h : b ≠ 0) : b.toNat ≠ 0 := fun h0 => h (UInt8.toNat_inj.mp h0)

/-! ### Joined labels -/

/-- What `parse_name` makes of a text and the labels it reads next. -/
def joinOnto (result : Datagram) : List Datagram → Datagram
  | [] => result
  | label :: labels =>
    joinOnto ((if result.length > 0 then result ++ [dot] else result) ++ label) labels

theorem joinOnto_of_ne_nil (h : result ≠ []) :
    joinOnto result labels = result ++ labels.flatMap fun label => dot :: label := by
  induction labels generalizing result with
  | nil => simp [joinOnto]
  | cons label labels ih =>
    have hpos : result.length > 0 := List.length_pos_iff.mpr h
    rw [joinOnto, if_pos hpos, ih (by simp [h])]
    simp

theorem intercalate_cons (label : Datagram) (labels : List Datagram) :
    [dot].intercalate (label :: labels) = label ++ labels.flatMap fun l => dot :: l := by
  induction labels generalizing label with
  | nil => simp [List.intercalate]
  | cons l labels ih =>
    have hrest := ih l
    simp only [List.intercalate, List.intersperse_cons_cons, List.flatten_cons] at hrest ⊢
    rw [hrest]
    simp

/-- Labels that are not empty are joined by dots. -/
theorem joinOnto_nil (h : ∀ label ∈ labels, label ≠ []) :
    joinOnto [] labels = [dot].intercalate labels := by
  cases labels with
  | nil => rfl
  | cons label labels =>
    have hne : label ≠ [] := h label List.mem_cons_self
    rw [joinOnto, intercalate_cons]
    exact joinOnto_of_ne_nil hne

/-! ### The loop of `parse_name` -/

/-- The loop of `parse_name` with the offset it ends at. -/
def parseNameLoop (data : Datagram) : ℕ → ℕ → ℕ → Datagram → Option (Datagram × ℕ)
  | 0, _, _, _ => none
  | fuel + 1, offset, visitedPointers, result =>
    if offset < data.length then
      let byte := (data.getD offset 0).toNat
      if byte = 0 then some (result, offset + 1)
      else if byte &&& 0xC0 = 0xC0 then
        if visitedPointers ≥ 10 then none
        else if offset + 1 ≥ data.length then none
        else
          parseNameLoop data fuel
            ((byte &&& 0x3F) * 256 + (data.getD (offset + 1) 0).toNat) (visitedPointers + 1) result
      else if offset + 1 + byte > data.length then none
      else
        let result := if result.length > 0 then result ++ [dot] else result
        parseNameLoop data fuel (offset + byte + 1) visitedPointers
          (result ++ (data.drop (offset + 1)).take byte)
    else some (result, offset)

/-- The name that `parse_name` returns and the offset at which its loop ends. -/
def parseNameEnd (data : Datagram) (offset : ℕ) : Option (Datagram × ℕ) :=
  parseNameLoop data (11 * (data.length + 1)) offset 0 []

theorem parseNameFrom_eq_loop : parseNameFrom data fuel offset visited result =
    (parseNameLoop data fuel offset visited result).map Prod.fst := by
  induction fuel generalizing offset visited result with
  | zero => rfl
  | succ fuel ih =>
    simp only [parseNameFrom, parseNameLoop]
    split_ifs <;> first | rfl | exact ih

/-- `parse_name` returns the name its loop ends with. -/
theorem parseName_eq_end (data : Datagram) (offset : ℕ) :
    parseName data offset = (parseNameEnd data offset).map Prod.fst :=
  parseNameFrom_eq_loop

/-- Where a loop that has read everything ends: behind the zero octet. -/
def endOf (data : Datagram) (stop : ℕ) : ℕ := if stop < data.length then stop + 1 else stop

theorem loop_final (hf : Final data offset) :
    parseNameLoop data (fuel + 1) offset visited result = some (result, endOf data offset) := by
  rcases hf with hb | hb
  · simp only [parseNameLoop, endOf, lt_of_getElem? hb, getD_of_getElem? hb, UInt8.toNat_zero,
      if_true]
  · have hle : data.length ≤ offset := List.getElem?_eq_none_iff.mp hb
    simp [parseNameLoop, endOf, Nat.not_lt.mpr hle]

theorem loop_pointer (hb : data[offset]? = some b) (hp : IsPointer b)
    (hc : data[offset + 1]? = some c) (hv : visited < 10) :
    parseNameLoop data (fuel + 1) offset visited result =
      parseNameLoop data fuel (target b c) (visited + 1) result := by
  have hzero : b.toNat ≠ 0 := by
    intro h0
    obtain rfl : b = 0 := UInt8.toNat_inj.mp h0
    exact not_isPointer_zero hp
  have hp' : b.toNat &&& 0xC0 = 0xC0 := hp
  simp only [parseNameLoop, getD_of_getElem? hb, getD_of_getElem? hc, lt_of_getElem? hb,
    if_true, hzero, if_false, hp', Nat.not_le.mpr hv, ge_iff_le,
    Nat.not_le.mpr (lt_of_getElem? hc)]
  rfl

theorem loop_label (hb : data[offset]? = some b) (hzero : b ≠ 0) (hp : ¬IsPointer b)
    (hfit : offset + 1 + b.toNat ≤ data.length) :
    parseNameLoop data (fuel + 1) offset visited result =
      parseNameLoop data fuel (offset + 1 + b.toNat) visited
        ((if result.length > 0 then result ++ [dot] else result) ++
          (data.drop (offset + 1)).take b.toNat) := by
  have hp' : ¬b.toNat &&& 0xC0 = 0xC0 := hp
  have hoffset : offset + b.toNat + 1 = offset + 1 + b.toNat := by omega
  simp only [parseNameLoop, getD_of_getElem? hb, lt_of_getElem? hb, if_true,
    toNat_ne_zero hzero, if_false, hp', gt_iff_lt, Nat.not_lt.mpr hfit, hoffset]

/-- The loop runs along every walk of few enough pointers, and there are turns enough. -/
theorem loop_of_walk (h : Walk data n offset labels stop) (hf : Final data stop)
    (hv : visited + n ≤ 10)
    (hfuel : n * (data.length + 1) + (data.length - offset) + 1 ≤ fuel) :
    parseNameLoop data fuel offset visited result =
      some (joinOnto result labels, endOf data stop) := by
  induction h generalizing fuel visited result with
  | here =>
    obtain ⟨fuel, rfl⟩ : ∃ k, fuel = k + 1 := ⟨fuel - 1, by omega⟩
    exact loop_final hf
  | label hb hzero hp hfit rest ih =>
    obtain ⟨fuel, rfl⟩ : ∃ k, fuel = k + 1 := ⟨fuel - 1, by omega⟩
    rw [loop_label hb hzero hp hfit, joinOnto]
    exact ih hf hv (by omega)
  | @pointer n offset stop labels b c hb hp hc rest ih =>
    obtain ⟨fuel, rfl⟩ : ∃ k, fuel = k + 1 := ⟨fuel - 1, by omega⟩
    have hlt : offset < data.length := lt_of_getElem? hb
    have hmul : (n + 1) * (data.length + 1) = n * (data.length + 1) + (data.length + 1) := by
      ring
    rw [loop_pointer hb hp hc (by omega)]
    exact ih hf (by omega) (by omega)

/-- A loop that ends has run along a walk. -/
theorem walk_of_loop (h : parseNameLoop data fuel offset visited result = some (name, stop))
    (hv : visited ≤ 10) :
    ∃ n labels stop', visited + n ≤ 10 ∧ Walk data n offset labels stop' ∧ Final data stop' ∧
      name = joinOnto result labels ∧ stop = endOf data stop' := by
  induction fuel generalizing offset visited result with
  | zero => exact nomatch h
  | succ fuel ih =>
    rcases hb : data[offset]? with _ | b
    · rw [loop_final (Or.inr hb)] at h
      obtain ⟨rfl, rfl⟩ := Prod.mk.inj (Option.some.inj h)
      exact ⟨0, [], offset, by omega, .here _, Or.inr hb, rfl, rfl⟩
    by_cases hzero : b = 0
    · subst hzero
      rw [loop_final (Or.inl hb)] at h
      obtain ⟨rfl, rfl⟩ := Prod.mk.inj (Option.some.inj h)
      exact ⟨0, [], offset, by omega, .here _, Or.inl hb, rfl, rfl⟩
    have hlt := lt_of_getElem? hb
    by_cases hp : IsPointer b
    · have hp' : b.toNat &&& 0xC0 = 0xC0 := hp
      by_cases hten : visited ≥ 10
      · simp only [parseNameLoop, hlt, if_true, getD_of_getElem? hb, toNat_ne_zero hzero, if_false,
          hp', hten, reduceCtorEq] at h
      rcases hc : data[offset + 1]? with _ | c
      · have hle : data.length ≤ offset + 1 := List.getElem?_eq_none_iff.mp hc
        simp only [parseNameLoop, hlt, if_true, getD_of_getElem? hb, toNat_ne_zero hzero, if_false,
          hp', hten, ge_iff_le, hle, reduceCtorEq] at h
      · rw [loop_pointer hb hp hc (by omega)] at h
        obtain ⟨n, labels, stop', hn, hwalk, hf, hname, hstop⟩ := ih h (by omega)
        exact ⟨n + 1, labels, stop', by omega, .pointer hb hp hc hwalk, hf, hname, hstop⟩
    · by_cases hfit : offset + 1 + b.toNat ≤ data.length
      · rw [loop_label hb hzero hp hfit] at h
        obtain ⟨n, labels, stop', hn, hwalk, hf, hname, hstop⟩ := ih h hv
        exact ⟨n, _, stop', hn, .label hb hzero hp hfit hwalk, hf, hname, hstop⟩
      · have hp' : ¬b.toNat &&& 0xC0 = 0xC0 := hp
        have hgt : data.length < offset + 1 + b.toNat := by omega
        simp only [parseNameLoop, hlt, if_true, getD_of_getElem? hb, toNat_ne_zero hzero, if_false,
          hp', gt_iff_lt, hgt, reduceCtorEq] at h

/-- `parse_name` succeeds exactly along walks of at most ten pointers that cannot go on. -/
theorem parseNameEnd_eq_some_iff : parseNameEnd data offset = some (name, stop) ↔
    ∃ n ≤ 10, ∃ labels stop', Walk data n offset labels stop' ∧ Final data stop' ∧
      name = [dot].intercalate labels ∧ stop = endOf data stop' := by
  constructor
  · intro h
    obtain ⟨n, labels, stop', hn, hwalk, hf, hname, hstop⟩ := walk_of_loop h (Nat.zero_le _)
    rw [joinOnto_nil hwalk.ne_nil] at hname
    exact ⟨n, by omega, labels, stop', hwalk, hf, hname, hstop⟩
  · rintro ⟨n, hn, labels, stop', hwalk, hf, rfl, rfl⟩
    have hmul : n * (data.length + 1) ≤ 10 * (data.length + 1) := Nat.mul_le_mul_right _ hn
    have hfuel : n * (data.length + 1) + (data.length - offset) + 1 ≤
        11 * (data.length + 1) := by omega
    rw [parseNameEnd, loop_of_walk hwalk hf (by omega) hfuel, joinOnto_nil hwalk.ne_nil]

/-! ### `skip_name` -/

/-- `skip_name` passes the labels of a walk without pointers and the zero octet behind them. -/
theorem skipNameFrom_of_walk (h : Walk data 0 offset labels stop) (hf : data[stop]? = some 0)
    (hfuel : data.length - offset ≤ fuel) :
    skipNameFrom data fuel offset = some (stop + 1) := by
  generalize hn : 0 = n at h
  induction h generalizing fuel with
  | here offset =>
    have hlt := lt_of_getElem? hf
    obtain ⟨fuel, rfl⟩ : ∃ k, fuel = k + 1 := ⟨fuel - 1, by omega⟩
    simp only [skipNameFrom, hlt, if_true, getD_of_getElem? hf, UInt8.toNat_zero]
  | @label n offset stop labels b hb hzero hp hfit rest ih =>
    have hlt := lt_of_getElem? hb
    have hp' : ¬b.toNat &&& 0xC0 = 0xC0 := hp
    have hoffset : offset + b.toNat + 1 = offset + 1 + b.toNat := by omega
    obtain ⟨fuel, rfl⟩ : ∃ k, fuel = k + 1 := ⟨fuel - 1, by omega⟩
    simp only [skipNameFrom, hlt, if_true, getD_of_getElem? hb, toNat_ne_zero hzero, if_false,
      hp', hoffset]
    exact ih hf (by omega) hn
  | pointer => exact absurd hn (by omega)

/-- Without pointers, `skip_name` ends behind the zero octet of a walk. -/
theorem walk_of_skipNameFrom (h : skipNameFrom data fuel offset = some stop)
    (hp : PointerFree data offset) :
    ∃ labels stop', Walk data 0 offset labels stop' ∧ data[stop']? = some 0 ∧
      stop = stop' + 1 := by
  induction fuel generalizing offset with
  | zero => exact nomatch h
  | succ fuel ih =>
    rcases hb : data[offset]? with _ | b
    · have hle : data.length ≤ offset := List.getElem?_eq_none_iff.mp hb
      simp [skipNameFrom, Nat.not_lt.mpr hle] at h
    have hlt := lt_of_getElem? hb
    by_cases hzero : b = 0
    · subst hzero
      simp only [skipNameFrom, hlt, if_true, getD_of_getElem? hb, UInt8.toNat_zero] at h
      exact ⟨[], offset, .here _, hb, (Option.some.inj h).symm⟩
    have hnp : ¬IsPointer b := hp [] offset b (.here _) hb
    have hnp' : ¬b.toNat &&& 0xC0 = 0xC0 := hnp
    have hoffset : offset + b.toNat + 1 = offset + 1 + b.toNat := by omega
    simp only [skipNameFrom, hlt, if_true, getD_of_getElem? hb, toNat_ne_zero hzero, if_false,
      hnp', hoffset] at h
    by_cases hfit : offset + 1 + b.toNat ≤ data.length
    · have hp' : PointerFree data (offset + 1 + b.toNat) := fun labels stop b' hwalk =>
        hp _ stop b' (.label hb hzero hnp hfit hwalk)
      obtain ⟨labels, stop', hwalk, hf, hstop⟩ := ih h hp'
      exact ⟨_, stop', .label hb hzero hnp hfit hwalk, hf, hstop⟩
    · -- a label that leaves the message: the next turn finds no octet
      cases fuel with
      | zero => exact nomatch h
      | succ fuel =>
        have hge : ¬offset + 1 + b.toNat < data.length := by omega
        simp [skipNameFrom, hge] at h

/-- Without pointers, `skip_name` succeeds exactly when a zero octet ends the name. -/
theorem skipName_eq_some_iff (hp : PointerFree data offset) : skipName data offset = some stop ↔
    ∃ labels stop', Walk data 0 offset labels stop' ∧ data[stop']? = some 0 ∧
      stop = stop' + 1 := by
  constructor
  · intro h
    exact walk_of_skipNameFrom h hp
  · rintro ⟨labels, stop', hwalk, hf, rfl⟩
    exact skipNameFrom_of_walk hwalk hf (by omega)

/-- Without pointers the two readers of a name that ends agree. -/
theorem readers_of_walk (h : Walk data 0 offset labels stop) (hf : data[stop]? = some 0) :
    skipName data offset = some (stop + 1) ∧
      parseNameEnd data offset = some ([dot].intercalate labels, stop + 1) := by
  have hend : endOf data stop = stop + 1 := if_pos (lt_of_getElem? hf)
  exact ⟨skipNameFrom_of_walk h hf (by omega),
    parseNameEnd_eq_some_iff.mpr ⟨0, by omega, labels, stop, h, Or.inl hf, rfl, hend.symm⟩⟩

/-! ### Agreement -/

/-- What a reader of names promises at `offset`: a name it returns ends in the message, a walk that
leaves the message is refused, and on names without pointers both readers succeed together and end
at the same place. -/
structure ReadsNames (data : Datagram) (offset : ℕ) : Prop where
  terminated : ∀ name, parseName data offset = some name →
    ∃ labels, Terminated data offset labels ∧ name = [dot].intercalate labels
  refused : ∀ n labels stop, Walk data n offset labels stop → data.length ≤ stop →
    parseName data offset = none
  agree : PointerFree data offset →
    (parseNameEnd data offset).map Prod.snd = skipName data offset

/-- The readers of names keep their promise at exactly the offsets from which no walk of at most ten
pointers leaves the message. -/
theorem readsNames_iff_not_runsOff (data : Datagram) (offset : ℕ) :
    ReadsNames data offset ↔ ¬RunsOff data 10 offset := by
  constructor
  · rintro h ⟨n, hn, labels, stop, hwalk, hle⟩
    have hend := parseNameEnd_eq_some_iff.mpr
      ⟨n, hn, labels, stop, hwalk, final_of_le hle, rfl, rfl⟩
    have hnone := h.refused n labels stop hwalk hle
    rw [parseName_eq_end, hend] at hnone
    exact nomatch hnone
  · intro hoff
    -- a final place of a walk that stays inside is a zero octet
    have hzero : ∀ {n labels stop}, n ≤ 10 → Walk data n offset labels stop → Final data stop →
        data[stop]? = some 0 := by
      intro n labels stop hn hwalk hf
      rcases hf with hf | hf
      · exact hf
      · exact absurd ⟨n, hn, labels, stop, hwalk, List.getElem?_eq_none_iff.mp hf⟩ hoff
    refine ⟨fun name hname => ?_, fun n labels stop hwalk hle => ?_, fun hfree => ?_⟩
    · rw [parseName_eq_end, Option.map_eq_some_iff] at hname
      obtain ⟨⟨name', stop⟩, hend, rfl⟩ := hname
      obtain ⟨n, hn, labels, stop', hwalk, hf, hjoin, -⟩ := parseNameEnd_eq_some_iff.mp hend
      exact ⟨labels, ⟨n, stop', hwalk, hzero hn hwalk hf⟩, hjoin⟩
    · rw [parseName_eq_end, Option.map_eq_none_iff]
      rcases hend : parseNameEnd data offset with _ | ⟨name, stop'⟩
      · rfl
      · obtain ⟨n', hn', labels', stop'', hwalk', hf, -, -⟩ := parseNameEnd_eq_some_iff.mp hend
        obtain ⟨rfl, rfl, rfl⟩ := hwalk.unique (final_of_le hle) hwalk' hf
        exact absurd ⟨n, hn', labels, stop, hwalk, hle⟩ hoff
    · apply Option.ext
      intro stop
      rw [Option.map_eq_some_iff, skipName_eq_some_iff hfree]
      constructor
      · rintro ⟨⟨name, stop'⟩, hend, rfl⟩
        obtain ⟨n, hn, labels, stop'', hwalk, hf, -, hstop⟩ := parseNameEnd_eq_some_iff.mp hend
        have hf' := hzero hn hwalk hf
        obtain rfl := hfree.pointers_eq_zero hwalk
        rw [endOf, if_pos (lt_of_getElem? hf')] at hstop
        exact ⟨labels, stop'', hwalk, hf', hstop⟩
      · rintro ⟨labels, stop', hwalk, hf, rfl⟩
        exact ⟨_, (readers_of_walk hwalk hf).2, rfl⟩

/-- One label and then the end of the message: `parse_name` returns it, `skip_name` refuses. -/
theorem readers_disagree : parseName [1, 97] 0 = some [97] ∧ skipName [1, 97] 0 = none ∧
    ¬ReadsNames [1, 97] 0 := by
  have hwalk : Walk [1, 97] 0 0 [[97]] 2 :=
    .label (b := 1) rfl (by decide) (by decide) (by decide) (.here 2)
  refine ⟨by decide, by decide, fun h => ?_⟩
  exact absurd (h.refused 0 [[97]] 2 hwalk (by decide)) (by decide)

end Talyn.Dns
