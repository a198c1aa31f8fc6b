import Talyn.Lib.Loops
import Talyn.Dns.Bounds

/-!
# The turns of `parse_name`

`parse_name` again, turn by turn and without a bound on the turns: every index is checked, and every
append of the name may run out of memory. A pointer may lead anywhere, also backwards; what ends the
loop is that at most ten are followed and that the offset grows between them. The same two facts bound
the length of the name.
-/

namespace Talyn.Dns

open WireName

/-- The variables of the loop that are read again (`jump_offset` is not). -/
structure NameCursor where
  offset : ℕ
  visitedPointers : ℕ
  result : Datagram
  deriving DecidableEq, Repr

/-- Where the loop begins. -/
def NameCursor.start (initialOffset : ℕ) : NameCursor := ⟨initialOffset, 0, []⟩

/-- The errors of `parse_name`. -/
inductive NameError
  | malformedDnsResponse
  | outOfMemory
  deriving DecidableEq, Repr

/-- Whether `result` can be as long as that, and whether it can be given away. -/
structure NameMemory where
  grow : ℕ → Bool
  own : Bool

/-- Enough memory. -/
def NameMemory.ok : NameMemory := ⟨fun _ => true, true⟩

/-- `max_pointers`. -/
def maxPointers : ℕ := 10

/-- `result.toOwnedSlice`. -/
def NameMemory.owned (memory : NameMemory) (result : Datagram) : Except NameError Datagram :=
  if memory.own then .ok result else .error .outOfMemory

/-- The appends of a dot, unless the label is the first, and of the label. -/
def NameMemory.appendLabel (memory : NameMemory) (result label : Datagram) :
    Except NameError Datagram :=
  if result.length > 0 ∧ memory.grow (result.length + 1) = false then .error .outOfMemory
  else
    let result := if result.length > 0 then result ++ [dot] else result
    if memory.grow (result.length + label.length) then .ok (result ++ label)
    else .error .outOfMemory

/-- One turn of the loop of `parse_name`. -/
def parseNameTurn (data : Datagram) (memory : NameMemory) (c : NameCursor) :
    Except Fault (NameCursor ⊕ Except NameError Datagram) :=
  if c.offset < data.length then do
    let byte ← byteAt data c.offset
    if byte.toNat = 0 then return .inr (memory.owned c.result)
    else if byte.toNat &&& 0xC0 = 0xC0 then
      if c.visitedPointers ≥ maxPointers then return .inr (.error .malformedDnsResponse)
      else if c.offset + 1 ≥ data.length then return .inr (.error .malformedDnsResponse)
      else do
        let low ← byteAt data (c.offset + 1)
        return .inl ⟨(byte.toNat &&& 0x3F) * 256 + low.toNat, c.visitedPointers + 1, c.result⟩
    else if c.offset + 1 + byte.toNat > data.length then
      return .inr (.error .malformedDnsResponse)
    else do
      let label ← slice data (c.offset + 1) (c.offset + 1 + byte.toNat)
      match memory.appendLabel c.result label with
      | .error e => return .inr (.error e)
      | .ok result => return .inl ⟨c.offset + byte.toNat + 1, c.visitedPointers, result⟩
  else return .inr (memory.owned c.result)

variable {data : Datagram} {memory : NameMemory} {c c' : NameCursor} {n offset : ℕ}
  {outcome : Except NameError Datagram} {result label name : Datagram}

/-- A label adds its length and at most a dot. -/
theorem length_appendLabel (h : memory.appendLabel result label = .ok name) :
    name.length ≤ result.length + 1 + label.length := by
  unfold NameMemory.appendLabel at h
  dsimp only at h
  split_ifs at h <;>
    (obtain rfl := Except.ok.inj h; simp only [List.length_append, List.length_singleton]; omega)

theorem owned_eq_ok (h : memory.owned result = .ok name) : name = result := by
  unfold NameMemory.owned at h
  split at h
  · exact (Except.ok.inj h).symm
  · exact nomatch h

/-- What a turn does. -/
inductive TurnOf (data : Datagram) (c : NameCursor) : NameCursor ⊕ Except NameError Datagram → Prop
  /-- the name is complete -/
  | stop {outcome : Except NameError Datagram} (h : ∀ name, outcome = .ok name → name = c.result) :
      TurnOf data c (.inr outcome)
  /-- a pointer is followed -/
  | pointer {offset : ℕ} (hlt : c.offset < data.length) (hbudget : c.visitedPointers < maxPointers) :
      TurnOf data c (.inl ⟨offset, c.visitedPointers + 1, c.result⟩)
  /-- a label inside of the message is appended -/
  | label {length : ℕ} {result : Datagram} (hfit : c.offset + 1 + length ≤ data.length)
      (hresult : result.length ≤ c.result.length + 1 + length) :
      TurnOf data c (.inl ⟨c.offset + length + 1, c.visitedPointers, result⟩)

/-- Every turn can be made, wherever the cursor stands. -/
theorem parseNameTurn_spec (data : Datagram) (memory : NameMemory) (c : NameCursor) :
    ∃ x, parseNameTurn data memory c = .ok x ∧ TurnOf data c x := by
  have hstop : TurnOf data c (.inr (memory.owned c.result)) := .stop fun _ h => owned_eq_ok h
  have herror : ∀ e : NameError, TurnOf data c (.inr (.error e)) := fun e => .stop nofun
  by_cases hlt : c.offset < data.length
  swap
  · exact ⟨_, by rw [parseNameTurn, if_neg hlt]; rfl, hstop⟩
  obtain ⟨b, hb⟩ := getElem?_of_lt hlt
  rw [parseNameTurn, if_pos hlt, byteAt_eq hb, Fault.ok_bind]
  split_ifs with hzero hpointer hten hend hlong
  · exact ⟨_, rfl, hstop⟩
  · exact ⟨_, rfl, herror _⟩
  · exact ⟨_, rfl, herror _⟩
  · obtain ⟨low, hlow⟩ := getElem?_of_lt (Nat.lt_of_not_le hend)
    rw [byteAt_eq hlow, Fault.ok_bind]
    exact ⟨_, rfl, .pointer hlt (Nat.lt_of_not_le hten)⟩
  · exact ⟨_, rfl, herror _⟩
  · have hfit : c.offset + 1 + b.toNat ≤ data.length := by omega
    rw [slice_eq (by omega) hfit, Fault.ok_bind]
    cases happend : memory.appendLabel c.result
        ((data.take (c.offset + 1 + b.toNat)).drop (c.offset + 1)) with
    | error e => exact ⟨_, rfl, herror e⟩
    | ok result =>
      refine ⟨_, rfl, .label hfit ?_⟩
      have hlength := length_appendLabel happend
      simp only [List.length_drop, List.length_take] at hlength
      omega

theorem turnOf_of_turn {x : NameCursor ⊕ Except NameError Datagram}
    (h : parseNameTurn data memory c = .ok x) : TurnOf data c x := by
  obtain ⟨x', hx', hturn⟩ := parseNameTurn_spec data memory c
  obtain rfl := Except.ok.inj (h.symm.trans hx')
  exact hturn

/-- The segments still allowed, and what is left of this one. -/
def NameCursor.measure (data : Datagram) (c : NameCursor) : ℕ :=
  (maxPointers - c.visitedPointers) * (data.length + 1) + (data.length - c.offset)

/-- At most ten pointers were followed, and the name is not longer than the segments that were passed
and the part of this one. -/
structure NameCursor.Bounded (data : Datagram) (c : NameCursor) : Prop where
  pointers : c.visitedPointers ≤ maxPointers
  length : c.result.length ≤ c.visitedPointers * data.length + min c.offset data.length

theorem NameCursor.bounded_start (data : Datagram) (offset : ℕ) : (start offset).Bounded data :=
  ⟨Nat.zero_le _, by simp [start]⟩

/-- A turn keeps the bounds, and the measure falls: a pointer takes a whole segment from it, whatever
its target. -/
theorem NameCursor.Bounded.turn (h : c.Bounded data) (hturn : TurnOf data c (.inl c')) :
    c'.Bounded data ∧ c'.measure data < c.measure data := by
  have hlength := h.length
  cases hturn with
  | pointer hlt hbudget =>
    refine ⟨⟨hbudget, ?_⟩, ?_⟩
    · simp only [Nat.add_mul, one_mul]
      omega
    · have hmul : (maxPointers - c.visitedPointers) * (data.length + 1) =
          (maxPointers - (c.visitedPointers + 1)) * (data.length + 1) + (data.length + 1) := by
        rw [show maxPointers - c.visitedPointers = maxPointers - (c.visitedPointers + 1) + 1 by omega]
        ring
      simp only [measure]
      omega
  | label hfit hresult =>
    refine ⟨⟨h.pointers, ?_⟩, ?_⟩
    · dsimp only
      omega
    · simp only [measure]
      omega

/-- The bounds hold at every turn. -/
theorem bounded_of_turns (h : Loops.Turns (parseNameTurn data memory) n (.start offset) c) :
    c.Bounded data :=
  h.invariant (NameCursor.bounded_start data offset) fun _ _ hu hturn =>
    (hu.turn (turnOf_of_turn hturn)).1

/-- With enough memory, a turn is a turn of the loop with a bound. -/
theorem parseNameAt_succ (fuel : ℕ) :
    parseNameAt data (fuel + 1) c.offset c.visitedPointers c.result =
      parseNameTurn data .ok c >>= fun
        | .inl c => parseNameAt data fuel c.offset c.visitedPointers c.result
        | .inr outcome => .ok outcome.toOption := by
  by_cases hlt : c.offset < data.length
  swap
  · simp only [parseNameAt, parseNameTurn, if_neg hlt]
    rfl
  obtain ⟨b, hb⟩ := getElem?_of_lt hlt
  simp only [parseNameAt, parseNameTurn, if_pos hlt, byteAt_eq hb, Fault.ok_bind]
  by_cases hzero : b.toNat = 0
  · simp only [if_pos hzero]
    rfl
  simp only [if_neg hzero]
  by_cases hpointer : b.toNat &&& 0xC0 = 0xC0
  · simp only [if_pos hpointer]
    by_cases hten : c.visitedPointers ≥ maxPointers
    · have hten' : c.visitedPointers ≥ 10 := hten
      simp only [if_pos hten, if_pos hten']
      rfl
    have hten' : ¬c.visitedPointers ≥ 10 := hten
    simp only [if_neg hten, if_neg hten']
    by_cases hend : c.offset + 1 ≥ data.length
    · simp only [if_pos hend]
      rfl
    obtain ⟨low, hlow⟩ := getElem?_of_lt (Nat.lt_of_not_le hend)
    simp only [if_neg hend, byteAt_eq hlow]
    rfl
  · simp only [if_neg hpointer]
    by_cases hlong : c.offset + 1 + b.toNat > data.length
    · simp only [if_pos hlong]
      rfl
    have hlabel : slice data (c.offset + 1) (c.offset + 1 + b.toNat) =
        .ok ((data.take (c.offset + 1 + b.toNat)).drop (c.offset + 1)) :=
      slice_eq (by omega) (Nat.le_of_not_lt hlong)
    simp only [if_neg hlong, hlabel, Fault.ok_bind, NameMemory.appendLabel, NameMemory.ok,
      Bool.true_eq_false, and_false, if_false, if_true]
    rfl

/-- What the loop comes to is what `parse_name` returns. -/
theorem parseName_of_ends (h : Loops.Ends (parseNameTurn data .ok) n (.start offset) outcome)
    (hn : n ≤ 11 * data.length + 10) : parseName data offset = outcome.toOption := by
  have hfuel : ∀ {fuel c}, Loops.Ends (parseNameTurn data .ok) n c outcome → n < fuel →
      parseNameAt data fuel c.offset c.visitedPointers c.result = .ok outcome.toOption := by
    clear h hn
    rintro fuel c ⟨last, hturns, hlast⟩ hlt
    induction hturns generalizing fuel with
    | refl =>
      obtain ⟨fuel, rfl⟩ : ∃ k, fuel = k + 1 := ⟨fuel - 1, by omega⟩
      rw [parseNameAt_succ, hlast]
      rfl
    | next hturn rest ih =>
      obtain ⟨fuel, rfl⟩ : ∃ k, fuel = k + 1 := ⟨fuel - 1, by omega⟩
      rw [parseNameAt_succ, hturn]
      exact ih hlast (by omega)
  have hat : parseNameAt data (11 * (data.length + 1)) _ _ _ = _ := hfuel h (by omega)
  rw [NameCursor.start, parseNameAt_eq (Nat.zero_le _) (by omega)] at hat
  exact Except.ok.inj hat

/-- **A name is read in bounded time.** Whatever the octets and the offset, every turn of `parse_name`
stays inside of the message, at most ten pointers are followed, the loop is left after at most
`11 * data.length + 10` turns before the last, and the name is at most 11 times as long as the
message. -/
theorem parse_name_bounded (data : Datagram) (initialOffset : ℕ) (memory : NameMemory) :
    (∀ n c, Loops.Turns (parseNameTurn data memory) n (.start initialOffset) c →
      c.visitedPointers ≤ 10 ∧ ∃ x, parseNameTurn data memory c = .ok x) ∧
    ∃ n ≤ 11 * data.length + 10, ∃ outcome,
      Loops.Ends (parseNameTurn data memory) n (.start initialOffset) outcome ∧
        ∀ name, outcome = .ok name → name.length ≤ 11 * data.length := by
  refine ⟨fun n c hc => ?_, ?_⟩
  · obtain ⟨x, hx, -⟩ := parseNameTurn_spec data memory c
    exact ⟨(bounded_of_turns hc).pointers, x, hx⟩
  · obtain ⟨n, hn, outcome, hends⟩ := Loops.ends_of_measure (NameCursor.measure data)
      (NameCursor.bounded_start data initialOffset) fun u hu => by
        obtain ⟨x, hx, hturn⟩ := parseNameTurn_spec data memory u
        exact ⟨x, hx, fun v hv => hu.turn (hv ▸ hturn)⟩
    have hmeasure : (NameCursor.start initialOffset).measure data ≤ 11 * data.length + 10 := by
      simp only [NameCursor.measure, NameCursor.start, maxPointers]
      omega
    refine ⟨n, hn.trans hmeasure, outcome, hends, fun name hname => ?_⟩
    obtain ⟨c, hc, hlast⟩ := hends
    have hbounded := bounded_of_turns hc
    cases turnOf_of_turn hlast with
    | stop hresult =>
      obtain rfl := hresult name hname
      have hmul := Nat.mul_le_mul_right data.length hbounded.pointers
      have hlength := hbounded.length
      simp only [maxPointers] at hmul
      omega

end Talyn.Dns
