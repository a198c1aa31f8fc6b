import Mathlib.Tactic

/-!
# `CallbackData`

One word holds a tag, two flags and either the result of an operation (32 bits of result, 16 of errno) or the
address of a `PythonPayload`. The parts of the word are read bit by bit, and a setter writes the bits of its own
part; what the getters return after any sequence of setters follows from that.
-/

namespace Talyn

/-- The errno type `E`: the tags that have a name. -/
structure ErrnoEnum where
  named : BitVec 16 → Bool
  success_named : named 0 = true
  inval_named : named 22 = true

namespace ErrnoEnum

/-- A value of the enumeration. -/
structure Value (E : ErrnoEnum) where
  tag : BitVec 16
  named : E.named tag = true

def success (E : ErrnoEnum) : E.Value := ⟨0, E.success_named⟩

def inval (E : ErrnoEnum) : E.Value := ⟨22, E.inval_named⟩

/-- `std.enums.fromInt`. -/
def fromInt (E : ErrnoEnum) (tag : BitVec 16) : Option E.Value :=
  if h : E.named tag = true then some ⟨tag, h⟩ else none

theorem fromInt_tag (E : ErrnoEnum) (err : E.Value) : E.fromInt err.tag = some err := dif_pos err.named

end ErrnoEnum

/-- `PythonPayload`; its members are pointers. -/
structure PythonPayload where
  modulePtr : Option (BitVec 64)
  callbackPtr : Option (BitVec 64)
  traverse : Option (BitVec 64)

/-- A pointer to a `PythonPayload`: an address that is not null and 8-byte aligned. -/
structure PayloadPtr where
  addr : BitVec 64
  nonnull : addr ≠ 0
  aligned : addr &&& 7 = 0

/-- `CallbackData`, with its word as it is packed. -/
structure CallbackWord where
  userData : Option (BitVec 64)
  payload : BitVec 64

namespace CallbackWord

variable {E : ErrnoEnum}

/-- `io_uring_res`. -/
def ioUringRes (d : CallbackWord) : Int32 :=
  if d.payload &&& 1 = 0 then 0
  else
    let val := (d.payload >>> 3) &&& 0xFFFFFFFF
    .ofBitVec (val.setWidth 32)

/-- `io_uring_err`. -/
def ioUringErr (d : CallbackWord) (E : ErrnoEnum) : E.Value :=
  if d.payload &&& 1 = 0 then E.success
  else
    let val := (d.payload >>> 35) &&& 0xFFFF
    (E.fromInt (val.setWidth 16)).getD E.inval

/-- What `module_ptr`, `callback_ptr` and `traverse` do: read a member of the payload from memory. -/
def member {β : Type*} (d : CallbackWord) (memory : BitVec 64 → PythonPayload) (read : PythonPayload → Option β) :
    Option β :=
  if d.payload &&& 1 ≠ 0 then none
  else
    let ptrVal := d.payload &&& ~~~7
    if ptrVal = 0 then none else read (memory ptrVal)

/-- `module_ptr`. -/
def modulePtr (d : CallbackWord) (memory : BitVec 64 → PythonPayload) : Option (BitVec 64) :=
  d.member memory PythonPayload.modulePtr

/-- `callback_ptr`. -/
def callbackPtr (d : CallbackWord) (memory : BitVec 64 → PythonPayload) : Option (BitVec 64) :=
  d.member memory PythonPayload.callbackPtr

/-- `traverse`. -/
def traverse (d : CallbackWord) (memory : BitVec 64 → PythonPayload) : Option (BitVec 64) :=
  d.member memory PythonPayload.traverse

/-- `cancelled`. -/
def cancelled (d : CallbackWord) : Bool := d.payload &&& 2 ≠ 0

/-- `batch_dispatched`. -/
def batchDispatched (d : CallbackWord) : Bool := d.payload &&& 4 ≠ 0

/-- `set_cancelled`. -/
def setCancelled (d : CallbackWord) (value : Bool) : CallbackWord :=
  if value then { d with payload := d.payload ||| 2 } else { d with payload := d.payload &&& ~~~2 }

/-- `set_batch_dispatched`. -/
def setBatchDispatched (d : CallbackWord) (value : Bool) : CallbackWord :=
  if value then { d with payload := d.payload ||| 4 } else { d with payload := d.payload &&& ~~~4 }

/-- `set_io`. -/
def setIo (d : CallbackWord) (res : Int32) (err : E.Value) : CallbackWord :=
  let flags := d.payload &&& 6
  let resU := res.toBitVec.setWidth 64
  let errU := err.tag.setWidth 64
  { d with payload := 1#64 ||| flags ||| (resU <<< 3) ||| (errU <<< 35) }

/-- `set_python`. -/
def setPython (d : CallbackWord) (py : Option PayloadPtr) : CallbackWord :=
  let flags := d.payload &&& 6
  match py with
  | some p => { d with payload := p.addr ||| flags }
  | none => { d with payload := flags }

/-- A call of a setter. -/
inductive Setter (E : ErrnoEnum)
  | io (res : Int32) (err : E.Value)
  | python (py : Option PayloadPtr)
  | cancelled (value : Bool)
  | batchDispatched (value : Bool)

/-- One setter. -/
def set (d : CallbackWord) : Setter E → CallbackWord
  | .io res err => d.setIo res err
  | .python py => d.setPython py
  | .cancelled value => d.setCancelled value
  | .batchDispatched value => d.setBatchDispatched value

/-! ### The bits of the word -/

theorem getLsbD_mask (n i : ℕ) (hn : n ≤ 64) : (BitVec.ofNat 64 (2 ^ n - 1)).getLsbD i = decide (i < n) := by
  rw [BitVec.getLsbD_ofNat, Nat.testBit_two_pow_sub_one]
  by_cases hi : i < n
  · simp [hi, show i < 64 by omega]
  · simp [hi]

theorem getLsbD_bit (n i : ℕ) (hn : n < 64) : (BitVec.ofNat 64 (2 ^ n)).getLsbD i = decide (i = n) := by
  rw [BitVec.getLsbD_ofNat, Nat.testBit_two_pow]
  by_cases hi : i = n
  · simp [hi, hn]
  · simp [hi, Ne.symm hi]

theorem and_bit_eq_zero (w : BitVec 64) (n : ℕ) (hn : n < 64) :
    w &&& BitVec.ofNat 64 (2 ^ n) = 0 ↔ w.getLsbD n = false := by
  constructor
  · intro h
    have hbit : (w &&& BitVec.ofNat 64 (2 ^ n)).getLsbD n = false := by
      rw [h]
      exact BitVec.getLsbD_zero
    rw [BitVec.getLsbD_and, getLsbD_bit n n hn, decide_eq_true rfl, Bool.and_true] at hbit
    exact hbit
  · intro h
    refine BitVec.eq_of_getLsbD_eq fun i _ => ?_
    rw [BitVec.getLsbD_and, getLsbD_bit n i hn]
    by_cases hi : i = n
    · simp [hi, h]
    · simp [hi]

variable {d d' : CallbackWord} {memory : BitVec 64 → PythonPayload} {β : Type*} {read : PythonPayload → Option β}

theorem tag_iff (d : CallbackWord) : d.payload &&& 1 = 0 ↔ d.payload.getLsbD 0 = false :=
  and_bit_eq_zero d.payload 0 (by omega)

theorem cancelled_eq (d : CallbackWord) : d.cancelled = d.payload.getLsbD 1 := by
  have h : d.payload &&& 2 = 0 ↔ d.payload.getLsbD 1 = false := and_bit_eq_zero d.payload 1 (by omega)
  rw [cancelled, Bool.eq_iff_iff, decide_eq_true_iff, ne_eq, h, Bool.not_eq_false]

theorem batchDispatched_eq (d : CallbackWord) : d.batchDispatched = d.payload.getLsbD 2 := by
  have h : d.payload &&& 4 = 0 ↔ d.payload.getLsbD 2 = false := and_bit_eq_zero d.payload 2 (by omega)
  rw [batchDispatched, Bool.eq_iff_iff, decide_eq_true_iff, ne_eq, h, Bool.not_eq_false]

/-- The bits of the result. -/
theorem getLsbD_res (w : BitVec 64) (i : ℕ) (hi : i < 32) :
    (((w >>> 3) &&& 0xFFFFFFFF).setWidth 32).getLsbD i = w.getLsbD (3 + i) := by
  have hmask : (0xFFFFFFFF : BitVec 64).getLsbD i = decide (i < 32) := getLsbD_mask 32 i (by omega)
  rw [BitVec.getLsbD_setWidth, BitVec.getLsbD_and, BitVec.getLsbD_ushiftRight, hmask]
  simp [hi]

/-- The bits of the errno. -/
theorem getLsbD_err (w : BitVec 64) (i : ℕ) (hi : i < 16) :
    (((w >>> 35) &&& 0xFFFF).setWidth 16).getLsbD i = w.getLsbD (35 + i) := by
  have hmask : (0xFFFF : BitVec 64).getLsbD i = decide (i < 16) := getLsbD_mask 16 i (by omega)
  rw [BitVec.getLsbD_setWidth, BitVec.getLsbD_and, BitVec.getLsbD_ushiftRight, hmask]
  simp [hi]

/-- The bits of the address. -/
theorem getLsbD_ptr (w : BitVec 64) (i : ℕ) (hi : i < 64) :
    (w &&& ~~~7).getLsbD i = (w.getLsbD i && decide (3 ≤ i)) := by
  have hmask : (7 : BitVec 64).getLsbD i = decide (i < 3) := getLsbD_mask 3 i (by omega)
  rw [BitVec.getLsbD_and, BitVec.getLsbD_not, hmask]
  by_cases h3 : i < 3
  · simp [h3]
  · simp [h3, hi, Nat.not_lt.1 h3]

/-- The words differ at most in the two flags. -/
def SameContent (d d' : CallbackWord) : Prop :=
  ∀ i, i ≠ 1 → i ≠ 2 → d'.payload.getLsbD i = d.payload.getLsbD i

theorem SameContent.tag_iff (h : SameContent d d') : d'.payload &&& 1 = 0 ↔ d.payload &&& 1 = 0 := by
  rw [CallbackWord.tag_iff, CallbackWord.tag_iff, h 0 (by omega) (by omega)]

theorem SameContent.ioUringRes (h : SameContent d d') : d'.ioUringRes = d.ioUringRes := by
  have hval : ((d'.payload >>> 3) &&& 0xFFFFFFFF).setWidth 32 = ((d.payload >>> 3) &&& 0xFFFFFFFF).setWidth 32 := by
    refine BitVec.eq_of_getLsbD_eq fun i hi => ?_
    rw [getLsbD_res _ i hi, getLsbD_res _ i hi, h _ (by omega) (by omega)]
  simp only [CallbackWord.ioUringRes, h.tag_iff, hval]

theorem SameContent.ioUringErr (h : SameContent d d') : d'.ioUringErr E = d.ioUringErr E := by
  have hval : ((d'.payload >>> 35) &&& 0xFFFF).setWidth 16 = ((d.payload >>> 35) &&& 0xFFFF).setWidth 16 := by
    refine BitVec.eq_of_getLsbD_eq fun i hi => ?_
    rw [getLsbD_err _ i hi, getLsbD_err _ i hi, h _ (by omega) (by omega)]
  simp only [CallbackWord.ioUringErr, h.tag_iff, hval]

theorem SameContent.member (h : SameContent d d') : d'.member memory read = d.member memory read := by
  have hptr : d'.payload &&& ~~~7 = d.payload &&& ~~~7 := by
    refine BitVec.eq_of_getLsbD_eq fun i hi => ?_
    rw [getLsbD_ptr _ i hi, getLsbD_ptr _ i hi]
    by_cases h3 : 3 ≤ i
    · rw [h i (by omega) (by omega)]
    · simp [h3]
  simp only [CallbackWord.member, ne_eq, h.tag_iff, hptr]

/-! ### The bits a setter writes -/

theorem getLsbD_setCancelled (value : Bool) (i : ℕ) :
    (d.setCancelled value).payload.getLsbD i = if i = 1 then value else d.payload.getLsbD i := by
  have hbit : (2 : BitVec 64).getLsbD i = decide (i = 1) := getLsbD_bit 1 i (by omega)
  cases value with
  | true =>
    show (d.payload ||| 2).getLsbD i = _
    rw [BitVec.getLsbD_or, hbit]
    by_cases hi : i = 1 <;> simp [hi]
  | false =>
    show (d.payload &&& ~~~2).getLsbD i = _
    rw [BitVec.getLsbD_and, BitVec.getLsbD_not, hbit]
    by_cases hi : i = 1
    · simp [hi]
    · simp only [hi, decide_false, Bool.not_false, Bool.and_true, if_false]
      exact Bool.and_eq_left_iff_imp.2 fun hset => decide_eq_true (BitVec.lt_of_getLsbD hset)

theorem getLsbD_setBatchDispatched (value : Bool) (i : ℕ) :
    (d.setBatchDispatched value).payload.getLsbD i = if i = 2 then value else d.payload.getLsbD i := by
  have hbit : (4 : BitVec 64).getLsbD i = decide (i = 2) := getLsbD_bit 2 i (by omega)
  cases value with
  | true =>
    show (d.payload ||| 4).getLsbD i = _
    rw [BitVec.getLsbD_or, hbit]
    by_cases hi : i = 2 <;> simp [hi]
  | false =>
    show (d.payload &&& ~~~4).getLsbD i = _
    rw [BitVec.getLsbD_and, BitVec.getLsbD_not, hbit]
    by_cases hi : i = 2
    · simp [hi]
    · simp only [hi, decide_false, Bool.not_false, Bool.and_true, if_false]
      exact Bool.and_eq_left_iff_imp.2 fun hset => decide_eq_true (BitVec.lt_of_getLsbD hset)

/-- The two flags that `set_io` and `set_python` keep. -/
theorem getLsbD_flags (w : BitVec 64) (i : ℕ) :
    (w &&& 6).getLsbD i = (w.getLsbD i && decide (i = 1 ∨ i = 2)) := by
  have hbits : (6 : BitVec 64).getLsbD i = decide (i = 1 ∨ i = 2) := by
    rw [show (6 : BitVec 64) = BitVec.ofNat 64 (2 ^ 1) ||| BitVec.ofNat 64 (2 ^ 2) from by decide, BitVec.getLsbD_or,
      getLsbD_bit 1 i (by omega), getLsbD_bit 2 i (by omega), Bool.decide_or]
  rw [BitVec.getLsbD_and, hbits]

/-- The tag, the flags, the result and the errno lie side by side. -/
theorem getLsbD_setIo (res : Int32) (err : E.Value) (i : ℕ) (hi : i < 64) :
    (d.setIo res err).payload.getLsbD i =
      if i = 0 then true
      else if i < 3 then d.payload.getLsbD i
      else if i < 35 then res.toBitVec.getLsbD (i - 3)
      else err.tag.getLsbD (i - 35) := by
  have hone : (1#64).getLsbD i = decide (i = 0) := getLsbD_bit 0 i (by omega)
  have hflags : (d.payload &&& 6#64).getLsbD i = (d.payload.getLsbD i && decide (i = 1 ∨ i = 2)) :=
    getLsbD_flags d.payload i
  show (1#64 ||| (d.payload &&& 6#64) ||| (res.toBitVec.setWidth 64 <<< 3) ||| (err.tag.setWidth 64 <<< 35)).getLsbD i = _
  rw [BitVec.getLsbD_or, BitVec.getLsbD_or, BitVec.getLsbD_or, hone, hflags, BitVec.getLsbD_shiftLeft,
    BitVec.getLsbD_shiftLeft, BitVec.getLsbD_setWidth, BitVec.getLsbD_setWidth]
  by_cases h0 : i = 0
  · simp [h0]
  · by_cases h3 : i < 3
    · have h12 : i = 1 ∨ i = 2 := by omega
      simp [h0, h3, h12, show i < 35 by omega]
    · have h12 : ¬(i = 1 ∨ i = 2) := by omega
      by_cases h35 : i < 35
      · simp [h0, h3, h12, h35, hi]
        omega
      · have hres : res.toBitVec.getLsbD (i - 3) = false := BitVec.getLsbD_of_ge _ _ (by omega)
        simp [h0, h3, h12, h35, hi, hres]
        omega

/-- An aligned address leaves the tag and the flags free. -/
theorem PayloadPtr.getLsbD_low (p : PayloadPtr) (i : ℕ) (hi : i < 3) : p.addr.getLsbD i = false := by
  have hmask : (7 : BitVec 64).getLsbD i = decide (i < 3) := getLsbD_mask 3 i (by omega)
  have hbit := congrArg (·.getLsbD i) p.aligned
  rw [BitVec.getLsbD_and, hmask, decide_eq_true hi, Bool.and_true] at hbit
  rw [hbit]
  exact BitVec.getLsbD_zero

theorem getLsbD_setPython (py : Option PayloadPtr) (i : ℕ) :
    (d.setPython py).payload.getLsbD i =
      if i = 1 ∨ i = 2 then d.payload.getLsbD i else (py.elim 0 PayloadPtr.addr).getLsbD i := by
  have hzero : (0 : BitVec 64).getLsbD i = false := BitVec.getLsbD_zero
  cases py with
  | none =>
    show (d.payload &&& 6).getLsbD i = _
    rw [getLsbD_flags, Option.elim_none, hzero]
    by_cases h12 : i = 1 ∨ i = 2
    · simp [h12]
    · simp [h12]
  | some p =>
    show (p.addr ||| (d.payload &&& 6)).getLsbD i = _
    rw [BitVec.getLsbD_or, getLsbD_flags, Option.elim_some]
    by_cases h12 : i = 1 ∨ i = 2
    · have hlow := PayloadPtr.getLsbD_low p i (by omega)
      simp [h12, hlow]
    · simp [h12]

/-! ### What the getters return after a setter -/

theorem userData_set (s : Setter E) : (d.set s).userData = d.userData := by
  cases s with
  | io res err => rfl
  | python py => cases py <;> rfl
  | cancelled value => cases value <;> rfl
  | batchDispatched value => cases value <;> rfl

theorem sameContent_setCancelled (value : Bool) : SameContent d (d.setCancelled value) := by
  intro i h1 _
  rw [getLsbD_setCancelled, if_neg h1]

theorem sameContent_setBatchDispatched (value : Bool) : SameContent d (d.setBatchDispatched value) := by
  intro i _ h2
  rw [getLsbD_setBatchDispatched, if_neg h2]

theorem tag_setIo (res : Int32) (err : E.Value) : ¬(d.setIo res err).payload &&& 1 = 0 := by
  rw [tag_iff, getLsbD_setIo res err 0 (by omega)]
  simp

theorem tag_setPython (py : Option PayloadPtr) : (d.setPython py).payload &&& 1 = 0 := by
  rw [tag_iff, getLsbD_setPython]
  cases py with
  | none => exact BitVec.getLsbD_zero
  | some p => exact PayloadPtr.getLsbD_low p 0 (by omega)

theorem ioUringRes_setIo (res : Int32) (err : E.Value) : (d.setIo res err).ioUringRes = res := by
  have hval : (((d.setIo res err).payload >>> 3) &&& 0xFFFFFFFF).setWidth 32 = res.toBitVec := by
    refine BitVec.eq_of_getLsbD_eq fun i hi => ?_
    rw [getLsbD_res _ i hi, getLsbD_setIo res err _ (by omega), if_neg (by omega), if_neg (by omega),
      if_pos (by omega), Nat.add_sub_cancel_left]
  rw [ioUringRes, if_neg (tag_setIo res err)]
  dsimp only
  rw [hval]
  rfl

theorem ioUringErr_setIo (res : Int32) (err : E.Value) : (d.setIo res err).ioUringErr E = err := by
  have hval : (((d.setIo res err).payload >>> 35) &&& 0xFFFF).setWidth 16 = err.tag := by
    refine BitVec.eq_of_getLsbD_eq fun i hi => ?_
    rw [getLsbD_err _ i hi, getLsbD_setIo res err _ (by omega), if_neg (by omega), if_neg (by omega),
      if_neg (by omega), Nat.add_sub_cancel_left]
  rw [ioUringErr, if_neg (tag_setIo res err)]
  dsimp only
  rw [hval, E.fromInt_tag]
  rfl

theorem member_setIo (res : Int32) (err : E.Value) : (d.setIo res err).member memory read = none :=
  if_pos (tag_setIo res err)

theorem ioUringRes_setPython (py : Option PayloadPtr) : (d.setPython py).ioUringRes = 0 :=
  if_pos (tag_setPython py)

theorem ioUringErr_setPython (py : Option PayloadPtr) : (d.setPython py).ioUringErr E = E.success :=
  if_pos (tag_setPython py)

theorem member_setPython (py : Option PayloadPtr) :
    (d.setPython py).member memory read = py.bind fun p => read (memory p.addr) := by
  have hptr : (d.setPython py).payload &&& ~~~7 = py.elim 0 PayloadPtr.addr := by
    refine BitVec.eq_of_getLsbD_eq fun i hi => ?_
    rw [getLsbD_ptr _ i hi, getLsbD_setPython]
    by_cases h3 : 3 ≤ i
    · rw [if_neg (by omega), decide_eq_true h3, Bool.and_true]
    · rw [decide_eq_false h3, Bool.and_false]
      cases py with
      | none => exact BitVec.getLsbD_zero.symm
      | some p => exact (PayloadPtr.getLsbD_low p i (by omega)).symm
  rw [member, if_neg (not_not.2 (tag_setPython py))]
  dsimp only
  rw [hptr]
  cases py with
  | none => rfl
  | some p => exact if_neg p.nonnull

theorem cancelled_set (s : Setter E) :
    (d.set s).cancelled = match s with
      | .cancelled value => value
      | _ => d.cancelled := by
  rw [cancelled_eq, cancelled_eq]
  cases s with
  | io res err => exact getLsbD_setIo res err 1 (by omega)
  | python py => exact getLsbD_setPython py 1
  | cancelled value => exact getLsbD_setCancelled value 1
  | batchDispatched value => exact getLsbD_setBatchDispatched value 1

theorem batchDispatched_set (s : Setter E) :
    (d.set s).batchDispatched = match s with
      | .batchDispatched value => value
      | _ => d.batchDispatched := by
  rw [batchDispatched_eq, batchDispatched_eq]
  cases s with
  | io res err => exact getLsbD_setIo res err 2 (by omega)
  | python py => exact getLsbD_setPython py 2
  | cancelled value => exact getLsbD_setCancelled value 2
  | batchDispatched value => exact getLsbD_setBatchDispatched value 2

/-! ### Any sequence of setters -/

/-- What `set_io` and `set_python` put into the word. -/
inductive Content (E : ErrnoEnum)
  | io (res : Int32) (err : E.Value)
  | python (py : Option PayloadPtr)

/-- The content that is set last. -/
def lastContent (setters : List (Setter E)) : Option (Content E) :=
  setters.foldl (fun last s => match s with
    | .io res err => some (.io res err)
    | .python py => some (.python py)
    | _ => last) none

/-- The value that is set last for `cancelled`. -/
def lastCancelled (setters : List (Setter E)) : Option Bool :=
  setters.foldl (fun last s => match s with
    | .cancelled value => some value
    | _ => last) none

/-- The value that is set last for `batch_dispatched`. -/
def lastBatchDispatched (setters : List (Setter E)) : Option Bool :=
  setters.foldl (fun last s => match s with
    | .batchDispatched value => some value
    | _ => last) none

/-- What the getters of the content return: that of the content set last, or what they did before. -/
def Shows (d d' : CallbackWord) (memory : BitVec 64 → PythonPayload) : Option (Content E) → Prop
  | some (.io res err) =>
    d'.ioUringRes = res ∧ d'.ioUringErr E = err ∧
      d'.modulePtr memory = none ∧ d'.callbackPtr memory = none ∧ d'.traverse memory = none
  | some (.python py) =>
    d'.ioUringRes = 0 ∧ d'.ioUringErr E = E.success ∧
      d'.modulePtr memory = (py.bind fun p => (memory p.addr).modulePtr) ∧
      d'.callbackPtr memory = (py.bind fun p => (memory p.addr).callbackPtr) ∧
      d'.traverse memory = py.bind fun p => (memory p.addr).traverse
  | none =>
    d'.ioUringRes = d.ioUringRes ∧ d'.ioUringErr E = d.ioUringErr E ∧
      d'.modulePtr memory = d.modulePtr memory ∧ d'.callbackPtr memory = d.callbackPtr memory ∧
      d'.traverse memory = d.traverse memory

/-- A setter of a flag leaves that alone. -/
theorem Shows.sameContent {d₀ : CallbackWord} {content : Option (Content E)} (h : Shows d₀ d memory content)
    (hsame : SameContent d d') : Shows d₀ d' memory content := by
  have hmodule : d'.modulePtr memory = d.modulePtr memory := hsame.member
  have hcallback : d'.callbackPtr memory = d.callbackPtr memory := hsame.member
  have htraverse : d'.traverse memory = d.traverse memory := hsame.member
  unfold Shows at h ⊢
  rw [hsame.ioUringRes, hsame.ioUringErr, hmodule, hcallback, htraverse]
  exact h

/-- **The setters and the getters.** After any sequence of setters the getters of the content show what was set
last, each flag is the value set last for it, and what no setter of the sequence owns is as it was. -/
theorem setters_read_back (d : CallbackWord) (setters : List (Setter E)) (memory : BitVec 64 → PythonPayload) :
    Shows d (setters.foldl set d) memory (lastContent setters) ∧
      (setters.foldl set d).cancelled = (lastCancelled setters).getD d.cancelled ∧
      (setters.foldl set d).batchDispatched = (lastBatchDispatched setters).getD d.batchDispatched ∧
      (setters.foldl set d).userData = d.userData := by
  induction setters using List.reverseRecOn with
  | nil => exact ⟨⟨rfl, rfl, rfl, rfl, rfl⟩, rfl, rfl, rfl⟩
  | append_singleton setters s ih =>
    obtain ⟨hcontent, hcancelled, hbatch, huser⟩ := ih
    rw [lastContent, lastCancelled, lastBatchDispatched, List.foldl_append, List.foldl_append, List.foldl_append,
      List.foldl_append, List.foldl_cons, List.foldl_nil, List.foldl_cons, List.foldl_nil, List.foldl_cons,
      List.foldl_nil, List.foldl_cons, List.foldl_nil, userData_set, cancelled_set, batchDispatched_set]
    refine ⟨?_, ?_, ?_, huser⟩
    · cases s with
      | io res err =>
        exact ⟨ioUringRes_setIo res err, ioUringErr_setIo res err, member_setIo res err,
          member_setIo res err, member_setIo res err⟩
      | python py =>
        exact ⟨ioUringRes_setPython py, ioUringErr_setPython py, member_setPython py, member_setPython py,
          member_setPython py⟩
      | cancelled value => exact hcontent.sameContent (sameContent_setCancelled value)
      | batchDispatched value => exact hcontent.sameContent (sameContent_setBatchDispatched value)
    · cases s with
      | cancelled value => rfl
      | io | python | batchDispatched => exact hcancelled
    · cases s with
      | batchDispatched value => rfl
      | io | python | cancelled => exact hbatch

end CallbackWord

end Talyn
