import Talyn.Utils.PyAddress

/-!
# The names of UNIX sockets

`sockaddr_un` has a path of 108 bytes and no length: `toPyAddr` and `getOsSockLen` find the end of a name
from its zero bytes. A name is found again when it does not end within itself: a path without a zero byte,
or an abstract name (its first byte is zero) whose last byte is not zero.
-/

namespace Talyn

open Dns

/-- The first byte of an abstract name is zero. -/
def IsAbstract (name : Datagram) : Prop := name.head? = some 0

instance (name : Datagram) : Decidable (IsAbstract name) := inferInstanceAs (Decidable (_ = _))

/-- What the kernel gets of the path. -/
def SockAddr.sockName : SockAddr → Datagram
  | un path => (List.ofFn path).take ((un path).getOsSockLen - unPathOffset)
  | _ => []

/-- A string is accepted as the name of a UNIX socket. -/
def AcceptsName (family : Option ℤ) (s : String) : Prop := ∃ a, fromPyAddr family (.str s) = .ok a

/-- The string comes back, and the length of the address covers the name, of a path with its terminator. -/
def KeepsName (inetNtop : InetNtop) (family : Option ℤ) (s : String) : Prop :=
  ∃ a, fromPyAddr family (.str s) = .ok a ∧ a.toPyAddr inetNtop = .ok (.str s) ∧
    a.getOsSockLen = unPathOffset + (encodeUtf8 s).length + if IsAbstract (encodeUtf8 s) then 0 else 1

/-- Two strings are one socket address. -/
def SameAddress (family : Option ℤ) (s t : String) : Prop :=
  ∃ a b, fromPyAddr family (.str s) = .ok a ∧ fromPyAddr family (.str t) = .ok b ∧ a.sockName = b.sockName

/-- A name that does not end within itself. -/
def Findable (name : Datagram) : Prop :=
  name = [0] ∨ name ≠ [] ∧ (IsAbstract name → name.getLast? ≠ some 0) ∧ (¬IsAbstract name → 0 ∉ name)

instance (name : Datagram) : Decidable (Findable name) := inferInstanceAs (Decidable (_ ∨ _))

/-! ### The buffer -/

/-- The path of a name. -/
def pathOf (name : Datagram) : Fin 108 → UInt8 := fun i => name.getD i 0

section Path

variable {name : Datagram}

/-- The name is followed by zero bytes. -/
theorem ofFn_pathOf (h : name.length < 108) :
    List.ofFn (pathOf name) = name ++ List.replicate (108 - name.length) 0 := by
  have hlen : (List.ofFn (pathOf name)).length =
      (name ++ List.replicate (108 - name.length) 0).length := by
    rw [List.length_ofFn, List.length_append, List.length_replicate]
    omega
  refine List.ext_getElem hlen fun i hi hi' => ?_
  rw [List.getElem_ofFn, pathOf]
  by_cases hname : i < name.length
  · rw [List.getElem_append_left hname]
    simp [hname]
  · rw [List.getElem_append_right (by omega), List.getElem_replicate]
    simp [Nat.le_of_not_lt hname]

theorem pathOf_zero : pathOf name 0 = 0 ↔ name = [] ∨ IsAbstract name := by
  cases name with
  | nil => simp [pathOf]
  | cons c name => simp [pathOf, IsAbstract]

/-- A path is found up to its first zero byte. -/
theorem zeroLen_pathOf (h : name.length < 108) : zeroLen (pathOf name) = name.length ↔ 0 ∉ name := by
  rw [zeroLen, ofFn_pathOf h]
  constructor
  · intro hlen hmem
    rw [List.idxOf_append_of_mem hmem] at hlen
    exact absurd (List.idxOf_lt_length_of_mem hmem) (by omega)
  · intro hmem
    obtain ⟨k, hk⟩ : ∃ k, 108 - name.length = k + 1 := ⟨107 - name.length, by omega⟩
    rw [List.idxOf_append_of_notMem hmem, hk, List.replicate_succ, List.idxOf_cons_self, Nat.add_zero]

/-- An abstract name is found up to its last byte that is not zero. -/
theorem nonZeroLen_pathOf (h : name.length < 108) :
    nonZeroLen (pathOf name) = name.length - name.reverse.findIdx (· ≠ 0) := by
  have hzeros : ∀ (k : ℕ) (bytes : Datagram),
      (List.replicate k 0 ++ bytes).findIdx (· ≠ 0) = k + bytes.findIdx (· ≠ 0) := by
    intro k bytes
    induction k with
    | zero => simp
    | succ k ih =>
      rw [List.replicate_succ, List.cons_append, List.findIdx_cons, ih]
      simp [Nat.add_right_comm]
  rw [nonZeroLen, ofFn_pathOf h, List.reverse_append, List.reverse_replicate, hzeros]
  omega

/-- The end of the name is found exactly when the name does not end within itself. -/
theorem nameLen_pathOf (h : name.length < 108) : nameLen (pathOf name) = name.length ↔ Findable name := by
  rw [nameLen]
  by_cases hnil : name = []
  · subst hnil
    exact iff_of_false (by decide +kernel) (by decide)
  have hpos := List.length_pos_iff.2 hnil
  have hzero : pathOf name 0 = 0 ↔ IsAbstract name := by rw [pathOf_zero, or_iff_right hnil]
  by_cases habstract : IsAbstract name
  · rw [if_pos (hzero.2 habstract), nonZeroLen_pathOf h, Findable]
    have hlast : name.reverse.findIdx (· ≠ 0) = 0 ↔ name.getLast? ≠ some 0 := by
      rw [← List.head?_reverse]
      cases hrev : name.reverse with
      | nil => exact absurd (List.reverse_eq_nil_iff.1 hrev) hnil
      | cons c cs =>
        rw [List.findIdx_cons]
        by_cases hc : c = 0 <;> simp [hc]
    have hle : name.reverse.findIdx (· ≠ 0) ≤ name.reverse.length := List.findIdx_le_length
    rw [List.length_reverse] at hle
    have hone : name = [0] ↔ name.length = 1 := by
      constructor
      · rintro rfl
        rfl
      · intro hlen
        obtain ⟨c, rfl⟩ := List.length_eq_one_iff.1 hlen
        rw [Option.some.inj habstract]
    simp only [hone, ← hlast, habstract, hnil, forall_const, not_true, false_imp_iff, and_true, ne_eq,
      not_false_eq_true, true_and]
    omega
  · rw [if_neg fun hc => habstract (hzero.1 hc), zeroLen_pathOf h, Findable]
    have hone : name ≠ [0] := by
      rintro rfl
      exact habstract rfl
    simp [hone, hnil, habstract]

theorem nameLen_le (path : Fin 108 → UInt8) : nameLen path ≤ 108 := by
  rw [nameLen]
  split_ifs
  · rw [nonZeroLen]
    omega
  · rw [zeroLen]
    exact List.idxOf_le_length.trans_eq List.length_ofFn

end Path

/-! ### Strings -/

section Names

variable {inetNtop : InetNtop} {family : Option ℤ} {s t : String}

theorem fromPyAddr_str : fromPyAddr family (.str s) =
    if (encodeUtf8 s).length ≥ 108 then .error .nameTooLong else .ok (.un (pathOf (encodeUtf8 s))) := rfl

theorem acceptsName_iff : AcceptsName family s ↔ (encodeUtf8 s).length < 108 := by
  rw [AcceptsName, fromPyAddr_str]
  split_ifs with hlong
  · exact iff_of_false (fun ⟨_, h⟩ => nomatch h) (by omega)
  · exact iff_of_true ⟨_, rfl⟩ (by omega)

/-- The string comes back exactly when the end of its name is found. -/
theorem toPyAddr_eq_iff (h : (encodeUtf8 s).length < 108) :
    (SockAddr.un (pathOf (encodeUtf8 s))).toPyAddr inetNtop = .ok (.str s) ↔
      nameLen (pathOf (encodeUtf8 s)) = (encodeUtf8 s).length := by
  have hname : (List.ofFn (pathOf (encodeUtf8 s))).take (nameLen (pathOf (encodeUtf8 s))) = encodeUtf8 s ↔
      nameLen (pathOf (encodeUtf8 s)) = (encodeUtf8 s).length := by
    constructor
    · intro htake
      have hlen := congrArg List.length htake
      rwa [List.length_take, List.length_ofFn, Nat.min_eq_left (nameLen_le _)] at hlen
    · intro hlen
      rw [hlen, ofFn_pathOf h, List.take_left]
  have hto : (SockAddr.un (pathOf (encodeUtf8 s))).toPyAddr inetNtop =
      (decodeUtf8 ((List.ofFn (pathOf (encodeUtf8 s))).take (nameLen (pathOf (encodeUtf8 s))))).elim
        (.error .pythonError) fun s => .ok (.str s) := by
    rw [SockAddr.toPyAddr, ← nameLen]
    cases decodeUtf8 _ <;> rfl
  rw [hto, ← hname]
  constructor
  · intro heq
    cases hdecode : decodeUtf8
        ((List.ofFn (pathOf (encodeUtf8 s))).take (nameLen (pathOf (encodeUtf8 s)))) with
    | none =>
      rw [hdecode] at heq
      cases heq
    | some s' =>
      rw [hdecode] at heq
      injection heq with heq
      injection heq with heq
      rw [← encodeUtf8_of_decodeUtf8 hdecode, heq]
  · intro heq
    rw [heq, decodeUtf8_encodeUtf8, Option.elim_some]

theorem getOsSockLen_un (path : Fin 108 → UInt8) :
    (SockAddr.un path).getOsSockLen = unPathOffset + nameLen path + if path 0 = 0 then 0 else 1 := by
  rw [SockAddr.getOsSockLen, nameLen]
  split_ifs <;> rfl

theorem keepsName_iff (h : AcceptsName family s) : KeepsName inetNtop family s ↔ Findable (encodeUtf8 s) := by
  have hlt := acceptsName_iff.1 h
  have haddr : fromPyAddr family (.str s) = .ok (.un (pathOf (encodeUtf8 s))) := by
    rw [fromPyAddr_str, if_neg (by omega)]
  rw [← nameLen_pathOf hlt]
  constructor
  · rintro ⟨a, ha, hto, -⟩
    rw [← Except.ok.inj (haddr.symm.trans ha)] at hto
    exact (toPyAddr_eq_iff hlt).1 hto
  · intro hlen
    refine ⟨_, haddr, (toPyAddr_eq_iff hlt).2 hlen, ?_⟩
    have hne : encodeUtf8 s ≠ [] := by
      intro hnil
      rw [hnil] at hlen
      exact absurd hlen (by decide +kernel)
    have hzero : pathOf (encodeUtf8 s) 0 = 0 ↔ IsAbstract (encodeUtf8 s) := by
      rw [pathOf_zero, or_iff_right hne]
    rw [getOsSockLen_un, hlen]
    simp only [hzero]

/-- What the kernel gets of a name whose end is found. -/
theorem sockName_un {name : Datagram} (h : name.length < 108) (hfind : Findable name) :
    (SockAddr.un (pathOf name)).sockName = if IsAbstract name then name else name ++ [0] := by
  have hne : name ≠ [] := by
    rintro rfl
    exact absurd hfind (by decide)
  have hzero : pathOf name 0 = 0 ↔ IsAbstract name := by rw [pathOf_zero, or_iff_right hne]
  have hlen := (nameLen_pathOf h).2 hfind
  rw [SockAddr.sockName, getOsSockLen_un, hlen, ofFn_pathOf h, Nat.add_assoc, Nat.add_sub_cancel_left]
  simp only [hzero]
  split_ifs with habstract
  · rw [Nat.add_zero, List.take_left]
  · obtain ⟨k, hk⟩ : ∃ k, 108 - name.length = k + 1 := ⟨107 - name.length, by omega⟩
    rw [hk, List.take_length_add_append]
    rfl

/-- Two names whose ends are found are two socket addresses. -/
theorem eq_of_sameAddress (hs : AcceptsName family s) (ht : AcceptsName family t)
    (hfinds : Findable (encodeUtf8 s)) (hfindt : Findable (encodeUtf8 t)) (h : SameAddress family s t) :
    s = t := by
  have haddr : ∀ {s}, AcceptsName family s →
      fromPyAddr family (.str s) = .ok (.un (pathOf (encodeUtf8 s))) := by
    intro s hs
    have hlt := acceptsName_iff.1 hs
    rw [fromPyAddr_str, if_neg (by omega)]
  obtain ⟨a, b, ha, hb, hname⟩ := h
  rw [← Except.ok.inj ((haddr hs).symm.trans ha), ← Except.ok.inj ((haddr ht).symm.trans hb),
    sockName_un (acceptsName_iff.1 hs) hfinds, sockName_un (acceptsName_iff.1 ht) hfindt] at hname
  apply encodeUtf8_injective
  -- the first byte tells a path from an abstract name
  have hhead : ∀ {name : Datagram}, name ≠ [] → (name ++ [0]).head? = some 0 → IsAbstract name := by
    intro name hne hhead
    obtain ⟨c, cs, rfl⟩ := List.exists_cons_of_ne_nil hne
    exact hhead
  have hne : ∀ {name : Datagram}, Findable name → name ≠ [] := by
    rintro name hfind rfl
    exact absurd hfind (by decide)
  split_ifs at hname with habstract habstract' habstract'
  · exact hname
  · exact absurd (hhead (hne hfindt) (hname ▸ habstract)) habstract'
  · exact absurd (hhead (hne hfinds) (hname ▸ habstract')) habstract
  · exact List.append_cancel_right hname

/-- **UNIX paths.** Accepted strings all come back, with the length of their names, and are different
socket addresses exactly when no name ends within itself. -/
theorem unix_names_kept_iff (inetNtop : InetNtop) (family : Option ℤ) (strings : Set String)
    (haccepts : ∀ s ∈ strings, AcceptsName family s) :
    ((∀ s ∈ strings, KeepsName inetNtop family s) ∧
      ∀ s ∈ strings, ∀ t ∈ strings, SameAddress family s t → s = t) ↔
        ∀ s ∈ strings, Findable (encodeUtf8 s) := by
  constructor
  · rintro ⟨hkeeps, -⟩ s hs
    exact (keepsName_iff (haccepts s hs)).1 (hkeeps s hs)
  · intro hfind
    refine ⟨fun s hs => (keepsName_iff (haccepts s hs)).2 (hfind s hs), fun s hs t ht => ?_⟩
    exact eq_of_sameAddress (haccepts s hs) (haccepts t ht) (hfind s hs) (hfind t ht)

end Names

/-- The path `a` and the abstract name `b`. -/
theorem unix_names_kept_two :
    (∀ s ∈ ({"a", "\x00b"} : Set String), KeepsName ⟨fun _ => none, fun _ => none⟩ none s) ∧
      ∀ s ∈ ({"a", "\x00b"} : Set String), ∀ t ∈ ({"a", "\x00b"} : Set String),
        SameAddress none s t → s = t := by
  have hbytes : encodeUtf8 "a" = [97] ∧ encodeUtf8 "\x00b" = [0, 98] := by decide +kernel
  refine (unix_names_kept_iff ⟨fun _ => none, fun _ => none⟩ none {"a", "\x00b"} ?_).2 ?_
  · rintro s (rfl | rfl)
    · rw [acceptsName_iff, hbytes.1]
      decide
    · rw [acceptsName_iff, hbytes.2]
      decide
  · rintro s (rfl | rfl)
    · rw [hbytes.1]
      decide
    · rw [hbytes.2]
      decide

/-- The abstract name `a` with a zero byte behind it loses this byte. -/
theorem trailing_zero_lost :
    ¬∀ (inetNtop : InetNtop) (s : String), AcceptsName none s → KeepsName inetNtop none s := by
  intro h
  have hbytes : encodeUtf8 "\x00a\x00" = [0, 97, 0] := by decide +kernel
  have haccepts : AcceptsName none "\x00a\x00" := by
    rw [acceptsName_iff, hbytes]
    decide
  have hfind := (keepsName_iff haccepts).1 (h ⟨fun _ => none, fun _ => none⟩ _ haccepts)
  rw [hbytes] at hfind
  exact absurd hfind (by decide)

end Talyn
