import Talyn.Utils.PyAddress

/-!
# Printed addresses

The host that `toPyAddr` prints is the canonical text of the C library: for IPv6 the groups in hexadecimal,
with the first of the longest runs of zero groups as `::`, and the last four bytes as a dotted quad in an
IPv4-mapped or IPv4-compatible address. `fromPyAddr` reads hexadecimal groups only.
-/

namespace Talyn

open Dns

/-- The groups of an IPv6 address. -/
def addressGroups (addr : Fin 16 → UInt8) : List ℕ :=
  List.ofFn fun i : Fin 8 => (addr ⟨2 * i, by omega⟩).toNat * 256 + (addr ⟨2 * i + 1, by omega⟩).toNat

/-- A group in hexadecimal. -/
def groupText (g : ℕ) : Datagram := digitBytes 16 g

/-- The last four bytes. -/
def lastFour (addr : Fin 16 → UInt8) : Fin 4 → UInt8 := fun i => addr ⟨12 + i, by omega⟩

/-- The groups of an address that embeds an IPv4 address. -/
def EmbedsQuad (groups : List ℕ) : Prop :=
  ∃ a b, (groups = List.replicate 6 0 ++ [a, b] ∧ a ≠ 0) ∨ groups = List.replicate 5 0 ++ [0xffff, a, b]

/-- The canonical text of an IPv6 address. -/
inductive Canonical (addr : Fin 16 → UInt8) : Datagram → Prop
  | compatible {a b : ℕ} (h : addressGroups addr = List.replicate 6 0 ++ [a, b]) (ha : a ≠ 0) :
      Canonical addr ([colon, colon] ++ dottedQuad (lastFour addr))
  | mapped {a b : ℕ} (h : addressGroups addr = List.replicate 5 0 ++ [0xffff, a, b]) :
      Canonical addr ([colon, colon, 102, 102, 102, 102, colon] ++ dottedQuad (lastFour addr))
  | compressed {groups groups' : List ℕ} {n : ℕ} (hquad : ¬EmbedsQuad (addressGroups addr))
      (h : addressGroups addr = groups ++ List.replicate n 0 ++ groups') (hn : 2 ≤ n)
      (hlongest : ∀ pre post m, addressGroups addr = pre ++ List.replicate m 0 ++ post →
        m ≤ n ∧ (m = n → groups.length ≤ pre.length)) :
      Canonical addr (joinGroups (groups.map groupText) ++ [colon, colon] ++
        joinGroups (groups'.map groupText))
  | full (hsingle : ∀ pre post, addressGroups addr ≠ pre ++ List.replicate 2 0 ++ post) :
      Canonical addr (joinGroups ((addressGroups addr).map groupText))

/-- The C library prints this address in its canonical text. -/
def InetNtop.PrintsCanonical (inetNtop : InetNtop) : SockAddr → Prop
  | .in4 addr _ => inetNtop.ip4 addr = some (dottedQuad addr)
  | .in6 addr _ _ _ => ∃ text, inetNtop.ip6 addr = some text ∧ Canonical addr text
  | .un _ => True
  | .any => True

/-- The printed address is read as the same address. -/
def RoundTrips (inetNtop : InetNtop) (family : Option ℤ) (a : SockAddr) : Prop :=
  ∃ pyAddr, a.toPyAddr inetNtop = .ok pyAddr ∧ fromPyAddr family pyAddr = .ok a

/-! ### Groups -/

theorem hexDigits_snoc {n d : ℕ} (hn : 0 < n) (hd : d < 16) :
    digitBytes 16 (n * 16 + d) = digitBytes 16 n ++ digitBytes 16 d := by
  have happend := Nat.toDigits_append_toDigits (b := 16) (by decide) hn hd
  rw [Nat.mul_comm n 16, digitBytes, ← happend, List.map_append]
  rfl

/-- A number of `k` hexadecimal digits. -/
theorem hexDigits_spec {k g : ℕ} (hk : 0 < k) (hg : g < 16 ^ k) :
    digitBytes 16 g ≠ [] ∧ (digitBytes 16 g).length ≤ k ∧
      ∃ digits, List.Forall₂ (fun c d => hexDigit c = some d) (digitBytes 16 g) digits ∧
        g = digits.foldl (fun v d => v * 16 + d) 0 := by
  have hdigit : ∀ d < 16, ∃ c, digitBytes 16 d = [c] ∧ hexDigit c = some d := by
    have hall : ∀ d < 16, (digitBytes 16 d).length = 1 ∧
        (digitBytes 16 d).map hexDigit = [some d] := by
      decide +kernel
    intro d hd
    obtain ⟨hlen, hmap⟩ := hall d hd
    obtain ⟨c, hc⟩ := List.length_eq_one_iff.1 hlen
    rw [hc] at hmap
    exact ⟨c, hc, List.singleton_inj.1 hmap⟩
  induction k generalizing g with
  | zero => exact absurd hk (lt_irrefl 0)
  | succ k ih =>
    by_cases hsmall : g < 16
    · obtain ⟨c, hc, hval⟩ := hdigit g hsmall
      rw [hc]
      exact ⟨List.cons_ne_nil _ _, Nat.succ_le_succ (Nat.zero_le _), [g], .cons hval .nil, by simp⟩
    · have hk' : 0 < k := by
        rcases Nat.eq_zero_or_pos k with rfl | hpos
        · exact absurd hg hsmall
        · exact hpos
      have hdiv : g / 16 < 16 ^ k := Nat.div_lt_of_lt_mul (by rwa [← Nat.pow_succ'])
      obtain ⟨hne, hlen, digits, hdigits, hvalue⟩ := ih hk' hdiv
      obtain ⟨c, hc, hval⟩ := hdigit (g % 16) (Nat.mod_lt _ (by decide))
      have hsplit := hexDigits_snoc (show 0 < g / 16 by omega) (Nat.mod_lt g (show 0 < 16 by decide))
      rw [Nat.div_add_mod', hc] at hsplit
      rw [hsplit]
      refine ⟨by simp, by simpa using hlen, digits ++ [g % 16], ?_, ?_⟩
      · exact List.rel_append hdigits (.cons hval .nil)
      · rw [List.foldl_append, ← hvalue]
        exact (Nat.div_add_mod' g 16).symm

theorem isGroup_groupText {g : ℕ} (hg : g < 65536) : IsGroup (groupText g) g := hexDigits_spec (by decide) hg

theorem addressGroups_lt {addr : Fin 16 → UInt8} : ∀ g ∈ addressGroups addr, g < 65536 := by
  intro g hg
  obtain ⟨i, rfl⟩ := (List.mem_ofFn' _ _).1 hg
  have hhigh := (addr ⟨2 * i, by omega⟩).toNat_lt
  have hlow := (addr ⟨2 * i + 1, by omega⟩).toNat_lt
  dsimp only
  omega

theorem groupTexts {groups : List ℕ} (h : ∀ g ∈ groups, g < 65536) :
    List.Forall₂ IsGroup (groups.map groupText) groups := by
  rw [List.forall₂_map_left_iff]
  exact List.forall₂_same.2 fun g hg => isGroup_groupText (h g hg)

/-- The bytes of the groups are the bytes of the address. -/
theorem groupBytes_addressGroups (addr : Fin 16 → UInt8) :
    groupBytes (addressGroups addr) = List.ofFn addr := by
  have hbytes : ∀ a b : UInt8, UInt8.ofNat ((a.toNat * 256 + b.toNat) / 256) = a ∧
      UInt8.ofNat (a.toNat * 256 + b.toNat) = b := by
    intro a b
    have ha := a.toNat_lt
    have hb := b.toNat_lt
    constructor
    · apply UInt8.toNat_inj.1
      rw [UInt8.toNat_ofNat']
      omega
    · apply UInt8.toNat_inj.1
      rw [UInt8.toNat_ofNat']
      omega
  simp [groupBytes, addressGroups, List.ofFn_succ, hbytes]

/-- Reading the groups of an address gives the address. -/
theorem initIp6_addressGroups (addr : Fin 16 → UInt8) (port : UInt16) (flowinfo scopeId : UInt32) :
    SockAddr.initIp6 (groupBytes (addressGroups addr)) port flowinfo scopeId =
      .in6 addr port flowinfo scopeId := by
  rw [groupBytes_addressGroups, SockAddr.initIp6]
  exact congrArg (SockAddr.in6 · port flowinfo scopeId) (funext (getD_ofFn addr))

/-- A canonical text without a dotted quad is a text of its groups. -/
theorem Canonical.ip6Text {addr : Fin 16 → UInt8} {text : Datagram} (h : Canonical addr text)
    (hquad : ¬EmbedsQuad (addressGroups addr)) : Ip6Text text (addressGroups addr) := by
  have hlen : (addressGroups addr).length = 8 := List.length_ofFn
  have hlt := @addressGroups_lt addr
  cases h with
  | compatible h ha => exact absurd ⟨_, _, .inl ⟨h, ha⟩⟩ hquad
  | mapped h => exact absurd ⟨_, _, .inr h⟩ hquad
  | @compressed groups groups' n _ h hn hlongest =>
    rw [h] at hlt hlen ⊢
    simp only [List.length_append, List.length_replicate] at hlen
    have hrun : n = 8 - (groups.length + groups'.length) := by omega
    rw [hrun]
    refine .compressed (groupTexts fun g hg => hlt g ?_) (groupTexts fun g hg => hlt g ?_) (by omega)
    · exact List.mem_append_left _ (List.mem_append_left _ hg)
    · exact List.mem_append_right _ hg
  | full hsingle => exact .full (groupTexts hlt) hlen

/-- A canonical text with a dotted quad has a dot. -/
theorem Canonical.dot_mem {addr : Fin 16 → UInt8} {text : Datagram} (h : Canonical addr text)
    (hquad : EmbedsQuad (addressGroups addr)) : dot ∈ text := by
  cases h with
  | compatible h ha => exact List.mem_append_right _ (dot_mem_dottedQuad _)
  | mapped h => exact List.mem_append_right _ (dot_mem_dottedQuad _)
  | compressed hnone => exact absurd hquad hnone
  | full hsingle =>
    obtain ⟨a, b, ⟨h, -⟩ | h⟩ := hquad
    · exact absurd h (hsingle [] (List.replicate 4 0 ++ [a, b]))
    · exact absurd h (hsingle [] (List.replicate 3 0 ++ [0xffff, a, b]))

/-! ### The two directions -/

section RoundTrip

variable {inetNtop : InetNtop} {family : Option ℤ} {port : UInt16} {flowinfo scopeId : UInt32}

theorem asInt_port (port : UInt16) : (PyItem.int port.toNat).asInt = some (port.toNat : ℤ) := by
  have hlt := port.toNat_lt
  rw [PyItem.asInt, if_pos (by omega)]

theorem asUnsignedLong_word (n : UInt32) : (PyItem.int n.toNat).asUnsignedLong = some n.toNat := by
  have hlt := n.toNat_lt
  rw [PyItem.asUnsignedLong, if_pos (by omega), Int.toNat_natCast]

theorem castU32_word (n : UInt32) : castU32 n.toNat = some n := by
  rw [castU32, if_pos n.toNat_lt, UInt32.ofNat_toNat]

/-- The host and the port of a tuple. -/
theorem fromPyAddr_items {s : String} {portVal : ℤ} {items : List PyItem}
    (hint : (PyItem.int portVal).asInt = some portVal) (hport : ¬(portVal < 0 ∨ 65535 < portVal)) :
    fromPyAddr family (.tuple (.str s :: .int portVal :: items)) =
      fromPyTuple family (encodeUtf8 s) (UInt16.ofNat portVal.toNat) (.str s :: .int portVal :: items) := by
  simp only [fromPyAddr, List.getElem?_cons_zero, List.getElem?_cons_succ, PyItem.asUtf8, hint]
  rw [if_neg hport]

theorem fromPyAddr_port {s : String} {items : List PyItem} :
    fromPyAddr family (.tuple (.str s :: .int port.toNat :: items)) =
      fromPyTuple family (encodeUtf8 s) port (.str s :: .int port.toNat :: items) := by
  have hlt := port.toNat_lt
  rw [fromPyAddr_items (asInt_port port) (by omega), Int.toNat_natCast, UInt16.ofNat_toNat]

/-- The tuple of an IPv4 address. -/
theorem fromPyTuple_pair {host : Datagram} {pyHost pyPort : PyItem} (hcolon : colon ∉ host)
    (hfamily : family ≠ some afInet6) {address : SockAddr}
    (hparse : SockAddr.parseIp4 host port = some address) :
    fromPyTuple family host port [pyHost, pyPort] = .ok address := by
  have hhost : ¬(family = some afInet6 ∨ colon ∈ host) := fun h => h.elim hfamily hcolon
  have htwo : [pyHost, pyPort].length = 2 := rfl
  rw [fromPyTuple, if_pos htwo, if_neg hhost, hparse]

/-- The tuple of an IPv6 address. -/
theorem fromPyTuple_quadruple {host : Datagram} {pyHost pyPort pyFlow pyScope : PyItem} {flow scope : ℕ}
    (hflow : pyFlow.asUnsignedLong = some flow) (hflowinfo : castU32 flow = some flowinfo)
    (hscope : pyScope.asUnsignedLong = some scope) (hscopeId : castU32 scope = some scopeId) :
    fromPyTuple family host port [pyHost, pyPort, pyFlow, pyScope] =
      match SockAddr.parseIp6 host port with
      | some (.in6 addr port _ _) => .ok (.in6 addr port flowinfo scopeId)
      | _ => .error .invalidHost := by
  have htwo : [pyHost, pyPort, pyFlow, pyScope].length ≠ 2 := by simp
  have hfour : [pyHost, pyPort, pyFlow, pyScope].length = 4 := rfl
  rw [fromPyTuple, if_neg htwo, if_pos hfour]
  rcases SockAddr.parseIp6 host port with _ | (_ | _ | _ | _) <;>
    simp only [List.getElem?_cons_zero, List.getElem?_cons_succ, Option.bind_some, hflow, hflowinfo, hscope,
      hscopeId]

theorem decodeUtf8_digits {text : Datagram} (h : ∀ c ∈ text, hexDigit c ≠ none ∨ c = colon ∨ c = dot) :
    ∃ s, decodeUtf8 text = some s := by
  have hbyte : ∀ c : UInt8, hexDigit c ≠ none ∨ c = colon ∨ c = dot → c < 128 :=
    byte_forall (by decide +kernel)
  exact decodeUtf8_ascii fun c hc => hbyte c (h c hc)

/-- An IPv4 address round trips. -/
theorem roundTrips_ip4 {addr : Fin 4 → UInt8} (hntop : inetNtop.ip4 addr = some (dottedQuad addr))
    (hfamily : family ≠ some afInet6) : RoundTrips inetNtop family (.in4 addr port) := by
  have hbyte : ∀ c : UInt8, (48 ≤ c ∧ c ≤ 57) ∨ c = dot → (hexDigit c ≠ none ∨ c = colon ∨ c = dot) ∧ c ≠ colon :=
    byte_forall (by decide +kernel)
  have hchars := fun c hc => hbyte c (octetsText_chars (List.ofFn addr) c hc)
  obtain ⟨s, hs⟩ := decodeUtf8_digits fun c hc => (hchars c hc).1
  have hcolon : colon ∉ dottedQuad addr := fun hmem => (hchars colon hmem).2 rfl
  refine ⟨.tuple [.str s, .int port.toNat], ?_, ?_⟩
  · simp only [SockAddr.toPyAddr, hntop, dottedQuad, hs]
  · rw [fromPyAddr_port, encodeUtf8_of_decodeUtf8 hs]
    exact fromPyTuple_pair hcolon hfamily (parseIp4_eq_some.2 ⟨addr, .inl rfl, rfl⟩)

/-- An IPv6 address round trips when its text is that of its groups. -/
theorem roundTrips_ip6_iff {addr : Fin 16 → UInt8} {text : Datagram}
    (hntop : inetNtop.ip6 addr = some text) (hcanonical : Canonical addr text) :
    RoundTrips inetNtop family (.in6 addr port flowinfo scopeId) ↔ ¬EmbedsQuad (addressGroups addr) := by
  have hread : ∀ s, decodeUtf8 text = some s →
      fromPyAddr family (.tuple [.str s, .int port.toNat, .int flowinfo.toNat, .int scopeId.toNat]) =
        match SockAddr.parseIp6 text port with
        | some (.in6 addr port _ _) => .ok (.in6 addr port flowinfo scopeId)
        | _ => .error .invalidHost := by
    intro s hs
    rw [fromPyAddr_port, encodeUtf8_of_decodeUtf8 hs]
    exact fromPyTuple_quadruple (asUnsignedLong_word flowinfo) (castU32_word flowinfo)
      (asUnsignedLong_word scopeId) (castU32_word scopeId)
  constructor
  · rintro ⟨pyAddr, hto, hfrom⟩ hquad
    have hnone : readGroups text = none := by
      cases hgroups : readGroups text with
      | none => rfl
      | some groups =>
        have hdot : ¬(hexDigit dot ≠ none ∨ dot = colon) := by decide
        exact absurd (readGroups_chars hgroups dot (hcanonical.dot_mem hquad)) hdot
    have hparse : SockAddr.parseIp6 text port = none := by
      rw [sockAddr_parseIp6_eq_map, hnone]
      rfl
    simp only [SockAddr.toPyAddr, hntop] at hto
    cases hs : decodeUtf8 text with
    | none =>
      rw [hs] at hto
      exact nomatch hto
    | some s =>
      rw [hs] at hto
      rw [← Except.ok.inj hto, hread s hs, hparse] at hfrom
      exact nomatch hfrom
  · intro hquad
    have htext := hcanonical.ip6Text hquad
    have hgroups := readGroups_eq_some.2 (.inl htext)
    obtain ⟨s, hs⟩ := decodeUtf8_digits fun c hc =>
      (readGroups_chars hgroups c hc).imp_right .inl
    refine ⟨.tuple [.str s, .int port.toNat, .int flowinfo.toNat, .int scopeId.toNat], ?_, ?_⟩
    · simp only [SockAddr.toPyAddr, hntop, hs]
    · rw [hread s hs, sockAddr_parseIp6_eq_map, hgroups, Option.map_some, initIp6_addressGroups]

end RoundTrip

/-- The address is not an IPv6 address that embeds an IPv4 address. -/
def WithoutQuad : SockAddr → Prop
  | .in6 addr _ _ _ => ¬EmbedsQuad (addressGroups addr)
  | _ => True

/-- **`toPyAddr` and `fromPyAddr`.** The printed text of an IP address is read as this address exactly when
it embeds no IPv4 address. -/
theorem roundTrips_iff (inetNtop : InetNtop) (family : Option ℤ) (a : SockAddr) (ha : a.isIp4 ∨ a.isIp6)
    (hfamily : a.isIp4 → family ≠ some afInet6) (hntop : inetNtop.PrintsCanonical a) :
    RoundTrips inetNtop family a ↔ WithoutQuad a := by
  cases a with
  | in4 addr port => exact iff_of_true (roundTrips_ip4 hntop (hfamily rfl)) trivial
  | in6 addr port flowinfo scopeId =>
    obtain ⟨text, htext, hcanonical⟩ := hntop
    exact roundTrips_ip6_iff htext hcanonical
  | un path => exact ha.elim nofun nofun
  | any => exact ha.elim nofun nofun

/-- The address `::1`. -/
def loopback : Fin 16 → UInt8 := ![0, 0, 0, 0, 0, 0, 0, 0, 0, 0, 0, 0, 0, 0, 0, 1]

/-- Only the last group of `::1` is printed. -/
theorem loopback_roundTrips :
    RoundTrips ⟨fun addr => some (dottedQuad addr),
      fun addr => some ([colon, colon] ++ groupText (addr 15).toNat)⟩ (some afInet6)
        (.in6 loopback 80 0 0) := by
  have hgroups : addressGroups loopback = [] ++ List.replicate 7 0 ++ [1] := by decide
  have hquad : ¬EmbedsQuad (addressGroups loopback) := by
    rw [hgroups]
    rintro ⟨a, b, ⟨h, ha⟩ | h⟩
    · have hseventh := congrArg (·[6]?) h
      exact ha (Option.some.inj hseventh).symm
    · have hsixth := congrArg (·[5]?) h
      exact absurd (Option.some.inj hsixth) (by decide)
  have hcanonical : Canonical loopback ([colon, colon] ++ groupText (loopback 15).toNat) := by
    refine @Canonical.compressed _ [] [1] 7 hquad hgroups (by decide) fun pre post m h => ?_
    refine ⟨?_, fun _ => Nat.zero_le _⟩
    by_contra hm
    -- a run of eight groups leaves no room for the last one
    have hlen := congrArg List.length h
    rw [hgroups] at h hlen
    simp only [List.length_append, List.length_replicate, List.length_cons, List.length_nil] at hlen
    obtain rfl : pre = [] := List.length_eq_zero_iff.1 (by omega)
    obtain rfl : post = [] := List.length_eq_zero_iff.1 (by omega)
    have hone : 1 ∈ ([] : List ℕ) ++ List.replicate m 0 ++ [] := h ▸ by decide
    simp at hone
  exact (roundTrips_iff ⟨fun addr => some (dottedQuad addr),
    fun addr => some ([colon, colon] ++ groupText (addr 15).toNat)⟩ (some afInet6)
      (.in6 loopback 80 0 0) (.inr rfl) nofun ⟨_, rfl, hcanonical⟩).2 hquad

/-- The address `::ffff:1.2.3.4` is printed and not read. -/
theorem mapped_not_read :
    ¬∀ (inetNtop : InetNtop) (family : Option ℤ) (a : SockAddr), a.isIp4 ∨ a.isIp6 →
      (a.isIp4 → family ≠ some afInet6) → inetNtop.PrintsCanonical a → RoundTrips inetNtop family a := by
  intro h
  have hgroups : addressGroups ![0, 0, 0, 0, 0, 0, 0, 0, 0, 0, 255, 255, 1, 2, 3, 4] =
      List.replicate 5 0 ++ [0xffff, 258, 772] := by decide
  have hcanonical := @Canonical.mapped _ _ _ hgroups
  have hround := h ⟨fun addr => some (dottedQuad addr), fun addr =>
      some ([colon, colon, 102, 102, 102, 102, colon] ++ dottedQuad (lastFour addr))⟩ none
    (.in6 ![0, 0, 0, 0, 0, 0, 0, 0, 0, 0, 255, 255, 1, 2, 3, 4] 80 0 0) (.inr rfl) nofun
    ⟨_, rfl, hcanonical⟩
  exact (roundTrips_ip6_iff rfl hcanonical).1 hround ⟨_, _, .inr hgroups⟩

end Talyn
