import Talyn.Dns.Matching
import Talyn.Utils.DottedQuad

/-!
# The name of a reverse lookup

`build_reverse_name` as it writes into the buffer of `reverse_lookup`: every `bufPrint` goes behind what
was written before and fails when its text does not fit. The reader `readReverseName` takes the labels of a
name in reverse order and yields the address again, so two addresses have two names.
-/

namespace Talyn.Dns

/-- The errors of `build_reverse_name`. -/
inductive ReverseNameError
  | noSpaceLeft
  | unsupportedAddressFamily
  deriving DecidableEq

/-- `std.fmt.bufPrint` into `buf[offset..]`. -/
def bufPrint (buf : Datagram) (offset : ℕ) (text : Datagram) : Except ReverseNameError Datagram :=
  if offset + text.length ≤ buf.length then
    .ok (buf.take offset ++ text ++ buf.drop (offset + text.length))
  else .error .noSpaceLeft

/-- The text of one byte, its low half first. -/
def nibblesText (byte : UInt8) : Datagram :=
  let high := (byte >>> 4) &&& 0x0F
  let low := byte &&& 0x0F
  digitBytes 16 low.toNat ++ [dot] ++ digitBytes 16 high.toNat ++ [dot]

/-- The loop over the bytes of an IPv6 address, which counts down from `i`. -/
def nibbleLoop (ip : List UInt8) : ℕ → Datagram → ℕ → Except ReverseNameError (Datagram × ℕ)
  | 0, buf, offset => .ok (buf, offset)
  | i + 1, buf, offset =>
    (bufPrint buf offset (nibblesText (ip.getD i 0))).bind fun buf =>
      nibbleLoop ip i buf (offset + (nibblesText (ip.getD i 0)).length)

/-- `build_reverse_name`, with the buffer it writes into. -/
def buildReverseNameIn (buf : Datagram) : SockAddr → Except ReverseNameError Datagram
  | .in4 addr _ =>
    let text := digitBytes 10 (addr 3).toNat ++ [dot] ++ (digitBytes 10 (addr 2).toNat ++ [dot]) ++
      (digitBytes 10 (addr 1).toNat ++ [dot]) ++ (digitBytes 10 (addr 0).toNat ++ [dot]) ++ inAddrArpa
    (bufPrint buf 0 text).map fun buf => buf.take text.length
  | .in6 addr _ _ _ =>
    (nibbleLoop (List.ofFn addr) 16 buf 0).bind fun (buf, offset) =>
      (bufPrint buf offset ip6Arpa).map fun buf => buf.take (offset + ip6Arpa.length)
  | .un _ => .error .unsupportedAddressFamily
  | .any => .error .unsupportedAddressFamily

/-- The name `reverse_lookup` asks for; its buffer of 128 bytes is not initialized. -/
def reverseLookupName (buf : Fin 128 → UInt8) (address : SockAddr) : Except ReverseNameError Datagram :=
  buildReverseNameIn (List.ofFn buf) address

end Talyn.Dns

namespace Talyn

/-- The host of an IPv4 or IPv6 address, without the port. -/
def SockAddr.host : SockAddr → Option Dns.Address
  | in4 addr _ => some (.ip4 (List.ofFn addr))
  | in6 addr _ _ _ => some (.ip6 (List.ofFn addr))
  | un _ => none
  | any => none

end Talyn

namespace Talyn.Dns

/-! ### Reading a name -/

/-- A label that is one hexadecimal digit. -/
def readNibble : Datagram → Option ℕ
  | [c] => hexDigit c
  | _ => none

/-- The bytes of these halves, the high half of each first. -/
def joinNibbles : List ℕ → List UInt8
  | high :: low :: nibbles => UInt8.ofNat (high * 16 + low) :: joinNibbles nibbles
  | _ => []

/-- The address of a name: its octets or nibbles in reverse order. -/
def readReverseName (name : Datagram) : Option Address :=
  let labels := name.splitOn dot
  if labels.drop 4 = inAddrArpa.splitOn dot then
    ((labels.take 4).mapM (parseOctet 0)).map fun octets => .ip4 (octets.map UInt8.ofNat).reverse
  else if labels.drop 32 = ip6Arpa.splitOn dot then
    ((labels.take 32).mapM readNibble).map fun nibbles => .ip6 (joinNibbles nibbles.reverse)
  else none

/-! ### The buffer -/

/-- A text that fits goes behind what was written before. -/
theorem bufPrint_ok {buf text : Datagram} {offset : ℕ} (h : offset + text.length ≤ buf.length) :
    ∃ buf', bufPrint buf offset text = .ok buf' ∧ buf'.length = buf.length ∧
      buf'.take (offset + text.length) = buf.take offset ++ text := by
  have hlen : (buf.take offset ++ text).length = offset + text.length := by
    rw [List.length_append, List.length_take, Nat.min_eq_left (by omega)]
  refine ⟨_, if_pos h, ?_, ?_⟩
  · rw [List.length_append, hlen, List.length_drop]
    omega
  · rw [← hlen, List.take_left]

theorem nibblesText_eq (byte : UInt8) : nibblesText byte =
    digitBytes 16 (byte.toNat % 16) ++ [dot] ++ digitBytes 16 (byte.toNat / 16) ++ [dot] := by
  have hlow : ∀ b : UInt8, (b &&& 0x0F).toNat = b.toNat % 16 := fun b =>
    (UInt8.toNat_and b 0x0F).trans (Nat.and_two_pow_sub_one_eq_mod b.toNat 4)
  have hhigh : (byte >>> 4).toNat = byte.toNat / 16 :=
    (UInt8.toNat_shiftRight byte 4).trans (Nat.shiftRight_eq_div_pow byte.toNat 4)
  have hlt := byte.toNat_lt
  rw [nibblesText, hlow, hlow, hhigh, Nat.mod_eq_of_lt (a := byte.toNat / 16) (by omega)]

theorem nibblesText_length (byte : UInt8) : (nibblesText byte).length = 4 := by
  have hlength : ∀ n < 16, (digitBytes 16 n).length = 1 := fun n hn => by
    rw [digitBytes, Nat.toDigits_of_lt_base hn]
    rfl
  have hlt := byte.toNat_lt
  have hlow := hlength (byte.toNat % 16) (by omega)
  have hhigh := hlength (byte.toNat / 16) (by omega)
  simp [nibblesText_eq, hlow, hhigh]

/-- After the loop the texts of the bytes stand in the buffer, the last byte first. -/
theorem nibbleLoop_ok (ip : List UInt8) {i offset : ℕ} {buf : Datagram} (hi : i ≤ ip.length)
    (hfit : offset + 4 * i ≤ buf.length) :
    ∃ buf', nibbleLoop ip i buf offset = .ok (buf', offset + 4 * i) ∧ buf'.length = buf.length ∧
      buf'.take (offset + 4 * i) = buf.take offset ++ (ip.take i).reverse.flatMap nibblesText := by
  induction i generalizing buf offset with
  | zero => exact ⟨buf, rfl, rfl, by simp⟩
  | succ i ih =>
    have hbyte := nibblesText_length (ip.getD i 0)
    obtain ⟨buf₁, hprint, hlen₁, htake₁⟩ :=
      bufPrint_ok (show offset + (nibblesText (ip.getD i 0)).length ≤ buf.length by omega)
    obtain ⟨buf₂, hloop, hlen₂, htake₂⟩ :=
      ih (show i ≤ ip.length by omega) (show offset + 4 + 4 * i ≤ buf₁.length by omega)
    have hoffset : offset + 4 + 4 * i = offset + 4 * (i + 1) := by omega
    rw [hoffset] at hloop htake₂
    refine ⟨buf₂, ?_, hlen₂.trans hlen₁, ?_⟩
    · rw [nibbleLoop, hprint, hbyte]
      exact hloop
    · rw [hbyte] at htake₁
      have htake : ip.take (i + 1) = ip.take i ++ [ip.getD i 0] := by
        rw [List.take_succ_eq_append_getElem hi, List.getD_eq_getElem?_getD, List.getElem?_eq_getElem hi,
          Option.getD_some]
      rw [htake₂, htake₁, htake, List.reverse_append, List.append_assoc]
      rfl

/-- The name is built in every buffer that is long enough, and it is the name the lookups use. -/
theorem buildReverseNameIn_eq {buf : Datagram} (hbuf : 72 ≤ buf.length) {a : SockAddr} {host : Address}
    (ha : a.host = some host) : buildReverseNameIn buf a = .ok (buildReverseName host) := by
  have hprint : ∀ {buf text : Datagram} {offset : ℕ}, offset + text.length ≤ buf.length →
      (bufPrint buf offset text).map (List.take (offset + text.length)) =
        .ok (buf.take offset ++ text) := by
    intro buf text offset h
    obtain ⟨buf', hok, -, htake⟩ := bufPrint_ok h
    rw [hok, ← htake]
    rfl
  cases a with
  | in4 addr port =>
    obtain rfl := Option.some.inj ha
    have htext : buildReverseName (.ip4 (List.ofFn addr)) =
        digitBytes 10 (addr 3).toNat ++ [dot] ++ (digitBytes 10 (addr 2).toNat ++ [dot]) ++
          (digitBytes 10 (addr 1).toNat ++ [dot]) ++ (digitBytes 10 (addr 0).toNat ++ [dot]) ++
            inAddrArpa := by
      simp [buildReverseName, List.ofFn_succ]
    have hoctet : ∀ i, (digitBytes 10 (addr i).toNat).length ≤ 3 := by
      intro i
      have hlt := (addr i).toNat_lt
      rw [digitBytes, List.length_map, Nat.length_toDigits_le_iff (by decide) (by decide)]
      omega
    rw [buildReverseNameIn, htext]
    have h := @hprint buf (digitBytes 10 (addr 3).toNat ++ [dot] ++
      (digitBytes 10 (addr 2).toNat ++ [dot]) ++ (digitBytes 10 (addr 1).toNat ++ [dot]) ++
        (digitBytes 10 (addr 0).toNat ++ [dot]) ++ inAddrArpa) 0
    rw [Nat.zero_add] at h
    refine h ?_
    have h0 := hoctet 0
    have h1 := hoctet 1
    have h2 := hoctet 2
    have h3 := hoctet 3
    simp only [List.length_append, inAddrArpa, List.length_cons, List.length_nil]
    omega
  | in6 addr port flowinfo scopeId =>
    obtain rfl := Option.some.inj ha
    obtain ⟨buf', hloop, hlen, htake⟩ :=
      nibbleLoop_ok (List.ofFn addr) (show 16 ≤ (List.ofFn addr).length by simp)
        (show 0 + 4 * 16 ≤ buf.length by omega)
    have hnibbles : nibblesText = fun b =>
        digitBytes 16 (b.toNat % 16) ++ [dot] ++ digitBytes 16 (b.toNat / 16) ++ [dot] := funext nibblesText_eq
    rw [buildReverseNameIn, hloop]
    refine (@hprint _ ip6Arpa _ ?_).trans ?_
    · rw [hlen]
      exact hbuf
    · rw [htake, List.take_zero, List.nil_append, List.take_of_length_le (by simp), hnibbles,
        buildReverseName]
  | un path => cases ha
  | any => cases ha

/-! ### Reading back -/

/-- Texts without a dot, each with a dot behind it, are the first labels. -/
theorem splitOn_flatMap {α : Type} (text : α → Datagram) (xs : List α) (suffix : Datagram)
    (h : ∀ x ∈ xs, dot ∉ text x) :
    ((xs.flatMap fun x => text x ++ [dot]) ++ suffix).splitOn dot = xs.map text ++ suffix.splitOn dot := by
  induction xs with
  | nil => rfl
  | cons x xs ih =>
    rw [List.flatMap_cons, List.append_assoc, List.append_assoc, List.singleton_append,
      List.splitOn_append_cons_self_of_not_mem (h x List.mem_cons_self),
      ih fun y hy => h y (List.mem_cons_of_mem _ hy)]
    rfl

theorem mapM_map {α β γ : Type} {f : β → Option γ} {text : α → β} {value : α → γ} (xs : List α)
    (h : ∀ x ∈ xs, f (text x) = some (value x)) : (xs.map text).mapM f = some (xs.map value) := by
  induction xs with
  | nil => rfl
  | cons x xs ih =>
    rw [List.map_cons, List.mapM_cons, h x List.mem_cons_self, ih fun y hy => h y (List.mem_cons_of_mem _ hy)]
    rfl

theorem nibble_spec {n : ℕ} (h : n < 16) :
    dot ∉ digitBytes 16 n ∧ readNibble (digitBytes 16 n) = some n := by
  have hall : ∀ n < 16, dot ∉ digitBytes 16 n ∧ readNibble (digitBytes 16 n) = some n := by decide
  exact hall n h

/-- The halves of these bytes, the high half of each first. -/
theorem joinNibbles_flatMap (bytes : List UInt8) :
    joinNibbles (bytes.flatMap fun b => [b.toNat / 16, b.toNat % 16]) = bytes := by
  induction bytes with
  | nil => rfl
  | cons b bytes ih =>
    have hbyte : b.toNat / 16 * 16 + b.toNat % 16 = b.toNat := Nat.div_add_mod' _ _
    simp only [List.flatMap_cons, List.cons_append, List.nil_append, joinNibbles, hbyte, ih,
      UInt8.ofNat_toNat]

/-- The address is read back from its name. -/
theorem readReverseName_build {a : SockAddr} {host : Address} (ha : a.host = some host) :
    readReverseName (buildReverseName host) = some host := by
  cases a with
  | in4 addr port =>
    obtain rfl := Option.some.inj ha
    have hlabels : (buildReverseName (.ip4 (List.ofFn addr))).splitOn dot =
        (List.ofFn addr).reverse.map octetText ++ inAddrArpa.splitOn dot :=
      splitOn_flatMap octetText _ _ fun b _ hdot => (octetText_spec b).2.1 _ hdot rfl
    have hfour : ((List.ofFn addr).reverse.map octetText).length = 4 := by simp
    rw [readReverseName, hlabels]
    simp only [List.drop_left' hfour, List.take_left' hfour, if_true]
    rw [mapM_map _ fun b _ => (octetText_spec b).2.2.2, Option.map_some, List.map_map]
    have hid : UInt8.ofNat ∘ UInt8.toNat = id := funext fun b => UInt8.ofNat_toNat
    rw [hid, List.map_id, List.reverse_reverse]
  | in6 addr port flowinfo scopeId =>
    obtain rfl := Option.some.inj ha
    have hnibbles : buildReverseName (.ip6 (List.ofFn addr)) =
        (((List.ofFn addr).reverse.flatMap fun b => [b.toNat % 16, b.toNat / 16]).flatMap fun n =>
          digitBytes 16 n ++ [dot]) ++ ip6Arpa := by
      rw [List.flatMap_assoc]
      simp [buildReverseName]
    have hsmall : ∀ n ∈ (List.ofFn addr).reverse.flatMap fun b => [b.toNat % 16, b.toNat / 16],
        n < 16 := by
      intro n hn
      obtain ⟨b, -, hb⟩ := List.mem_flatMap.1 hn
      have hlt := b.toNat_lt
      simp only [List.mem_cons, List.not_mem_nil, or_false] at hb
      omega
    have hlabels := splitOn_flatMap (digitBytes 16) _ ip6Arpa fun n hn => (nibble_spec (hsmall n hn)).1
    have hlen : (((List.ofFn addr).reverse.flatMap fun b => [b.toNat % 16, b.toNat / 16]).map
        (digitBytes 16)).length = 32 := by
      simp
    have hfour : ((((List.ofFn addr).reverse.flatMap fun b => [b.toNat % 16, b.toNat / 16]).map
        (digitBytes 16)) ++ ip6Arpa.splitOn dot).drop 4 ≠ inAddrArpa.splitOn dot := by
      intro h
      have hlabels := congrArg List.length h
      rw [List.length_drop, List.length_append, hlen] at hlabels
      exact absurd hlabels (by decide)
    rw [readReverseName, hnibbles, hlabels]
    simp only [if_neg hfour, List.drop_left' hlen, List.take_left' hlen, if_true]
    rw [mapM_map _ fun n hn => (nibble_spec (hsmall n hn)).2, Option.map_some, List.map_id']
    have hreverse : ((List.ofFn addr).reverse.flatMap fun b => [b.toNat % 16, b.toNat / 16]).reverse =
        (List.ofFn addr).flatMap fun b => [b.toNat / 16, b.toNat % 16] := by
      rw [List.reverse_flatMap, List.reverse_reverse]
      rfl
    rw [hreverse, joinNibbles_flatMap]
  | un path => exact nomatch ha
  | any => exact nomatch ha

/-- **Reverse names.** For every IPv4 or IPv6 address the buffer of `reverse_lookup` is long enough, the
name is a valid host name, the address can be read back from it, and only this address has that name. -/
theorem reverse_name_readable (buf : Fin 128 → UInt8) (a : SockAddr) (h : a.isIp4 ∨ a.isIp6) :
    ∃ name, reverseLookupName buf a = .ok name ∧ validateHostname name = true ∧
      readReverseName name = a.host ∧ ∀ buf' b, reverseLookupName buf' b = .ok name → b.host = a.host := by
  have hname : ∀ (buf : Fin 128 → UInt8) {a : SockAddr} {host : Address}, a.host = some host →
      reverseLookupName buf a = .ok (buildReverseName host) := by
    intro buf a host ha
    refine buildReverseNameIn_eq ?_ ha
    rw [List.length_ofFn]
    decide
  obtain ⟨host, ha⟩ : ∃ host, a.host = some host := by
    cases a with
    | in4 addr port => exact ⟨_, rfl⟩
    | in6 addr port flowinfo scopeId => exact ⟨_, rfl⟩
    | un path => exact h.elim nofun nofun
    | any => exact h.elim nofun nofun
  refine ⟨_, hname buf ha, validateHostname_buildReverseName host,
    (readReverseName_build ha).trans ha.symm, fun buf' b hb => ?_⟩
  cases hhost : b.host with
  | none =>
    cases b with
    | in4 addr port => exact nomatch hhost
    | in6 addr port flowinfo scopeId => exact nomatch hhost
    | un path => exact nomatch hb
    | any => exact nomatch hb
  | some host' =>
    have heq := Except.ok.inj ((hname buf' hhost).symm.trans hb)
    rw [← readReverseName_build hhost, heq, readReverseName_build ha, ha]

/-- The address `1.2.3.4`. -/
theorem reverse_name_readable_ip4 :
    ∃ name, reverseLookupName (fun _ => 0) (.in4 ![1, 2, 3, 4] 80) = .ok name ∧
      validateHostname name = true ∧ readReverseName name = some (.ip4 [1, 2, 3, 4]) ∧
        ∀ buf' b, reverseLookupName buf' b = .ok name → b.host = some (.ip4 [1, 2, 3, 4]) :=
  reverse_name_readable (fun _ => 0) (.in4 ![1, 2, 3, 4] 80) (.inl rfl)

end Talyn.Dns
