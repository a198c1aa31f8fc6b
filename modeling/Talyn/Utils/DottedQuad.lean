import Talyn.Utils.Address

/-!
# The text of an IPv4 address

`dottedQuad` writes an address as `parseIp4` has to read it: four octets in decimal, without leading
zeros, with single dots between them. The loop of `parseIp4` steps over a dot behind an octet and then
looks whether the text is over: behind the last octet a dot is accepted as well.
-/

namespace Talyn

open Dns

theorem ofFn_getD {n : ℕ} {bytes : List UInt8} (h : bytes.length = n) :
    List.ofFn (fun i : Fin n => bytes.getD i 0) = bytes := by
  subst h
  refine List.ext_getElem (by simp) fun i hi hi' => ?_
  simp

theorem getD_ofFn {n : ℕ} (addr : Fin n → UInt8) (i : Fin n) : (List.ofFn addr).getD i 0 = addr i := by
  simp

/-- An octet in decimal. -/
def octetText (b : UInt8) : Datagram := digitBytes 10 b.toNat

/-- Octets with dots between them. -/
def octetsText (bytes : List UInt8) : Datagram := [dot].intercalate (bytes.map octetText)

/-- An IPv4 address in decimal. -/
def dottedQuad (addr : Fin 4 → UInt8) : Datagram := octetsText (List.ofFn addr)

/-- The text of an IPv4 address is accepted as that address, and no other text is. -/
def ReadsIp4 (host : Datagram) : Prop :=
  ∀ port a, SockAddr.parseIp4 host port = some a ↔ ∃ addr, host = dottedQuad addr ∧ a = .in4 addr port

/-! ### Octets -/

theorem octetText_spec (b : UInt8) : octetText b ≠ [] ∧ (∀ c ∈ octetText b, c ≠ dot) ∧
    ¬((octetText b).head? = some 48 ∧ 1 < (octetText b).length) ∧
      parseOctet 0 (octetText b) = some b.toNat := by
  have hspec : octetText b ≠ [] ∧ dot ∉ octetText b ∧
      ¬((octetText b).head? = some 48 ∧ 1 < (octetText b).length) ∧
        parseOctet 0 (octetText b) = some b.toNat := by
    revert b
    exact byte_forall (by decide +kernel)
  obtain ⟨hne, hdot, hrest⟩ := hspec
  exact ⟨hne, fun c hc => ne_of_mem_of_not_mem hc hdot, hrest⟩

example : octetText 255 = [50, 53, 53] := by decide +kernel

/-- A digit behind a number. -/
theorem digitBytes_snoc {n d : ℕ} (hn : 0 < n) (hd : d < 10) :
    digitBytes 10 (n * 10 + d) = digitBytes 10 n ++ [UInt8.ofNat (48 + d)] := by
  have happend := Nat.toDigits_append_toDigits (b := 10) (by decide) hn hd
  rw [Nat.mul_comm n 10, digitBytes, ← happend, List.map_append, ← digitBytes,
    Nat.toDigits_of_lt_base hd, List.map_singleton, Nat.toNat_digitChar_of_lt_ten hd]

/-- The loop over the digits, behind a number that is not zero. -/
theorem parseOctet_digits {val v : ℕ} {cs : Datagram} (hval : 0 < val)
    (h : parseOctet val cs = some v) : digitBytes 10 v = digitBytes 10 val ++ cs := by
  induction cs generalizing val with
  | nil =>
    obtain rfl := Option.some.inj h
    exact (List.append_nil _).symm
  | cons c cs ih =>
    rw [parseOctet] at h
    split_ifs at h with hdigit hbig
    rw [not_or, UInt8.not_lt, UInt8.not_lt, UInt8.le_iff_toNat_le, UInt8.le_iff_toNat_le] at hdigit
    obtain ⟨hlow, hhigh⟩ : 48 ≤ c.toNat ∧ c.toNat ≤ 57 := hdigit
    have hchar : UInt8.ofNat (48 + (c.toNat - 48)) = c := by
      rw [Nat.add_sub_cancel' hlow]
      exact UInt8.ofNat_toNat
    rw [ih (by omega) h, digitBytes_snoc hval (by omega), hchar, List.append_assoc]
    rfl

theorem parseOctet_le {val v : ℕ} {cs : Datagram} (hval : val ≤ 255) (h : parseOctet val cs = some v) :
    v ≤ 255 := by
  induction cs generalizing val with
  | nil => exact Option.some.inj h ▸ hval
  | cons c cs ih =>
    rw [parseOctet] at h
    split_ifs at h with hdigit hbig
    exact ih (by omega) h

/-- What the inner loop accepts, in an octet without a leading zero. -/
theorem parseOctet_eq_some {digits : Datagram} {v : ℕ} (hne : digits ≠ [])
    (hzero : ¬(digits.head? = some 48 ∧ 1 < digits.length)) :
    parseOctet 0 digits = some v ↔ ∃ b : UInt8, v = b.toNat ∧ digits = octetText b := by
  constructor
  · intro h
    have hle := parseOctet_le (Nat.zero_le _) h
    refine ⟨UInt8.ofNat v, ?_, ?_⟩
    · rw [UInt8.toNat_ofNat_of_lt' (by show v < 256; omega)]
    rw [octetText, UInt8.toNat_ofNat_of_lt' (by show v < 256; omega)]
    obtain ⟨c, cs, rfl⟩ := List.exists_cons_of_ne_nil hne
    rw [parseOctet] at h
    split_ifs at h with hdigit hbig
    rw [not_or, UInt8.not_lt, UInt8.not_lt, UInt8.le_iff_toNat_le, UInt8.le_iff_toNat_le] at hdigit
    obtain ⟨hlow, hhigh⟩ : 48 ≤ c.toNat ∧ c.toNat ≤ 57 := hdigit
    rw [Nat.zero_mul, Nat.zero_add] at h
    have hfirst : digitBytes 10 (c.toNat - 48) = [c] := by
      rw [digitBytes, Nat.toDigits_of_lt_base (by omega), List.map_singleton,
        Nat.toNat_digitChar_of_lt_ten (by omega), Nat.add_sub_cancel' hlow]
      simp
    by_cases hnull : c.toNat = 48
    · -- the zero stands alone
      obtain rfl : c = 48 := UInt8.toNat_inj.1 hnull
      have hcs : cs = [] := by
        by_contra hcs
        exact hzero ⟨rfl, by simpa using List.length_pos_iff.2 hcs⟩
      subst hcs
      obtain rfl := Option.some.inj h
      rfl
    · rw [parseOctet_digits (by omega) h, hfirst]
      rfl
  · rintro ⟨b, rfl, rfl⟩
    exact (octetText_spec b).2.2.2

/-! ### The loop over the octets -/

/-- A piece without separators is what comes before the first separator. -/
theorem takeWhile_piece {sep : UInt8} {piece rest : Datagram} (hpiece : ∀ c ∈ piece, c ≠ sep)
    (hrest : rest = [] ∨ rest.head? = some sep) :
    (piece ++ rest).takeWhile (fun c => decide (c ≠ sep)) = piece := by
  rw [List.takeWhile_append_of_pos fun c hc => decide_eq_true (hpiece c hc)]
  rcases hrest with rfl | hhead
  · exact List.append_nil _
  · obtain ⟨r, rfl⟩ := List.head?_eq_some_iff.1 hhead
    simp

/-- And the rest is what is left. -/
theorem dropWhile_piece {sep : UInt8} {piece rest : Datagram} (hpiece : ∀ c ∈ piece, c ≠ sep)
    (hrest : rest = [] ∨ rest.head? = some sep) :
    (piece ++ rest).dropWhile (fun c => decide (c ≠ sep)) = rest := by
  rw [List.dropWhile_append_of_pos fun c hc => decide_eq_true (hpiece c hc)]
  rcases hrest with rfl | hhead
  · rfl
  · obtain ⟨r, rfl⟩ := List.head?_eq_some_iff.1 hhead
    simp

/-- One turn of the outer loop: a piece without dots, and what comes behind it. -/
theorem parseIp4From_piece {fuel : ℕ} {piece rest : Datagram} (bytes : List UInt8) (hne : piece ≠ [])
    (hdot : ∀ c ∈ piece, c ≠ dot) (hrest : rest = [] ∨ rest.head? = some dot) :
    parseIp4From (fuel + 1) (piece ++ rest) bytes =
      if bytes.length ≥ 4 then none
      else if piece.head? = some 48 ∧ 1 < piece.length then none
      else (parseOctet 0 piece).bind fun val =>
        parseIp4From fuel (rest.drop 1) (bytes ++ [UInt8.ofNat val]) := by
  obtain ⟨c, cs, rfl⟩ := List.exists_cons_of_ne_nil hne
  have htake := takeWhile_piece hdot hrest
  have hdrop := dropWhile_piece hdot hrest
  have hzero : (c = 48 ∧ cs ++ rest ≠ [] ∧ (cs ++ rest).head? ≠ some dot) ↔
      ((c :: cs).head? = some 48 ∧ 1 < (c :: cs).length) := by
    cases cs with
    | nil =>
      rcases hrest with rfl | hhead
      · simp
      · simp [hhead]
    | cons d cs =>
      have hd := hdot d (List.mem_cons_of_mem _ List.mem_cons_self)
      simp [hd]
  rw [List.cons_append] at htake hdrop ⊢
  rw [parseIp4From]
  simp only [htake, hdrop, hzero, reduceCtorEq, if_false]
  cases parseOctet 0 (c :: cs) <;> rfl

theorem octetsText_cons (b : UInt8) {bs : List UInt8} (h : bs ≠ []) :
    octetsText (b :: bs) = octetText b ++ dot :: octetsText bs := by
  obtain ⟨b', bs, rfl⟩ := List.exists_cons_of_ne_nil h
  simp [octetsText, List.intercalate]

theorem octetsText_singleton (b : UInt8) : octetsText [b] = octetText b := by
  simp [octetsText, List.intercalate]

theorem octetsText_ne_nil {bs : List UInt8} (h : bs ≠ []) : octetsText bs ≠ [] := by
  obtain ⟨b, bs, rfl⟩ := List.exists_cons_of_ne_nil h
  by_cases hbs : bs = []
  · rw [hbs, octetsText_singleton]
    exact (octetText_spec b).1
  · rw [octetsText_cons b hbs]
    simp

/-- A text is empty, or its first piece without dots and the rest. -/
theorem exists_piece (sep : UInt8) (text : Datagram) :
    ∃ piece rest, text = piece ++ rest ∧ (∀ c ∈ piece, c ≠ sep) ∧ (rest = [] ∨ rest.head? = some sep) := by
  refine ⟨text.takeWhile (· ≠ sep), text.dropWhile (· ≠ sep),
    (List.takeWhile_append_dropWhile).symm, fun c hc => by simpa using List.all_eq_true.1 List.all_takeWhile c hc, ?_⟩
  cases hrest : text.dropWhile (· ≠ sep) with
  | nil => exact .inl rfl
  | cons c rest =>
    have hhead := List.head?_dropWhile_not (fun x => decide (x ≠ sep)) text
    rw [hrest] at hhead
    exact .inr (by simpa using hhead)

theorem piece_unique {sep : UInt8} {p p' r r' : Datagram} (hp : ∀ c ∈ p, c ≠ sep)
    (hr : r = [] ∨ r.head? = some sep) (hp' : ∀ c ∈ p', c ≠ sep) (hr' : r' = [] ∨ r'.head? = some sep)
    (h : p ++ r = p' ++ r') : p = p' ∧ r = r' := by
  obtain rfl : p = p' := by rw [← takeWhile_piece hp hr, h, takeWhile_piece hp' hr']
  exact ⟨rfl, List.append_cancel_left h⟩

/-- The outer loop reads octets with dots between them, or with one more dot behind the last. -/
theorem parseIp4From_eq_some {fuel : ℕ} {text : Datagram} {bytes out : List UInt8}
    (hfuel : text.length ≤ fuel) :
    parseIp4From fuel text bytes = some out ↔
      ∃ bs, out = bytes ++ bs ∧ out.length = 4 ∧
        (text = octetsText bs ∨ bs ≠ [] ∧ text = octetsText bs ++ [dot]) := by
  -- the text is over
  have hend : ∀ {fuel bytes}, parseIp4From fuel [] bytes = some out ↔
      ∃ bs, out = bytes ++ bs ∧ out.length = 4 ∧
        ([] = octetsText bs ∨ bs ≠ [] ∧ [] = octetsText bs ++ [dot]) := by
    intro fuel bytes
    rw [parseIp4From]
    constructor
    · intro h
      split_ifs at h with hfour
      obtain rfl := Option.some.inj h
      exact ⟨[], (List.append_nil _).symm, hfour, .inl rfl⟩
    · rintro ⟨bs, rfl, hfour, htext | ⟨-, htext⟩⟩
      · have hbs : bs = [] := by
          by_contra hne
          exact octetsText_ne_nil hne htext.symm
        subst hbs
        rw [List.append_nil] at hfour ⊢
        exact if_pos hfour
      · exact absurd htext (by simp)
  induction fuel generalizing text bytes with
  | zero =>
    obtain rfl := List.length_eq_zero_iff.1 (Nat.le_zero.1 hfuel)
    exact hend
  | succ fuel ih =>
    obtain ⟨piece, rest, rfl, hdot, hrest⟩ := exists_piece dot text
    cases piece with
    | nil =>
      rcases hrest with rfl | hhead
      · exact hend
      · -- no octet before a dot
        obtain ⟨r, rfl⟩ := List.head?_eq_some_iff.1 hhead
        refine iff_of_false ?_ ?_
        · simp [parseIp4From, dot]
        · rintro ⟨bs, -, -, hbs⟩
          have hfirst : ∀ {tail}, bs ≠ [] → dot :: r ≠ octetsText bs ++ tail := by
            intro tail hne heq
            obtain ⟨b, bs, rfl⟩ := List.exists_cons_of_ne_nil hne
            obtain ⟨hoctet, hno, -⟩ := octetText_spec b
            obtain ⟨c, cs, hc⟩ := List.exists_cons_of_ne_nil hoctet
            have hcdot := hno c (hc ▸ List.mem_cons_self)
            by_cases hbs : bs = []
            · rw [hbs, octetsText_singleton, hc] at heq
              exact hcdot (List.cons_eq_cons.1 heq).1.symm
            · rw [octetsText_cons b hbs, hc] at heq
              exact hcdot (List.cons_eq_cons.1 heq).1.symm
          rcases hbs with hbs | ⟨hne, hbs⟩
          · have hne : bs ≠ [] := by
              rintro rfl
              exact nomatch hbs
            exact hfirst hne (hbs.trans (List.append_nil _).symm)
          · exact hfirst hne hbs
    | cons c cs =>
      rw [parseIp4From_piece bytes (List.cons_ne_nil c cs) hdot hrest]
      have hshort : (rest.drop 1).length ≤ fuel := by
        simp only [List.length_append, List.length_cons] at hfuel
        rw [List.length_drop]
        omega
      constructor
      · intro h
        split_ifs at h with hmany hzero
        obtain ⟨val, hval, hloop⟩ := Option.bind_eq_some_iff.1 h
        obtain ⟨b, rfl, hpiece⟩ := (parseOctet_eq_some (List.cons_ne_nil c cs) hzero).1 hval
        rw [UInt8.ofNat_toNat] at hloop
        obtain ⟨bs, rfl, hfour, htext⟩ := (ih hshort).1 hloop
        refine ⟨b :: bs, by simp, by simpa using hfour, ?_⟩
        rw [hpiece]
        rcases hrest with rfl | hhead
        · have hbs : bs = [] := by
            by_contra hne
            rcases htext with htext | ⟨-, htext⟩
            · exact octetsText_ne_nil hne htext.symm
            · exact absurd htext (by simp)
          subst hbs
          exact .inl (by rw [octetsText_singleton, List.append_nil])
        · obtain ⟨r, rfl⟩ := List.head?_eq_some_iff.1 hhead
          rw [List.drop_one, List.tail_cons] at htext
          rcases htext with rfl | ⟨hne, rfl⟩
          · by_cases hbs : bs = []
            · subst hbs
              exact .inr ⟨List.cons_ne_nil _ _, by rw [octetsText_singleton]; rfl⟩
            · exact .inl (octetsText_cons b hbs).symm
          · refine .inr ⟨List.cons_ne_nil _ _, ?_⟩
            rw [octetsText_cons b hne, List.append_assoc, List.cons_append]
      · rintro ⟨bs, rfl, hfour, htext⟩
        -- the first octet is the piece
        obtain ⟨b, bs, rfl⟩ : ∃ b bs', bs = b :: bs' := by
          refine List.exists_cons_of_ne_nil ?_
          rintro rfl
          rcases htext with htext | ⟨hne, -⟩
          · exact nomatch htext
          · exact hne rfl
        obtain ⟨hne, hno, hzero, hoctet⟩ := octetText_spec b
        obtain ⟨rest', htext', hrest', htail⟩ : ∃ rest', (c :: cs) ++ rest = octetText b ++ rest' ∧
            (rest' = [] ∨ rest'.head? = some dot) ∧
              (rest'.drop 1 = octetsText bs ∨ bs ≠ [] ∧ rest'.drop 1 = octetsText bs ++ [dot]) := by
          by_cases hbs : bs = []
          · subst hbs
            rw [octetsText_singleton] at htext
            rcases htext with htext | ⟨-, htext⟩
            · exact ⟨[], by rw [htext, List.append_nil], .inl rfl, .inl rfl⟩
            · exact ⟨[dot], htext, .inr rfl, .inl rfl⟩
          · rw [octetsText_cons b hbs] at htext
            rcases htext with htext | ⟨-, htext⟩
            · exact ⟨_, htext, .inr rfl, .inl rfl⟩
            · exact ⟨_, htext.trans (List.append_assoc _ _ _), .inr rfl, .inr ⟨hbs, rfl⟩⟩
        obtain ⟨hpiece, rfl⟩ := piece_unique hdot hrest hno hrest' htext'
        rw [hpiece]
        have hroom : ¬bytes.length ≥ 4 := by
          simp only [List.length_append, List.length_cons] at hfour
          omega
        rw [if_neg hroom, if_neg hzero, hoctet, Option.bind_some, UInt8.ofNat_toNat]
        refine (ih hshort).2 ⟨bs, by simp, by simpa using hfour, htail⟩

/-! ### The parser -/

theorem parseIp4_eq_some {host : Datagram} {port : UInt16} {a : SockAddr} :
    SockAddr.parseIp4 host port = some a ↔
      ∃ addr, (host = dottedQuad addr ∨ host = dottedQuad addr ++ [dot]) ∧ a = .in4 addr port := by
  rw [SockAddr.parseIp4, Option.map_eq_some_iff]
  constructor
  · rintro ⟨bytes, hloop, rfl⟩
    obtain ⟨bs, hbytes, hfour, htext⟩ := (parseIp4From_eq_some le_rfl).1 hloop
    obtain rfl : bytes = bs := hbytes
    refine ⟨fun i => bytes.getD i 0, ?_, rfl⟩
    rw [dottedQuad, ofFn_getD hfour]
    exact htext.imp_right And.right
  · rintro ⟨addr, htext, rfl⟩
    refine ⟨List.ofFn addr, (parseIp4From_eq_some le_rfl).2 ⟨List.ofFn addr, rfl, List.length_ofFn, ?_⟩, ?_⟩
    · exact htext.imp_right fun h => ⟨by simp, h⟩
    · rw [SockAddr.initIp4]
      exact congrArg (SockAddr.in4 · port) (funext (getD_ofFn addr))

theorem octetsText_getLast? (bs : List UInt8) : (octetsText bs).getLast? ≠ some dot := by
  induction bs with
  | nil => exact nofun
  | cons b bs ih =>
    have hlast : ∀ {t : Datagram}, (∀ c ∈ t, c ≠ dot) → t.getLast? ≠ some dot :=
      fun ht hlast => ht _ (List.mem_of_getLast? hlast) rfl
    by_cases hbs : bs = []
    · rw [hbs, octetsText_singleton]
      exact hlast (octetText_spec b).2.1
    · rw [octetsText_cons b hbs, List.getLast?_append, List.getLast?_cons]
      cases hc : (octetsText bs).getLast? with
      | none => exact absurd (List.getLast?_eq_none_iff.1 hc) (octetsText_ne_nil hbs)
      | some c =>
        rw [hc] at ih
        exact ih

/-- Octets are written with digits and dots. -/
theorem octetsText_chars (bs : List UInt8) : ∀ c ∈ octetsText bs, (48 ≤ c ∧ c ≤ 57) ∨ c = dot := by
  have hoctet : ∀ b, ∀ c ∈ octetText b, (48 ≤ c ∧ c ≤ 57) ∨ c = dot := by
    intro b c hc
    obtain ⟨d, hd, rfl⟩ := List.mem_map.1 hc
    have hdigit : 48 ≤ d.toNat ∧ d.toNat ≤ 57 :=
      Char.isDigit_iff_toNat.1 (Nat.isDigit_of_mem_toDigits (by decide) le_rfl hd)
    have htoNat : (UInt8.ofNat d.toNat).toNat = d.toNat := Nat.mod_eq_of_lt (by omega)
    simp only [UInt8.le_iff_toNat_le, htoNat]
    exact .inl hdigit
  induction bs with
  | nil => exact nofun
  | cons b bs ih =>
    by_cases hbs : bs = []
    · rw [hbs, octetsText_singleton]
      exact hoctet b
    · rw [octetsText_cons b hbs]
      intro c hc
      rcases List.mem_append.1 hc with hc | hc
      · exact hoctet b c hc
      · rcases List.mem_cons.1 hc with rfl | hc
        · exact .inr rfl
        · exact ih c hc

theorem dot_mem_dottedQuad (addr : Fin 4 → UInt8) : dot ∈ dottedQuad addr := by
  have hcons : List.ofFn addr = addr 0 :: List.ofFn fun i : Fin 3 => addr i.succ := List.ofFn_succ
  rw [dottedQuad, hcons, octetsText_cons _ (by simp)]
  exact List.mem_append_right _ List.mem_cons_self

/-- **`parseIp4`.** It is right about a text exactly when that is not the text of an address with a dot
behind it. -/
theorem readsIp4_iff (host : Datagram) :
    ReadsIp4 host ↔ ¬∃ addr, host = dottedQuad addr ++ [dot] := by
  constructor
  · rintro hreads ⟨addr, rfl⟩
    obtain ⟨addr', htext, -⟩ := (hreads 0 _).1 (parseIp4_eq_some.2 ⟨addr, .inr rfl, rfl⟩)
    refine octetsText_getLast? (List.ofFn addr') ?_
    rw [← dottedQuad, ← htext, List.getLast?_append]
    rfl
  · intro hdot port a
    rw [parseIp4_eq_some]
    constructor
    · rintro ⟨addr, htext | htext, ha⟩
      · exact ⟨addr, htext, ha⟩
      · exact absurd ⟨addr, htext⟩ hdot
    · rintro ⟨addr, htext, ha⟩
      exact ⟨addr, .inl htext, ha⟩

/-- The text `1.2.3.4.` is taken for `1.2.3.4`. -/
theorem trailing_dot_accepted : ¬ReadsIp4 [49, 46, 50, 46, 51, 46, 52, 46] := by
  intro h
  have hread : SockAddr.parseIp4 [49, 46, 50, 46, 51, 46, 52, 46] 80 = some (.in4 ![1, 2, 3, 4] 80) :=
    parseIp4_eq_some.2 ⟨![1, 2, 3, 4], .inr (by decide +kernel), rfl⟩
  obtain ⟨addr, htext, -⟩ := (h 80 _).1 hread
  refine octetsText_getLast? (List.ofFn addr) ?_
  rw [← dottedQuad, ← htext]
  rfl

end Talyn
