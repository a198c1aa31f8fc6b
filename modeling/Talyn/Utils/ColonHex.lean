import Talyn.Utils.DottedQuad

/-!
# The text of an IPv6 address

`Ip6Text` says which texts are IPv6 addresses in hexadecimal groups: eight groups with single colons
between them, or fewer with one `::` that stands for the groups that are missing. The loop of `parseIp6`
steps over a colon behind a group and then looks whether the text is over: in an address with `::` a
colon behind the last group is accepted as well.
-/

namespace Talyn

open Dns

/-- A group of one to four hexadecimal digits, and its value. -/
def IsGroup (text : Datagram) (g : ℕ) : Prop :=
  text ≠ [] ∧ text.length ≤ 4 ∧
    ∃ digits, List.Forall₂ (fun c d => hexDigit c = some d) text digits ∧
      g = digits.foldl (fun v d => v * 16 + d) 0

/-- Groups with colons between them. -/
def joinGroups (texts : List Datagram) : Datagram := [colon].intercalate texts

/-- The texts of IPv6 addresses, with the eight groups they stand for. -/
inductive Ip6Text : Datagram → List ℕ → Prop
  | full {texts : List Datagram} {groups : List ℕ} (h : List.Forall₂ IsGroup texts groups)
      (hlen : groups.length = 8) : Ip6Text (joinGroups texts) groups
  | compressed {texts texts' : List Datagram} {groups groups' : List ℕ}
      (h : List.Forall₂ IsGroup texts groups) (h' : List.Forall₂ IsGroup texts' groups')
      (hlen : groups.length + groups'.length ≤ 7) :
      Ip6Text (joinGroups texts ++ [colon, colon] ++ joinGroups texts')
        (groups ++ List.replicate (8 - (groups.length + groups'.length)) 0 ++ groups')

/-- The text of an IPv6 address is accepted as that address, and no other text is. -/
def ReadsIp6 (host : Datagram) : Prop :=
  ∀ port a, SockAddr.parseIp6 host port = some a ↔
    ∃ groups, Ip6Text host groups ∧ a = SockAddr.initIp6 (groupBytes groups) port 0 0

/-- A text of an address with `::` that ends with a group, and a colon behind it. -/
def EndsInColon (host : Datagram) : Prop :=
  ∃ texts texts' groups groups', List.Forall₂ IsGroup texts groups ∧ List.Forall₂ IsGroup texts' groups' ∧
    texts' ≠ [] ∧ groups.length + groups'.length ≤ 7 ∧
      host = joinGroups texts ++ [colon, colon] ++ joinGroups texts' ++ [colon]

/-! ### Groups -/

/-- The inner loop. -/
theorem parseGroup_eq_some {val digits v : ℕ} {cs : Datagram} (hdigits : digits ≤ 4) :
    parseGroup val digits cs = some v ↔ digits + cs.length ≤ 4 ∧
      ∃ ds, List.Forall₂ (fun c d => hexDigit c = some d) cs ds ∧
        v = ds.foldl (fun v d => v * 16 + d) val := by
  induction cs generalizing val digits with
  | nil =>
    constructor
    · intro h
      exact ⟨hdigits, [], .nil, (Option.some.inj h).symm⟩
    · rintro ⟨-, ds, hds, rfl⟩
      cases hds
      rfl
  | cons c cs ih =>
    rw [parseGroup, List.length_cons]
    cases hc : hexDigit c with
    | none =>
      refine iff_of_false nofun ?_
      rintro ⟨-, ds, hds, -⟩
      cases hds with
      | cons hd _ => exact nomatch hc.symm.trans hd
    | some d =>
      dsimp only
      by_cases hmany : digits + 1 > 4
      · rw [if_pos hmany]
        exact iff_of_false nofun fun h => by omega
      · rw [if_neg hmany, ih (by omega)]
        constructor
        · rintro ⟨hlen, ds, hds, rfl⟩
          exact ⟨by omega, d :: ds, .cons hc hds, rfl⟩
        · rintro ⟨hlen, ds, hds, rfl⟩
          cases hds with
          | @cons _ d' _ ds hd hrest =>
            obtain rfl := Option.some.inj (hc.symm.trans hd)
            exact ⟨by omega, ds, hrest, rfl⟩

theorem isGroup_iff {text : Datagram} {g : ℕ} (hne : text ≠ []) :
    parseGroup 0 0 text = some g ↔ IsGroup text g := by
  rw [parseGroup_eq_some (Nat.zero_le _), Nat.zero_add, IsGroup, and_iff_right hne]

theorem hexDigit_colon : hexDigit colon = none := by decide

theorem IsGroup.hexDigit_ne_none {text : Datagram} {g : ℕ} (h : IsGroup text g) :
    ∀ c ∈ text, hexDigit c ≠ none := by
  obtain ⟨-, -, ds, hds, -⟩ := h
  induction hds with
  | nil => exact nofun
  | @cons c d cs ds hd _ ih =>
    intro c' hc'
    rcases List.mem_cons.1 hc' with rfl | hmem
    · rw [hd]
      exact nofun
    · exact ih _ hmem

theorem IsGroup.ne_colon {text : Datagram} {g : ℕ} (h : IsGroup text g) : ∀ c ∈ text, c ≠ colon := by
  rintro c hc rfl
  exact h.hexDigit_ne_none _ hc hexDigit_colon

theorem joinGroups_singleton (text : Datagram) : joinGroups [text] = text := by
  simp [joinGroups, List.intercalate]

theorem joinGroups_cons (text : Datagram) {texts : List Datagram} (h : texts ≠ []) :
    joinGroups (text :: texts) = text ++ colon :: joinGroups texts := by
  obtain ⟨text', texts, rfl⟩ := List.exists_cons_of_ne_nil h
  simp [joinGroups, List.intercalate]

/-- Groups begin with a digit and end with one. -/
theorem joinGroups_ends {texts : List Datagram} {groups : List ℕ} (h : List.Forall₂ IsGroup texts groups)
    (hne : texts ≠ []) : (∃ c cs, joinGroups texts = c :: cs ∧ c ≠ colon) ∧
      ∃ cs c, joinGroups texts = cs ++ [c] ∧ c ≠ colon := by
  induction h with
  | nil => exact absurd rfl hne
  | @cons text g texts groups hgroup hrest ih =>
    obtain ⟨c, cs, hfirst⟩ := List.exists_cons_of_ne_nil hgroup.1
    have hc : c ≠ colon := hgroup.ne_colon c (hfirst ▸ List.mem_cons_self)
    by_cases htexts : texts = []
    · rw [htexts, joinGroups_singleton]
      refine ⟨⟨c, cs, hfirst, hc⟩, text.dropLast, text.getLast hgroup.1,
        (List.dropLast_append_getLast hgroup.1).symm, hgroup.ne_colon _ (List.getLast_mem hgroup.1)⟩
    · rw [joinGroups_cons text htexts, hfirst]
      obtain ⟨-, cs', c', hlast, hc'⟩ := ih htexts
      refine ⟨⟨c, _, rfl, hc⟩, c :: cs ++ colon :: cs', c', ?_, hc'⟩
      rw [hlast]
      simp

/-! ### The loop over the groups -/

/-- One turn of the outer loop: a piece without colons, and what comes behind it. -/
theorem parseIp6From_piece {fuel : ℕ} {piece rest : Datagram} {groups : List ℕ} (doubleColon : Option ℕ)
    (hroom : groups.length < 8) (hne : piece ≠ []) (hcolon : ∀ c ∈ piece, c ≠ colon)
    (hrest : rest = [] ∨ rest.head? = some colon) :
    parseIp6From (fuel + 1) (piece ++ rest) groups doubleColon =
      (parseGroup 0 0 piece).bind fun val =>
        if groups.length + 1 = 8 ∧ rest ≠ [] then none
        else if (rest.drop 1).head? = some colon then
          if doubleColon.isSome then none
          else parseIp6From fuel (rest.drop 2) (groups ++ [val]) (some (groups.length + 1))
        else parseIp6From fuel (rest.drop 1) (groups ++ [val]) doubleColon := by
  obtain ⟨c, cs, rfl⟩ := List.exists_cons_of_ne_nil hne
  have htake := takeWhile_piece hcolon hrest
  have hdrop := dropWhile_piece hcolon hrest
  rw [List.cons_append] at htake hdrop ⊢
  rw [parseIp6From, if_neg (not_le.2 hroom)]
  simp only [htake, hdrop, reduceCtorEq, if_false, List.length_append, List.length_singleton]
  cases parseGroup 0 0 (c :: cs) <;> rfl

/-- A text that begins with a colon. -/
theorem parseIp6From_colon {fuel : ℕ} {r : Datagram} {groups : List ℕ} {doubleColon : Option ℕ}
    (hroom : groups.length < 8) : parseIp6From fuel (colon :: r) groups doubleColon = none := by
  cases fuel with
  | zero => rfl
  | succ fuel =>
    rw [parseIp6From, if_neg (not_le.2 hroom)]
    simp

theorem parseIp6From_nil (fuel : ℕ) (groups : List ℕ) (doubleColon : Option ℕ) :
    parseIp6From fuel [] groups doubleColon = some (groups, doubleColon, []) := by
  cases fuel <;> rfl

/-- Groups, or groups with a colon behind them, when there is room for one more. -/
def GroupsText (text : Datagram) (texts : List Datagram) (groups : List ℕ) (room : ℕ) : Prop :=
  List.Forall₂ IsGroup texts groups ∧ groups.length ≤ room ∧
    (text = joinGroups texts ∨ texts ≠ [] ∧ groups.length < room ∧ text = joinGroups texts ++ [colon])

/-- Groups, a double colon and a text of more groups. -/
def DoubleText (text : Datagram) (texts texts' : List Datagram) (groups groups' : List ℕ) (room : ℕ) :
    Prop :=
  List.Forall₂ IsGroup texts groups ∧ texts ≠ [] ∧ groups.length < room ∧
    ∃ text', text = joinGroups texts ++ [colon, colon] ++ text' ∧
      GroupsText text' texts' groups' (room - groups.length)

theorem groupsText_nil {texts : List Datagram} {groups : List ℕ} {room : ℕ} :
    GroupsText [] texts groups room ↔ texts = [] ∧ groups = [] := by
  constructor
  · rintro ⟨hgroups, -, htext⟩
    have hnone : texts = [] := by
      by_contra hne
      obtain ⟨⟨c, cs, hfirst, -⟩, -⟩ := joinGroups_ends hgroups hne
      rw [hfirst] at htext
      rcases htext with htext | ⟨-, -, htext⟩
      · exact nomatch htext
      · exact nomatch htext
    subst hnone
    cases hgroups
    exact ⟨rfl, rfl⟩
  · rintro ⟨rfl, rfl⟩
    exact ⟨.nil, Nat.zero_le _, .inl rfl⟩

theorem not_groupsText_colon {r : Datagram} {texts : List Datagram} {groups : List ℕ} {room : ℕ} :
    ¬GroupsText (colon :: r) texts groups room := by
  rintro ⟨hgroups, -, htext⟩
  have hne : texts ≠ [] := by
    rintro rfl
    rcases htext with htext | ⟨hne, -⟩
    · exact nomatch htext
    · exact hne rfl
  obtain ⟨⟨c, cs, hfirst, hc⟩, -⟩ := joinGroups_ends hgroups hne
  rw [hfirst] at htext
  rcases htext with htext | ⟨-, -, htext⟩
  · exact hc (List.cons_eq_cons.1 htext).1.symm
  · exact hc (List.cons_eq_cons.1 htext).1.symm

/-- The first group of a text of groups. -/
theorem groupsText_piece {piece rest : Datagram} {texts : List Datagram} {groups : List ℕ} {room : ℕ}
    (hne : piece ≠ []) (hcolon : ∀ c ∈ piece, c ≠ colon) (hrest : rest = [] ∨ rest.head? = some colon) :
    GroupsText (piece ++ rest) texts groups room ↔
      ∃ g texts' groups', texts = piece :: texts' ∧ groups = g :: groups' ∧ IsGroup piece g ∧
        ((rest = [] ∧ texts' = [] ∧ groups' = [] ∧ 1 ≤ room) ∨
          ∃ r, rest = colon :: r ∧ 1 < room ∧ GroupsText r texts' groups' (room - 1)) := by
  constructor
  · rintro ⟨hgroups, hroom, htext⟩
    cases hgroups with
    | nil =>
      rcases htext with htext | ⟨hnil, -⟩
      · exact absurd (List.append_eq_nil_iff.1 htext).1 hne
      · exact absurd rfl hnil
    | @cons text g texts groups hgroup hgroups =>
      rw [List.length_cons] at hroom htext
      by_cases htexts : texts = []
      · subst htexts
        cases hgroups
        rw [joinGroups_singleton] at htext
        rcases htext with htext | ⟨-, hmore, htext⟩
        · obtain ⟨rfl, rfl⟩ := piece_unique hcolon hrest hgroup.ne_colon (.inl rfl)
            (htext.trans (List.append_nil _).symm)
          exact ⟨g, [], [], rfl, rfl, hgroup, .inl ⟨rfl, rfl, rfl, hroom⟩⟩
        · obtain ⟨rfl, rfl⟩ := piece_unique hcolon hrest hgroup.ne_colon (.inr rfl) htext
          exact ⟨g, [], [], rfl, rfl, hgroup, .inr ⟨[], rfl, hmore, groupsText_nil.2 ⟨rfl, rfl⟩⟩⟩
      · rw [joinGroups_cons text htexts] at htext
        have hpos : 0 < groups.length := by
          rw [← hgroups.length_eq]
          exact List.length_pos_iff.2 htexts
        rcases htext with htext | ⟨-, hmore, htext⟩
        · obtain ⟨rfl, rfl⟩ := piece_unique hcolon hrest hgroup.ne_colon (.inr rfl) htext
          exact ⟨g, texts, groups, rfl, rfl, hgroup,
            .inr ⟨_, rfl, by omega, hgroups, by omega, .inl rfl⟩⟩
        · rw [List.append_assoc, List.cons_append] at htext
          obtain ⟨rfl, rfl⟩ := piece_unique hcolon hrest hgroup.ne_colon (.inr rfl) htext
          exact ⟨g, texts, groups, rfl, rfl, hgroup,
            .inr ⟨_, rfl, by omega, hgroups, by omega, .inr ⟨htexts, by omega, rfl⟩⟩⟩
  · rintro ⟨g, texts, groups, rfl, rfl, hgroup, ⟨rfl, rfl, rfl, hroom⟩ | ⟨r, rfl, hroom, hgroups, hlen, htext⟩⟩
    · exact ⟨.cons hgroup .nil, hroom, .inl (by rw [joinGroups_singleton, List.append_nil])⟩
    · refine ⟨.cons hgroup hgroups, by rw [List.length_cons]; omega, ?_⟩
      by_cases htexts : texts = []
      · subst htexts
        cases hgroups
        rcases htext with rfl | ⟨hnil, -⟩
        · exact .inr ⟨List.cons_ne_nil _ _, hroom, by rw [joinGroups_singleton]; rfl⟩
        · exact absurd rfl hnil
      · rw [joinGroups_cons piece htexts, List.length_cons]
        rcases htext with rfl | ⟨-, hmore, rfl⟩
        · exact .inl rfl
        · exact .inr ⟨List.cons_ne_nil _ _, by omega, by rw [List.append_assoc, List.cons_append]⟩

/-- The loop by its turns: nothing is left, or a colon where a group should be, or a piece up to the next colon. -/
theorem turn_induction {motive : ℕ → Datagram → List ℕ → Prop} (nil : ∀ fuel groups, motive fuel [] groups)
    (noGroup : ∀ fuel r groups, groups.length < 8 → motive (fuel + 1) (colon :: r) groups)
    (group : ∀ fuel piece rest groups, piece ≠ [] → (∀ c ∈ piece, c ≠ colon) →
      (rest = [] ∨ rest.head? = some colon) → groups.length < 8 → rest.length ≤ fuel →
      (∀ r groups', r.length ≤ fuel → groups'.length < 8 ∨ r = [] → motive fuel r groups') →
      motive (fuel + 1) (piece ++ rest) groups)
    {fuel : ℕ} {text : Datagram} {groups : List ℕ} (hfuel : text.length ≤ fuel)
    (hroom : groups.length < 8 ∨ text = []) : motive fuel text groups := by
  induction fuel generalizing text groups with
  | zero =>
    obtain rfl := List.length_eq_zero_iff.1 (Nat.le_zero.1 hfuel)
    exact nil 0 groups
  | succ fuel ih =>
    obtain ⟨piece, rest, rfl, hcolon, hrest⟩ := exists_piece colon text
    by_cases hne : piece = []
    · subst hne
      rcases hrest with rfl | hhead
      · exact nil (fuel + 1) groups
      · obtain ⟨r, rfl⟩ := List.head?_eq_some_iff.1 hhead
        exact noGroup fuel r groups (hroom.resolve_right nofun)
    · have hpos := List.length_pos_iff.2 hne
      rw [List.length_append] at hfuel
      exact group fuel piece rest groups hne hcolon hrest
        (hroom.resolve_right fun h => hne (List.append_eq_nil_iff.1 h).1) (by omega) fun _ _ => ih

/-- The loop behind a double colon. -/
theorem parseIp6From_some {fuel : ℕ} {text : Datagram} {groups : List ℕ} {before : ℕ}
    {out : List ℕ × Option ℕ × Datagram} (hfuel : text.length ≤ fuel)
    (hroom : groups.length < 8 ∨ text = []) :
    parseIp6From fuel text groups (some before) = some out ↔
      ∃ texts gs, GroupsText text texts gs (8 - groups.length) ∧ out = (groups ++ gs, some before, []) := by
  have hend : ∀ {fuel groups}, parseIp6From fuel [] groups (some before) = some out ↔
      ∃ texts gs, GroupsText [] texts gs (8 - groups.length) ∧ out = (groups ++ gs, some before, []) := by
    intro fuel groups
    rw [parseIp6From_nil, Option.some.injEq]
    constructor
    · rintro rfl
      exact ⟨[], [], groupsText_nil.2 ⟨rfl, rfl⟩, by rw [List.append_nil]⟩
    · rintro ⟨texts, gs, htext, rfl⟩
      obtain ⟨-, rfl⟩ := groupsText_nil.1 htext
      rw [List.append_nil]
  refine turn_induction (motive := fun fuel text groups => parseIp6From fuel text groups (some before) = some out ↔
    ∃ texts gs, GroupsText text texts gs (8 - groups.length) ∧ out = (groups ++ gs, some before, []))
    (fun _ _ => hend) (fun fuel r groups hroom => ?_)
    (fun fuel piece rest groups hne hcolon hrest hroom hfuel ih => ?_) hfuel hroom
  · rw [parseIp6From_colon hroom]
    exact iff_of_false nofun fun ⟨texts, gs, htext, _⟩ => not_groupsText_colon htext
  · rw [parseIp6From_piece _ hroom hne hcolon hrest]
    have hshort : ∀ {r}, rest = colon :: r → r.length ≤ fuel := by
      rintro r rfl
      exact Nat.le_of_succ_le hfuel
    constructor
    · intro h
      obtain ⟨val, hval, hturn⟩ := Option.bind_eq_some_iff.1 h
      have hgroup := (isGroup_iff hne).1 hval
      split_ifs at hturn with hfull hdouble hsome
      · exact nomatch hsome
      rcases hrest with rfl | hhead
      · obtain ⟨texts, gs, htext, rfl⟩ := hend.1 hturn
        obtain ⟨rfl, rfl⟩ := groupsText_nil.1 htext
        refine ⟨[piece], [val], ?_, by rw [List.append_nil]⟩
        exact (groupsText_piece hne hcolon (.inl rfl)).2
          ⟨val, [], [], rfl, rfl, hgroup, .inl ⟨rfl, rfl, rfl, by omega⟩⟩
      · obtain ⟨r, rfl⟩ := List.head?_eq_some_iff.1 hhead
        have hlt : groups.length + 1 < 8 := by
          by_contra hge
          exact hfull ⟨by omega, List.cons_ne_nil _ _⟩
        obtain ⟨texts, gs, htext, rfl⟩ := (ih r _ (hshort rfl) (.inl (by simpa using hlt))).1 hturn
        refine ⟨piece :: texts, val :: gs, ?_, by simp⟩
        rw [List.length_append, List.length_singleton] at htext
        refine (groupsText_piece hne hcolon (.inr rfl)).2
          ⟨val, texts, gs, rfl, rfl, hgroup, .inr ⟨r, rfl, by omega, ?_⟩⟩
        rwa [Nat.sub_sub]
    · rintro ⟨texts, gs, htext, rfl⟩
      obtain ⟨g, texts, gs, rfl, rfl, hgroup, hcases⟩ := (groupsText_piece hne hcolon hrest).1 htext
      rw [(isGroup_iff hne).2 hgroup, Option.bind_some]
      rcases hcases with ⟨rfl, rfl, rfl, -⟩ | ⟨r, rfl, hlt, htext⟩
      · rw [if_neg fun h => h.2 rfl, if_neg (by simp)]
        exact parseIp6From_nil _ _ _
      · have hnot : ¬(groups.length + 1 = 8 ∧ colon :: r ≠ []) := fun h => by omega
        have hdouble : ((colon :: r).drop 1).head? ≠ some colon := by
          intro hhead
          obtain ⟨r', hr'⟩ := List.head?_eq_some_iff.1 hhead
          rw [List.drop_one, List.tail_cons] at hr'
          exact not_groupsText_colon (hr' ▸ htext)
        rw [if_neg hnot, if_neg hdouble]
        refine (ih r _ (hshort rfl) (.inl (by simp; omega))).2 ⟨texts, gs, ?_, by simp⟩
        rwa [List.length_append, List.length_singleton, ← Nat.sub_sub]

theorem doubleText_append {texts texts' : List Datagram} {groups groups' : List ℕ} {room : ℕ}
    {text : Datagram} (h : DoubleText text texts texts' groups groups' room) :
    ∃ c cs, text = c :: cs ∧ c ≠ colon := by
  obtain ⟨hgroups, htexts, -, text', rfl, -⟩ := h
  obtain ⟨⟨c, cs, hfirst, hc⟩, -⟩ := joinGroups_ends hgroups htexts
  exact ⟨c, _, by rw [hfirst]; rfl, hc⟩

/-- The first group of a text with a double colon. -/
theorem doubleText_piece {piece rest : Datagram} {texts texts' : List Datagram} {groups groups' : List ℕ}
    {room : ℕ} (hcolon : ∀ c ∈ piece, c ≠ colon) (hrest : rest = [] ∨ rest.head? = some colon) :
    DoubleText (piece ++ rest) texts texts' groups groups' room ↔
      ∃ g ts gs, texts = piece :: ts ∧ groups = g :: gs ∧ IsGroup piece g ∧ 1 < room ∧
        ((ts = [] ∧ gs = [] ∧ ∃ text', rest = colon :: colon :: text' ∧
            GroupsText text' texts' groups' (room - 1)) ∨
          ∃ r, rest = colon :: r ∧ DoubleText r ts texts' gs groups' (room - 1)) := by
  constructor
  · rintro ⟨hgroups, htexts, hroom, text', htext, hafter⟩
    cases hgroups with
    | nil => exact absurd rfl htexts
    | @cons text g ts gs hgroup hgroups =>
      rw [List.length_cons] at hroom hafter
      by_cases hts : ts = []
      · subst hts
        cases hgroups
        rw [joinGroups_singleton, List.append_assoc] at htext
        obtain ⟨rfl, rfl⟩ := piece_unique hcolon hrest hgroup.ne_colon (.inr rfl) htext
        exact ⟨g, [], [], rfl, rfl, hgroup, by simpa using hroom, .inl ⟨rfl, rfl, text', rfl, hafter⟩⟩
      · rw [joinGroups_cons text hts, List.append_assoc, List.append_assoc, List.cons_append] at htext
        obtain ⟨rfl, rfl⟩ := piece_unique hcolon hrest hgroup.ne_colon (.inr rfl) htext
        refine ⟨g, ts, gs, rfl, rfl, hgroup, by omega, .inr ⟨_, rfl, hgroups, hts, by omega, text', ?_, ?_⟩⟩
        · rw [List.append_assoc]
        · rwa [Nat.sub_sub, Nat.add_comm 1]
  · rintro ⟨g, ts, gs, rfl, rfl, hgroup, hroom, ⟨rfl, rfl, text', rfl, hafter⟩ |
      ⟨r, rfl, hgroups, hts, hlen, text', rfl, hafter⟩⟩
    · refine ⟨.cons hgroup .nil, List.cons_ne_nil _ _, hroom, text', ?_, hafter⟩
      rw [joinGroups_singleton, List.append_assoc]
      rfl
    · refine ⟨.cons hgroup hgroups, List.cons_ne_nil _ _, by rw [List.length_cons]; omega, text', ?_, ?_⟩
      · rw [joinGroups_cons piece hts]
        simp
      · rwa [List.length_cons, Nat.add_comm, ← Nat.sub_sub]

/-- The loop before a double colon. -/
theorem parseIp6From_none {fuel : ℕ} {text : Datagram} {groups : List ℕ}
    {out : List ℕ × Option ℕ × Datagram} (hfuel : text.length ≤ fuel)
    (hroom : groups.length < 8 ∨ text = []) :
    parseIp6From fuel text groups none = some out ↔
      (∃ texts gs, GroupsText text texts gs (8 - groups.length) ∧ out = (groups ++ gs, none, [])) ∨
        ∃ texts gs texts' gs', DoubleText text texts texts' gs gs' (8 - groups.length) ∧
          out = (groups ++ gs ++ gs', some (groups.length + gs.length), []) := by
  have hend : ∀ {fuel groups}, parseIp6From fuel [] groups none = some out ↔
      (∃ texts gs, GroupsText [] texts gs (8 - groups.length) ∧ out = (groups ++ gs, none, [])) ∨
        ∃ texts gs texts' gs', DoubleText [] texts texts' gs gs' (8 - groups.length) ∧
          out = (groups ++ gs ++ gs', some (groups.length + gs.length), []) := by
    intro fuel groups
    rw [parseIp6From_nil, Option.some.injEq]
    constructor
    · rintro rfl
      exact .inl ⟨[], [], groupsText_nil.2 ⟨rfl, rfl⟩, by rw [List.append_nil]⟩
    · rintro (⟨texts, gs, htext, rfl⟩ | ⟨texts, gs, texts', gs', hdouble, -⟩)
      · obtain ⟨-, rfl⟩ := groupsText_nil.1 htext
        rw [List.append_nil]
      · obtain ⟨c, cs, hnil, -⟩ := doubleText_append hdouble
        exact nomatch hnil
  refine turn_induction (motive := fun fuel text groups => parseIp6From fuel text groups none = some out ↔
    (∃ texts gs, GroupsText text texts gs (8 - groups.length) ∧ out = (groups ++ gs, none, [])) ∨
      ∃ texts gs texts' gs', DoubleText text texts texts' gs gs' (8 - groups.length) ∧
        out = (groups ++ gs ++ gs', some (groups.length + gs.length), []))
    (fun _ _ => hend) (fun fuel r groups hroom => ?_)
    (fun fuel piece rest groups hne hcolon hrest hroom hfuel ih => ?_) hfuel hroom
  · rw [parseIp6From_colon hroom]
    refine iff_of_false nofun ?_
    rintro (⟨texts, gs, htext, -⟩ | ⟨texts, gs, texts', gs', hdouble, -⟩)
    · exact not_groupsText_colon htext
    · obtain ⟨c, cs, heq, hc⟩ := doubleText_append hdouble
      exact hc (List.cons_eq_cons.1 heq).1.symm
  · rw [parseIp6From_piece _ hroom hne hcolon hrest]
    constructor
    · intro h
      obtain ⟨val, hval, hturn⟩ := Option.bind_eq_some_iff.1 h
      have hgroup := (isGroup_iff hne).1 hval
      rcases hrest with rfl | hhead
      · rw [if_neg fun h => h.2 rfl, if_neg (by simp)] at hturn
        rw [List.drop_nil, parseIp6From_nil] at hturn
        obtain rfl := Option.some.inj hturn
        refine .inl ⟨[piece], [val], ?_, rfl⟩
        exact (groupsText_piece hne hcolon (.inl rfl)).2
          ⟨val, [], [], rfl, rfl, hgroup, .inl ⟨rfl, rfl, rfl, by omega⟩⟩
      obtain ⟨r, rfl⟩ := List.head?_eq_some_iff.1 hhead
      rw [List.length_cons] at hfuel
      have hfull : ¬(groups.length + 1 = 8 ∧ colon :: r ≠ []) := by
        intro hfull
        rw [if_pos hfull] at hturn
        exact nomatch hturn
      have hlt : groups.length + 1 < 8 := by
        by_contra hge
        exact hfull ⟨by omega, List.cons_ne_nil _ _⟩
      rw [if_neg hfull, List.drop_one, List.tail_cons] at hturn
      split_ifs at hturn with hdouble
      · -- the double colon
        obtain ⟨r, rfl⟩ := List.head?_eq_some_iff.1 hdouble
        rw [List.length_cons] at hfuel
        obtain ⟨texts', gs', htext, rfl⟩ :=
          (parseIp6From_some (show r.length ≤ fuel by omega) (.inl (by simpa using hlt))).1 hturn
        refine .inr ⟨[piece], [val], texts', gs', (doubleText_piece hcolon (.inr rfl)).2 ?_, rfl⟩
        refine ⟨val, [], [], rfl, rfl, hgroup, by omega, .inl ⟨rfl, rfl, r, rfl, ?_⟩⟩
        rwa [List.length_append, List.length_singleton, ← Nat.sub_sub] at htext
      · rcases (ih r _ (show r.length ≤ fuel by omega) (.inl (by simpa using hlt))).1 hturn with
          ⟨texts, gs, htext, rfl⟩ | ⟨texts, gs, texts', gs', htext, rfl⟩
        · rw [List.length_append, List.length_singleton, ← Nat.sub_sub] at htext
          refine .inl ⟨piece :: texts, val :: gs, (groupsText_piece hne hcolon (.inr rfl)).2 ?_, by simp⟩
          exact ⟨val, texts, gs, rfl, rfl, hgroup, .inr ⟨r, rfl, by omega, htext⟩⟩
        · rw [List.length_append, List.length_singleton, ← Nat.sub_sub] at htext
          refine .inr ⟨piece :: texts, val :: gs, texts', gs',
            (doubleText_piece hcolon (.inr rfl)).2 ?_, ?_⟩
          · exact ⟨val, texts, gs, rfl, rfl, hgroup, by omega, .inr ⟨r, rfl, htext⟩⟩
          · simp only [List.length_append, List.length_cons, List.length_nil, List.append_assoc,
              List.cons_append, List.nil_append, Nat.zero_add]
            rw [Nat.add_assoc, Nat.add_comm 1]
    · have hturn : ∀ {g r}, rest = colon :: r → groups.length + 1 < 8 →
          (if groups.length + 1 = 8 ∧ rest ≠ [] then none
            else if (rest.drop 1).head? = some colon then
              if (none : Option ℕ).isSome then none
              else parseIp6From fuel (rest.drop 2) (groups ++ [g]) (some (groups.length + 1))
            else parseIp6From fuel (rest.drop 1) (groups ++ [g]) none) =
          if r.head? = some colon then
            parseIp6From fuel r.tail (groups ++ [g]) (some (groups.length + 1))
          else parseIp6From fuel r (groups ++ [g]) none := by
        rintro g r rfl hlt
        rw [if_neg fun h => absurd h.1 (by omega)]
        have htail : (colon :: r).drop 2 = r.tail := by
          cases r <;> rfl
        rw [htail]
        rfl
      rintro (⟨texts, gs, htext, rfl⟩ | ⟨texts, gs, texts', gs', htext, rfl⟩)
      · obtain ⟨g, texts, gs, rfl, rfl, hgroup, hcases⟩ := (groupsText_piece hne hcolon hrest).1 htext
        rw [(isGroup_iff hne).2 hgroup, Option.bind_some]
        rcases hcases with ⟨rfl, rfl, rfl, -⟩ | ⟨r, rfl, hlt, htext⟩
        · rw [if_neg fun h => h.2 rfl, if_neg (by simp)]
          exact parseIp6From_nil _ _ _
        · rw [List.length_cons] at hfuel
          have hdouble : r.head? ≠ some colon := by
            intro hhead
            obtain ⟨r', rfl⟩ := List.head?_eq_some_iff.1 hhead
            exact not_groupsText_colon htext
          rw [hturn rfl (by omega), if_neg hdouble]
          refine (ih _ _ (by omega) (.inl (by simp; omega))).2 (.inl ⟨texts, gs, ?_, by simp⟩)
          rwa [List.length_append, List.length_singleton, ← Nat.sub_sub]
      · obtain ⟨g, ts, gs, rfl, rfl, hgroup, hlt, hcases⟩ := (doubleText_piece hcolon hrest).1 htext
        rw [(isGroup_iff hne).2 hgroup, Option.bind_some]
        rcases hcases with ⟨rfl, rfl, text', rfl, hafter⟩ | ⟨r, rfl, hdouble⟩
        · rw [List.length_cons, List.length_cons] at hfuel
          rw [hturn rfl (by omega), if_pos (by rfl), List.tail_cons]
          refine (parseIp6From_some (by omega) (.inl (by simp; omega))).2 ⟨texts', gs', ?_, rfl⟩
          rwa [List.length_append, List.length_singleton, ← Nat.sub_sub]
        · rw [List.length_cons] at hfuel
          have hsingle : r.head? ≠ some colon := by
            obtain ⟨c, cs, rfl, hc⟩ := doubleText_append hdouble
            exact fun hhead => hc (Option.some.inj hhead)
          rw [hturn rfl (by omega), if_neg hsingle]
          refine (ih _ _ (by omega) (.inl (by simp; omega))).2 (.inr ⟨ts, gs, texts', gs', ?_, ?_⟩)
          · rwa [List.length_append, List.length_singleton, ← Nat.sub_sub]
          · simp only [List.length_append, List.length_cons, List.length_nil, List.append_assoc,
              List.cons_append, List.nil_append, Nat.zero_add]
            rw [Nat.add_assoc, Nat.add_comm 1]

/-! ### The parser -/

/-- The eight groups, when the groups that were missing are in their place. -/
def expand (groups groups' : List ℕ) : List ℕ :=
  groups ++ List.replicate (8 - (groups.length + groups'.length)) 0 ++ groups'

/-- The second part of `parseIp6`, from the result of the loop. -/
def expandLoop : List ℕ × Option ℕ × Datagram → Option (List ℕ)
  | (groups, some before, _) =>
    if groups.length ≥ 8 then none else some (expand (groups.take before) (groups.drop before))
  | (groups, none, rest) => if groups.length ≠ 8 ∨ rest ≠ [] then none else some groups

/-- A text with a colon behind its last group, and the groups it is taken for. -/
def ColonText (host : Datagram) (groups : List ℕ) : Prop :=
  ∃ texts texts' gs gs', List.Forall₂ IsGroup texts gs ∧ List.Forall₂ IsGroup texts' gs' ∧ texts' ≠ [] ∧
    gs.length + gs'.length ≤ 7 ∧
    host = joinGroups texts ++ [colon, colon] ++ joinGroups texts' ++ [colon] ∧ groups = expand gs gs'

theorem expand_loop {groups : List ℕ} {before : ℕ} {rest : Datagram} {eight : List ℕ} :
    expandLoop (groups, some before, rest) = some eight ↔
      groups.length ≤ 7 ∧ eight = expand (groups.take before) (groups.drop before) := by
  rw [expandLoop]
  split_ifs with hfull
  · exact iff_of_false nofun fun h => by omega
  · rw [Option.some.injEq, eq_comm]
    exact (and_iff_right (by omega)).symm

/-- The eight groups that `parseIp6` reads. -/
def readGroups (host : Datagram) : Option (List ℕ) :=
  if host.take 2 = [colon, colon] then
    if (host.drop 2).head? = some colon then none
    else (parseIp6From (host.drop 2).length (host.drop 2) [] (some 0)).bind expandLoop
  else if host.head? = some colon then none
  else (parseIp6From host.length host [] none).bind expandLoop

theorem parseIp6_eq_map (host : Datagram) :
    Dns.parseIp6 host = (readGroups host).map fun groups => .ip6 (groupBytes groups) := by
  rw [Dns.parseIp6, readGroups]
  split_ifs with hcolons hthird hfirst
  any_goals rfl
  -- what the loop read is expanded, with a double colon in front or not
  all_goals
    rw [Option.bind_some, Option.map_bind]
    refine congrArg (Option.bind _) (funext fun out => ?_)
    obtain ⟨groups, _ | before, rest⟩ := out
    · simp only [Function.comp_apply, expandLoop]
      split_ifs <;> rfl
    · have hlen : (groups.take before).length + (groups.drop before).length = groups.length := by
        rw [← List.length_append, List.take_append_drop]
      simp only [Function.comp_apply, expandLoop, expand, hlen]
      split_ifs <;> rfl

theorem sockAddr_parseIp6_eq_map (host : Datagram) (port : UInt16) :
    SockAddr.parseIp6 host port =
      (readGroups host).map fun groups => SockAddr.initIp6 (groupBytes groups) port 0 0 := by
  rw [SockAddr.parseIp6, parseIp6_eq_map]
  cases readGroups host <;> rfl

/-- The three forms of a text that the parser takes for these groups. -/
def Accepted (host : Datagram) (groups : List ℕ) : Prop :=
  (∃ texts, GroupsText host texts groups 8 ∧ groups.length = 8) ∨
    (∃ texts gs texts' gs', DoubleText host texts texts' gs gs' 8 ∧ gs.length + gs'.length ≤ 7 ∧
      groups = expand gs gs') ∨
    ∃ r texts' gs', host = colon :: colon :: r ∧ GroupsText r texts' gs' 8 ∧ gs'.length ≤ 7 ∧
      groups = expand [] gs'

theorem accepted_iff {host : Datagram} {groups : List ℕ} :
    Accepted host groups ↔ Ip6Text host groups ∨ ColonText host groups := by
  constructor
  · rintro (⟨texts, ⟨hgroups, -, htext⟩, hlen⟩ |
      ⟨texts, gs, texts', gs', ⟨hgroups, -, hroom, text', rfl, hgroups', -, htext⟩, hlen, rfl⟩ |
      ⟨r, texts', gs', rfl, ⟨hgroups', -, htext⟩, hlen, rfl⟩)
    · rcases htext with rfl | ⟨-, hless, -⟩
      · exact .inl (.full hgroups hlen)
      · omega
    · rcases htext with rfl | ⟨hne, -, rfl⟩
      · exact .inl (.compressed hgroups hgroups' hlen)
      · exact .inr ⟨texts, texts', gs, gs', hgroups, hgroups', hne, hlen, by simp, rfl⟩
    · have hlen : ([] : List ℕ).length + gs'.length ≤ 7 := by simpa using hlen
      rcases htext with rfl | ⟨hne, -, rfl⟩
      · exact .inl (.compressed .nil hgroups' hlen)
      · exact .inr ⟨[], texts', [], gs', .nil, hgroups', hne, hlen, rfl, rfl⟩
  · have hdouble : ∀ {texts texts' gs gs' text'}, List.Forall₂ IsGroup texts gs →
        List.Forall₂ IsGroup texts' gs' → gs.length + gs'.length ≤ 7 →
        (text' = joinGroups texts' ∨ texts' ≠ [] ∧ text' = joinGroups texts' ++ [colon]) →
        Accepted (joinGroups texts ++ [colon, colon] ++ text') (expand gs gs') := by
      intro texts texts' gs gs' text' hgroups hgroups' hlen htext
      have htext : ∀ {room}, gs'.length < room → GroupsText text' texts' gs' room := fun hroom =>
        ⟨hgroups', by omega, htext.imp_right fun h => ⟨h.1, hroom, h.2⟩⟩
      by_cases hne : texts = []
      · subst hne
        cases hgroups
        exact .inr (.inr ⟨text', texts', gs', rfl, htext (by simp at hlen; omega), by simpa using hlen, rfl⟩)
      · exact .inr (.inl ⟨texts, gs, texts', gs',
          ⟨hgroups, hne, by omega, text', rfl, htext (by omega)⟩, hlen, rfl⟩)
    rintro (htext | ⟨texts, texts', gs, gs', hgroups, hgroups', hne, hlen, rfl, rfl⟩)
    · cases htext with
      | full h hlen => exact .inl ⟨_, ⟨h, hlen.le, .inl rfl⟩, hlen⟩
      | compressed h h' hlen => exact hdouble h h' hlen (.inl rfl)
    · rw [List.append_assoc]
      exact hdouble hgroups hgroups' hlen (.inr ⟨hne, rfl⟩)

/-- The texts whose groups are read. -/
theorem readGroups_eq_some {host : Datagram} {groups : List ℕ} :
    readGroups host = some groups ↔ Ip6Text host groups ∨ ColonText host groups := by
  rw [← accepted_iff, readGroups]
  have hgroups : ∀ {r : Datagram}, r.head? = some colon → ∀ {texts gs room}, ¬GroupsText r texts gs room := by
    intro r hhead
    obtain ⟨r, rfl⟩ := List.head?_eq_some_iff.1 hhead
    exact not_groupsText_colon
  have hdouble : host.head? = some colon → ∀ {texts texts' gs gs' room},
      ¬DoubleText host texts texts' gs gs' room := by
    intro hhead texts texts' gs gs' room h
    obtain ⟨c, cs, rfl, hc⟩ := doubleText_append h
    exact hc (Option.some.inj hhead)
  split_ifs with hcolons hthird hfirst
  · obtain ⟨r, rfl⟩ : ∃ r, host = colon :: colon :: r :=
      ⟨host.drop 2, by rw [← List.take_append_drop 2 host, hcolons]; simp⟩
    refine iff_of_false nofun ?_
    rintro (⟨texts, htext, -⟩ | ⟨texts, gs, texts', gs', htext, -⟩ | ⟨r', texts', gs', hr, htext, -⟩)
    · exact hgroups rfl htext
    · exact hdouble rfl htext
    · rw [List.cons.injEq, List.cons.injEq] at hr
      exact hgroups (hr.2.2 ▸ hthird) htext
  · obtain ⟨r, rfl⟩ : ∃ r, host = colon :: colon :: r :=
      ⟨host.drop 2, by rw [← List.take_append_drop 2 host, hcolons]; simp⟩
    rw [Option.bind_eq_some_iff]
    constructor
    · rintro ⟨out, hloop, hout⟩
      obtain ⟨texts, gs, htext, rfl⟩ := (parseIp6From_some le_rfl (.inl (by decide))).1 hloop
      obtain ⟨hlen, rfl⟩ := expand_loop.1 hout
      exact .inr (.inr ⟨r, texts, gs, rfl, htext, hlen, rfl⟩)
    · rintro (⟨texts, htext, -⟩ | ⟨texts, gs, texts', gs', htext, -⟩ | ⟨r', texts', gs', hr, htext, hlen, rfl⟩)
      · exact absurd htext (hgroups rfl)
      · exact absurd htext (hdouble rfl)
      · rw [List.cons.injEq, List.cons.injEq] at hr
        obtain rfl := hr.2.2
        exact ⟨_, (parseIp6From_some le_rfl (.inl (by decide))).2 ⟨texts', gs', htext, rfl⟩,
          expand_loop.2 ⟨hlen, rfl⟩⟩
  · refine iff_of_false nofun ?_
    rintro (⟨texts, htext, -⟩ | ⟨texts, gs, texts', gs', htext, -⟩ | ⟨r', texts', gs', rfl, -⟩)
    · exact hgroups hfirst htext
    · exact hdouble hfirst htext
    · exact hcolons rfl
  · rw [Option.bind_eq_some_iff]
    constructor
    · rintro ⟨out, hloop, hout⟩
      rcases (parseIp6From_none le_rfl (.inl (by decide))).1 hloop with
        ⟨texts, gs, htext, rfl⟩ | ⟨texts, gs, texts', gs', htext, rfl⟩
      · rw [List.nil_append, expandLoop] at hout
        split_ifs at hout with hless
        obtain rfl := Option.some.inj hout
        exact .inl ⟨texts, htext, by omega⟩
      · obtain ⟨hlen, rfl⟩ := expand_loop.1 hout
        refine .inr (.inl ⟨texts, gs, texts', gs', htext, by simpa using hlen, ?_⟩)
        simp
    · rintro (⟨texts, htext, hlen⟩ | ⟨texts, gs, texts', gs', htext, hlen, rfl⟩ | ⟨r', texts', gs', rfl, -⟩)
      · refine ⟨_, (parseIp6From_none le_rfl (.inl (by decide))).2 (.inl ⟨texts, groups, htext, rfl⟩), ?_⟩
        rw [List.nil_append, expandLoop, if_neg (by simp [hlen])]
      · refine ⟨_, (parseIp6From_none le_rfl (.inl (by decide))).2
          (.inr ⟨texts, gs, texts', gs', htext, rfl⟩), expand_loop.2 ⟨by simpa using hlen, ?_⟩⟩
        simp
      · exact absurd rfl hfirst

/-- Groups are written with digits and colons. -/
theorem joinGroups_chars {texts : List Datagram} {groups : List ℕ} (h : List.Forall₂ IsGroup texts groups) :
    ∀ c ∈ joinGroups texts, hexDigit c ≠ none ∨ c = colon := by
  induction h with
  | nil => exact nofun
  | @cons text g texts groups hgroup hrest ih =>
    have hdigits : ∀ c ∈ text, hexDigit c ≠ none ∨ c = colon :=
      fun c hc => .inl (hgroup.hexDigit_ne_none c hc)
    by_cases htexts : texts = []
    · rw [htexts, joinGroups_singleton]
      exact hdigits
    · rw [joinGroups_cons text htexts]
      intro c hc
      rcases List.mem_append.1 hc with hc | hc
      · exact hdigits c hc
      · rcases List.mem_cons.1 hc with rfl | hc
        · exact .inr rfl
        · exact ih c hc

/-- So is every text whose groups are read. -/
theorem readGroups_chars {host : Datagram} {groups : List ℕ} (h : readGroups host = some groups) :
    ∀ c ∈ host, hexDigit c ≠ none ∨ c = colon := by
  have hdouble : ∀ {texts texts' : List Datagram} {gs gs' : List ℕ}, List.Forall₂ IsGroup texts gs →
      List.Forall₂ IsGroup texts' gs' →
        ∀ c ∈ joinGroups texts ++ [colon, colon] ++ joinGroups texts', hexDigit c ≠ none ∨ c = colon := by
    intro texts texts' gs gs' hgs hgs' c hc
    simp only [List.mem_append] at hc
    rcases hc with (hc | hc) | hc
    · exact joinGroups_chars hgs c hc
    · exact .inr (by simpa using hc)
    · exact joinGroups_chars hgs' c hc
  rcases readGroups_eq_some.1 h with htext | ⟨texts, texts', gs, gs', hgs, hgs', -, -, rfl, -⟩
  · cases htext with
    | full hgs hlen => exact joinGroups_chars hgs
    | compressed hgs hgs' hlen => exact hdouble hgs hgs'
  · intro c hc
    rcases List.mem_append.1 hc with hc | hc
    · exact hdouble hgs hgs' c hc
    · exact .inr (List.mem_singleton.1 hc)

/-- What `parseIp6` accepts, and for which address. -/
theorem parseIp6_eq_some {host : Datagram} {port : UInt16} {a : SockAddr} :
    SockAddr.parseIp6 host port = some a ↔
      ∃ groups, (Ip6Text host groups ∨ ColonText host groups) ∧
        a = SockAddr.initIp6 (groupBytes groups) port 0 0 := by
  simp only [sockAddr_parseIp6_eq_map, Option.map_eq_some_iff, readGroups_eq_some]
  exact exists_congr fun groups => and_congr_right fun _ => eq_comm

/-- The text of an address ends with a digit or with two colons. -/
theorem Ip6Text.ends {host : Datagram} {groups : List ℕ} (h : Ip6Text host groups)
    (cs : Datagram) {c : UInt8} (hc : c ≠ colon) : host ≠ cs ++ [c, colon] := by
  have hlast : ∀ (pre : Datagram) {cs' : Datagram} {c'}, c' ≠ colon → pre ++ (cs' ++ [c']) ≠ cs ++ [c, colon] := by
    intro pre cs' c' hc' heq
    have hlast := congrArg List.getLast? heq
    rw [← List.append_assoc, List.getLast?_concat, List.getLast?_append] at hlast
    exact hc' (Option.some.inj hlast)
  cases h with
  | @full texts groups h hlen =>
    have hne : texts ≠ [] := by
      rintro rfl
      cases h
      exact nomatch hlen
    obtain ⟨-, cs', c', hends, hc'⟩ := joinGroups_ends h hne
    rw [hends]
    exact hlast [] hc'
  | @compressed texts texts' groups groups' h h' hlen =>
    by_cases hne : texts' = []
    · subst hne
      intro heq
      have hpair := congrArg (fun l : Datagram => l.reverse.take 2) heq
      simp [joinGroups, List.intercalate] at hpair
      exact hc hpair.symm
    · obtain ⟨-, cs', c', hends, hc'⟩ := joinGroups_ends h' hne
      rw [hends]
      exact hlast _ hc'

theorem EndsInColon.ends {host : Datagram} (h : EndsInColon host) :
    ∃ cs c, c ≠ colon ∧ host = cs ++ [c, colon] := by
  obtain ⟨texts, texts', groups, groups', -, hgroups', hne, -, rfl⟩ := h
  obtain ⟨-, cs, c, hends, hc⟩ := joinGroups_ends hgroups' hne
  exact ⟨joinGroups texts ++ [colon, colon] ++ cs, c, hc, by rw [hends]; simp⟩

theorem endsInColon_iff {host : Datagram} : EndsInColon host ↔ ∃ groups, ColonText host groups := by
  constructor
  · rintro ⟨texts, texts', groups, groups', hgroups, hgroups', hne, hlen, rfl⟩
    exact ⟨_, texts, texts', groups, groups', hgroups, hgroups', hne, hlen, rfl, rfl⟩
  · rintro ⟨eight, texts, texts', groups, groups', hgroups, hgroups', hne, hlen, rfl, -⟩
    exact ⟨texts, texts', groups, groups', hgroups, hgroups', hne, hlen, rfl⟩

/-- **`parseIp6`.** It is right about a text exactly when that is not the text of an address with `::`
and a colon behind its last group. -/
theorem readsIp6_iff (host : Datagram) : ReadsIp6 host ↔ ¬EndsInColon host := by
  constructor
  · intro hreads hcolon
    obtain ⟨groups, hgroups⟩ := endsInColon_iff.1 hcolon
    obtain ⟨cs, c, hc, hhost⟩ := hcolon.ends
    obtain ⟨groups', htext, -⟩ := (hreads 0 _).1 (parseIp6_eq_some.2 ⟨groups, .inr hgroups, rfl⟩)
    exact htext.ends cs hc hhost
  · intro hcolon port a
    rw [parseIp6_eq_some]
    constructor
    · rintro ⟨groups, htext | htext, ha⟩
      · exact ⟨groups, htext, ha⟩
      · exact absurd (endsInColon_iff.2 ⟨groups, htext⟩) hcolon
    · rintro ⟨groups, htext, ha⟩
      exact ⟨groups, .inl htext, ha⟩

/-- The text `::1:` is taken for `::1`. -/
theorem trailing_colon_accepted : ¬ReadsIp6 [58, 58, 49, 58] := by
  intro h
  have hread : SockAddr.parseIp6 [58, 58, 49, 58] 80 =
      some (SockAddr.initIp6 [0, 0, 0, 0, 0, 0, 0, 0, 0, 0, 0, 0, 0, 0, 0, 1] 80 0 0) := by
    decide +kernel
  obtain ⟨groups, htext, -⟩ := (h 80 _).1 hread
  exact htext.ends [58, 58] (by decide) rfl

end Talyn
