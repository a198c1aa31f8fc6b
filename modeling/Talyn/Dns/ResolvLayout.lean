import Talyn.Dns.QueryNames
import Talyn.Utils.ColonHex

/-!
# The layouts of `resolv.conf`

`ResolvText content servers suffixes` says that a content writes these servers and suffixes in order, in
one of the layouts a reader of the file allows: runs of blanks, blank lines, comments, other keywords, lone
dots among the suffixes. Whatever the layout is, `parseResolvConfiguration` gives the servers and the
suffixes back.
-/

namespace Talyn.Dns

/-- A space or a tab. -/
def isBlank (c : UInt8) : Bool := c = 32 ∨ c = 9

/-- A run of blanks. -/
def Blanks (text : Datagram) : Prop := ∀ c ∈ text, isBlank c = true

/-- What stands behind the keyword `search`: suffixes in any letter case, lone dots, and a comment. -/
inductive SearchText : Datagram → List Datagram → Prop
  | done {blanks : Datagram} (hblanks : Blanks blanks) : SearchText blanks []
  | comment {blanks rest : Datagram} {c : UInt8} (hblanks : Blanks blanks) (hne : blanks ≠ [])
      (hc : c = 35 ∨ c = 59) : SearchText (blanks ++ c :: rest) []
  | dot {blanks rest : Datagram} {suffixes : List Datagram} (hblanks : Blanks blanks) (hne : blanks ≠ [])
      (hrest : SearchText rest suffixes) : SearchText (blanks ++ ([Dns.dot] ++ rest)) suffixes
  | suffix {blanks word rest suffix : Datagram} {suffixes : List Datagram} (hblanks : Blanks blanks)
      (hne : blanks ≠ []) (hcase : lowerString word = lowerString suffix)
      (hrest : SearchText rest suffixes) : SearchText (blanks ++ (word ++ rest)) (suffix :: suffixes)

/-- The text of a server, for either parser. -/
def ServerText (text : Datagram) (server : Address) : Prop :=
  parseIp4 text = some server ∨ parseIp6 text = some server

/-- One line, and what it writes. -/
inductive LineText : Datagram → List Address → List Datagram → Prop
  | blank {blanks : Datagram} (hblanks : Blanks blanks) : LineText blanks [] []
  | comment {blanks rest : Datagram} {c : UInt8} (hblanks : Blanks blanks) (hc : c = 35 ∨ c = 59) :
      LineText (blanks ++ c :: rest) [] []
  | other {blanks word rest : Datagram} (hblanks : Blanks blanks) (hne : word ≠ [])
      (hword : ∀ c ∈ word, isBlank c = false) (hrest : ∀ c, rest.head? = some c → isBlank c = true)
      (hserver : word ≠ nameserverWord) (hsearch : word ≠ searchWord) :
      LineText (blanks ++ (word ++ rest)) [] []
  | nameserver {blanks blanks' text rest : Datagram} {server : Address} (hblanks : Blanks blanks)
      (hblanks' : Blanks blanks') (hne : blanks' ≠ []) (htext : ServerText text server)
      (hrest : ∀ c, rest.head? = some c → isBlank c = true) :
      LineText (blanks ++ (nameserverWord ++ (blanks' ++ (text ++ rest)))) [server] []
  | search {blanks rest : Datagram} {suffixes : List Datagram} (hblanks : Blanks blanks)
      (hrest : SearchText rest suffixes) :
      LineText (blanks ++ (searchWord ++ rest)) [] suffixes

/-- The lines of a content, with a line break between them. -/
inductive ResolvText : Datagram → List Address → List Datagram → Prop
  | last {line : Datagram} {servers : List Address} {suffixes : List Datagram}
      (hline : LineText line servers suffixes) (hbreak : 10 ∉ line) : ResolvText line servers suffixes
  | cons {line rest : Datagram} {servers servers' : List Address} {suffixes suffixes' : List Datagram}
      (hline : LineText line servers suffixes) (hbreak : 10 ∉ line)
      (hrest : ResolvText rest servers' suffixes') :
      ResolvText (line ++ 10 :: rest) (servers ++ servers') (suffixes ++ suffixes')

/-! ### Words -/

section Tokens

variable {separator : UInt8 → Bool} {word rest pre : Datagram}

theorem tokens_cons_of_separator {c : UInt8} (hc : separator c = true) (rest : Datagram) :
    tokens separator (c :: rest) = tokens separator rest := by
  rw [tokens, tokens, List.splitOnP_cons_eq_if_modifyHead, if_pos hc]
  rfl

/-- A run of separators is skipped. -/
theorem tokens_append (hpre : ∀ c ∈ pre, separator c = true) (rest : Datagram) :
    tokens separator (pre ++ rest) = tokens separator rest := by
  induction pre with
  | nil => rfl
  | cons c pre ih =>
    rw [List.cons_append, tokens_cons_of_separator (hpre c List.mem_cons_self),
      ih fun d hd => hpre d (List.mem_cons_of_mem _ hd)]

theorem tokens_eq_nil (hpre : ∀ c ∈ pre, separator c = true) : tokens separator pre = [] := by
  rw [← List.append_nil pre, tokens_append hpre]
  rfl

/-- The first word. -/
theorem tokens_word (hne : word ≠ []) (hword : ∀ c ∈ word, separator c = false)
    (hrest : ∀ c, rest.head? = some c → separator c = true) :
    tokens separator (word ++ rest) = word :: tokens separator rest := by
  cases rest with
  | nil =>
    rw [List.append_nil, tokens, List.splitOnP_eq_singleton hword]
    simp [hne, tokens]
  | cons c rest =>
    have hc := hrest c rfl
    rw [tokens_cons_of_separator hc, tokens,
      List.splitOnP_append_cons_of_forall_mem hword c hc rest, List.filter_cons,
      if_pos (decide_eq_true hne)]
    rfl

theorem not_separator_of_any (h : word.any separator = false) : ∀ c ∈ word, separator c = false :=
  fun c hc => Bool.eq_false_iff.2 (List.any_eq_false.1 h c hc)

/-- The word a text begins with. -/
theorem tokens_cons {c : UInt8} (hc : separator c = false) (rest : Datagram) :
    ∃ word words, tokens separator (c :: rest) = (c :: word) :: words := by
  have hsplit := List.takeWhile_append_dropWhile (p := fun c => !separator c) (l := rest)
  refine ⟨rest.takeWhile fun c => !separator c,
    tokens separator (rest.dropWhile fun c => !separator c), ?_⟩
  have hword := @tokens_word separator (c :: rest.takeWhile fun c => !separator c)
    (rest.dropWhile fun c => !separator c) (List.cons_ne_nil _ _) ?_ ?_
  · rwa [List.cons_append, hsplit] at hword
  · intro d hd
    rcases List.mem_cons.1 hd with rfl | hmem
    · exact hc
    · simpa using List.all_eq_true.1 List.all_takeWhile d hmem
  · intro d hd
    have h := List.head?_dropWhile_not (fun c => !separator c) rest
    rw [hd] at h
    simpa using h

end Tokens

/-! ### Letter case -/

/-- A byte in lower case. -/
def lowerByte (c : UInt8) : UInt8 := if 65 ≤ c ∧ c ≤ 90 then c + 32 else c

theorem lowerString_eq_map (name : Datagram) : lowerString name = name.map lowerByte := rfl

/-- A letter in lower case is told apart by no test on a name. -/
theorem lowerByte_spec (c : UInt8) : lowerByte (lowerByte c) = lowerByte c ∧
    (lowerByte c = dot ↔ c = dot) ∧ (lowerByte c = 45 ↔ c = 45) ∧
      isNameChar (lowerByte c) = isNameChar c := by
  revert c
  exact byte_forall (by decide +kernel)

theorem lowerString_length (name : Datagram) : (lowerString name).length = name.length := List.length_map ..

/-- The labels of a name in lower case. -/
theorem splitOn_lowerString (name : Datagram) :
    (lowerString name).splitOn dot = (name.splitOn dot).map lowerString := by
  rw [List.splitOn_eq_splitOnP, List.splitOn_eq_splitOnP]
  induction name with
  | nil => rfl
  | cons c name ih =>
    have hcons : lowerString (c :: name) = lowerByte c :: lowerString name := rfl
    have hdot : (lowerByte c == dot) = (c == dot) := by
      rw [Bool.eq_iff_iff, beq_iff_eq, beq_iff_eq]
      exact (lowerByte_spec c).2.1
    rw [hcons, List.splitOnP_cons_eq_if_modifyHead, List.splitOnP_cons_eq_if_modifyHead, ih, hdot]
    split_ifs with h
    · rfl
    · obtain ⟨label, labels, hlabels⟩ := List.exists_cons_of_ne_nil (List.splitOnP_ne_nil (· == dot) name)
      rw [hlabels]
      rfl

/-- A name is valid in any letter case. -/
theorem validateHostname_lowerString (name : Datagram) :
    validateHostname (lowerString name) = validateHostname name := by
  rw [validateHostname, validateHostname, splitOn_lowerString, List.all_map]
  congr 1
  funext label
  have hhyphen : ∀ o : Option UInt8, o.map lowerByte ≠ some 45 ↔ o ≠ some 45 := by
    intro o
    cases o with
    | none => exact Iff.rfl
    | some c => simpa using not_congr (lowerByte_spec c).2.2.1
  have hchars : (lowerString label).all isNameChar = label.all isNameChar := by
    rw [lowerString_eq_map, List.all_map]
    congr 1
    funext c
    exact (lowerByte_spec c).2.2.2
  simp only [Function.comp_apply, lowerString_length, hchars]
  rw [lowerString_eq_map, List.head?_map, List.getLast?_map, decide_eq_decide, hhyphen, hhyphen]

/-- The characters of a valid name are letters, digits, hyphens and dots. -/
theorem mem_of_valid {name : Datagram} (h : validateHostname name = true) {c : UInt8} (hc : c ∈ name) :
    isNameChar c = true ∨ c = dot := by
  have hjoin : [dot].intercalate (name.splitOn dot) = name := List.intercalate_splitOn dot
  rw [← hjoin] at hc
  have hlabels := List.all_eq_true.1 h
  generalize name.splitOn dot = labels at hlabels hc
  induction labels with
  | nil => exact absurd hc List.not_mem_nil
  | cons label labels ih =>
    have hlabel := hlabels label List.mem_cons_self
    simp only [decide_eq_true_eq, List.all_eq_true] at hlabel
    have hlabels' := fun l hl => hlabels l (List.mem_cons_of_mem _ hl)
    cases labels with
    | nil =>
      rw [List.intercalate_singleton] at hc
      exact .inl (hlabel.2.2.2.2 c hc)
    | cons label' labels =>
      rw [List.intercalate_cons_cons, List.append_assoc, List.mem_append, List.singleton_append,
        List.mem_cons] at hc
      rcases hc with hc | hc | hc
      · exact .inl (hlabel.2.2.2.2 c hc)
      · exact .inr hc
      · exact ih hlabels' hc

/-! ### Servers -/

theorem not_blank {P : UInt8 → Prop} (hspace : ¬P 32) (htab : ¬P 9) (c : UInt8) (hc : P c) : isBlank c = false := by
  rw [isBlank, decide_eq_false_iff_not, not_or]
  exact ⟨fun h => hspace (h ▸ hc), fun h => htab (h ▸ hc)⟩

/-- The text of a server is one word, and `parseIp` reads it as that server. -/
theorem ServerText.spec {text : Datagram} {server : Address} (h : ServerText text server) :
    text ≠ [] ∧ (∀ c ∈ text, isBlank c = false) ∧ parseIp text = some server := by
  have hip4 : ∀ {server}, parseIp4 text = some server →
      ∃ addr, text = dottedQuad addr ∨ text = dottedQuad addr ++ [dot] := by
    intro server hserver
    obtain ⟨bytes, hloop, -⟩ := Option.map_eq_some_iff.1 hserver
    obtain ⟨addr, htext, -⟩ := (@parseIp4_eq_some text 0 _).1 (Option.map_eq_some_iff.2 ⟨bytes, hloop, rfl⟩)
    exact ⟨addr, htext⟩
  rcases h with h | h
  · obtain ⟨addr, htext⟩ := hip4 h
    have hdot : dot ∈ text := by
      rcases htext with rfl | rfl
      · exact dot_mem_dottedQuad addr
      · exact List.mem_append_left _ (dot_mem_dottedQuad addr)
    refine ⟨List.ne_nil_of_mem hdot, ?_, by rw [parseIp, h]⟩
    have hbyte : ∀ c : UInt8, (48 ≤ c ∧ c ≤ 57) ∨ c = dot → isBlank c = false :=
      not_blank (by decide) (by decide)
    rcases htext with rfl | rfl
    · exact fun c hc => hbyte c (octetsText_chars _ c hc)
    · intro c hc
      rcases List.mem_append.1 hc with hc | hc
      · exact hbyte c (octetsText_chars _ c hc)
      · exact hbyte c (.inr (List.mem_singleton.1 hc))
  · rw [parseIp6_eq_map, Option.map_eq_some_iff] at h
    obtain ⟨groups, hgroups, rfl⟩ := h
    have hblank : ∀ c, hexDigit c ≠ none ∨ c = colon → isBlank c = false := not_blank (by decide) (by decide)
    have hchars : ∀ c ∈ text, isBlank c = false ∧ c ≠ dot := fun c hc =>
      ⟨hblank c (readGroups_chars hgroups c hc), fun h => absurd (readGroups_chars hgroups c hc) (by rw [h]; decide)⟩
    refine ⟨?_, fun c hc => (hchars c hc).1, ?_⟩
    · rintro rfl
      have hnone : readGroups [] = none := by decide
      exact nomatch hnone.symm.trans hgroups
    · cases hfour : parseIp4 text with
      | none => rw [parseIp, hfour, parseIp6_eq_map, hgroups]; rfl
      | some server =>
        obtain ⟨addr, rfl | rfl⟩ := hip4 hfour
        · exact absurd rfl (hchars _ (dot_mem_dottedQuad addr)).2
        · exact absurd rfl (hchars _ (List.mem_append_left _ (dot_mem_dottedQuad addr))).2

/-! ### Lines -/

/-- What is behind a word of the suffixes begins with a blank. -/
theorem SearchText.head {text : Datagram} {suffixes : List Datagram} (h : SearchText text suffixes) :
    ∀ c, text.head? = some c → isBlank c = true := by
  have happend : ∀ {blanks rest : Datagram}, Blanks blanks → blanks ≠ [] →
      ∀ c, (blanks ++ rest).head? = some c → isBlank c = true := by
    intro blanks rest hblanks hne c hc
    obtain ⟨b, bs, rfl⟩ := List.exists_cons_of_ne_nil hne
    obtain rfl := Option.some.inj hc
    exact hblanks _ List.mem_cons_self
  cases h with
  | done hblanks => exact fun c hc => hblanks c (List.mem_of_head? hc)
  | comment hblanks hne hc => exact happend hblanks hne
  | dot hblanks hne hrest => exact happend hblanks hne
  | suffix hblanks hne hcase hrest => exact happend hblanks hne

/-- The bytes of a valid name are neither blanks nor the start of a comment. -/
theorem word_of_valid {word : Datagram} (h : validateHostname word = true) :
    word ≠ [] ∧ (∀ c ∈ word, isBlank c = false) ∧ isComment word = false := by
  have hblank : ∀ c, isNameChar c = true ∨ c = dot → isBlank c = false := not_blank (by decide) (by decide)
  refine ⟨ne_nil_of_valid h, fun c hc => hblank c (mem_of_valid h hc), ?_⟩
  rw [isComment, decide_eq_false_iff_not, not_or]
  constructor
  · intro hhead
    exact absurd (mem_of_valid h (List.mem_of_head? hhead)) (by decide)
  · intro hhead
    exact absurd (mem_of_valid h (List.mem_of_head? hhead)) (by decide)

theorem isComment_cons {c : UInt8} (hc : c = 35 ∨ c = 59) (word : Datagram) :
    isComment (c :: word) = true := by
  rw [isComment, decide_eq_true_eq, List.head?_cons, Option.some.injEq, Option.some.injEq]
  exact hc

theorem isBlank_comment {c : UInt8} (hc : c = 35 ∨ c = 59) : isBlank c = false := by
  rcases hc with rfl | rfl <;> rfl

/-- The suffixes of a `search` line. -/
theorem searchSuffixes_eq {text : Datagram} {suffixes : List Datagram} (h : SearchText text suffixes)
    (hvalid : ∀ suffix ∈ suffixes, validateHostname suffix = true ∧ suffix.length ≤ 255) :
    searchSuffixes (tokens isBlank text) = some (suffixes.map lowerString) := by
  induction h with
  | done hblanks =>
    rw [tokens_eq_nil hblanks]
    rfl
  | @comment blanks rest c hblanks hne hc =>
    obtain ⟨word, words, hwords⟩ := tokens_cons (isBlank_comment hc) rest
    rw [tokens_append hblanks, hwords, searchSuffixes, if_pos (isComment_cons hc word)]
    rfl
  | @dot blanks rest suffixes hblanks hne hrest ih =>
    have hdot : ∀ c ∈ [Dns.dot], isBlank c = false := not_separator_of_any (by decide)
    rw [tokens_append hblanks, tokens_word (List.cons_ne_nil _ _) hdot hrest.head, searchSuffixes,
      if_neg (by decide), if_neg (by decide), if_pos (by decide), ih hvalid]
  | @suffix blanks word rest suffix suffixes hblanks hne hcase hrest ih =>
    obtain ⟨hsuffix, hlen⟩ := hvalid suffix List.mem_cons_self
    have hword : validateHostname word = true := by
      rw [← validateHostname_lowerString, hcase, validateHostname_lowerString, hsuffix]
    have hlong : word.length = suffix.length := by
      rw [← lowerString_length, hcase, lowerString_length]
    have hlower : validateHostname (lowerString word) = true := by
      rw [validateHostname_lowerString, hword]
    obtain ⟨hnil, hblank, hcomment⟩ := word_of_valid hword
    rw [tokens_append hblanks, tokens_word hnil hblank hrest.head, searchSuffixes, hcomment,
      if_neg (by decide), if_neg (by omega)]
    have hdot : lowerString word ≠ [Dns.dot] := by
      intro hdot
      rw [hdot] at hlower
      exact absurd hlower (by decide)
    rw [if_neg hdot, if_neg (not_not.2 hlower), ih fun s hs => hvalid s (List.mem_cons_of_mem _ hs), hcase]
    rfl

theorem parseResolvLines_blank {line : Datagram} (h : tokens isBlank line = []) (lines : List Datagram)
    (servers : List Address) (search : List Datagram) :
    parseResolvLines (line :: lines) servers search = parseResolvLines lines servers search := by
  have htokens : tokens (fun c => c = 32 ∨ c = 9) line = [] := h
  rw [parseResolvLines, htokens]

theorem parseResolvLines_words {line word : Datagram} {words : List Datagram}
    (h : tokens isBlank line = word :: words) (lines : List Datagram) (servers : List Address)
    (search : List Datagram) : parseResolvLines (line :: lines) servers search =
      if isComment word then parseResolvLines lines servers search
      else if word = nameserverWord then
        (words.head?.bind parseIp).bind fun address => parseResolvLines lines (servers ++ [address]) search
      else if word = searchWord then
        (searchSuffixes words).bind fun suffixes => parseResolvLines lines servers (search ++ suffixes)
      else parseResolvLines lines servers search := by
  have htokens : tokens (fun c => c = 32 ∨ c = 9) line = word :: words := h
  rw [parseResolvLines, htokens]
  dsimp only
  split_ifs
  · rfl
  · cases words.head?.bind parseIp <;> rfl
  · cases searchSuffixes words <;> rfl
  · rfl

/-- A line adds what it writes. -/
theorem parseResolvLines_line {line : Datagram} {servers : List Address} {suffixes : List Datagram}
    (h : LineText line servers suffixes)
    (hvalid : ∀ suffix ∈ suffixes, validateHostname suffix = true ∧ suffix.length ≤ 255)
    (lines : List Datagram) (servers' : List Address) (search : List Datagram) :
    parseResolvLines (line :: lines) servers' search =
      parseResolvLines lines (servers' ++ servers) (search ++ suffixes.map lowerString) := by
  have hkeyword : ∀ {word rest : Datagram}, word ≠ [] → (∀ c ∈ word, isBlank c = false) →
      (∀ c, rest.head? = some c → isBlank c = true) → ∀ {blanks}, Blanks blanks →
        tokens isBlank (blanks ++ (word ++ rest)) = word :: tokens isBlank rest := by
    intro word rest hne hword hrest blanks hblanks
    rw [tokens_append hblanks, tokens_word hne hword hrest]
  cases h with
  | blank hblanks =>
    rw [parseResolvLines_blank (tokens_eq_nil hblanks)]
    simp
  | @comment blanks rest c hblanks hc =>
    obtain ⟨word, words, hwords⟩ := tokens_cons (isBlank_comment hc) rest
    rw [parseResolvLines_words ((tokens_append hblanks _).trans hwords), if_pos (isComment_cons hc word)]
    simp
  | @other blanks word rest hblanks hne hword hrest hserver hsearch =>
    rw [parseResolvLines_words (hkeyword hne hword hrest hblanks), if_neg hserver, if_neg hsearch, ite_self]
    simp
  | @nameserver blanks blanks' text rest server hblanks hblanks' hne htext hrest =>
    obtain ⟨hnil, hblank, hparse⟩ := htext.spec
    have hgap : ∀ c, (blanks' ++ (text ++ rest)).head? = some c → isBlank c = true := by
      intro c hc
      obtain ⟨b, bs, rfl⟩ := List.exists_cons_of_ne_nil hne
      obtain rfl := Option.some.inj hc
      exact hblanks' _ List.mem_cons_self
    have hword : ∀ c ∈ nameserverWord, isBlank c = false := not_separator_of_any (by decide)
    rw [parseResolvLines_words (hkeyword (by decide) hword hgap hblanks), if_neg (by decide), if_pos rfl,
      tokens_append hblanks', tokens_word hnil hblank hrest, List.head?_cons, Option.bind_some,
      hparse, Option.bind_some]
    simp
  | @search blanks rest suffixes hblanks hrest =>
    have hword : ∀ c ∈ searchWord, isBlank c = false := not_separator_of_any (by decide)
    rw [parseResolvLines_words (hkeyword (by decide) hword hrest.head hblanks), if_neg (by decide),
      if_neg (by decide), if_pos rfl, searchSuffixes_eq hrest hvalid, Option.bind_some]
    simp

/-- An empty line is no line. -/
theorem parseResolvLines_filter (lines : List Datagram) (servers : List Address) (search : List Datagram) :
    parseResolvLines (lines.filter (· ≠ [])) servers search = parseResolvLines lines servers search := by
  induction lines generalizing servers search with
  | nil => rfl
  | cons line lines ih =>
    by_cases hline : line = []
    · subst hline
      rw [parseResolvLines_blank rfl, List.filter_cons, if_neg (by simp), ih]
    · rw [List.filter_cons, if_pos (by simp [hline])]
      cases hwords : tokens isBlank line with
      | nil => rw [parseResolvLines_blank hwords, parseResolvLines_blank hwords, ih]
      | cons word words =>
        simp only [parseResolvLines_words hwords, ih]

/-- The whole content. -/
theorem parseResolvLines_content {content : Datagram} {servers : List Address} {suffixes : List Datagram}
    (h : ResolvText content servers suffixes)
    (hvalid : ∀ suffix ∈ suffixes, validateHostname suffix = true ∧ suffix.length ≤ 255)
    (servers' : List Address) (search : List Datagram) :
    parseResolvLines (tokens (· = 10) content) servers' search =
      some (servers' ++ servers, search ++ suffixes.map lowerString) := by
  rw [tokens, parseResolvLines_filter]
  have hbyte : ∀ {line : Datagram}, 10 ∉ line → ∀ c ∈ line, decide (c = 10) = false := by
    intro line hbreak c hc
    rw [decide_eq_false_iff_not]
    rintro rfl
    exact hbreak hc
  induction h generalizing servers' search with
  | last hline hbreak =>
    rw [List.splitOnP_eq_singleton (hbyte hbreak), parseResolvLines_line hline hvalid]
    rfl
  | cons hline hbreak hrest ih =>
    rw [List.splitOnP_append_cons_of_forall_mem (hbyte hbreak) 10 rfl,
      parseResolvLines_line hline fun s hs => hvalid s (List.mem_append_left _ hs),
      ih fun s hs => hvalid s (List.mem_append_right _ hs)]
    simp

end Talyn.Dns
