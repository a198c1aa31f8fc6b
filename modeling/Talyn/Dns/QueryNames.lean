import Talyn.Dns.NameWalk
import Talyn.Dns.ResolvConf
import Talyn.Dns.Candidates

/-!
# The names in the queries

A candidate name is a valid host name: every label has 1 to 63 bytes and none is empty. `build_query`
writes it into a slot of 512 bytes (`buildQueryInto` follows the writes one by one and fails on one
outside the slot), and both readers of names get it back. On the wire a name is two octets longer
than its text; the three length checks before a query is sent are all made on the text.
-/

namespace Talyn.Dns

open WireName

variable {hostname suffix candidate : Datagram} {suffixes : List Datagram}

/-! ### Valid names -/

theorem splitOn_valid (h : validateHostname hostname = true) : Encodable (hostname.splitOn dot) := by
  intro label hmem
  have hlabel := List.all_eq_true.mp h label hmem
  simp only [decide_eq_true_eq] at hlabel
  exact ⟨hlabel.1, hlabel.2.1⟩

/-- A valid name has no empty label. -/
theorem labels_valid (h : validateHostname hostname = true) :
    labels hostname = hostname.splitOn dot := by
  apply List.filter_eq_self.mpr
  intro label hmem
  obtain ⟨hpos, -⟩ := splitOn_valid h label hmem
  simpa using List.ne_nil_of_length_pos hpos

theorem encodable_labels (h : validateHostname hostname = true) : Encodable (labels hostname) := by
  rw [labels_valid h]
  exact splitOn_valid h

/-- The labels of a valid name, joined by dots, are the name. -/
theorem intercalate_labels (h : validateHostname hostname = true) :
    [dot].intercalate (labels hostname) = hostname := by
  rw [labels_valid h]
  exact List.intercalate_splitOn dot

theorem labels_ne_nil (h : validateHostname hostname = true) : labels hostname ≠ [] := by
  rw [labels_valid h]
  exact List.splitOn_ne_nil dot hostname

theorem ne_nil_of_valid (h : validateHostname hostname = true) : hostname ≠ [] := by
  rintro rfl
  exact absurd h (by decide)

/-- A valid name behind a dot and another valid name is a valid name. -/
theorem validateHostname_append (hh : validateHostname hostname = true)
    (hs : validateHostname suffix = true) : validateHostname (hostname ++ dot :: suffix) = true := by
  unfold validateHostname at hh hs ⊢
  rw [List.splitOn_eq_splitOnP, List.splitOnP_append_cons _ _ (by simp), List.all_append]
  rw [List.splitOn_eq_splitOnP] at hh hs
  rw [hh, hs]
  rfl

/-! ### Candidates -/

/-- A candidate is the name itself, of at most 254 bytes, or, for a name without a dot, the name with
a suffix, of at most 255 bytes. -/
theorem mem_getHostnameArray (hs : ∀ suffix ∈ suffixes, suffix ≠ []) :
    candidate ∈ getHostnameArray hostname suffixes ↔
      (candidate = hostname ∧ hostname.length ≤ 254) ∨
        (dot ∉ hostname ∧ ∃ suffix ∈ suffixes, candidate = hostname ++ dot :: suffix ∧
          hostname.length + suffix.length + 1 ≤ 255) := by
  have hbare : candidate ∈ (buildHostname hostname []).toList ↔
      candidate = hostname ∧ hostname.length ≤ 254 := by
    by_cases hle : hostname.length ≤ 254
    · simp [buildHostname, Nat.not_lt.mpr (Nat.succ_le_succ hle), hle, eq_comm]
    · simp [buildHostname, show 255 < hostname.length + 1 by omega, hle]
  have hsuffix : ∀ suffix ∈ suffixes, buildHostname hostname suffix = some candidate ↔
      candidate = hostname ++ dot :: suffix ∧ hostname.length + suffix.length + 1 ≤ 255 := by
    intro suffix hmem
    have hpos : suffix.length > 0 := List.length_pos_iff.mpr (hs suffix hmem)
    by_cases hle : hostname.length + suffix.length + 1 ≤ 255
    · simp [buildHostname, Nat.not_lt.mpr hle, hpos, hle, eq_comm]
    · simp [buildHostname, Nat.lt_of_not_le hle, hle]
  unfold getHostnameArray
  split_ifs with hdot
  · rw [hbare]
    simp [hdot]
  · rw [List.mem_append, hbare, List.mem_filterMap]
    constructor
    · rintro (⟨suffix, hmem, hbuild⟩ | h)
      · exact Or.inr ⟨hdot, suffix, hmem, (hsuffix suffix hmem).mp hbuild⟩
      · exact Or.inl h
    · rintro (h | ⟨-, suffix, hmem, hbuild⟩)
      · exact Or.inr h
      · exact Or.inl ⟨suffix, hmem, (hsuffix suffix hmem).mpr hbuild⟩

/-- The candidates of a valid name under valid suffixes are valid names of at most 255 bytes. -/
theorem candidate_valid (hh : validateHostname hostname = true)
    (hs : ∀ suffix ∈ suffixes, validateHostname suffix = true)
    (hmem : candidate ∈ getHostnameArray hostname suffixes) :
    validateHostname candidate = true ∧ candidate.length ≤ 255 := by
  have hne : ∀ suffix ∈ suffixes, suffix ≠ [] := fun suffix h => ne_nil_of_valid (hs suffix h)
  rcases (mem_getHostnameArray hne).mp hmem with ⟨rfl, hle⟩ | ⟨-, suffix, hsuffix, rfl, hle⟩
  · exact ⟨hh, by omega⟩
  · refine ⟨validateHostname_append hh (hs suffix hsuffix), ?_⟩
    simp only [List.length_append, List.length_cons]
    omega

/-! ### Writing into the slot -/

/-- Write `bytes` at `payload[offset..]`; `none` is a write outside the slot. -/
def writeAt (payload : Datagram) (offset : ℕ) (bytes : Datagram) : Option Datagram :=
  if offset + bytes.length ≤ payload.length then
    some (payload.take offset ++ bytes ++ payload.drop (offset + bytes.length))
  else none

/-- The loop of `build_query` over the labels. -/
def writeLabels (payload : Datagram) (offset : ℕ) : List Datagram → Option (Datagram × ℕ)
  | [] => some (payload, offset)
  | label :: labels =>
    -- the cast of the length to `u8`
    if label.length > 255 then none
    else do
      let payload ← writeAt payload offset [UInt8.ofNat label.length]
      let payload ← writeAt payload (offset + 1) label
      writeLabels payload (offset + 1 + label.length) labels

/-- `build_query` on its slot: the slot and the length of the query. -/
def buildQueryInto (id : ℕ) (payload : Datagram) (question : QuestionType) (hostname : Datagram) :
    Option (Datagram × ℕ) := do
  let payload ← writeAt payload 0 (writeU16 id)
  let payload ← writeAt payload 2 (writeU16 0x0100)
  let payload ← writeAt payload 4 (writeU16 1)
  let payload ← writeAt payload 6 (writeU16 0)
  let payload ← writeAt payload 8 (writeU16 0)
  let payload ← writeAt payload 10 (writeU16 0)
  let (payload, offset) ← writeLabels payload 12 (labels hostname)
  let payload ← writeAt payload offset [0]
  let offset := offset + 1
  let payload ← writeAt payload offset (writeU16 question.code)
  let payload ← writeAt payload (offset + 2) (writeU16 1)
  some (payload, offset + 4)

@[simp] theorem length_writeU16 (value : ℕ) : (writeU16 value).length = 2 := rfl

/-- A write behind what has been written. -/
theorem writeAt_written {written payload bytes : Datagram} {offset : ℕ}
    (ho : written.length = offset) (hle : offset + bytes.length ≤ payload.length) :
    writeAt (written ++ payload.drop offset) offset bytes =
      some (written ++ bytes ++ payload.drop (offset + bytes.length)) := by
  have hfit : offset + bytes.length ≤ (written ++ payload.drop offset).length := by
    rw [List.length_append, List.length_drop]
    omega
  have htake : (written ++ payload.drop offset).take offset = written := by
    rw [← ho, List.take_left]
  have hdrop : (written ++ payload.drop offset).drop (offset + bytes.length) =
      payload.drop (offset + bytes.length) := by
    rw [← List.drop_drop, ← ho, List.drop_left, List.drop_drop]
  rw [writeAt, if_pos hfit, htake, hdrop]

theorem writeLabels_written {ls : List Datagram} {written payload : Datagram} {offset : ℕ}
    (ho : written.length = offset) (hl : Encodable ls)
    (hle : offset + (encode ls).length ≤ payload.length) :
    writeLabels (written ++ payload.drop offset) offset ls =
      some (written ++ encode ls ++ payload.drop (offset + (encode ls).length),
        offset + (encode ls).length) := by
  induction ls generalizing written offset with
  | nil => simp [writeLabels]
  | cons label ls ih =>
    obtain ⟨-, hshort⟩ := hl label List.mem_cons_self
    simp only [encode_cons, List.length_cons, List.length_append] at hle
    have hone : writeAt (written ++ payload.drop offset) offset [UInt8.ofNat label.length] =
        some (written ++ [UInt8.ofNat label.length] ++ payload.drop (offset + 1)) :=
      writeAt_written ho (by rw [List.length_singleton]; omega)
    have hlabel : writeAt (written ++ [UInt8.ofNat label.length] ++ payload.drop (offset + 1))
        (offset + 1) label =
        some (written ++ [UInt8.ofNat label.length] ++ label ++
          payload.drop (offset + 1 + label.length)) :=
      writeAt_written (by simp [ho]) (by omega)
    have hrest := @ih (written ++ [UInt8.ofNat label.length] ++ label)
      (offset + 1 + label.length) (by simp [ho]; omega)
      (fun l hmem => hl l (List.mem_cons_of_mem _ hmem)) (by omega)
    have hend : offset + 1 + label.length + (encode ls).length =
        offset + (encode (label :: ls)).length := by
      simp only [encode_cons, List.length_cons, List.length_append]
      omega
    rw [writeLabels, if_neg (by omega), hone, Option.bind_eq_bind, Option.bind_some,
      hlabel, Option.bind_some, hrest, hend]
    simp

/-- The header, the name and the tail of a query. -/
theorem buildQuery_eq (id : ℕ) (question : QuestionType) (hostname : Datagram) :
    buildQuery id question hostname =
      (writeU16 id ++ writeU16 0x0100 ++ writeU16 1 ++ writeU16 0 ++ writeU16 0 ++ writeU16 0) ++
        encode (labels hostname) ++ ([0] ++ writeU16 question.code ++ writeU16 1) := by
  simp [buildQuery, encode]

/-- Every write of `build_query` stays inside a slot with room for the query. -/
theorem buildQueryInto_eq {id : ℕ} {payload : Datagram} {question : QuestionType}
    (hl : Encodable (labels hostname))
    (hfit : (buildQuery id question hostname).length ≤ payload.length) :
    buildQueryInto id payload question hostname =
      some (buildQuery id question hostname ++
        payload.drop (buildQuery id question hostname).length,
        (buildQuery id question hostname).length) := by
  have hlen : (buildQuery id question hostname).length =
      12 + (encode (labels hostname)).length + 1 + 2 + 2 := by
    simp [buildQuery_eq]
    omega
  rw [hlen] at hfit ⊢
  -- after each write the slot is what has been written and the rest of the old slot
  have hword : ∀ {written : Datagram} {offset : ℕ} (value : ℕ), written.length = offset →
      offset + 2 ≤ payload.length → writeAt (written ++ payload.drop offset) offset (writeU16 value) =
        some (written ++ writeU16 value ++ payload.drop (offset + 2)) :=
    fun _ ho hle => writeAt_written ho hle
  have hroot : ∀ {written : Datagram} {offset : ℕ}, written.length = offset →
      offset + 1 ≤ payload.length → writeAt (written ++ payload.drop offset) offset [0] =
        some (written ++ [0] ++ payload.drop (offset + 1)) :=
    fun ho hle => writeAt_written ho hle
  have hid : writeAt payload 0 (writeU16 id) = some (writeU16 id ++ payload.drop 2) :=
    @hword [] 0 id rfl (by omega)
  simp only [buildQueryInto, hid, Option.bind_eq_bind, Option.bind_some]
  rw [hword _ (by simp) (by omega), Option.bind_some, hword _ (by simp) (by omega),
    Option.bind_some, hword _ (by simp) (by omega), Option.bind_some,
    hword _ (by simp) (by omega), Option.bind_some, hword _ (by simp) (by omega),
    Option.bind_some, writeLabels_written (by simp) hl (by omega), Option.bind_some]
  dsimp only
  rw [hroot (by simp; omega) (by omega), Option.bind_some, hword _ (by simp; omega) (by omega),
    Option.bind_some, hword _ (by simp; omega) (by omega), Option.bind_some]
  simp only [buildQuery_eq, List.append_assoc]

/-! ### Reading the query back -/

theorem readU16_writeU16 {written after : Datagram} {offset value : ℕ}
    (ho : written.length = offset) (hv : value < 65536) :
    readU16 (written ++ writeU16 value ++ after) offset = value := by
  subst ho
  have h0 : (written ++ writeU16 value ++ after)[written.length]? =
      some (UInt8.ofNat (value / 256)) := by simp [writeU16]
  have h1 : (written ++ writeU16 value ++ after)[written.length + 1]? =
      some (UInt8.ofNat value) := by simp [writeU16]
  rw [readU16, getD_of_getElem? h0, getD_of_getElem? h1, UInt8.toNat_ofNat', UInt8.toNat_ofNat']
  omega

/-- A name of labels is one octet longer on the wire than its text, without the root. -/
theorem length_encode {ls : List Datagram} (h : ls ≠ []) :
    (encode ls).length = ([dot].intercalate ls).length + 1 := by
  obtain ⟨label, ls, rfl⟩ := List.exists_cons_of_ne_nil h
  have hrest : (encode ls).length = (ls.flatMap fun l => dot :: l).length := by
    induction ls with
    | nil => rfl
    | cons l ls ih =>
      have ih' := ih (List.cons_ne_nil _ _)
      simp only [encode_cons, List.flatMap_cons, List.length_append, List.length_cons, ih']
  rw [intercalate_cons, encode_cons]
  simp only [List.length_append, List.length_cons, hrest]
  omega

theorem QuestionType.code_lt (question : QuestionType) : question.code < 65536 := by
  cases question <;> decide

/-- What a server and the resolver read in a query for `name`. -/
structure QueryFor (query : Datagram) (question : QuestionType) (name : Datagram) : Prop where
  length : query.length = 12 + name.length + 2 + 4
  skip : skipName query 12 = some (12 + name.length + 2)
  parse : parseName query 12 = some name
  qtype : readU16 query (12 + name.length + 2) = question.code
  qclass : readU16 query (12 + name.length + 4) = 1
  /-- no octet on the way through the name starts a pointer -/
  plain : ∀ n labels stop b, Walk query n 12 labels stop → query[stop]? = some b → ¬IsPointer b

/-- The query of a valid name is read as it was written. -/
theorem queryFor_buildQuery (id : ℕ) (question : QuestionType)
    (h : validateHostname hostname = true) :
    QueryFor (buildQuery id question hostname) question hostname := by
  have hlen : (encode (labels hostname)).length = hostname.length + 1 := by
    rw [length_encode (labels_ne_nil h), intercalate_labels h]
  have hlength : (buildQuery id question hostname).length = 12 + hostname.length + 2 + 4 := by
    rw [buildQuery_eq]
    simp [hlen]
    omega
  have hwalk : Walk (buildQuery id question hostname) 0 12 (labels hostname)
      (12 + (encode (labels hostname)).length) := by
    rw [buildQuery_eq]
    exact walk_encode _ _ (encodable_labels h)
  have hroot : (buildQuery id question hostname)[12 + (encode (labels hostname)).length]? =
      some 0 := by
    rw [buildQuery_eq, List.getElem?_append_right (by simp; omega)]
    simp only [List.length_append, length_writeU16]
    rw [show 12 + (encode (labels hostname)).length -
      (2 + 2 + 2 + 2 + 2 + 2 + (encode (labels hostname)).length) = 0 by omega]
    rfl
  have hread := readers_of_walk hwalk hroot
  have hstop : 12 + (encode (labels hostname)).length + 1 = 12 + hostname.length + 2 := by omega
  refine ⟨hlength, ?_, ?_, ?_, ?_, ?_⟩
  · rw [hread.1, hstop]
  · rw [parseName_eq_end, hread.2, intercalate_labels h]
    rfl
  · rw [buildQuery_eq]
    simp only [← List.append_assoc]
    exact readU16_writeU16 (by simp [hlen]; omega) question.code_lt
  · rw [buildQuery_eq]
    simp only [← List.append_assoc]
    rw [← List.append_nil (_ ++ writeU16 1)]
    exact readU16_writeU16 (by simp [hlen]; omega) (by decide)
  · intro n labels stop b hwalk' hb
    exact (hwalk.plain hroot hwalk').2 b hb

/-- For every valid host name and accepted configuration, the query of every candidate is written
inside its slot and read back by both readers as the candidate and the question. -/
theorem query_round_trip {content payload : Datagram} {configuration : Configuration} (id : UInt16)
    (question : QuestionType) (hvalid : validateHostname hostname = true)
    (hconfiguration : parseResolvConfiguration content = some configuration)
    (hcandidate : candidate ∈ getHostnameArray hostname configuration.search)
    (hpayload : payload.length = 512) :
    ∃ slot, buildQueryInto id.toNat payload question candidate =
        some (slot, 12 + candidate.length + 2 + 4) ∧ slot.length = 512 ∧
      slot.take (12 + candidate.length + 2 + 4) = buildQuery id.toNat question candidate ∧
      QueryFor (slot.take (12 + candidate.length + 2 + 4)) question candidate := by
  obtain ⟨hname, hle⟩ := candidate_valid hvalid
    (fun suffix hmem => (search_valid hconfiguration suffix hmem).1) hcandidate
  have hquery := queryFor_buildQuery id.toNat question hname
  have hfit : (buildQuery id.toNat question candidate).length ≤ payload.length := by
    rw [hquery.length]
    omega
  have hwritten := buildQueryInto_eq (encodable_labels hname) hfit
  rw [hquery.length] at hwritten
  have htake : (buildQuery id.toNat question candidate ++
      payload.drop (12 + candidate.length + 2 + 4)).take (12 + candidate.length + 2 + 4) =
      buildQuery id.toNat question candidate := List.take_left' hquery.length
  refine ⟨_, hwritten, ?_, htake, ?_⟩
  · rw [List.length_append, hquery.length, List.length_drop]
    omega
  · rw [htake]
    exact hquery

/-- The name `a` with the suffix `b`, both from the configuration `search b`. -/
theorem query_round_trip_searched :
    validateHostname [97] = true ∧ ∃ slot,
      buildQueryInto 7 (List.replicate 512 0) .ipv6 [97, 46, 98] = some (slot, 21) ∧
        QueryFor (slot.take 21) .ipv6 [97, 46, 98] := by
  obtain ⟨configuration, hconfiguration⟩ : ∃ configuration, parseResolvConfiguration
      [115, 101, 97, 114, 99, 104, 32, 98] = some configuration :=
    Option.isSome_iff_exists.mp (by decide +kernel)
  have hsearch : configuration.search = [[98]] := by
    have h : (parseResolvConfiguration [115, 101, 97, 114, 99, 104, 32, 98]).map
        Configuration.search = some [[98]] := by decide +kernel
    rw [hconfiguration] at h
    exact Option.some.inj h
  obtain ⟨slot, hslot, -, -, hquery⟩ := @query_round_trip [97]
    [97, 46, 98] _ (List.replicate 512 0) configuration 7 .ipv6 (by decide) hconfiguration
    (by rw [hsearch]; decide) List.length_replicate
  exact ⟨by decide, slot, hslot, hquery⟩

/-! ### The length of a name on the wire -/

/-- The octets of the name in a query, the root included. -/
def qname (query : Datagram) : Datagram := (query.take ((skipName query 12).getD 12)).drop 12

theorem QueryFor.length_qname {query : Datagram} {question : QuestionType}
    (h : QueryFor query question hostname) : (qname query).length = hostname.length + 2 := by
  rw [qname, h.skip, Option.getD_some, List.length_drop, List.length_take, h.length]
  omega

/-- The queries of the first server that is asked. -/
theorem queue_server_queries {userCallback : CallbackId} {configuration : Configuration}
    {ipv6Supported : Bool} {questionType : Option QuestionType} {ids : ℕ → ℕ → UInt16}
    {fds : ℕ → ℕ} {l : Lookup}
    (h : queue hostname userCallback configuration ipv6Supported questionType ids fds = some l) :
    l.servers.length = configuration.servers.length ∧
      ∀ i < l.servers.length, (l.server i).queries =
        buildQueries (questionTypes ipv6Supported questionType)
          (getHostnameArray hostname configuration.search) (ids i) := by
  simp only [queue] at h
  split_ifs at h
  obtain rfl := Option.some.inj h
  refine ⟨List.length_mapIdx, fun i hi => ?_⟩
  simp only [List.length_mapIdx] at hi
  simp [Lookup.server, hi]

/-- Every query asks a candidate, and every candidate is asked. -/
theorem mem_buildQueries {types : List QuestionType} {hostnames : List Datagram}
    {ids : ℕ → UInt16} (htypes : types ≠ []) (P : Datagram → Prop) (Q : Datagram → Prop)
    (hPQ : ∀ id question, ∀ name ∈ hostnames, P (buildQuery id question name) ↔ Q name) :
    (∀ slot ∈ buildQueries types hostnames ids, P slot.buf) ↔ ∀ name ∈ hostnames, Q name := by
  constructor
  · intro h name hname
    obtain ⟨k, hk, rfl⟩ := List.getElem_of_mem hname
    have hpos : 0 < types.length := List.length_pos_iff.mpr htypes
    have hdiv : hostnames[k * types.length / types.length]? = some hostnames[k] := by
      rw [Nat.mul_div_cancel _ hpos, List.getElem?_eq_getElem hk]
    obtain ⟨question, -, hslot⟩ := getElem?_buildQueries ids hdiv hpos
    exact (hPQ _ question _ hname).mp (h _ (List.mem_of_getElem? hslot))
  · intro h slot hslot
    rw [buildQueries, List.mem_mapIdx] at hslot
    obtain ⟨i, hi, rfl⟩ := hslot
    have hmem := List.getElem_mem hi
    obtain ⟨name, hname, hpair⟩ := List.mem_flatMap.mp hmem
    obtain ⟨question, -, hq⟩ := List.mem_map.mp hpair
    rw [← hq]
    exact (hPQ _ question name hname).mpr (h name hname)

theorem dot_mem_lowerString : dot ∈ lowerString hostname ↔ dot ∈ hostname := by
  have hbyte : ∀ c : UInt8, (if 65 ≤ c ∧ c ≤ 90 then c + 32 else c) = dot ↔ c = dot := by
    intro c
    have hdot : dot.toNat = 46 := rfl
    have hadd : (c + 32).toNat = (c.toNat + 32) % 256 := UInt8.toNat_add c 32
    have h65 : (65 : UInt8).toNat = 65 := rfl
    have h90 : (90 : UInt8).toNat = 90 := rfl
    split_ifs with h
    · rw [UInt8.le_iff_toNat_le, UInt8.le_iff_toNat_le] at h
      rw [← UInt8.toNat_inj, ← UInt8.toNat_inj]
      omega
    · rfl
  simp only [lowerString, List.mem_map, hbyte, exists_eq_right]

/-- A nameserver is asked for valid names only. -/
theorem validateHostname_of_resolveAddress {allowIpv6 : Bool}
    (h : resolveAddress hostname allowIpv6 = some []) : validateHostname hostname = true := by
  unfold resolveAddress at h
  split at h
  · cases allowIpv6 <;> exact absurd h (by decide)
  · split at h
    · exact absurd (Option.some.inj h) (List.cons_ne_nil _ _)
    · split at h
      · exact absurd (Option.some.inj h) (List.cons_ne_nil _ _)
      · split at h
        next hvalid => exact hvalid
        next => exact nomatch h

/-- The queries of a lookup carry names of at most 255 octets exactly when no candidate has 254 or
255 bytes: the name itself does not have 254, and no suffix makes it that long. -/
theorem qnames_fit_iff {content : Datagram} {configuration : Configuration}
    {ipv6Supported : Bool} (userCallback : CallbackId) (ids : ℕ → ℕ → UInt16) (fds : ℕ → ℕ)
    (hlen : hostname.length ≤ 255)
    (hasked : resolveAddress (lowerString hostname) ipv6Supported = some [])
    (hconfiguration : parseResolvConfiguration content = some configuration) :
    (∀ l, queue (lowerString hostname) userCallback configuration ipv6Supported none ids fds =
        some l → ∀ i < l.servers.length, ∀ slot ∈ (l.server i).queries,
          (qname slot.buf).length ≤ 255) ↔
      hostname.length ≠ 254 ∧ (dot ∉ hostname → ∀ suffix ∈ configuration.search,
        hostname.length + suffix.length + 1 < 254 ∨ 255 < hostname.length + suffix.length + 1) := by
  have hvalid := validateHostname_of_resolveAddress hasked
  have hsearch := search_valid hconfiguration
  have hlower : (lowerString hostname).length = hostname.length := by simp [lowerString]
  have hne : ∀ suffix ∈ configuration.search, suffix ≠ [] :=
    fun suffix hmem => ne_nil_of_valid (hsearch suffix hmem).1
  have htypes : questionTypes ipv6Supported none ≠ [] := by
    cases ipv6Supported <;> exact List.cons_ne_nil _ _
  -- a query fits exactly when its name has at most 253 bytes
  have hqueries := fun i => @mem_buildQueries _
    (getHostnameArray (lowerString hostname) configuration.search) (ids i) htypes
    (fun query => (qname query).length ≤ 255) (fun name => name.length ≤ 253) (by
      intro id question name hmem
      obtain ⟨hname, -⟩ := candidate_valid hvalid (fun s h => (hsearch s h).1) hmem
      rw [(queryFor_buildQuery id question hname).length_qname]
      omega)
  have hcandidates : (∀ name ∈ getHostnameArray (lowerString hostname) configuration.search,
      name.length ≤ 253) ↔ hostname.length ≠ 254 ∧ (dot ∉ hostname →
        ∀ suffix ∈ configuration.search, hostname.length + suffix.length + 1 < 254 ∨
          255 < hostname.length + suffix.length + 1) := by
    simp only [mem_getHostnameArray hne, dot_mem_lowerString, hlower]
    constructor
    · intro h
      refine ⟨fun h254 => ?_, fun hdot suffix hmem => ?_⟩
      · have hbare := h _ (Or.inl ⟨rfl, by omega⟩)
        omega
      · by_contra hbad
        have hlong := h _ (Or.inr ⟨hdot, suffix, hmem, rfl, by omega⟩)
        simp only [List.length_append, List.length_cons, hlower] at hlong
        omega
    · rintro ⟨hbare, hsuffix⟩ name (⟨rfl, hle⟩ | ⟨hdot, suffix, hmem, rfl, hle⟩)
      · omega
      · have hlong := hsuffix hdot suffix hmem
        simp only [List.length_append, List.length_cons, hlower]
        omega
  rw [← hcandidates]
  constructor
  · intro h name hmem
    rcases hq : queue (lowerString hostname) userCallback configuration ipv6Supported none ids fds
      with _ | l
    · simp only [queue] at hq
      split_ifs at hq with hnone
      rw [List.length_eq_zero_iff.mp hnone] at hmem
      exact absurd hmem List.not_mem_nil
    · obtain ⟨hservers, hslots⟩ := queue_server_queries hq
      have hpos : 0 < l.servers.length :=
        hservers ▸ List.length_pos_iff.mpr configuration.servers_ne_nil
      have hfirst := h l hq 0 hpos
      rw [hslots 0 hpos] at hfirst
      exact (hqueries 0).mp hfirst name hmem
  · intro h l hq i hi
    obtain ⟨-, hslots⟩ := queue_server_queries hq
    rw [hslots i hi]
    exact (hqueries i).mpr h

/-- The name `a` without suffixes: its queries fit. -/
theorem qnames_fit_short :
    resolveAddress (lowerString [97]) true = some [] ∧
      ∀ l, queue [97] 0 defaultConfiguration true none (fun _ _ => 0) (fun _ => 7) = some l →
        ∀ i < l.servers.length, ∀ slot ∈ (l.server i).queries, (qname slot.buf).length ≤ 255 := by
  have hasked : resolveAddress (lowerString [97]) true = some [] := by decide +kernel
  refine ⟨hasked, ?_⟩
  exact (@qnames_fit_iff [97] [] _ true 0 (fun _ _ => 0) (fun _ => 7) (by decide) hasked
    parseResolvConfiguration_nil).mpr ⟨by decide, fun _ _ h => absurd h List.not_mem_nil⟩

/-- Three labels of 63 bytes and one of 62. -/
def longName : Datagram :=
  List.replicate 63 97 ++ dot :: (List.replicate 63 97 ++ dot :: (List.replicate 63 97 ++ dot ::
    List.replicate 62 97))

/-- A name of 254 bytes is asked for, with 256 octets on the wire. -/
theorem long_name_is_sent :
    longName.length = 254 ∧ resolveAddress (lowerString longName) true = some [] ∧
      ∃ l, queue (lowerString longName) 0 defaultConfiguration true none (fun _ _ => 0)
        (fun _ => 7) = some l ∧ 0 < l.servers.length ∧
          ∃ slot ∈ (l.server 0).queries, (qname slot.buf).length = 256 := by
  have hasked : resolveAddress (lowerString longName) true = some [] := by decide +kernel
  have hlower : (lowerString longName).length = 254 := by decide +kernel
  have hcandidates : getHostnameArray (lowerString longName) [] = [lowerString longName] := by
    decide +kernel
  refine ⟨by decide +kernel, hasked, ?_⟩
  rcases hq : queue (lowerString longName) 0 defaultConfiguration true none (fun _ _ => 0)
    (fun _ => 7) with _ | l
  · simp only [queue, defaultConfiguration, hcandidates] at hq
    cases hq
  · obtain ⟨hservers, hslots⟩ := queue_server_queries hq
    have hpos : 0 < l.servers.length := hservers ▸ Nat.one_pos
    refine ⟨l, rfl, hpos, ⟨0, buildQuery 0 .ipv4 (lowerString longName)⟩, ?_, ?_⟩
    · rw [hslots 0 hpos]
      simp only [defaultConfiguration, hcandidates]
      exact List.mem_cons_self
    · rw [(queryFor_buildQuery 0 .ipv4 (validateHostname_of_resolveAddress hasked)).length_qname,
        hlower]

end Talyn.Dns
