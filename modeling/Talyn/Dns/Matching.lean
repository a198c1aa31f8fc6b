import Talyn.Dns.QueryNames

/-!
# Responses and the queries they answer

A response belongs to the first query of the server that has its transaction id, and is dropped when
it does not echo the question of that query. The ids are drawn one by one and never compared, so a
response reaches its own query as long as no two queries with different questions have the same id
(`responses_matched_iff`).
-/

namespace Talyn.Dns

variable {types : List QuestionType} {hostnames : List Datagram} {ids : ℕ → UInt16}
  {queries : List QuerySlot} {response : Datagram}

/-- The questions of the queries of a server, in the order of its slots. -/
def questions (types : List QuestionType) (hostnames : List Datagram) :
    List (Datagram × QuestionType) :=
  hostnames.flatMap fun hostname => types.map fun type => (hostname, type)

theorem getElem?_slot (slot : ℕ) : (buildQueries types hostnames ids)[slot]? =
    (questions types hostnames)[slot]?.map fun q =>
      ⟨(ids slot).toNat, buildQuery (ids slot).toNat q.2 q.1⟩ := by
  rw [buildQueries, List.getElem?_mapIdx]
  rfl

theorem mem_questions {q : Datagram × QuestionType} (h : q ∈ questions types hostnames) :
    q.1 ∈ hostnames := by
  obtain ⟨name, hname, hpair⟩ := List.mem_flatMap.mp h
  obtain ⟨type, -, rfl⟩ := List.mem_map.mp hpair
  exact hname

theorem QuestionType.code_injective {q q' : QuestionType} (h : q.code = q'.code) : q = q' := by
  cases q <;> cases q' <;> first | rfl | exact absurd h (by decide)

/-- The query tells the question. -/
theorem buildQuery_injective {id : ℕ} {q q' : Datagram × QuestionType}
    (hq : validateHostname q.1 = true) (hq' : validateHostname q'.1 = true)
    (h : buildQuery id q.2 q.1 = buildQuery id q'.2 q'.1) : q = q' := by
  have hquery := queryFor_buildQuery id q.2 hq
  have hquery' := queryFor_buildQuery id q'.2 hq'
  rw [h] at hquery
  have hname : q.1 = q'.1 := Option.some.inj (hquery.parse.symm.trans hquery'.parse)
  have hcode : q.2.code = q'.2.code := by
    rw [← hquery.qtype, ← hquery'.qtype, hname]
  exact Prod.ext hname (QuestionType.code_injective hcode)

/-! ### Valid responses -/

/-- A datagram that answers the query in a slot: it has its id and question, is a standard response
without an error, and is not truncated. -/
structure Answering (slot : QuerySlot) (response : Datagram) : Prop where
  id : readU16 response 0 = slot.id
  response_bit : readU16 response 2 &&& 0x8000 ≠ 0
  opcode : readU16 response 2 / 2048 &&& 0x0F = 0
  rcode : readU16 response 2 &&& 0x000F = 0
  complete : readU16 response 2 &&& 0x0200 = 0
  qdcount : readU16 response 4 = 1
  length : slot.buf.length ≤ response.length
  question : (response.take slot.buf.length).drop 12 = slot.buf.drop 12

/-- Such a datagram passes the checks of its own slot. -/
theorem Answering.checkResponse {slot : QuerySlot} (h : Answering slot response) :
    checkResponse slot response = .accepted := by
  simp [Dns.checkResponse, h.response_bit, h.opcode, h.rcode, h.complete, h.qdcount,
    h.question, Nat.not_lt.mpr h.length]

/-- The query itself, sent back with the flags of a response. -/
def echo (slot : QuerySlot) : Datagram :=
  writeU16 slot.id ++ writeU16 0x8180 ++ writeU16 1 ++ slot.buf.drop 6

theorem answering_echo {id : ℕ} {question : QuestionType} {name : Datagram} (hid : id < 65536) :
    Answering ⟨id, buildQuery id question name⟩ (echo ⟨id, buildQuery id question name⟩) := by
  have hlen : 12 ≤ (buildQuery id question name).length := by
    rw [buildQuery_eq]
    simp
    omega
  have hflags : readU16 (echo ⟨id, buildQuery id question name⟩) 2 = 0x8180 := by
    rw [echo, List.append_assoc]
    exact readU16_writeU16 rfl (by decide)
  refine ⟨?_, ?_, ?_, ?_, ?_, ?_, ?_, ?_⟩
  · rw [echo, List.append_assoc, List.append_assoc]
    exact @readU16_writeU16 [] _ 0 id rfl hid
  · rw [hflags]
    decide
  · rw [hflags]
    decide
  · rw [hflags]
    decide
  · rw [hflags]
    decide
  · exact readU16_writeU16 rfl (by decide)
  · simp only [echo, List.length_append, length_writeU16, List.length_drop]
    omega
  · have hall : (echo ⟨id, buildQuery id question name⟩).length =
        (buildQuery id question name).length := by
      simp only [echo, List.length_append, length_writeU16, List.length_drop]
      omega
    rw [← hall, List.take_length]
    simp only [echo, List.drop_append, List.drop_drop, List.length_append, length_writeU16]
    rfl

/-! ### The first query with the id -/

/-- The slot a datagram is matched to is the first with its id. -/
theorem matchedSlot_eq_some_iff {slot : ℕ} (hlen : 2 ≤ response.length) :
    matchedSlot queries response = some slot ↔
      ∃ h : slot < queries.length, queries[slot].id = readU16 response 0 ∧
        ∀ j (hj : j < slot), queries[j].id ≠ readU16 response 0 := by
  rw [matchedSlot, if_pos hlen, List.findIdx?_eq_some_iff_getElem]
  simp

/-- A query is found for a datagram with its id. -/
theorem exists_matchedSlot {slot : QuerySlot} (hmem : slot ∈ queries)
    (hid : readU16 response 0 = slot.id) (hlen : 2 ≤ response.length) :
    ∃ i found, matchedSlot queries response = some i ∧ queries[i]? = some found ∧
      found.id = slot.id := by
  rcases hfind : matchedSlot queries response with _ | i
  · rw [matchedSlot, if_pos hlen, List.findIdx?_eq_none_iff] at hfind
    exact absurd hid.symm (by simpa using hfind slot hmem)
  · obtain ⟨hi, hfound, -⟩ := (matchedSlot_eq_some_iff hlen).mp hfind
    exact ⟨i, queries[i], rfl, List.getElem?_eq_getElem hi, hfound.trans hid⟩

/-- The first query with an id is the same for every datagram with it. -/
theorem matchedSlot_congr {response' : Datagram} (h : 2 ≤ response.length)
    (h' : 2 ≤ response'.length) (hid : readU16 response 0 = readU16 response' 0) :
    matchedSlot queries response = matchedSlot queries response' := by
  rw [matchedSlot, matchedSlot, if_pos h, if_pos h', hid]

/-- Every valid response to one of the queries is matched to that query and accepted. -/
def ResponsesMatched (queries : List QuerySlot) : Prop :=
  ∀ slot ∈ queries, ∀ response, Answering slot response →
    (∃ i, matchedSlot queries response = some i ∧ queries[i]? = some slot) ∧
      classify queries response = .accepted

/-- Responses reach their queries exactly when no two queries with different questions have the same
transaction id. -/
theorem responses_matched_iff {hostname content : Datagram} {configuration : Configuration}
    (ipv6Supported : Bool) (questionType : Option QuestionType) (ids : ℕ → UInt16)
    (hvalid : validateHostname hostname = true)
    (hconfiguration : parseResolvConfiguration content = some configuration) :
    ResponsesMatched (buildQueries (questionTypes ipv6Supported questionType)
        (getHostnameArray hostname configuration.search) ids) ↔
      ∀ i j q q', (questions (questionTypes ipv6Supported questionType)
          (getHostnameArray hostname configuration.search))[i]? = some q →
        (questions (questionTypes ipv6Supported questionType)
          (getHostnameArray hostname configuration.search))[j]? = some q' →
        ids i = ids j → q = q' := by
  generalize htypes : questionTypes ipv6Supported questionType = types
  have hnames : ∀ q ∈ questions types (getHostnameArray hostname configuration.search),
      validateHostname q.1 = true := fun q hq =>
    (candidate_valid hvalid (fun s h => (search_valid hconfiguration s h).1)
      (mem_questions hq)).1
  generalize getHostnameArray hostname configuration.search = hostnames at hnames ⊢
  constructor
  · intro h i j q q' hq hq' hids
    have hslot := @getElem?_slot types hostnames ids i
    have hslot' := @getElem?_slot types hostnames ids j
    rw [hq, Option.map_some] at hslot
    rw [hq', Option.map_some, ← hids] at hslot'
    have hecho := @answering_echo (ids i).toNat q.2 q.1 (ids i).toNat_lt
    have hecho' := @answering_echo (ids i).toNat q'.2 q'.1 (ids i).toNat_lt
    -- both echoes have the id of the first query with it
    obtain ⟨⟨k, hk, hfound⟩, -⟩ := h _ (List.mem_of_getElem? hslot) _ hecho
    obtain ⟨⟨k', hk', hfound'⟩, -⟩ := h _ (List.mem_of_getElem? hslot') _ hecho'
    have hsame := @matchedSlot_congr (buildQueries types hostnames ids) _ _
      (show 2 ≤ (echo _).length by simp [echo]) (show 2 ≤ (echo _).length by simp [echo])
      (hecho.id.trans hecho'.id.symm)
    rw [hk, hk'] at hsame
    obtain rfl := Option.some.inj hsame
    rw [hfound] at hfound'
    have hbuf := congrArg QuerySlot.buf (Option.some.inj hfound')
    exact buildQuery_injective (hnames q (List.mem_of_getElem? hq))
      (hnames q' (List.mem_of_getElem? hq')) hbuf
  · intro h slot hmem response hanswer
    obtain ⟨i, hi⟩ := List.getElem?_of_mem hmem
    rw [getElem?_slot, Option.map_eq_some_iff] at hi
    obtain ⟨q, hq, rfl⟩ := hi
    have hlen : 12 ≤ response.length := by
      refine le_trans ?_ hanswer.length
      rw [buildQuery_eq]
      simp
      omega
    obtain ⟨k, found, hk, hfound, hid⟩ := exists_matchedSlot hmem hanswer.id (by omega)
    have hfound' := hfound
    rw [getElem?_slot, Option.map_eq_some_iff] at hfound'
    obtain ⟨q', hq', rfl⟩ := hfound'
    have hids : ids k = ids i := UInt16.toNat_inj.mp hid
    obtain rfl := h k i q' q hq' hq hids
    rw [hids] at hfound
    refine ⟨⟨k, hk, hfound⟩, ?_⟩
    rw [classify, hk, Option.bind_some, hfound]
    dsimp only
    rw [if_pos hlen]
    exact hanswer.checkResponse

/-- One query for `a`: its response is matched whatever the id. -/
theorem responses_matched_single :
    ResponsesMatched (buildQueries (questionTypes false none) (getHostnameArray [97] []) fun _ => 7) :=
  (@responses_matched_iff [97] [] defaultConfiguration false none (fun _ => 7) (by decide)
    parseResolvConfiguration_nil).mpr fun i j q q' hq hq' _ => by
      have hall : questions (questionTypes false none)
          (getHostnameArray [97] defaultConfiguration.search) = [([97], .ipv4)] := by decide
      rw [hall] at hq hq'
      have hmem := List.mem_singleton.mp (List.mem_of_getElem? hq)
      have hmem' := List.mem_singleton.mp (List.mem_of_getElem? hq')
      exact hmem.trans hmem'.symm

/-- The A and the AAAA query of `a` with one id: the valid response to the second is taken for a
mismatch of the first. -/
theorem response_taken_for_mismatch :
    (∃ slot ∈ buildQueries [.ipv4, .ipv6] [[97]] (fun _ => 7), Answering slot (echo slot) ∧
      classify (buildQueries [.ipv4, .ipv6] [[97]] fun _ => 7) (echo slot) = .questionMismatch) ∧
      ¬ResponsesMatched (buildQueries (questionTypes true none) (getHostnameArray [97] [])
        fun _ => 7) := by
  have hmem : (⟨7, buildQuery 7 .ipv6 [97]⟩ : QuerySlot) ∈
      buildQueries [.ipv4, .ipv6] [[97]] fun _ => 7 := by decide
  have hanswer : Answering ⟨7, buildQuery 7 .ipv6 [97]⟩ (echo ⟨7, buildQuery 7 .ipv6 [97]⟩) :=
    answering_echo (by decide)
  have hmismatch : classify (buildQueries [.ipv4, .ipv6] [[97]] fun _ => 7)
      (echo ⟨7, buildQuery 7 .ipv6 [97]⟩) = .questionMismatch := by decide
  refine ⟨⟨_, hmem, hanswer, hmismatch⟩, fun h => ?_⟩
  have haccepted := (h _ hmem _ hanswer).2
  exact absurd (haccepted.symm.trans hmismatch) (by decide)

/-! ### Reverse names -/

/-- The name of a reverse lookup is a valid host name, so it is asked for and matched alike. -/
theorem validateHostname_buildReverseName (address : Address) :
    validateHostname (buildReverseName address) = true := by
  have hfold : ∀ (digits : UInt8 → Datagram) (suffix : Datagram) (addr : List UInt8),
      (∀ b, ∃ name, digits b = name ++ [dot] ∧ validateHostname name = true) →
        validateHostname suffix = true →
          validateHostname ((addr.flatMap digits) ++ suffix) = true := by
    intro digits suffix addr hdigits hsuffix
    induction addr with
    | nil => exact hsuffix
    | cons b addr ih =>
      obtain ⟨name, hb, hname⟩ := hdigits b
      rw [List.flatMap_cons, hb, List.append_assoc, List.append_assoc]
      exact validateHostname_append hname ih
  have hdecimal : ∀ n < 256, validateHostname (digitBytes 10 n) = true := by decide +kernel
  have hhex : ∀ n < 16, validateHostname (digitBytes 16 n) = true := by decide +kernel
  cases address with
  | ip4 addr =>
    exact hfold _ _ _ (fun b => ⟨_, rfl, hdecimal _ b.toNat_lt⟩) (by decide)
  | ip6 addr =>
    refine hfold _ _ _ (fun b => ⟨_, rfl, ?_⟩) (by decide)
    have hlt := b.toNat_lt
    rw [List.append_assoc]
    exact validateHostname_append (hhex _ (Nat.mod_lt _ (by decide)))
      (hhex _ (Nat.div_lt_of_lt_mul hlt))

end Talyn.Dns
