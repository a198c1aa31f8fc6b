import Talyn.Dns.Matching

/-!
# No access outside the datagram

`process_dns_response` again, with every index and every slice checked and every loop counted: an
access outside the bytes, a length that would wrap and a loop that does not come to its end are
`Fault`s. No datagram leads to one (`processResponse_eq`); the result is that of `classify` and
`collectAnswers`.
-/

namespace Talyn.Dns

open WireName

/-- What a reader of foreign bytes must not do. -/
inductive Fault
  | outOfBounds
  | underflow
  | endlessLoop
  deriving DecidableEq, Repr

variable {data : Datagram} {offset stop fuel visited : ℕ} {result : Datagram}

/-- `data[offset]`. -/
def byteAt (data : Datagram) (offset : ℕ) : Except Fault UInt8 :=
  match data[offset]? with
  | some b => .ok b
  | none => .error .outOfBounds

/-- `data[start..stop]`. -/
def slice (data : Datagram) (start stop : ℕ) : Except Fault Datagram :=
  if start ≤ stop ∧ stop ≤ data.length then .ok ((data.take stop).drop start)
  else .error .outOfBounds

/-- `readInt(u16, data[offset..offset + 2][0..2], .big)`. -/
def readU16At (data : Datagram) (offset : ℕ) : Except Fault ℕ := do
  let bytes ← slice data offset (offset + 2)
  return readU16 bytes 0

/-- `readInt(u32, data[offset..offset + 4][0..4], .big)`. -/
def readU32At (data : Datagram) (offset : ℕ) : Except Fault ℕ := do
  let bytes ← slice data offset (offset + 4)
  return readU32 bytes 0

/-- The loop of `skip_name`. -/
def skipNameAt (data : Datagram) : ℕ → ℕ → Except Fault (Option ℕ)
  | 0, _ => .error .endlessLoop
  | fuel + 1, offset =>
    if offset < data.length then do
      let byte ← byteAt data offset
      if byte.toNat = 0 then return some (offset + 1)
      else if byte.toNat &&& 0xC0 = 0xC0 then
        if offset + 2 > data.length then return none else return some (offset + 2)
      else skipNameAt data fuel (offset + byte.toNat + 1)
    else return none

/-- The loop of `parse_name`; no name is `error.MalformedDnsResponse`. -/
def parseNameAt (data : Datagram) : ℕ → ℕ → ℕ → Datagram → Except Fault (Option Datagram)
  | 0, _, _, _ => .error .endlessLoop
  | fuel + 1, offset, visitedPointers, result =>
    if offset < data.length then do
      let byte ← byteAt data offset
      if byte.toNat = 0 then return some result
      else if byte.toNat &&& 0xC0 = 0xC0 then
        if visitedPointers ≥ 10 then return none
        else if offset + 1 ≥ data.length then return none
        else do
          let low ← byteAt data (offset + 1)
          parseNameAt data fuel ((byte.toNat &&& 0x3F) * 256 + low.toNat) (visitedPointers + 1)
            result
      else if offset + 1 + byte.toNat > data.length then return none
      else do
        let result := if result.length > 0 then result ++ [dot] else result
        let label ← slice data (offset + 1) (offset + 1 + byte.toNat)
        parseNameAt data fuel (offset + byte.toNat + 1) visitedPointers (result ++ label)
    else return some result

/-- `parse_individual_dns_result`. -/
def parseRecordAt (data : Datagram) (initialOffset : ℕ) (nameAlloc : Bool) :
    Except Fault (Option (ℕ × Answer)) := do
  match ← skipNameAt data (data.length + 1) initialOffset with
  | none => return none
  | some offset =>
    if offset + 10 > data.length then return none
    else
      let rType ← readU16At data offset
      let rClass ← readU16At data (offset + 2)
      let rTtl ← readU32At data (offset + 4)
      let rDataLen ← readU16At data (offset + 8)
      let offset := offset + 10
      let next := offset + rDataLen
      if next > data.length then return none
      else if rClass ≠ 1 then return some (next, {})
      else if rType = 1 then
        if offset + 4 > data.length then return none
        else do
          let addr ← slice data offset (offset + 4)
          return some (next, { result := some (.ip4 addr), ttl := rTtl })
      else if rType = 28 then
        if offset + 16 > data.length then return none
        else do
          let addr ← slice data offset (offset + 16)
          return some (next, { result := some (.ip6 addr), ttl := rTtl })
      else if rType = 12 then do
        let name ← parseNameAt data (11 * (data.length + 1)) offset 0 []
        return some (next, { ptrName := if nameAlloc then name else none, ttl := rTtl })
      else return some (next, {})

/-- The loop over the answer records. -/
def parseAnswersAt (data : Datagram) (allocs : Allocs) : ℕ → ℕ → Answers →
    Except Fault (Answers × Bool)
  | 0, _, a => return (a, true)
  | left + 1, offset, a => do
    match ← parseRecordAt data offset (allocs.name (left + 1)) with
    | none => return (a, true)
    | some (next, answer) =>
      match a.append? answer with
      | none => parseAnswersAt data allocs left next a
      | some a' =>
        if allocs.append (left + 1) then parseAnswersAt data allocs left next a'
        else return (a, false)

/-- The loop over the questions, of which there is one. -/
def answersOffsetAt (response : Datagram) : Except Fault ℕ := do
  match ← skipNameAt response (response.length + 1) 12 with
  | none => return 12
  | some offset => return if offset + 4 > response.length then offset else offset + 4

/-- What `process_dns_response` makes of a datagram of `bytes` bytes in `recv_buf`: the verdict, and
the answers and whether they could be stored when it is accepted. -/
def processResponse (queries : List QuerySlot) (recvBuf : Datagram) (bytes : ℕ) (allocs : Allocs)
    (a : Answers) : Except Fault (Verdict × Answers × Bool) := do
  let response ← slice recvBuf 0 bytes
  if bytes < 2 then return (.unmatched, a, true)
  else
    let responseId ← readU16At response 0
    match queries.find? (·.id = responseId) with
    | none => return (.unmatched, a, true)
    | some slot =>
      if bytes < 12 then return (.unmatched, a, true)
      else
        let flags ← readU16At response 2
        if ¬(flags &&& 0x8000 ≠ 0) ∨ flags / 2048 &&& 0x0F ≠ 0 ∨ flags &&& 0x000F ≠ 0 then
          return (.badFlags, a, true)
        else if flags &&& 0x0200 ≠ 0 then return (.truncated, a, true)
        else
          let qdcount ← readU16At response 4
          let ancount ← readU16At response 6
          if qdcount ≠ 1 then return (.badQdcount, a, true)
          else if slot.buf.length < 12 then .error .underflow
          else
            let questionLen := slot.buf.length - 12
            if bytes < 12 + questionLen then return (.shortQuestion, a, true)
            else
              let responseQuestion ← slice response 12 (12 + questionLen)
              let queryQuestion ← slice slot.buf 12 slot.buf.length
              if responseQuestion ≠ queryQuestion then return (.questionMismatch, a, true)
              else
                let offset ← answersOffsetAt response
                let collected ← parseAnswersAt response allocs ancount offset a
                return (.accepted, collected)

/-! ### The checked readers -/

section

variable {α β : Type}

theorem Fault.ok_bind (x : α) (f : α → Except Fault β) : (Except.ok x >>= f) = f x := rfl

end

theorem byteAt_eq {b : UInt8} (hb : data[offset]? = some b) : byteAt data offset = .ok b := by
  rw [byteAt, hb]

theorem slice_eq {start : ℕ} (h : start ≤ stop) (hle : stop ≤ data.length) :
    slice data start stop = .ok ((data.take stop).drop start) := if_pos ⟨h, hle⟩

theorem getD_slice {start i : ℕ} (h : start + i < stop) :
    ((data.take stop).drop start).getD i 0 = data.getD (start + i) 0 := by
  simp [h]

theorem readU16At_eq (h : offset + 2 ≤ data.length) :
    readU16At data offset = .ok (readU16 data offset) := by
  have hread : readU16 ((data.take (offset + 2)).drop offset) 0 = readU16 data offset := by
    simp only [readU16]
    rw [getD_slice (by omega), getD_slice (by omega)]
    rfl
  rw [readU16At, slice_eq (by omega) h]
  exact congrArg Except.ok hread

theorem readU32At_eq (h : offset + 4 ≤ data.length) :
    readU32At data offset = .ok (readU32 data offset) := by
  have hread : readU32 ((data.take (offset + 4)).drop offset) 0 = readU32 data offset := by
    simp only [readU32, readU16]
    rw [getD_slice (by omega), getD_slice (by omega), getD_slice (by omega),
      getD_slice (by omega)]
    rfl
  rw [readU32At, slice_eq (by omega) h]
  exact congrArg Except.ok hread

theorem getElem?_of_lt (h : offset < data.length) : ∃ b, data[offset]? = some b :=
  ⟨_, List.getElem?_eq_getElem h⟩

/-- Every turn of `skip_name` moves on, so there are turns enough. -/
theorem skipNameAt_eq (h : data.length - offset ≤ fuel) :
    skipNameAt data (fuel + 1) offset = .ok (skipNameFrom data fuel offset) := by
  induction fuel generalizing offset with
  | zero =>
    have hge : ¬offset < data.length := by omega
    rw [skipNameAt, if_neg hge]
    rfl
  | succ fuel ih =>
    by_cases hlt : offset < data.length
    · obtain ⟨b, hb⟩ := getElem?_of_lt hlt
      rw [skipNameAt, skipNameFrom, if_pos hlt, if_pos hlt, byteAt_eq hb, getD_of_getElem? hb,
        Fault.ok_bind]
      dsimp only
      split_ifs <;> first | rfl | exact ih (by omega)
    · rw [skipNameAt, skipNameFrom, if_neg hlt, if_neg hlt]
      rfl

/-- There are at most ten pointers and every other turn moves on. -/
theorem parseNameAt_eq (hv : visited ≤ 10)
    (hfuel : (10 - visited) * (data.length + 1) + (data.length - offset) + 1 ≤ fuel) :
    parseNameAt data fuel offset visited result =
      .ok (parseNameFrom data fuel offset visited result) := by
  induction fuel generalizing offset visited result with
  | zero => exact absurd hfuel (by omega)
  | succ fuel ih =>
    by_cases hlt : offset < data.length
    swap
    · rw [parseNameAt, parseNameFrom, if_neg hlt, if_neg hlt]
      rfl
    obtain ⟨b, hb⟩ := getElem?_of_lt hlt
    rw [parseNameAt, parseNameFrom, if_pos hlt, if_pos hlt, byteAt_eq hb, getD_of_getElem? hb,
      Fault.ok_bind]
    dsimp only
    by_cases hzero : b.toNat = 0
    · rw [if_pos hzero, if_pos hzero]
      rfl
    rw [if_neg hzero, if_neg hzero]
    by_cases hp : b.toNat &&& 0xC0 = 0xC0
    · rw [if_pos hp, if_pos hp]
      by_cases hten : visited ≥ 10
      · rw [if_pos hten, if_pos hten]
        rfl
      rw [if_neg hten, if_neg hten]
      by_cases hend : offset + 1 ≥ data.length
      · rw [if_pos hend, if_pos hend]
        rfl
      obtain ⟨c, hc⟩ := getElem?_of_lt (Nat.lt_of_not_le hend)
      rw [if_neg hend, if_neg hend, byteAt_eq hc, getD_of_getElem? hc, Fault.ok_bind]
      -- the measure falls by a whole segment, whatever the target
      have hmul : (10 - visited) * (data.length + 1) =
          (10 - (visited + 1)) * (data.length + 1) + (data.length + 1) := by
        rw [show 10 - visited = 10 - (visited + 1) + 1 by omega]
        ring
      exact ih (by omega) (by omega)
    · rw [if_neg hp, if_neg hp]
      by_cases hlong : offset + 1 + b.toNat > data.length
      · rw [if_pos hlong, if_pos hlong]
        rfl
      have hdrop : (data.take (offset + 1 + b.toNat)).drop (offset + 1) =
          (data.drop (offset + 1)).take b.toNat := by
        rw [List.drop_take, Nat.add_sub_cancel_left]
      rw [if_neg hlong, if_neg hlong, slice_eq (by omega) (by omega), Fault.ok_bind, hdrop]
      exact ih hv (by omega)

/-- The record parser stays inside the datagram. -/
theorem parseRecordAt_eq (data : Datagram) (offset : ℕ) (nameAlloc : Bool) :
    parseRecordAt data offset nameAlloc = .ok (parseIndividualDnsResult data offset nameAlloc) := by
  rw [parseRecordAt, parseIndividualDnsResult, skipNameAt_eq (by omega), Fault.ok_bind]
  change _ = Except.ok (match skipNameFrom data data.length offset with
    | none => _
    | some offset => _)
  rcases skipNameFrom data data.length offset with _ | o
  · rfl
  dsimp only
  by_cases hshort : o + 10 > data.length
  · rw [if_pos hshort, if_pos hshort]
    rfl
  rw [if_neg hshort, if_neg hshort, readU16At_eq (by omega), Fault.ok_bind,
    readU16At_eq (by omega), Fault.ok_bind, readU32At_eq (by omega), Fault.ok_bind,
    readU16At_eq (by omega), Fault.ok_bind]
  have hslice : ∀ k, o + 10 + k ≤ data.length →
      slice data (o + 10) (o + 10 + k) = .ok ((data.drop (o + 10)).take k) := by
    intro k hk
    rw [slice_eq (by omega) hk, List.drop_take, Nat.add_sub_cancel_left]
  have hname : parseNameAt data (11 * (data.length + 1)) (o + 10) 0 [] =
      .ok (parseName data (o + 10)) :=
    parseNameAt_eq (Nat.zero_le _) (by omega)
  split_ifs with hnext hclass ha ha4 hb hb16 hptr halloc
  · rfl
  · rfl
  · rfl
  · rw [hslice 4 (by omega)]
    rfl
  · rfl
  · rw [hslice 16 (by omega)]
    rfl
  · rw [hname]
    rfl
  · rw [hname]
    rfl
  · rfl

theorem parseAnswersAt_eq (data : Datagram) (allocs : Allocs) (left offset : ℕ) (a : Answers) :
    parseAnswersAt data allocs left offset a = .ok (parseAnswers data allocs left offset a) := by
  induction left generalizing offset a with
  | zero => rfl
  | succ left ih =>
    rw [parseAnswersAt, parseAnswers, parseRecordAt_eq, Fault.ok_bind]
    rcases parseIndividualDnsResult data offset (allocs.name (left + 1)) with _ | ⟨next, answer⟩
    · rfl
    dsimp only
    rcases a.append? answer with _ | a'
    · exact ih next a
    dsimp only
    split_ifs
    · exact ih next a'
    · rfl

theorem answersOffsetAt_eq (response : Datagram) :
    answersOffsetAt response = .ok (answersOffset response) := by
  rw [answersOffsetAt, answersOffset, skipName, skipNameAt_eq (by omega), Fault.ok_bind]
  rcases skipNameFrom response response.length 12 with _ | offset <;> rfl

/-! ### Records -/

theorem skipNameFrom_bounds (h : skipNameFrom data fuel offset = some stop) :
    offset < stop ∧ stop ≤ data.length := by
  induction fuel generalizing offset with
  | zero => exact nomatch h
  | succ fuel ih =>
    simp only [skipNameFrom] at h
    split_ifs at h with hlt hzero hp hend
    · have heq := Option.some.inj h
      omega
    · have heq := Option.some.inj h
      omega
    · have hrest := ih h
      omega

/-- An accepted record moves the offset on and keeps it in the datagram. -/
theorem parseIndividualDnsResult_bounds {nameAlloc : Bool} {next : ℕ} {answer : Answer}
    (h : parseIndividualDnsResult data offset nameAlloc = some (next, answer)) :
    offset < next ∧ next ≤ data.length := by
  unfold parseIndividualDnsResult at h
  split at h
  · exact nomatch h
  next o ho =>
    have hskip := skipNameFrom_bounds ho
    dsimp only at h
    split_ifs at h
    all_goals
      have heq := (Prod.mk.inj (Option.some.inj h)).1
      omega

/-- How many results a server has. -/
def Answers.count (a : Answers) : ℕ := a.results.length + a.ptrResults.length

theorem Answers.count_append? {a a' : Answers} {answer : Answer} (h : a.append? answer = some a') :
    a'.count = a.count + 1 := by
  unfold Answers.append? at h
  split at h
  · obtain rfl := Option.some.inj h
    simp only [Answers.count, List.length_append, List.length_singleton]
    omega
  · obtain rfl := Option.some.inj h
    simp only [Answers.count, List.length_append, List.length_singleton]
    omega
  · exact nomatch h

/-- At most one result for each answer record. -/
theorem count_parseAnswers (data : Datagram) (allocs : Allocs) (left offset : ℕ) (a : Answers) :
    (parseAnswers data allocs left offset a).1.count ≤ a.count + left := by
  induction left generalizing offset a with
  | zero => exact le_refl _
  | succ left ih =>
    rw [parseAnswers]
    split
    · exact Nat.le_add_right _ _
    next next answer hrecord =>
      split
      · have hrest := ih next a
        omega
      next a' happend =>
        have hcount := Answers.count_append? happend
        split_ifs
        · have hrest := ih next a'
          omega
        · exact Nat.le_add_right _ _

/-! ### The whole datagram -/

/-- A query as `build_queries` makes it: of a valid name of at most 255 bytes. -/
def QuerySlot.Built (slot : QuerySlot) : Prop :=
  ∃ question name, validateHostname name = true ∧ name.length ≤ 255 ∧
    slot.buf = buildQuery slot.id question name

/-- Every query of a server is one. -/
theorem built_of_mem {hostname content : Datagram} {configuration : Configuration}
    {types : List QuestionType} {ids : ℕ → UInt16} (hvalid : validateHostname hostname = true)
    (hconfiguration : parseResolvConfiguration content = some configuration) :
    ∀ slot ∈ buildQueries types (getHostnameArray hostname configuration.search) ids,
      slot.Built := by
  intro slot hmem
  obtain ⟨i, hi⟩ := List.getElem?_of_mem hmem
  rw [getElem?_slot, Option.map_eq_some_iff] at hi
  obtain ⟨q, hq, rfl⟩ := hi
  obtain ⟨hname, hle⟩ := candidate_valid hvalid
    (fun s h => (search_valid hconfiguration s h).1) (mem_questions (List.mem_of_getElem? hq))
  exact ⟨q.2, q.1, hname, hle, rfl⟩

theorem QuerySlot.Built.length {slot : QuerySlot} (h : slot.Built) : 17 ≤ slot.buf.length := by
  obtain ⟨question, name, hname, -, hbuf⟩ := h
  rw [hbuf, (queryFor_buildQuery slot.id question hname).length]
  omega

/-- In a datagram that echoes the question of a query, the question ends where the query ends. -/
theorem skipName_echo {slot : QuerySlot} {response : Datagram} (h : slot.Built)
    (hlen : slot.buf.length ≤ response.length)
    (hquestion : (response.take slot.buf.length).drop 12 = slot.buf.drop 12) :
    ∃ stop, skipName response 12 = some stop ∧ stop + 4 = slot.buf.length := by
  have hlong := h.length
  obtain ⟨question, name, hname, -, hbuf⟩ := h
  have hquery := queryFor_buildQuery slot.id question hname
  have hencode : (encode (labels name)).length = name.length + 1 := by
    rw [length_encode (labels_ne_nil hname), intercalate_labels hname]
  have hlength : slot.buf.length = 12 + name.length + 2 + 4 := by
    rw [hbuf, hquery.length]
  -- the datagram is its header, the question and what follows
  have hdrop : slot.buf.drop 12 = encode (labels name) ++
      ([0] ++ writeU16 question.code ++ writeU16 1) := by
    rw [hbuf, buildQuery_eq, List.append_assoc]
    rfl
  have hresponse : response = response.take 12 ++ encode (labels name) ++
      ([0] ++ writeU16 question.code ++ writeU16 1 ++ response.drop slot.buf.length) := by
    calc response
        = response.take slot.buf.length ++ response.drop slot.buf.length :=
          (List.take_append_drop _ _).symm
      _ = (response.take slot.buf.length).take 12 ++ (response.take slot.buf.length).drop 12 ++
          response.drop slot.buf.length := by
          rw [List.take_append_drop 12 (response.take slot.buf.length)]
      _ = response.take 12 ++ slot.buf.drop 12 ++ response.drop slot.buf.length := by
          rw [hquestion, List.take_take, Nat.min_eq_left (by omega)]
      _ = _ := by
          rw [hdrop]
          simp only [List.append_assoc]
  have htake : (response.take 12).length = 12 := by
    rw [List.length_take]
    omega
  have hwalk := walk_encode (response.take 12)
    ([0] ++ writeU16 question.code ++ writeU16 1 ++ response.drop slot.buf.length)
    (encodable_labels hname)
  have hroot : response[12 + (encode (labels name)).length]? = some 0 := by
    rw [hresponse, List.getElem?_append_right (by simp [htake]), List.length_append, htake,
      Nat.sub_self]
    rfl
  rw [← hresponse, htake] at hwalk
  exact ⟨_, (readers_of_walk hwalk hroot).1, by omega⟩

theorem find?_eq_matchedSlot {queries : List QuerySlot} {response : Datagram}
    (h : 2 ≤ response.length) :
    (matchedSlot queries response).bind (queries[·]?) =
      queries.find? (·.id = readU16 response 0) := by
  rw [matchedSlot, if_pos h]
  induction queries with
  | nil => rfl
  | cons slot queries ih =>
    rw [List.findIdx?_cons, List.find?_cons]
    by_cases hid : slot.id = readU16 response 0
    · simp [hid]
    · simp only [hid, decide_false, Bool.false_eq_true, if_false]
      rw [← ih, Option.bind_map]
      rfl

/-- What is left of the check of a datagram when a slot has been found for it. -/
theorem classify_of_find {queries : List QuerySlot} {response : Datagram} {slot : QuerySlot}
    (h : 2 ≤ response.length) (hfind : queries.find? (·.id = readU16 response 0) = some slot) :
    classify queries response =
      if response.length ≥ 12 then checkResponse slot response else .unmatched := by
  rw [classify, find?_eq_matchedSlot h, hfind]

theorem classify_of_short {queries : List QuerySlot} {response : Datagram}
    (h : response.length < 2) : classify queries response = .unmatched := by
  rw [classify, matchedSlot, if_neg (Nat.not_le.mpr h)]
  rfl

theorem classify_of_not_found {queries : List QuerySlot} {response : Datagram}
    (h : 2 ≤ response.length) (hfind : queries.find? (·.id = readU16 response 0) = none) :
    classify queries response = .unmatched := by
  rw [classify, find?_eq_matchedSlot h, hfind]

/-- The slot found for an accepted datagram, whose checks it passed. -/
theorem accepted_slot {queries : List QuerySlot} {response : Datagram}
    (h : classify queries response = .accepted) :
    ∃ slot ∈ queries, queries.find? (·.id = readU16 response 0) = some slot ∧
      12 ≤ response.length ∧ checkResponse slot response = .accepted := by
  by_cases hlen : 2 ≤ response.length
  swap
  · rw [classify_of_short (Nat.not_le.mp hlen)] at h
    exact nomatch h
  rcases hfind : queries.find? (·.id = readU16 response 0) with _ | slot
  · rw [classify_of_not_found hlen hfind] at h
    exact nomatch h
  rw [classify_of_find hlen hfind] at h
  split_ifs at h with h12
  exact ⟨slot, List.mem_of_find?_eq_some hfind, hfind, h12, h⟩

theorem question_of_accepted {slot : QuerySlot} {response : Datagram}
    (h : checkResponse slot response = .accepted) :
    slot.buf.length ≤ response.length ∧
      (response.take slot.buf.length).drop 12 = slot.buf.drop 12 := by
  simp only [checkResponse] at h
  split_ifs at h with _ _ _ hlen hquestion
  exact ⟨Nat.le_of_not_lt hlen, not_not.mp hquestion⟩

/-- No datagram makes the checked reader fault, and it comes to the result of the model. -/
theorem processResponse_eq {queries : List QuerySlot} {recvBuf : Datagram} {bytes : ℕ}
    (allocs : Allocs) (a : Answers) (hqueries : ∀ slot ∈ queries, slot.Built)
    (hbytes : bytes ≤ recvBuf.length) :
    processResponse queries recvBuf bytes allocs a =
      .ok (classify queries (recvBuf.take bytes),
        if classify queries (recvBuf.take bytes) = .accepted then
          collectAnswers (recvBuf.take bytes) allocs a else (a, true)) := by
  have hlen : (recvBuf.take bytes).length = bytes := by
    rw [List.length_take]
    omega
  rw [processResponse, slice_eq (Nat.zero_le _) hbytes, Fault.ok_bind, List.drop_zero]
  generalize recvBuf.take bytes = response at hlen ⊢
  subst hlen
  by_cases h2 : response.length < 2
  · rw [if_pos h2, classify_of_short h2]
    rfl
  rw [if_neg h2, readU16At_eq (by omega), Fault.ok_bind]
  rcases hfind : queries.find? (·.id = readU16 response 0) with _ | slot
  · rw [hfind, classify_of_not_found (by omega) hfind]
    rfl
  rw [hfind]
  dsimp only
  have hbuilt := hqueries slot (List.mem_of_find?_eq_some hfind)
  have hslot := hbuilt.length
  rw [classify_of_find (by omega) hfind]
  by_cases h12 : response.length < 12
  · rw [if_pos h12, if_neg (Nat.not_le.mpr h12)]
    rfl
  rw [if_neg h12, if_pos (Nat.le_of_not_lt h12), readU16At_eq (by omega), Fault.ok_bind,
    checkResponse]
  by_cases hflags : ¬(readU16 response 2 &&& 0x8000 ≠ 0) ∨
      readU16 response 2 / 2048 &&& 0x0F ≠ 0 ∨ readU16 response 2 &&& 0x000F ≠ 0
  · rw [if_pos hflags, if_pos hflags]
    rfl
  rw [if_neg hflags, if_neg hflags]
  by_cases htc : readU16 response 2 &&& 0x0200 ≠ 0
  · rw [if_pos htc, if_pos htc]
    rfl
  rw [if_neg htc, if_neg htc, readU16At_eq (by omega), Fault.ok_bind, readU16At_eq (by omega),
    Fault.ok_bind]
  by_cases hqd : readU16 response 4 ≠ 1
  · rw [if_pos hqd, if_pos hqd]
    rfl
  rw [if_neg hqd, if_neg hqd, if_neg (by omega)]
  by_cases hshort : response.length < slot.buf.length
  · rw [if_pos (by omega), if_pos hshort]
    rfl
  have htake : (response.take (12 + (slot.buf.length - 12))).drop 12 =
      (response.take slot.buf.length).drop 12 := by
    rw [show 12 + (slot.buf.length - 12) = slot.buf.length by omega]
  rw [if_neg (by omega), if_neg hshort, slice_eq (by omega) (by omega), Fault.ok_bind,
    slice_eq (by omega) (le_refl _), Fault.ok_bind, htake, List.take_length]
  by_cases hquestion : (response.take slot.buf.length).drop 12 ≠ slot.buf.drop 12
  · rw [if_pos hquestion, if_pos hquestion]
    rfl
  rw [if_neg hquestion, if_neg hquestion, answersOffsetAt_eq, Fault.ok_bind, parseAnswersAt_eq,
    Fault.ok_bind, if_pos rfl]
  rfl

/-- For every datagram in the receive buffer, `process_dns_response` stays inside it and comes to an
end; an accepted datagram has its answers behind a question as long as that of the query, every
record moves the offset on inside the datagram, and no more results are added than it announces. -/
theorem process_dns_response_safe {queries : List QuerySlot} {recvBuf : Datagram} {bytes : ℕ}
    (allocs : Allocs) (a : Answers) (hqueries : ∀ slot ∈ queries, slot.Built)
    (hrecv : recvBuf.length = 512) (hbytes : bytes ≤ 512) :
    (∃ verdict answers stored,
      processResponse queries recvBuf bytes allocs a = .ok (verdict, answers, stored) ∧
        verdict = classify queries (recvBuf.take bytes) ∧
        answers.count ≤ a.count + readU16 (recvBuf.take bytes) 6) ∧
      (classify queries (recvBuf.take bytes) = .accepted →
        ∃ slot ∈ queries, queries.find? (·.id = readU16 (recvBuf.take bytes) 0) = some slot ∧
          ∃ stop, skipName (recvBuf.take bytes) 12 = some stop ∧
            stop + 4 = 12 + (slot.buf.length - 12)) ∧
      ∀ offset nameAlloc next answer,
        parseIndividualDnsResult (recvBuf.take bytes) offset nameAlloc = some (next, answer) →
          offset < next ∧ next ≤ bytes := by
  have hlen : (recvBuf.take bytes).length = bytes := by
    rw [List.length_take]
    omega
  have hrun := @processResponse_eq queries recvBuf bytes allocs a hqueries (by omega)
  generalize hcollected : (if classify queries (recvBuf.take bytes) = .accepted then
    collectAnswers (recvBuf.take bytes) allocs a else (a, true)) = collected at hrun
  refine ⟨⟨_, collected.1, collected.2, hrun, rfl, ?_⟩, ?_, ?_⟩
  · rw [← hcollected]
    split_ifs
    · exact count_parseAnswers ..
    · exact Nat.le_add_right _ _
  · intro haccepted
    obtain ⟨slot, hmem, hfind, -, hcheck⟩ := accepted_slot haccepted
    obtain ⟨hle, hquestion⟩ := question_of_accepted hcheck
    obtain ⟨stop, hstop, hend⟩ := skipName_echo (hqueries slot hmem) hle hquestion
    have hlong := (hqueries slot hmem).length
    exact ⟨slot, hmem, hfind, stop, hstop, by omega⟩
  · intro offset nameAlloc next answer hrecord
    have hbounds := parseIndividualDnsResult_bounds hrecord
    rwa [hlen] at hbounds

/-- A response of 32 bytes to the query for `a`, with a record that is cut off. -/
theorem process_dns_response_safe_short :
    ∃ verdict answers stored, processResponse (buildQueries [.ipv4] [[97]] fun _ => 7)
      (writeU16 7 ++ writeU16 0x8180 ++ writeU16 1 ++ writeU16 1 ++ List.replicate 504 0) 32 .ok
      {} = .ok (verdict, answers, stored) := by
  have hbuilt := @built_of_mem [97] [] defaultConfiguration [.ipv4] (fun _ => 7) (by decide)
    parseResolvConfiguration_nil
  obtain ⟨⟨verdict, answers, stored, hrun, -⟩, -⟩ := @process_dns_response_safe
    (buildQueries [.ipv4] [[97]] fun _ => 7)
    (writeU16 7 ++ writeU16 0x8180 ++ writeU16 1 ++ writeU16 1 ++ List.replicate 504 0) 32 .ok {}
    hbuilt (by rw [List.length_append, List.length_replicate]; rfl) (by decide)
  exact ⟨verdict, answers, stored, hrun⟩

end Talyn.Dns
