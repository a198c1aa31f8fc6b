import Talyn.Dns.Bounds

/-!
# Which records become results

The answer section of a message is a list of records; the results of a query of one type are those
of class IN, of that type and with data of exactly that size, decoded from their own data
(`ResourceRecord.answerTo`). `parse_individual_dns_result` takes every A, AAAA and PTR record and
bounds an address by the end of the message instead of by RDLENGTH. The two agree as long as no such
record is taken and the section does not end early (`accepted_answers_iff`).
-/

namespace Talyn.Dns

open WireName

variable {data : Datagram} {left offset : ℕ} {question : QuestionType}

/-! ### The answer section -/

/-- A record of the answer section: where it and its data stand, and its header. -/
structure ResourceRecord where
  offset : ℕ
  rType : ℕ
  rClass : ℕ
  ttl : ℕ
  start : ℕ
  rdLength : ℕ
  deriving DecidableEq, Repr

namespace ResourceRecord

/-- Where the next record starts. -/
def next (r : ResourceRecord) : ℕ := r.start + r.rdLength

/-- The data of the record. -/
def rdata (r : ResourceRecord) (data : Datagram) : Datagram := (data.drop r.start).take r.rdLength

/-- The record at `offset`, when it lies in the message. -/
def read (data : Datagram) (offset : ℕ) : Option ResourceRecord :=
  match skipName data offset with
  | none => none
  | some o =>
    if o + 10 > data.length ∨ o + 10 + readU16 data (o + 8) > data.length then none
    else
      some
        { offset
          rType := readU16 data o
          rClass := readU16 data (o + 2)
          ttl := readU32 data (o + 4)
          start := o + 10
          rdLength := readU16 data (o + 8) }

/-- What the record says to a question: it is of the type asked for and of class IN, its data has
the size of that type, and the answer is decoded from it. The name of a PTR record fills its data;
it may go on elsewhere through a pointer. -/
def answerTo (data : Datagram) (question : QuestionType) (r : ResourceRecord) : Option Answer :=
  if r.rClass = 1 ∧ r.rType = question.code then
    match question with
    | .ipv4 =>
      if r.rdLength = 4 then some { result := some (.ip4 (r.rdata data)), ttl := r.ttl } else none
    | .ipv6 =>
      if r.rdLength = 16 then some { result := some (.ip6 (r.rdata data)), ttl := r.ttl } else none
    | .ptr =>
      if skipName data r.start = some r.next then
        (parseName data r.start).map fun name => { ptrName := some name, ttl := r.ttl }
      else none
  else none

/-- An address that would be read past the end of the message: the loop over the records ends. -/
def Overruns (data : Datagram) (r : ResourceRecord) : Prop :=
  r.rClass = 1 ∧ (r.rType = 1 ∧ r.start + 4 > data.length ∨
    r.rType = 28 ∧ r.start + 16 > data.length)

instance (data : Datagram) (r : ResourceRecord) : Decidable (r.Overruns data) :=
  inferInstanceAs (Decidable (_ ∧ _))

/-- A record that is taken only when it should be: an address record is of the type asked for and
has data of its size, and so has a PTR record whose name can be read. -/
def Sound (data : Datagram) (question : QuestionType) (r : ResourceRecord) : Prop :=
  r.rClass = 1 →
    (r.rType = 1 → question = .ipv4 ∧ r.rdLength = 4) ∧
      (r.rType = 28 → question = .ipv6 ∧ r.rdLength = 16) ∧
        (r.rType = 12 → (parseName data r.start).isSome →
          question = .ptr ∧ skipName data r.start = some r.next)

instance (data : Datagram) (question : QuestionType) (r : ResourceRecord) :
    Decidable (r.Sound data question) := inferInstanceAs (Decidable (_ → _))

/-- What `parse_individual_dns_result` makes of a record that does not end the loop. -/
def taken (data : Datagram) (r : ResourceRecord) : Option Answer :=
  if r.rClass ≠ 1 then none
  else if r.rType = 1 then
    some { result := some (.ip4 ((data.drop r.start).take 4)), ttl := r.ttl }
  else if r.rType = 28 then
    some { result := some (.ip6 ((data.drop r.start).take 16)), ttl := r.ttl }
  else if r.rType = 12 then
    (parseName data r.start).map fun name => { ptrName := some name, ttl := r.ttl }
  else none

end ResourceRecord

/-- The records of the answer section, at most `left`, up to the first that does not lie in the
message. -/
def answerRecords (data : Datagram) : ℕ → ℕ → List ResourceRecord
  | 0, _ => []
  | left + 1, offset =>
    match ResourceRecord.read data offset with
    | none => []
    | some r => r :: answerRecords data left r.next

/-- The answers of the records, each with the offset of its record. -/
def answersOf (answer : ResourceRecord → Option Answer) (records : List ResourceRecord) :
    List (ℕ × Answer) :=
  records.filterMap fun r => (answer r).map (r.offset, ·)

/-- The answers that the loop over the records appends, each with the offset it was read at. -/
def appended (data : Datagram) : ℕ → ℕ → List (ℕ × Answer)
  | 0, _ => []
  | left + 1, offset =>
    match parseIndividualDnsResult data offset true with
    | none => []
    | some (next, answer) =>
      if answer.ptrName.isSome ∨ answer.result.isSome then
        (offset, answer) :: appended data left next
      else appended data left next

/-- The lists of a server after some answers. -/
def Answers.extend (a : Answers) (answers : List (ℕ × Answer)) : Answers :=
  answers.foldl (fun a answer => (a.append? answer.2).getD a) a

/-- `appended` is what `parseAnswers` adds. -/
theorem parseAnswers_eq_extend (data : Datagram) (left offset : ℕ) (a : Answers) :
    parseAnswers data .ok left offset a = (a.extend (appended data left offset), true) := by
  induction left generalizing offset a with
  | zero => rfl
  | succ left ih =>
    rw [parseAnswers, appended]
    change (match parseIndividualDnsResult data offset true with
      | none => _
      | some (next, answer) => _) = _
    rcases parseIndividualDnsResult data offset true with _ | ⟨next, ⟨result, ptrName, ttl⟩⟩
    · rfl
    rcases ptrName with _ | name
    · rcases result with _ | address
      · exact ih next a
      · exact ih next _
    · exact ih next _

/-! ### The records the loop takes -/

/-- The record parser, by the record it reads. -/
theorem parseIndividualDnsResult_eq (data : Datagram) (offset : ℕ) :
    parseIndividualDnsResult data offset true =
      (ResourceRecord.read data offset).bind fun r =>
        if r.Overruns data then none
        else some (r.next, (r.taken data).getD
          { ttl := if r.rClass = 1 ∧ r.rType = 12 then r.ttl else maxTtl }) := by
  unfold parseIndividualDnsResult ResourceRecord.read
  rcases skipName data offset with _ | o
  · rfl
  dsimp only
  by_cases hshort : o + 10 > data.length
  · simp [hshort]
  by_cases hnext : o + 10 + readU16 data (o + 8) > data.length
  · simp [hshort, hnext]
  simp only [hshort, hnext, if_false, false_or, Option.bind_some, ResourceRecord.Overruns,
    ResourceRecord.taken, ResourceRecord.next]
  by_cases hclass : readU16 data (o + 2) = 1
  · by_cases ha : readU16 data o = 1
    · by_cases h4 : o + 10 + 4 > data.length <;> simp [hclass, ha, h4]
    · by_cases hb : readU16 data o = 28
      · by_cases h16 : o + 10 + 16 > data.length <;> simp [hclass, hb, h16]
      · by_cases hptr : readU16 data o = 12
        · rcases hname : parseName data (o + 10) with _ | name <;> simp [hclass, hptr]
        · simp [hclass, ha, hb, hptr]
  · simp [hclass]

/-- The loop takes the records before the first that ends it. -/
theorem appended_eq (data : Datagram) (left offset : ℕ) :
    appended data left offset = answersOf (ResourceRecord.taken data)
      ((answerRecords data left offset).takeWhile fun r => ¬r.Overruns data) := by
  induction left generalizing offset with
  | zero => rfl
  | succ left ih =>
    rw [appended, answerRecords, parseIndividualDnsResult_eq]
    rcases hread : ResourceRecord.read data offset with _ | r
    · rfl
    have hoffset : r.offset = offset := by
      unfold ResourceRecord.read at hread
      split at hread
      · exact nomatch hread
      · split_ifs at hread
        obtain rfl := Option.some.inj hread
        rfl
    simp only [Option.bind_some]
    by_cases hover : r.Overruns data
    · simp [hover, answersOf]
    have hcons : answersOf (ResourceRecord.taken data)
        ((r :: answerRecords data left r.next).takeWhile fun r => ¬r.Overruns data) =
        ((r.taken data).map (r.offset, ·)).toList ++ appended data left r.next := by
      rw [List.takeWhile_cons, if_pos (by simpa using hover), ih, answersOf, List.filterMap_cons]
      rcases r.taken data with _ | answer <;> rfl
    rw [hcons, if_neg hover]
    dsimp only
    rcases htaken : r.taken data with _ | answer
    · simp
    · have hsome : answer.ptrName.isSome ∨ answer.result.isSome := by
        unfold ResourceRecord.taken at htaken
        split_ifs at htaken
        · obtain rfl := Option.some.inj htaken
          exact Or.inr rfl
        · obtain rfl := Option.some.inj htaken
          exact Or.inr rfl
        · obtain ⟨name, -, rfl⟩ := Option.map_eq_some_iff.mp htaken
          exact Or.inl rfl
      rw [Option.getD_some, if_pos hsome, hoffset]
      rfl

/-! ### The records the query asks for -/

namespace ResourceRecord

variable {r : ResourceRecord} {answer : Answer}

/-- A record that answers the question is taken for what it says. -/
theorem taken_of_answerTo (h : r.answerTo data question = some answer) :
    r.taken data = some answer := by
  unfold answerTo at h
  by_cases hasked : r.rClass = 1 ∧ r.rType = question.code
  swap
  · rw [if_neg hasked] at h
    exact nomatch h
  rw [if_pos hasked] at h
  obtain ⟨hclass, htype⟩ := hasked
  cases question with
  | ipv4 =>
    dsimp only at h
    split_ifs at h with hsize
    have htype' : r.rType = 1 := htype
    rw [rdata, hsize] at h
    rw [taken, if_neg (not_not.mpr hclass), if_pos htype', h]
  | ipv6 =>
    dsimp only at h
    split_ifs at h with hsize
    have htype' : r.rType = 28 := htype
    rw [rdata, hsize] at h
    rw [taken, if_neg (not_not.mpr hclass), if_neg (by omega), if_pos htype', h]
  | ptr =>
    dsimp only at h
    split_ifs at h with hsize
    have htype' : r.rType = 12 := htype
    rw [taken, if_neg (not_not.mpr hclass), if_neg (by omega), if_neg (by omega), if_pos htype', h]

/-- A record is taken for what it says to the question exactly when it is sound. -/
theorem taken_eq_iff : r.taken data = r.answerTo data question ↔ r.Sound data question := by
  unfold taken answerTo Sound
  by_cases hclass : r.rClass = 1
  swap
  · simp [hclass]
  by_cases ha : r.rType = 1
  · cases question <;> by_cases hsize : r.rdLength = 4 <;>
      simp [hclass, ha, hsize, QuestionType.code, rdata]
  by_cases hb : r.rType = 28
  · cases question <;> by_cases hsize : r.rdLength = 16 <;>
      simp [hclass, hb, hsize, QuestionType.code, rdata]
  by_cases hptr : r.rType = 12
  · rcases hname : parseName data r.start with _ | name <;> cases question <;>
      by_cases hsize : skipName data r.start = some r.next <;>
      simp [hclass, hptr, hsize, QuestionType.code]
  · cases question <;> simp [hclass, ha, hb, hptr, QuestionType.code]

theorem next_of_read {offset : ℕ} (h : read data offset = some r) :
    r.offset = offset ∧ offset < r.next := by
  unfold read at h
  split at h
  · exact nomatch h
  next o ho =>
    have hskip := skipNameFrom_bounds ho
    split_ifs at h
    obtain rfl := Option.some.inj h
    refine ⟨rfl, ?_⟩
    simp only [next]
    omega

end ResourceRecord

/-- The records stand one behind the other. -/
theorem answerRecords_ordered (data : Datagram) (left offset : ℕ) :
    (∀ r ∈ answerRecords data left offset, offset ≤ r.offset) ∧
      (answerRecords data left offset).Pairwise fun r r' => r.offset < r'.offset := by
  induction left generalizing offset with
  | zero => exact ⟨fun _ h => absurd h List.not_mem_nil, List.Pairwise.nil⟩
  | succ left ih =>
    rw [answerRecords]
    split
    · exact ⟨fun _ h => absurd h List.not_mem_nil, List.Pairwise.nil⟩
    next r hread =>
      obtain ⟨hoffset, hnext⟩ := ResourceRecord.next_of_read hread
      obtain ⟨hle, hpairwise⟩ := ih r.next
      constructor
      · intro r' hmem
        rcases List.mem_cons.mp hmem with rfl | hmem
        · omega
        · have hrest := hle r' hmem
          omega
      · apply List.Pairwise.cons _ hpairwise
        intro r' hmem
        have hrest := hle r' hmem
        omega

/-- When one reader of records stops early and takes more, both make the same answers of the same
records exactly when they agree on those before the stop and there is nothing to read behind it. -/
theorem answersOf_takeWhile_eq_iff {records : List ResourceRecord} {stop : ResourceRecord → Bool}
    {f g : ResourceRecord → Option Answer}
    (hordered : records.Pairwise fun r r' => r.offset < r'.offset)
    (hfg : ∀ r answer, g r = some answer → f r = some answer) :
    answersOf f (records.takeWhile stop) = answersOf g records ↔
      (∀ r ∈ records.takeWhile stop, f r = g r) ∧ ∀ r ∈ records.dropWhile stop, g r = none := by
  induction records with
  | nil => simp [answersOf]
  | cons r records ih =>
    obtain ⟨hfirst, hordered⟩ := List.pairwise_cons.mp hordered
    have ih := ih hordered
    by_cases hstop : stop r
    swap
    · simp only [List.takeWhile_cons, List.dropWhile_cons, hstop, answersOf, List.filterMap_nil,
        Bool.false_eq_true, if_false, eq_comm (a := []), List.filterMap_eq_nil_iff,
        Option.map_eq_none_iff, List.not_mem_nil, false_implies, implies_true, true_and]
    simp only [List.takeWhile_cons, List.dropWhile_cons, hstop, if_true, List.forall_mem_cons]
    rcases hf : f r with _ | answer
    · have hg : g r = none := by
        rcases hg : g r with _ | answer
        · rfl
        · exact absurd (hf.symm.trans (hfg r answer hg)) (Option.some_ne_none answer).symm
      simpa [answersOf, hf, hg] using ih
    · rcases hg : g r with _ | answer'
      · -- the second reader goes on to records that stand behind this one
        have hne : answersOf f (r :: records.takeWhile stop) ≠ answersOf g (r :: records) := by
          intro heq
          have hmem : (r.offset, answer) ∈ answersOf g (r :: records) := by
            rw [← heq]
            simp [answersOf, hf]
          simp only [answersOf, List.filterMap_cons, hg, Option.map_none, List.mem_filterMap,
            Option.map_eq_some_iff] at hmem
          obtain ⟨r', hr', answer', -, hpair⟩ := hmem
          have hlt := hfirst r' hr'
          have hsame := (Prod.mk.inj hpair).1
          omega
        simp [hne]
      · obtain rfl := Option.some.inj (hf.symm.trans (hfg r answer' hg))
        simpa [answersOf, hf, hg] using ih

/-! ### Accepted responses -/

/-- The results added for a response are those of the records that answer the question, in their
order. -/
structure AnswersAdded (response : Datagram) (question : QuestionType) (start : ℕ) (a : Answers) :
    Prop where
  records : appended response (readU16 response 6) (answersOffset response) =
    answersOf (ResourceRecord.answerTo response question)
      (answerRecords response (readU16 response 6) start)
  results : collectAnswers response .ok a =
    (a.extend (answersOf (ResourceRecord.answerTo response question)
      (answerRecords response (readU16 response 6) start)), true)

/-- The records of a response before the first that ends the loop are sound, and none behind it
answers the question. -/
def SoundSection (response : Datagram) (question : QuestionType) (start : ℕ) : Prop :=
  (∀ r ∈ (answerRecords response (readU16 response 6) start).takeWhile
      fun r => ¬r.Overruns response, r.Sound response question) ∧
    ∀ r ∈ (answerRecords response (readU16 response 6) start).dropWhile
      fun r => ¬r.Overruns response, r.answerTo response question = none

instance (response : Datagram) (question : QuestionType) (start : ℕ) :
    Decidable (SoundSection response question start) := inferInstanceAs (Decidable (_ ∧ _))

/-- The answers of an accepted response start behind the question of the query. -/
theorem answersOffset_accepted {slot : QuerySlot} {response : Datagram} (hbuilt : slot.Built)
    (haccepted : checkResponse slot response = .accepted) :
    answersOffset response = slot.buf.length := by
  obtain ⟨hle, hquestion⟩ := question_of_accepted haccepted
  obtain ⟨stop, hstop, hend⟩ := skipName_echo hbuilt hle hquestion
  rw [answersOffset, hstop]
  dsimp only
  rw [hend, if_neg (Nat.not_lt.mpr hle)]

/-- The results added for an accepted response are those its query asks for exactly when, up to the
first record that ends the loop, every address record and every PTR record with a name is of the
type asked for and has data of its size, and behind it no record answers the question. -/
theorem accepted_answers_iff {queries : List QuerySlot} {slot : QuerySlot}
    {name response : Datagram} (a : Answers) (hname : validateHostname name = true)
    (hlen : name.length ≤ 255) (hbuf : slot.buf = buildQuery slot.id question name)
    (hmatched : (matchedSlot queries response).bind (queries[·]?) = some slot)
    (haccepted : classify queries response = .accepted) :
    AnswersAdded response question slot.buf.length a ↔
      SoundSection response question slot.buf.length := by
  have hcheck : checkResponse slot response = .accepted := by
    rw [classify, hmatched] at haccepted
    dsimp only at haccepted
    split_ifs at haccepted
    exact haccepted
  have hoffset := answersOffset_accepted ⟨question, name, hname, hlen, hbuf⟩ hcheck
  have hiff := @answersOf_takeWhile_eq_iff _ (fun r => ¬r.Overruns response)
    (ResourceRecord.taken response) (ResourceRecord.answerTo response question)
    (answerRecords_ordered response (readU16 response 6) slot.buf.length).2
    (fun r answer => ResourceRecord.taken_of_answerTo)
  simp only [ResourceRecord.taken_eq_iff] at hiff
  rw [← appended_eq] at hiff
  constructor
  · intro h
    have hrecords := h.records
    rw [hoffset] at hrecords
    exact hiff.mp hrecords
  · intro h
    have hrecords := hiff.mpr h
    refine ⟨by rw [hoffset]; exact hrecords, ?_⟩
    rw [collectAnswers, hoffset, parseAnswers_eq_extend, hrecords]

/-- The A query for `a`. -/
def queryA : QuerySlot := ⟨7, buildQuery 7 .ipv4 [97]⟩

/-- A response to it with these records. -/
def responseA (ancount : ℕ) (records : Datagram) : Datagram :=
  writeU16 7 ++ writeU16 0x8180 ++ writeU16 1 ++ writeU16 ancount ++ writeU16 0 ++ writeU16 0 ++
    queryA.buf.drop 12 ++ records

/-- A record of the root name with a TTL of 60. -/
def recordOf (rType : ℕ) (rdata : Datagram) : Datagram :=
  [0] ++ writeU16 rType ++ writeU16 1 ++ [0, 0, 0, 60] ++ writeU16 rdata.length ++ rdata

/-- One A record of four bytes is what the query asks for. -/
theorem accepted_answers_address :
    AnswersAdded (responseA 1 (recordOf 1 [10, 0, 0, 1])) .ipv4 queryA.buf.length {} :=
  (@accepted_answers_iff .ipv4 [queryA] queryA [97] (responseA 1 (recordOf 1 [10, 0, 0, 1])) {}
    (by decide) (by decide) rfl (by decide +kernel) (by decide +kernel)).mpr
    (by decide +kernel)

/-- Two accepted responses to an A query: a PTR record gives a name, which is published instead of
any address, and a record with one byte of data gives an address that ends in the next record. -/
theorem foreign_records_are_taken :
    (classify [queryA] (responseA 2 (recordOf 1 [10, 0, 0, 1] ++ recordOf 12 [1, 112, 0])) =
        .accepted ∧
      (collectAnswers (responseA 2 (recordOf 1 [10, 0, 0, 1] ++ recordOf 12 [1, 112, 0])) .ok
        {}).1.ptrResults = [[112]]) ∧
    (classify [queryA] (responseA 1 (recordOf 1 [9] ++ recordOf 16 [])) = .accepted ∧
      (collectAnswers (responseA 1 (recordOf 1 [9] ++ recordOf 16 [])) .ok {}).1.results =
        [.ip4 [9, 0, 0, 16]]) ∧
    ¬AnswersAdded (responseA 1 (recordOf 1 [9] ++ recordOf 16 [])) .ipv4 queryA.buf.length {} := by
  refine ⟨by decide +kernel, by decide +kernel, fun h => ?_⟩
  exact absurd h.records (by decide +kernel)

end Talyn.Dns
