import Mathlib.Tactic

/-!
# DNS messages

The queries the resolver builds (`build_query`, `build_queries`, `get_hostname_array`) and what it
reads in a response: `skip_name`, `parse_name`, `parse_individual_dns_result`, the loop over the
answers, and the checks of id, flags and question that come before (`Verdict`).

Names and datagrams are byte lists. A loop of the source that walks a datagram recurses on a bound
that the walk cannot exceed.
-/

namespace Talyn.Dns

/-- The bytes of a host name or of a datagram. -/
abbrev Datagram := List UInt8

/-- `maxInt(u32)`, the ttl of a server that has no answer yet. -/
def maxTtl : ℕ := 4294967295

/-- `readInt(u16, data[offset..][0..2], .big)`; the callers check the bounds. -/
def readU16 (data : Datagram) (offset : ℕ) : ℕ :=
  (data.getD offset 0).toNat * 256 + (data.getD (offset + 1) 0).toNat

/-- `readInt(u32, data[offset..][0..4], .big)`. -/
def readU32 (data : Datagram) (offset : ℕ) : ℕ :=
  readU16 data offset * 65536 + readU16 data (offset + 2)

/-- `writeInt(u16, _, value, .big)`. -/
def writeU16 (value : ℕ) : Datagram :=
  [UInt8.ofNat (value / 256), UInt8.ofNat value]

/-! ### Queries -/

/-- `QuestionType`. -/
inductive QuestionType
  | ipv4
  | ipv6
  | ptr
  deriving DecidableEq, Repr

/-- The number of a question type on the wire. -/
def QuestionType.code : QuestionType → ℕ
  | .ipv4 => 1
  | .ipv6 => 28
  | .ptr => 12

/-- `QuerySlot`: the transaction id and `buf[0..len]`. -/
structure QuerySlot where
  id : ℕ
  buf : Datagram
  deriving DecidableEq, Repr

/-- The byte `'.'`. -/
def dot : UInt8 := 46

/-- The nonempty labels of a host name (`tokenizeScalar`). -/
def labels (hostname : Datagram) : List Datagram :=
  (hostname.splitOn dot).filter (· ≠ [])

/-- `build_query`. -/
def buildQuery (id : ℕ) (question : QuestionType) (hostname : Datagram) : Datagram :=
  writeU16 id ++ writeU16 0x0100 ++ writeU16 1 ++ writeU16 0 ++ writeU16 0 ++ writeU16 0 ++
    ((labels hostname).flatMap fun label => UInt8.ofNat label.length :: label) ++ [0] ++
    writeU16 question.code ++ writeU16 1

/-- `build_hostname`; `none` when the name would be longer than 255 bytes. -/
def buildHostname (hostname suffix : Datagram) : Option Datagram :=
  if hostname.length + suffix.length + 1 > 255 then none
  else if suffix.length > 0 then some (hostname ++ dot :: suffix)
  else some hostname

/-- `get_hostname_array`: the candidates of a name. -/
def getHostnameArray (hostname : Datagram) (suffixes : List Datagram) : List Datagram :=
  if dot ∈ hostname then (buildHostname hostname []).toList
  else suffixes.filterMap (buildHostname hostname) ++ (buildHostname hostname []).toList

/-- `types_per_host` of `build_queries`, as the questions asked for each candidate. -/
def questionTypes (ipv6Supported : Bool) : Option QuestionType → List QuestionType
  | some type => [type]
  | none => if ipv6Supported then [.ipv4, .ipv6] else [.ipv4]

/-- The loop of `build_queries`: one slot for each candidate and question, in this order; `ids` are
the random transaction ids. -/
def buildQueries (types : List QuestionType) (hostnames : List Datagram) (ids : ℕ → UInt16) :
    List QuerySlot :=
  (hostnames.flatMap fun hostname => types.map fun type => (hostname, type)).mapIdx
    fun slot q => ⟨(ids slot).toNat, buildQuery (ids slot).toNat q.2 q.1⟩

/-! ### Reading a response -/

/-- An IPv4 or IPv6 address (port, flow info and scope are always 0 here). -/
inductive Address
  | ip4 (addr : List UInt8)
  | ip6 (addr : List UInt8)
  deriving DecidableEq, Repr

/-- The loop of `skip_name`. Every turn moves `offset` on, so `data.length` turns are enough. -/
def skipNameFrom (data : Datagram) : ℕ → ℕ → Option ℕ
  | 0, _ => none
  | fuel + 1, offset =>
    if offset < data.length then
      let byte := (data.getD offset 0).toNat
      if byte = 0 then some (offset + 1)
      else if byte &&& 0xC0 = 0xC0 then
        if offset + 2 > data.length then none else some (offset + 2)
      else skipNameFrom data fuel (offset + byte + 1)
    else none

/-- `skip_name`. -/
def skipName (data : Datagram) (offset : ℕ) : Option ℕ :=
  skipNameFrom data data.length offset

/-- The loop of `parse_name`; `none` is `error.MalformedDnsResponse`. -/
def parseNameFrom (data : Datagram) : ℕ → ℕ → ℕ → Datagram → Option Datagram
  | 0, _, _, _ => none
  | fuel + 1, offset, visitedPointers, result =>
    if offset < data.length then
      let byte := (data.getD offset 0).toNat
      if byte = 0 then some result
      else if byte &&& 0xC0 = 0xC0 then
        if visitedPointers ≥ 10 then none
        else if offset + 1 ≥ data.length then none
        else
          parseNameFrom data fuel
            ((byte &&& 0x3F) * 256 + (data.getD (offset + 1) 0).toNat) (visitedPointers + 1) result
      else if offset + 1 + byte > data.length then none
      else
        let result := if result.length > 0 then result ++ [dot] else result
        parseNameFrom data fuel (offset + byte + 1) visitedPointers
          (result ++ (data.drop (offset + 1)).take byte)
    -- the loop also ends, without an error, when the walk leaves the datagram
    else some result

/-- `parse_name`. Between two of its at most ten pointers the walk only moves on. -/
def parseName (data : Datagram) (offset : ℕ) : Option Datagram :=
  parseNameFrom data (11 * (data.length + 1)) offset 0 []

/-- What `parse_individual_dns_result` leaves in `result`, `ptr_name` and `ttl`. -/
structure Answer where
  result : Option Address := none
  ptrName : Option Datagram := none
  ttl : ℕ := maxTtl
  deriving DecidableEq, Repr

/-- `parse_individual_dns_result`: the next offset and the answer. `nameAlloc` says whether
`parse_name` gets its memory. -/
def parseIndividualDnsResult (data : Datagram) (initialOffset : ℕ) (nameAlloc : Bool) :
    Option (ℕ × Answer) :=
  match skipName data initialOffset with
  | none => none
  | some offset =>
    if offset + 10 > data.length then none
    else
      let rType := readU16 data offset
      let rClass := readU16 data (offset + 2)
      let rTtl := readU32 data (offset + 4)
      let rDataLen := readU16 data (offset + 8)
      let offset := offset + 10
      let next := offset + rDataLen
      if next > data.length then none
      else if rClass ≠ 1 then some (next, {})
      else if rType = 1 then
        if offset + 4 > data.length then none
        else some (next, { result := some (.ip4 ((data.drop offset).take 4)), ttl := rTtl })
      else if rType = 28 then
        if offset + 16 > data.length then none
        else some (next, { result := some (.ip6 ((data.drop offset).take 16)), ttl := rTtl })
      else if rType = 12 then
        some (next,
          { ptrName := if nameAlloc then parseName data offset else none, ttl := rTtl })
      else some (next, {})

/-- `results`, `ptr_results` and `min_ttl` of a server. -/
structure Answers where
  results : List Address := []
  ptrResults : List Datagram := []
  minTtl : ℕ := maxTtl
  deriving DecidableEq, Repr

/-- Neither addresses nor names. -/
def Answers.isEmpty (a : Answers) : Bool := a.results.isEmpty && a.ptrResults.isEmpty

/-- Whether the allocations made for one completion succeed: of a name and of a list slot, by the
number of answers left, and of the copy for the cache. -/
structure Allocs where
  name : ℕ → Bool
  append : ℕ → Bool
  dupe : Bool

/-- No allocation fails. -/
def Allocs.ok : Allocs := ⟨fun _ => true, fun _ => true, true⟩

/-- Append one answer to the lists of the server; `none` when it has nothing to append. -/
def Answers.append? (a : Answers) (answer : Answer) : Option Answers :=
  match answer.ptrName, answer.result with
  | some name, _ =>
    some { a with ptrResults := a.ptrResults ++ [name], minTtl := min a.minTtl answer.ttl }
  | none, some address =>
    some { a with results := a.results ++ [address], minTtl := min a.minTtl answer.ttl }
  | none, none => none

/-- The loop over the answer records; the flag is `false` when an append failed. -/
def parseAnswers (data : Datagram) (allocs : Allocs) : ℕ → ℕ → Answers → Answers × Bool
  | 0, _, a => (a, true)
  | left + 1, offset, a =>
    match parseIndividualDnsResult data offset (allocs.name (left + 1)) with
    | none => (a, true)
    | some (next, answer) =>
      match a.append? answer with
      | none => parseAnswers data allocs left next a
      | some a' =>
        if allocs.append (left + 1) then parseAnswers data allocs left next a' else (a, false)

/-- The offset of the answer section: behind the only question, or where skipping it stopped. -/
def answersOffset (data : Datagram) : ℕ :=
  match skipName data 12 with
  | none => 12
  | some offset => if offset + 4 > data.length then offset else offset + 4

/-- The answers of an accepted response, appended to those of the server. -/
def collectAnswers (data : Datagram) (allocs : Allocs) (a : Answers) : Answers × Bool :=
  parseAnswers data allocs (readU16 data 6) (answersOffset data) a

/-! ### The checks before the answers -/

/-- What the checks of `process_dns_response` make of a datagram. -/
inductive Verdict
  /-- no query has its id, or it is shorter than a header -/
  | unmatched
  /-- not a response, not a standard query, or an error code -/
  | badFlags
  /-- the TC bit is set -/
  | truncated
  | badQdcount
  | shortQuestion
  | questionMismatch
  | accepted
  deriving DecidableEq, Repr

/-- The slot whose query has the id of the datagram (`matched_slot`). -/
def matchedSlot (queries : List QuerySlot) (response : Datagram) : Option ℕ :=
  if response.length ≥ 2 then queries.findIdx? (·.id = readU16 response 0) else none

/-- The checks made once a slot has matched. -/
def checkResponse (slot : QuerySlot) (response : Datagram) : Verdict :=
  let flags := readU16 response 2
  let qr := flags &&& 0x8000 ≠ 0
  let opcode := flags / 2048 &&& 0x0F
  let rcode := flags &&& 0x000F
  if ¬qr ∨ opcode ≠ 0 ∨ rcode ≠ 0 then .badFlags
  else if flags &&& 0x0200 ≠ 0 then .truncated
  else if readU16 response 4 ≠ 1 then .badQdcount
  else if response.length < slot.buf.length then .shortQuestion
  else if (response.take slot.buf.length).drop 12 ≠ slot.buf.drop 12 then .questionMismatch
  else .accepted

/-- The checks of a datagram against the queries of a server. -/
def classify (queries : List QuerySlot) (response : Datagram) : Verdict :=
  match (matchedSlot queries response).bind (queries[·]?) with
  | none => .unmatched
  | some slot => if response.length ≥ 12 then checkResponse slot response else .unmatched

end Talyn.Dns
