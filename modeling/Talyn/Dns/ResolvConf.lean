import Talyn.Dns.Lookup
import Talyn.Dns.Names

/-!
# The resolver configuration

`parse_resolv_configuration` reads the nameservers and the search suffixes out of the lines of
`resolv.conf`. Every suffix it accepts is a valid host name of at most 255 bytes
(`search_valid`).
-/

namespace Talyn.Dns

/-- The nonempty pieces of a text (`tokenizeScalar`, `tokenizeAny`). -/
def tokens (separator : UInt8 → Bool) (text : Datagram) : List Datagram :=
  (text.splitOnP separator).filter (· ≠ [])

/-- `parseIp`: an IPv4 address or else an IPv6 address. -/
def parseIp (host : Datagram) : Option Address :=
  match parseIp4 host with
  | some address => some address
  | none => parseIp6 host

/-- A word that starts a comment, with `#` or `;`. -/
def isComment (word : Datagram) : Bool := word.head? = some 35 ∨ word.head? = some 59

/-- The text `nameserver`. -/
def nameserverWord : Datagram := [110, 97, 109, 101, 115, 101, 114, 118, 101, 114]

/-- The text `search`. -/
def searchWord : Datagram := [115, 101, 97, 114, 99, 104]

/-- The suffixes of a `search` line; `none` is `error.InvalidConfiguration`. -/
def searchSuffixes : List Datagram → Option (List Datagram)
  | [] => some []
  | word :: words =>
    if isComment word then some []
    else if word.length > 255 then none
    else
      let parsedHostname := lowerString word
      -- a lone dot stands for no suffix at all
      if parsedHostname = [dot] then searchSuffixes words
      else if ¬validateHostname parsedHostname then none
      else (searchSuffixes words).map (parsedHostname :: ·)

/-- The loop over the lines: the servers and the suffixes. -/
def parseResolvLines : List Datagram → List Address → List Datagram →
    Option (List Address × List Datagram)
  | [], servers, searchHosts => some (servers, searchHosts)
  | line :: lines, servers, searchHosts =>
    match tokens (fun c => c = 32 ∨ c = 9) line with
    | [] => parseResolvLines lines servers searchHosts
    | firstWord :: words =>
      if isComment firstWord then parseResolvLines lines servers searchHosts
      else if firstWord = nameserverWord then
        match words.head?.bind parseIp with
        | none => none
        | some address => parseResolvLines lines (servers ++ [address]) searchHosts
      else if firstWord = searchWord then
        match searchSuffixes words with
        | none => none
        | some suffixes => parseResolvLines lines servers (searchHosts ++ suffixes)
      else parseResolvLines lines servers searchHosts

/-- `parse_resolv_configuration`; a file that names no server gets `1.1.1.1`. -/
def parseResolvConfiguration (content : Datagram) : Option Configuration :=
  (parseResolvLines (tokens (· = 10) content) [] []).map fun (servers, search) =>
    if h : servers = [] then ⟨[.ip4 [1, 1, 1, 1]], search, List.cons_ne_nil _ _⟩
    else ⟨servers, search, h⟩

/-- The configuration of an empty file. -/
def defaultConfiguration : Configuration := ⟨[.ip4 [1, 1, 1, 1]], [], List.cons_ne_nil _ _⟩

theorem parseResolvConfiguration_nil : parseResolvConfiguration [] = some defaultConfiguration := rfl

theorem searchSuffixes_valid {words suffixes : List Datagram}
    (h : searchSuffixes words = some suffixes) :
    ∀ suffix ∈ suffixes, validateHostname suffix = true ∧ suffix.length ≤ 255 := by
  induction words generalizing suffixes with
  | nil =>
    obtain rfl := Option.some.inj h
    exact fun _ hmem => absurd hmem List.not_mem_nil
  | cons word words ih =>
    simp only [searchSuffixes] at h
    split_ifs at h with hcomment hlong hdot hvalid
    · obtain rfl := Option.some.inj h
      exact fun _ hmem => absurd hmem List.not_mem_nil
    · exact ih h
    · obtain ⟨rest, hrest, rfl⟩ := Option.map_eq_some_iff.mp h
      intro suffix hmem
      rcases List.mem_cons.mp hmem with rfl | hmem
      · have hlen : (lowerString word).length = word.length := by simp [lowerString]
        exact ⟨by simpa using hvalid, by omega⟩
      · exact ih hrest suffix hmem

theorem parseResolvLines_valid {lines : List Datagram} {servers servers' : List Address}
    {search search' : List Datagram}
    (h : parseResolvLines lines servers search = some (servers', search'))
    (hsearch : ∀ suffix ∈ search, validateHostname suffix = true ∧ suffix.length ≤ 255) :
    ∀ suffix ∈ search', validateHostname suffix = true ∧ suffix.length ≤ 255 := by
  induction lines generalizing servers search with
  | nil =>
    obtain ⟨-, rfl⟩ := Prod.mk.inj (Option.some.inj h)
    exact hsearch
  | cons line lines ih =>
    simp only [parseResolvLines] at h
    split at h
    · exact ih h hsearch
    · split_ifs at h
      · exact ih h hsearch
      · split at h
        · exact nomatch h
        · exact ih h hsearch
      · split at h
        · exact nomatch h
        next suffixes hsuffixes =>
          apply ih h
          intro suffix hmem
          rcases List.mem_append.mp hmem with hmem | hmem
          · exact hsearch suffix hmem
          · exact searchSuffixes_valid hsuffixes suffix hmem
      · exact ih h hsearch

/-- Every accepted suffix is a valid host name of at most 255 bytes. -/
theorem search_valid {content : Datagram} {configuration : Configuration}
    (h : parseResolvConfiguration content = some configuration) :
    ∀ suffix ∈ configuration.search, validateHostname suffix = true ∧ suffix.length ≤ 255 := by
  obtain ⟨⟨servers, search⟩, hlines, rfl⟩ := Option.map_eq_some_iff.mp h
  have hvalid := parseResolvLines_valid hlines fun _ hmem => absurd hmem List.not_mem_nil
  dsimp only
  split_ifs <;> exact hvalid

/-- `nameserver 9.9.9.9` and `search a` on two lines. -/
example : ((parseResolvConfiguration
    ([110, 97, 109, 101, 115, 101, 114, 118, 101, 114, 32, 57, 46, 57, 46, 57, 46, 57, 10] ++
      [115, 101, 97, 114, 99, 104, 9, 97, 32, 35, 98])).map fun c => (c.servers, c.search)) =
    some ([.ip4 [9, 9, 9, 9]], [[97]]) := by decide +kernel

end Talyn.Dns
