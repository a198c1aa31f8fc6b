import Talyn.Dns.ResolvLayout

/-!
# The memory of the resolver configuration

`parse_resolv_configuration` with the blocks it allocates: the buffer for lower case, the two array lists
and a copy of every suffix. Every request may run out of memory, and an array list may grow in its block or
move to a new one. Whatever the content is, a failed parse has freed every block it took, and a parse that
succeeds keeps the two slices and the suffixes only.
-/

namespace Talyn.Dns

/-- What becomes of a request for memory. -/
inductive Grant
  | inPlace
  | moved
  | outOfMemory
  deriving DecidableEq

/-- The blocks of the allocator. `misfreed` is set when a block is freed that is not live. -/
structure Memory where
  next : ℕ
  live : List ℕ
  requests : ℕ
  misfreed : Bool

/-- The answers to the requests, by their number. -/
abbrev Grants := ℕ → Grant

namespace Memory

variable (grants : Grants) (m : Memory)

/-- `allocator.free`. -/
def free (block : ℕ) : Memory :=
  { m with live := m.live.erase block, misfreed := m.misfreed || decide (block ∉ m.live) }

/-- `allocator.free` of a slice; an empty slice has no block. -/
def freeSlice : Option ℕ → Memory
  | none => m
  | some block => m.free block

/-- One request is answered. -/
def tick : Memory := { m with requests := m.requests + 1 }

/-- A new block. -/
def take : Memory := { m with next := m.next + 1, live := m.next :: m.live }

/-- `allocator.alloc` and `allocator.dupe`. -/
def alloc : Option ℕ × Memory :=
  match grants m.requests with
  | .outOfMemory => (none, m.tick)
  | _ => (some m.next, m.tick.take)

end Memory

/-- `std.ArrayList`, or a slice that was taken from one. -/
structure ArrayList (α : Type) where
  items : List α
  block : Option ℕ

namespace ArrayList

variable {α : Type}

/-- `empty`. -/
def empty : ArrayList α := ⟨[], none⟩

/-- `append`; `none` is `error.OutOfMemory`. -/
def append (grants : Grants) (list : ArrayList α) (item : α) (m : Memory) :
    Option (ArrayList α) × Memory :=
  match grants m.requests, list.block with
  | .outOfMemory, _ => (none, m.tick)
  | .inPlace, some block => (some ⟨list.items ++ [item], some block⟩, m.tick)
  | _, block => (some ⟨list.items ++ [item], some m.next⟩, m.tick.take.freeSlice block)

/-- `toOwnedSlice`. -/
def toOwnedSlice (grants : Grants) (list : ArrayList α) (m : Memory) : Option (ArrayList α) × Memory :=
  if list.items = [] then (some empty, m.freeSlice list.block)
  else
    match grants m.requests with
    | .outOfMemory => (none, m.tick)
    | .inPlace => (some list, m.tick)
    | .moved => (some ⟨list.items, some m.next⟩, m.tick.take.freeSlice list.block)

end ArrayList

end Talyn.Dns

namespace Talyn.SockAddr

/-- The socket address of a host. -/
def ofHost (port : UInt16) : Dns.Address → SockAddr
  | .ip4 addr => initIp4 addr port
  | .ip6 addr => initIp6 addr port 0 0

theorem parseIp_eq_map (host : Dns.Datagram) (port : UInt16) :
    parseIp host port = (Dns.parseIp host).map (ofHost port) := by
  rw [parseIp, Dns.parseIp, Dns.parseIp4, parseIp4]
  cases Dns.parseIp4From host.length host [] with
  | some bytes => rfl
  | none =>
    rw [Option.map_none, Option.map_none]
    dsimp only
    rw [sockAddr_parseIp6_eq_map, parseIp6_eq_map, Option.map_map]
    rfl

end Talyn.SockAddr

namespace Talyn.Dns

/-- The errors of `parse_resolv_configuration`. -/
inductive ResolvError
  | outOfMemory
  | invalidConfiguration
  | invalidAddress
  deriving DecidableEq

/-- The variables of `parse_resolv_configuration`; a suffix comes with its block. -/
structure ResolvState where
  memory : Memory
  searchTmpBuf : Datagram
  servers : ArrayList SockAddr
  searchHosts : ArrayList (Datagram × ℕ)

/-- `servers.append`. -/
def addServer (grants : Grants) (address : SockAddr) (s : ResolvState) : Option ResolvError × ResolvState :=
  match s.servers.append grants address s.memory with
  | (none, memory) => (some .outOfMemory, { s with memory })
  | (some servers, memory) => (none, { s with memory, servers })

/-- The copy of a suffix is freed again when there is no room for it in the list. -/
def addHost (grants : Grants) (parsedHostname : Datagram) (s : ResolvState) :
    Option ResolvError × ResolvState :=
  match s.memory.alloc grants with
  | (none, memory) => (some .outOfMemory, { s with memory })
  | (some host, memory) =>
    match s.searchHosts.append grants (parsedHostname, host) memory with
    | (none, memory) => (some .outOfMemory, { s with memory := memory.free host })
    | (some searchHosts, memory) => (none, { s with memory, searchHosts })

/-- The words of a `search` line. -/
def searchWords (grants : Grants) : List Datagram → ResolvState → Option ResolvError × ResolvState
  | [], s => (none, s)
  | word :: words, s =>
    if isComment word then (none, s)
    else if word.length > 255 then (some .invalidConfiguration, s)
    else
      let s := { s with searchTmpBuf := lowerString word ++ s.searchTmpBuf.drop word.length }
      let parsedHostname := s.searchTmpBuf.take word.length
      if parsedHostname = [dot] then searchWords grants words s
      else if ¬validateHostname parsedHostname then (some .invalidConfiguration, s)
      else
        match addHost grants parsedHostname s with
        | (some error, s) => (some error, s)
        | (none, s) => searchWords grants words s

/-- The loop over the lines. -/
def resolvLines (grants : Grants) : List Datagram → ResolvState → Option ResolvError × ResolvState
  | [], s => (none, s)
  | line :: lines, s =>
    match tokens isBlank line with
    | [] => resolvLines grants lines s
    | firstWord :: words =>
      if isComment firstWord then resolvLines grants lines s
      else if firstWord = nameserverWord then
        match words with
        | [] => (some .invalidConfiguration, s)
        | ipStr :: _ =>
          match SockAddr.parseIp ipStr 53 with
          | none => (some .invalidAddress, s)
          | some address =>
            match addServer grants address s with
            | (some error, s) => (some error, s)
            | (none, s) => resolvLines grants lines s
      else if firstWord = searchWord then
        match searchWords grants words s with
        | (some error, s) => (some error, s)
        | (none, s) => resolvLines grants lines s
      else resolvLines grants lines s

/-- The text `1.1.1.1`. -/
def defaultServerText : Datagram := [49, 46, 49, 46, 49, 46, 49]

/-- A configuration that names no server gets `1.1.1.1`. -/
def defaultServer (grants : Grants) (s : ResolvState) : Option ResolvError × ResolvState :=
  if s.servers.items = [] then
    match SockAddr.parseIp defaultServerText 53 with
    | none => (some .invalidAddress, s)
    | some address => addServer grants address s
  else (none, s)

/-- The suffixes are freed. -/
def freeHosts (hosts : List (Datagram × ℕ)) (m : Memory) : Memory :=
  hosts.foldl (fun m host => m.free host.2) m

/-- What happens on the way out with an error: `errdefer` of the suffixes, and `deinit` of the lists. -/
def ResolvState.unwind (s : ResolvState) : Memory :=
  ((freeHosts s.searchHosts.items s.memory).freeSlice s.searchHosts.block).freeSlice s.servers.block

/-- `Configuration`. -/
structure LoadedConfiguration where
  servers : ArrayList SockAddr
  search : ArrayList (Datagram × ℕ)

/-- The end of `parse_resolv_configuration`. -/
def ownSlices (grants : Grants) (s : ResolvState) : Except ResolvError LoadedConfiguration × Memory :=
  match s.searchHosts.toOwnedSlice grants s.memory with
  | (none, memory) => (.error .outOfMemory, { s with memory }.unwind)
  | (some search, memory) =>
    match s.servers.toOwnedSlice grants memory with
    | (none, memory) => (.error .outOfMemory, { s with memory, searchHosts := search }.unwind)
    | (some servers, memory) => (.ok ⟨servers, search⟩, memory)

/-- `parse_resolv_configuration`, with `search_tmp_buf` taken. -/
def parseWithBuffer (grants : Grants) (content : Datagram) (s : ResolvState) :
    Except ResolvError LoadedConfiguration × Memory :=
  match resolvLines grants (tokens (· = 10) content) s with
  | (some error, s) => (.error error, s.unwind)
  | (none, s) =>
    match defaultServer grants s with
    | (some error, s) => (.error error, s.unwind)
    | (none, s) => ownSlices grants s

/-- `parse_resolv_configuration`; `uninitialized` is what stands in `search_tmp_buf` at first. -/
def parseResolvConfigurationIn (grants : Grants) (uninitialized content : Datagram) (m : Memory) :
    Except ResolvError LoadedConfiguration × Memory :=
  match m.alloc grants with
  | (none, m) => (.error .outOfMemory, m)
  | (some searchTmpBuf, m) =>
    let (out, m) := parseWithBuffer grants content ⟨m, uninitialized, .empty, .empty⟩
    (out, m.free searchTmpBuf)

/-! ### Blocks -/

/-- The live blocks are these and the ones from before, and no other block was freed. -/
def Holds (base : List ℕ) (m : Memory) (blocks : List ℕ) : Prop :=
  m.live.Perm (blocks ++ base) ∧ m.misfreed = false

section Holds

variable {base blocks : List ℕ} {m : Memory} {α : Type}

theorem Holds.perm {blocks' : List ℕ} (h : Holds base m blocks) (hperm : blocks.Perm blocks') :
    Holds base m blocks' :=
  ⟨h.1.trans (hperm.append_right base), h.2⟩

theorem Holds.tick (h : Holds base m blocks) : Holds base m.tick blocks := h

theorem Holds.take (h : Holds base m blocks) : Holds base m.take (m.next :: blocks) := ⟨h.1.cons _, h.2⟩

theorem Holds.free {block : ℕ} (h : Holds base m (block :: blocks)) : Holds base (m.free block) blocks := by
  have hlive : block ∈ m.live := h.1.mem_iff.2 List.mem_cons_self
  refine ⟨?_, by simp [Memory.free, hlive, h.2]⟩
  have herase := h.1.erase block
  rwa [List.cons_append, List.erase_cons_head] at herase

theorem Holds.freeSlice {slice : Option ℕ} (h : Holds base m (slice.toList ++ blocks)) :
    Holds base (m.freeSlice slice) blocks := by
  cases slice with
  | none => exact h
  | some block => exact Holds.free h

/-- A new block is taken before the old one is freed. -/
theorem Holds.moved {slice : Option ℕ} (h : Holds base m (slice.toList ++ blocks)) :
    Holds base (m.tick.take.freeSlice slice) (m.next :: blocks) := by
  refine Holds.freeSlice (h.tick.take.perm ?_)
  rw [← List.singleton_append, ← List.singleton_append (l := blocks), ← List.append_assoc,
    ← List.append_assoc]
  exact List.perm_append_comm.append_right blocks

/-- The suffixes are freed one by one. -/
theorem Holds.freeHosts {hosts : List (Datagram × ℕ)}
    (h : Holds base m (hosts.map Prod.snd ++ blocks)) : Holds base (Dns.freeHosts hosts m) blocks := by
  induction hosts generalizing m with
  | nil => exact h
  | cons host hosts ih => exact ih (Holds.free h)

theorem Holds.alloc (grants : Grants) (h : Holds base m blocks) :
    (m.alloc grants = (none, m.tick) ∧ grants m.requests = .outOfMemory ∧ Holds base m.tick blocks) ∨
      ∃ block m', m.alloc grants = (some block, m') ∧ Holds base m' (block :: blocks) := by
  unfold Memory.alloc
  split
  next hgrant => exact .inl ⟨rfl, hgrant, h⟩
  · exact .inr ⟨_, _, rfl, h.tick.take⟩

/-- `append` adds the item and keeps one block, or leaves the list as it was. -/
theorem Holds.append (grants : Grants) {list : ArrayList α} (item : α)
    (h : Holds base m (list.block.toList ++ blocks)) :
    (list.append grants item m = (none, m.tick) ∧ grants m.requests = .outOfMemory) ∨
      ∃ list' m', list.append grants item m = (some list', m') ∧ list'.items = list.items ++ [item] ∧
        Holds base m' (list'.block.toList ++ blocks) := by
  unfold ArrayList.append
  split
  next hgrant => exact .inl ⟨rfl, hgrant⟩
  next block hgrant hblock =>
    rw [hblock] at h
    exact .inr ⟨_, _, rfl, rfl, h.tick⟩
  · exact .inr ⟨_, _, rfl, rfl, h.moved⟩

/-- `toOwnedSlice` keeps the items in one block, or leaves the list as it was. -/
theorem Holds.toOwnedSlice (grants : Grants) {list : ArrayList α}
    (h : Holds base m (list.block.toList ++ blocks)) :
    (list.toOwnedSlice grants m = (none, m.tick) ∧ grants m.requests = .outOfMemory) ∨
      ∃ slice m', list.toOwnedSlice grants m = (some slice, m') ∧ slice.items = list.items ∧
        Holds base m' (slice.block.toList ++ blocks) := by
  unfold ArrayList.toOwnedSlice
  split_ifs with hitems
  · exact .inr ⟨_, _, rfl, hitems.symm, h.freeSlice⟩
  · cases hgrant : grants m.requests with
    | inPlace => exact .inr ⟨_, _, rfl, rfl, h.tick⟩
    | moved => exact .inr ⟨_, _, rfl, rfl, h.moved⟩
    | outOfMemory => exact .inl ⟨rfl, rfl⟩

end Holds

/-! ### The loops -/

/-- The blocks of the variables. -/
def ResolvState.blocks (s : ResolvState) : List ℕ :=
  s.servers.block.toList ++ (s.searchHosts.block.toList ++ s.searchHosts.items.map Prod.snd)

/-- The variables hold these servers and suffixes. -/
def ResolvState.Shows (s : ResolvState) (servers : List Address) (search : List Datagram) : Prop :=
  s.servers.items = servers.map (SockAddr.ofHost 53) ∧ s.searchHosts.items.map Prod.fst = search

/-- The outcome of a part of the parser, where the parser without memory has this result: it is reached,
or the same error is, or a request ran out of memory. -/
def Follows (grants : Grants) (base : List ℕ) (out : Option ResolvError × ResolvState)
    (result : Option (List Address × List Datagram)) : Prop :=
  Holds base out.2.memory out.2.blocks ∧
    match out.1 with
    | none => ∃ servers search, result = some (servers, search) ∧ out.2.Shows servers search
    | some .outOfMemory => ∃ n, grants n = .outOfMemory
    | some _ => result = none

section Loops

variable {grants : Grants} {base : List ℕ} {s : ResolvState} {servers : List Address}
  {search : List Datagram}

/-- A part that can only run out of memory lets the rest fail in the same way. -/
theorem Follows.error {error : ResolvError} {result : List Address × List Datagram}
    (h : Follows grants base (some error, s) (some result))
    (rest : Option (List Address × List Datagram)) : Follows grants base (some error, s) rest := by
  cases error with
  | outOfMemory => exact h
  | invalidConfiguration => exact nomatch h.2
  | invalidAddress => exact nomatch h.2

theorem Follows.done (h : Follows grants base (none, s) (some (servers, search))) :
    Holds base s.memory s.blocks ∧ s.Shows servers search := by
  obtain ⟨servers', search', heq, hshow⟩ := h.2
  obtain ⟨rfl, rfl⟩ := Prod.mk.inj (Option.some.inj heq)
  exact ⟨h.1, hshow⟩

theorem addServer_follows {address : Address} (hs : Holds base s.memory s.blocks)
    (hshow : s.Shows servers search) :
    Follows grants base (addServer grants (SockAddr.ofHost 53 address) s)
      (some (servers ++ [address], search)) := by
  unfold addServer
  rcases Holds.append grants (SockAddr.ofHost 53 address) hs with
    ⟨happend, hgrant⟩ | ⟨list, m, happend, hitems, hholds⟩
  · rw [happend]
    exact ⟨hs.tick, _, hgrant⟩
  · rw [happend]
    refine ⟨hholds, _, _, rfl, ?_, hshow.2⟩
    rw [hitems, hshow.1, List.map_append]
    rfl

theorem addHost_follows {parsedHostname : Datagram} (hs : Holds base s.memory s.blocks)
    (hshow : s.Shows servers search) :
    Follows grants base (addHost grants parsedHostname s)
      (some (servers, search ++ [parsedHostname])) := by
  unfold addHost
  rcases hs.alloc grants with ⟨halloc, hgrant, hholds⟩ | ⟨host, m, halloc, hholds⟩
  · rw [halloc]
    exact ⟨hholds, _, hgrant⟩
  · rw [halloc]
    dsimp only
    -- the block of the list comes first, for the list to grow
    have hlist : Holds base m (s.searchHosts.block.toList ++
        (host :: (s.servers.block.toList ++ s.searchHosts.items.map Prod.snd))) := by
      refine hholds.perm ?_
      rw [ResolvState.blocks]
      simp only [← Multiset.coe_eq_coe, ← Multiset.coe_add, ← Multiset.cons_coe, ← Multiset.singleton_add]
      abel
    rcases hlist.append grants (parsedHostname, host) with
      ⟨happend, hgrant⟩ | ⟨list, m', happend, hitems, hholds'⟩
    · rw [happend]
      exact ⟨hholds.tick.free, _, hgrant⟩
    · rw [happend]
      refine ⟨hholds'.perm ?_, _, _, rfl, hshow.1, ?_⟩
      · simp only [ResolvState.blocks, hitems, List.map_append, List.map_singleton]
        simp only [← Multiset.coe_eq_coe, ← Multiset.coe_add, ← Multiset.cons_coe, ← Multiset.singleton_add,
          Multiset.coe_nil]
        abel
      · rw [hitems, List.map_append, hshow.2]
        rfl

/-- The words of a `search` line. -/
theorem searchWords_follows {words : List Datagram} (hs : Holds base s.memory s.blocks)
    (hshow : s.Shows servers search) :
    Follows grants base (searchWords grants words s)
      ((searchSuffixes words).map fun suffixes => (servers, search ++ suffixes)) := by
  induction words generalizing s search with
  | nil => exact ⟨hs, servers, search, by simp [searchSuffixes], hshow⟩
  | cons word words ih =>
    have hbuf : (lowerString word ++ s.searchTmpBuf.drop word.length).take word.length = lowerString word := by
      rw [← lowerString_length word, List.take_left]
    rw [searchWords, searchSuffixes]
    dsimp only
    rw [hbuf]
    split_ifs with hcomment hlong hdot hvalid
    · exact ⟨hs, servers, search, by simp, hshow⟩
    · exact ⟨hs, rfl⟩
    · exact ih hs hshow
    · have hadd := @addHost_follows grants base
        { s with searchTmpBuf := lowerString word ++ s.searchTmpBuf.drop word.length } servers search
        (lowerString word) hs hshow
      generalize addHost grants (lowerString word)
        { s with searchTmpBuf := lowerString word ++ s.searchTmpBuf.drop word.length } = out at hadd ⊢
      obtain ⟨_ | error, s'⟩ := out
      · obtain ⟨hs', hshow'⟩ := hadd.done
        have hrest := ih hs' hshow'
        rw [Option.map_map]
        simpa [Function.comp_def] using hrest
      · exact hadd.error _
    · exact ⟨hs, rfl⟩

/-- The loop over the lines. -/
theorem resolvLines_follows {lines : List Datagram} (hs : Holds base s.memory s.blocks)
    (hshow : s.Shows servers search) :
    Follows grants base (resolvLines grants lines s) (parseResolvLines lines servers search) := by
  induction lines generalizing s servers search with
  | nil => exact ⟨hs, _, _, rfl, hshow⟩
  | cons line lines ih =>
    rw [resolvLines]
    cases hwords : tokens isBlank line with
    | nil =>
      rw [parseResolvLines_blank hwords]
      exact ih hs hshow
    | cons firstWord words =>
      rw [parseResolvLines_words hwords]
      dsimp only
      split_ifs with hcomment hserver hsearch
      · exact ih hs hshow
      · cases words with
        | nil => exact ⟨hs, rfl⟩
        | cons ipStr words =>
          rw [List.head?_cons, Option.bind_some]
          dsimp only
          rw [SockAddr.parseIp_eq_map]
          cases parseIp ipStr with
          | none => exact ⟨hs, rfl⟩
          | some address =>
            have hadd := @addServer_follows grants base s servers search address hs hshow
            rw [Option.map_some, Option.bind_some]
            dsimp only
            generalize addServer grants (SockAddr.ofHost 53 address) s = out at hadd ⊢
            obtain ⟨_ | error, s'⟩ := out
            · obtain ⟨hs', hshow'⟩ := hadd.done
              exact ih hs' hshow'
            · exact hadd.error _
      · have hsearch := @searchWords_follows grants base s servers search words hs hshow
        generalize searchWords grants words s = out at hsearch ⊢
        obtain ⟨_ | error, s'⟩ := out
        · cases hsuffixes : searchSuffixes words with
          | none =>
            rw [hsuffixes] at hsearch
            obtain ⟨-, servers', search', heq, -⟩ := hsearch
            exact nomatch heq
          | some suffixes =>
            rw [hsuffixes, Option.map_some] at hsearch
            obtain ⟨hs', hshow'⟩ := hsearch.done
            exact ih hs' hshow'
        · cases hsuffixes : searchSuffixes words with
          | none =>
            rw [hsuffixes] at hsearch
            exact hsearch
          | some suffixes =>
            rw [hsuffixes, Option.map_some] at hsearch
            exact hsearch.error _
      · exact ih hs hshow

theorem defaultServer_follows (hs : Holds base s.memory s.blocks) (hshow : s.Shows servers search) :
    Follows grants base (defaultServer grants s)
      (some (if servers = [] then [.ip4 [1, 1, 1, 1]] else servers, search)) := by
  have hdefault : SockAddr.parseIp defaultServerText 53 = some (SockAddr.ofHost 53 (.ip4 [1, 1, 1, 1])) := by
    rw [SockAddr.parseIp_eq_map]
    have htext : parseIp defaultServerText = some (.ip4 [1, 1, 1, 1]) := by decide +kernel
    rw [htext]
    rfl
  unfold defaultServer
  by_cases hservers : servers = []
  · subst hservers
    have hitems : s.servers.items = [] := hshow.1
    rw [if_pos hitems, if_pos rfl, hdefault]
    exact addServer_follows hs hshow
  · have hitems : s.servers.items ≠ [] := by
      rw [hshow.1]
      exact fun h => hservers (List.map_eq_nil_iff.1 h)
    rw [if_neg hitems, if_neg hservers]
    exact ⟨hs, _, _, rfl, hshow⟩

/-- On the way out every block is freed. -/
theorem Holds.unwind (hs : Holds base s.memory s.blocks) : Holds base s.unwind [] := by
  refine Holds.freeSlice (Holds.freeSlice (Holds.freeHosts (hs.perm ?_)))
  simp only [ResolvState.blocks, ← Multiset.coe_eq_coe, ← Multiset.coe_add, Multiset.coe_nil]
  abel

end Loops

/-! ### The whole parser -/

/-- The blocks of a configuration. -/
def LoadedConfiguration.blocks (loaded : LoadedConfiguration) : List ℕ :=
  loaded.servers.block.toList ++ (loaded.search.block.toList ++ loaded.search.items.map Prod.snd)

/-- The outcome of the parser, where the parser without memory has this result. -/
def Loads (grants : Grants) (base : List ℕ) (out : Except ResolvError LoadedConfiguration × Memory)
    (result : Option Configuration) : Prop :=
  match out.1 with
  | .error error => Holds base out.2 [] ∧
      if error = .outOfMemory then ∃ n, grants n = .outOfMemory else result = none
  | .ok loaded => Holds base out.2 loaded.blocks ∧ ∃ configuration, result = some configuration ∧
      loaded.servers.items = configuration.servers.map (SockAddr.ofHost 53) ∧
      loaded.search.items.map Prod.fst = configuration.search

section Parser

variable {grants : Grants} {base : List ℕ} {s : ResolvState}

theorem ownSlices_loads {configuration : Configuration} (hs : Holds base s.memory s.blocks)
    (hshow : s.Shows configuration.servers configuration.search) :
    Loads grants base (ownSlices grants s) (some configuration) := by
  unfold ownSlices
  have hsearch : Holds base s.memory (s.searchHosts.block.toList ++
      (s.servers.block.toList ++ s.searchHosts.items.map Prod.snd)) := by
    refine hs.perm ?_
    simp only [ResolvState.blocks, ← Multiset.coe_eq_coe, ← Multiset.coe_add]
    abel
  rcases hsearch.toOwnedSlice grants with ⟨hown, hgrant⟩ | ⟨search, m, hown, hitems, hholds⟩
  · rw [hown]
    exact ⟨Holds.unwind (s := { s with memory := s.memory.tick }) hs.tick, _, hgrant⟩
  · rw [hown]
    dsimp only
    have hservers : Holds base m (s.servers.block.toList ++
        (search.block.toList ++ search.items.map Prod.snd)) := by
      rw [hitems]
      refine hholds.perm ?_
      simp only [← Multiset.coe_eq_coe, ← Multiset.coe_add]
      abel
    rcases hservers.toOwnedSlice grants with ⟨hown', hgrant⟩ | ⟨servers, m', hown', hitems', hholds'⟩
    · rw [hown']
      exact ⟨Holds.unwind (s := { s with memory := m.tick, searchHosts := search }) hservers.tick, _, hgrant⟩
    · rw [hown']
      refine ⟨hholds', configuration, rfl, hitems'.trans hshow.1, ?_⟩
      rw [hitems, hshow.2]

theorem parseWithBuffer_loads {content : Datagram} (hs : Holds base s.memory s.blocks)
    (hshow : s.Shows [] []) :
    Loads grants base (parseWithBuffer grants content s) (parseResolvConfiguration content) := by
  have hlines := @resolvLines_follows grants base s [] [] (tokens (· = 10) content) hs hshow
  unfold parseWithBuffer parseResolvConfiguration
  generalize resolvLines grants (tokens (· = 10) content) s = out at hlines ⊢
  obtain ⟨_ | error, s'⟩ := out
  · obtain ⟨hs', servers, search, hresult, hshow'⟩ := hlines
    rw [hresult, Option.map_some]
    dsimp only
    have hdefault := @defaultServer_follows grants base s' servers search hs' hshow'
    generalize defaultServer grants s' = out at hdefault ⊢
    obtain ⟨_ | error, s''⟩ := out
    · obtain ⟨hs'', hshow''⟩ := hdefault.done
      refine ownSlices_loads hs'' ?_
      split_ifs with hservers
      · rwa [if_pos hservers] at hshow''
      · rwa [if_neg hservers] at hshow''
    · have herror := hdefault.error none
      refine ⟨hdefault.1.unwind, ?_⟩
      cases error with
      | outOfMemory => exact herror.2
      | invalidConfiguration => cases hdefault.2
      | invalidAddress => cases hdefault.2
  · refine ⟨hlines.1.unwind, ?_⟩
    cases error with
    | outOfMemory => exact hlines.2
    | invalidConfiguration =>
      have hnone : parseResolvLines (tokens (· = 10) content) [] [] = none := hlines.2
      rw [hnone]
      rfl
    | invalidAddress =>
      have hnone : parseResolvLines (tokens (· = 10) content) [] [] = none := hlines.2
      rw [hnone]
      rfl

/-- The parser with memory does what the parser without memory does, unless a request runs out of memory;
either way it holds the blocks of its result only. -/
theorem parseResolvConfigurationIn_loads {uninitialized content : Datagram} {m : Memory}
    (hm : m.misfreed = false) :
    Loads grants m.live (parseResolvConfigurationIn grants uninitialized content m)
      (parseResolvConfiguration content) := by
  have hbase : Holds m.live m [] := ⟨List.Perm.refl _, hm⟩
  unfold parseResolvConfigurationIn
  rcases hbase.alloc grants with ⟨halloc, hgrant, hholds⟩ | ⟨searchTmpBuf, m', halloc, hholds⟩
  · rw [halloc]
    exact ⟨hholds, _, hgrant⟩
  · rw [halloc]
    have hloads := @parseWithBuffer_loads grants (searchTmpBuf :: m.live)
      ⟨m', uninitialized, .empty, .empty⟩ content hholds ⟨rfl, rfl⟩
    dsimp only
    generalize parseWithBuffer grants content ⟨m', uninitialized, .empty, .empty⟩ = out at hloads ⊢
    -- the buffer is freed last
    have hfree : ∀ {blocks}, Holds (searchTmpBuf :: m.live) out.2 blocks →
        Holds m.live (out.2.free searchTmpBuf) blocks := by
      intro blocks h
      exact Holds.free ⟨h.1.trans List.perm_middle, h.2⟩
    obtain ⟨error | loaded, m''⟩ := out
    · exact ⟨hfree hloads.1, hloads.2⟩
    · exact ⟨hfree hloads.1, hloads.2⟩

theorem not_loaded_of_none {uninitialized content : Datagram} {m m' : Memory} {loaded : LoadedConfiguration}
    (hm : m.misfreed = false) (hnone : (parseResolvConfiguration content).isNone = true) :
    parseResolvConfigurationIn grants uninitialized content m ≠ (.ok loaded, m') := by
  intro hparse
  have hloads := @parseResolvConfigurationIn_loads grants uninitialized content m hm
  rw [hparse, Option.isNone_iff_eq_none.1 hnone] at hloads
  obtain ⟨-, configuration, heq, -⟩ := hloads
  exact nomatch heq

end Parser

/-- What a configuration holds for these servers and suffixes. -/
def LoadedConfiguration.Reads (loaded : LoadedConfiguration) (servers : List Address)
    (suffixes : List Datagram) : Prop :=
  loaded.servers.items =
      (if servers = [] then [.in4 (fun _ => 1) 53] else servers.map (SockAddr.ofHost 53)) ∧
    loaded.search.items.map Prod.fst = suffixes.map lowerString

/-- **`parse_resolv_configuration`.** A content that writes these servers and suffixes, of at most 255
bytes each, is read as these, whatever its layout is, unless a request runs out of memory. Every content is either refused, with every block
freed, or gives servers and valid suffixes of at most 255 bytes, and the blocks of these are what is left. -/
theorem resolv_conf_read (grants : Grants) (uninitialized content : Datagram) (m : Memory)
    (hm : m.misfreed = false) :
    (∀ servers suffixes, ResolvText content servers suffixes →
      (∀ suffix ∈ suffixes, validateHostname suffix = true ∧ suffix.length ≤ 255) →
        (∃ loaded m', parseResolvConfigurationIn grants uninitialized content m = (.ok loaded, m') ∧
          loaded.Reads servers suffixes) ∨
        ∃ n m', grants n = .outOfMemory ∧
          parseResolvConfigurationIn grants uninitialized content m = (.error .outOfMemory, m')) ∧
    match parseResolvConfigurationIn grants uninitialized content m with
    | (.error _, m') => m'.live.Perm m.live ∧ m'.misfreed = false
    | (.ok loaded, m') => loaded.servers.items ≠ [] ∧
        (∀ suffix ∈ loaded.search.items, validateHostname suffix.1 = true ∧ suffix.1.length ≤ 255) ∧
          m'.live.Perm (loaded.blocks ++ m.live) ∧ m'.misfreed = false := by
  have hloads := @parseResolvConfigurationIn_loads grants uninitialized content m hm
  generalize parseResolvConfigurationIn grants uninitialized content m = out at hloads ⊢
  constructor
  · intro servers suffixes htext hvalid
    have hlines := parseResolvLines_content htext hvalid [] []
    rw [List.nil_append, List.nil_append] at hlines
    rw [parseResolvConfiguration, hlines, Option.map_some] at hloads
    obtain ⟨error | loaded, m'⟩ := out
    · obtain ⟨-, herror⟩ := hloads
      split_ifs at herror with hmemory
      · obtain ⟨n, hn⟩ := herror
        exact .inr ⟨n, m', hn, by rw [hmemory]⟩
    · obtain ⟨-, configuration, heq, hitems, hsearch⟩ := hloads
      refine .inl ⟨loaded, m', rfl, ?_, ?_⟩
      · have hdefault : SockAddr.ofHost 53 (.ip4 [1, 1, 1, 1]) = .in4 (fun _ => 1) 53 :=
          congrArg (SockAddr.in4 · 53) (by decide)
        rw [hitems, ← Option.some.inj heq, ← hdefault]
        dsimp only
        split_ifs <;> rfl
      · rw [hsearch, ← Option.some.inj heq]
        dsimp only
        split_ifs <;> rfl
  · obtain ⟨error | loaded, m'⟩ := out
    · exact hloads.1
    · obtain ⟨hholds, configuration, hresult, hitems, hsearch⟩ := hloads
      refine ⟨?_, ?_, hholds⟩
      · rw [hitems]
        exact fun h => configuration.servers_ne_nil (List.map_eq_nil_iff.1 h)
      · intro suffix hmem
        refine search_valid hresult suffix.1 ?_
        rw [← hsearch]
        exact List.mem_map_of_mem hmem

/-- The line `nameserver 9.9.9.9` and the line `search A #b`. -/
theorem resolv_conf_read_two_lines :
    ∃ loaded m', parseResolvConfigurationIn (fun _ => .moved) []
        ((nameserverWord ++ [32, 57, 46, 57, 46, 57, 46, 57]) ++ 10 :: (searchWord ++ [32, 65, 9, 35, 98]))
        ⟨0, [], 0, false⟩ = (.ok loaded, m') ∧ loaded.Reads [.ip4 [9, 9, 9, 9]] [[97]] := by
  have hserver : ServerText [57, 46, 57, 46, 57, 46, 57] (.ip4 [9, 9, 9, 9]) := .inl (by decide +kernel)
  have hfirst : LineText (nameserverWord ++ [32, 57, 46, 57, 46, 57, 46, 57]) [.ip4 [9, 9, 9, 9]] [] :=
    @LineText.nameserver [] [32] [57, 46, 57, 46, 57, 46, 57] [] _ nofun (List.all_eq_true.1 (by decide))
      (by decide) hserver nofun
  have hcomment : SearchText [9, 35, 98] [] :=
    @SearchText.comment [9] [98] 35 (List.all_eq_true.1 (by decide)) (by decide) (by decide)
  have hsuffix : SearchText [32, 65, 9, 35, 98] [[97]] :=
    @SearchText.suffix [32] [65] [9, 35, 98] [97] [] (List.all_eq_true.1 (by decide)) (by decide) (by decide)
      hcomment
  have hread := (resolv_conf_read (fun _ => .moved) [] _ ⟨0, [], 0, false⟩ rfl).1 _ _
    (.cons hfirst (by decide) (.last (@LineText.search [] _ _ nofun hsuffix) (by decide))) (by decide)
  exact hread.resolve_right fun ⟨_, _, hgrant, _⟩ => nomatch hgrant

/-- A valid name of 319 bytes. -/
def longSuffix : Datagram := [dot].intercalate (List.replicate 5 (List.replicate 63 97))

/-- The line `search` with that suffix. -/
def longSuffixLine : Datagram := searchWord ++ ([32] ++ (longSuffix ++ []))

theorem longSuffixLine_text : ResolvText longSuffixLine [] [longSuffix] := by
  have hbreak : 10 ∉ longSuffixLine := by decide +kernel
  refine .last (@LineText.search [] _ _ nofun ?_) hbreak
  exact .suffix (List.all_eq_true.1 (by decide)) (by decide) rfl (.done nofun)

/-- A valid suffix of 319 bytes is refused. -/
theorem long_suffix_refused :
    ¬∀ content servers suffixes, ResolvText content servers suffixes →
      (∀ suffix ∈ suffixes, validateHostname suffix = true) →
        ∃ loaded m', parseResolvConfigurationIn (fun _ => .moved) [] content ⟨0, [], 0, false⟩ =
          (.ok loaded, m') ∧ loaded.Reads servers suffixes := by
  intro h
  have hvalid : validateHostname longSuffix = true := by decide +kernel
  have hnone : (parseResolvConfiguration longSuffixLine).isNone = true := by decide +kernel
  obtain ⟨loaded, m', hparse, -⟩ := h _ [] [longSuffix] longSuffixLine_text
    fun suffix hmem => List.mem_singleton.1 hmem ▸ hvalid
  exact not_loaded_of_none rfl hnone hparse

end Talyn.Dns
