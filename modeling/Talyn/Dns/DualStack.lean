import Talyn.Dns.Resolution

/-!
# Dual-stack lookups

With IPv6 every candidate name has two queries, slot `2 * c` for its IPv4 address and slot
`2 * c + 1` for its IPv6 address. `process_dns_response` does not record which of them were answered;
it takes a candidate for done when the number of datagrams received is even. The inference is right where
the datagrams come in pairs (`PairsUp`): each response with addresses, and one to the other query of its
candidate no later than with the second datagram of the pair.
-/

namespace Talyn.Dns

/-! ### What a history of datagrams answered -/

/-- A datagram with the transaction id of the query in a slot was received. -/
def Answered (queries : List QuerySlot) (history : List Datagram) (slot : ℕ) : Prop :=
  ∃ d ∈ history, 2 ≤ d.length ∧ (queries[slot]?).map (·.id) = some (readU16 d 0)

instance (queries : List QuerySlot) (history : List Datagram) (slot : ℕ) :
    Decidable (Answered queries history slot) :=
  inferInstanceAs (Decidable (∃ d ∈ history, _ ∧ _))

/-- A response to one of the queries of candidate `c` was accepted and has addresses. -/
def Supplied (queries : List QuerySlot) (history : List Datagram) (c : ℕ) : Prop :=
  ∃ d ∈ history, classify queries d = .accepted ∧
    (matchedSlot queries d).map (· / 2) = some c ∧ (collectAnswers d .ok {}).1.results ≠ []

instance (queries : List QuerySlot) (history : List Datagram) (c : ℕ) :
    Decidable (Supplied queries history c) :=
  inferInstanceAs (Decidable (∃ d ∈ history, _ ∧ _ ∧ _))

theorem Supplied.append {queries : List QuerySlot} {history : List Datagram} {c : ℕ}
    (h : Supplied queries history c) (new : List Datagram) :
    Supplied queries (history ++ new) c := by
  obtain ⟨d, hd, hrest⟩ := h
  exact ⟨d, List.mem_append_left _ hd, hrest⟩

/-! ### Addresses come from accepted datagrams -/

theorem Answers.append?_results {a a' : Answers} {answer : Answer}
    (h : a.append? answer = some a') (hnone : answer.result = none) : a'.results = a.results := by
  unfold Answers.append? at h
  rw [hnone] at h
  split at h
  · obtain rfl := Option.some.inj h
    rfl
  · rename_i heq
    exact nomatch heq
  · exact nomatch h

/-- Without memory for a name only the name is lost. -/
theorem parseIndividualDnsResult_alloc {data : Datagram} {offset next : ℕ} {nameAlloc : Bool}
    {answer : Answer} (h : parseIndividualDnsResult data offset nameAlloc = some (next, answer)) :
    (answer.result ≠ none → answer.ptrName = none) ∧
      ∃ answer', parseIndividualDnsResult data offset true = some (next, answer') ∧
        answer'.result = answer.result ∧ (answer.result ≠ none → answer'.ptrName = none) := by
  unfold parseIndividualDnsResult at h ⊢
  split at h
  · exact nomatch h
  rename_i offset' hskip
  simp only at h ⊢
  split_ifs at h ⊢ with h1 h2 h3 h4 h5 h6 h7
  all_goals
    obtain ⟨rfl, rfl⟩ := Prod.mk.inj (Option.some.inj h)
    simp

theorem parseAnswers_results_le (data : Datagram) (allocs : Allocs) (left offset : ℕ) (a : Answers) :
    a.results.length ≤ (parseAnswers data allocs left offset a).1.results.length := by
  induction left generalizing offset a with
  | zero => exact le_rfl
  | succ left ih =>
    unfold parseAnswers
    split
    · exact le_rfl
    rename_i next answer _
    split
    · exact ih next a
    · rename_i a' happend
      split
      · refine le_trans ?_ (ih next a')
        unfold Answers.append? at happend
        split at happend
        · obtain rfl := Option.some.inj happend
          exact le_rfl
        · obtain rfl := Option.some.inj happend
          simp
        · exact nomatch happend
      · exact le_rfl

/-- If a datagram adds addresses under some allocation failures, it has addresses. -/
theorem parseAnswers_ok {data : Datagram} {allocs : Allocs} {left offset : ℕ} {a : Answers}
    (h : (parseAnswers data allocs left offset a).1.results ≠ a.results) (b : Answers) :
    b.results.length < (parseAnswers data .ok left offset b).1.results.length := by
  induction left generalizing offset a b with
  | zero => exact absurd rfl h
  | succ left ih =>
    unfold parseAnswers at h ⊢
    split at h
    · exact absurd rfl h
    rename_i next answer hparse
    obtain ⟨hptr, answer', hparse', hresult, hptr'⟩ := parseIndividualDnsResult_alloc hparse
    rw [show Allocs.ok.name (left + 1) = true from rfl, hparse']
    simp only [show Allocs.ok.append (left + 1) = true from rfl, if_true]
    by_cases hnone : answer.result = none
    · -- not an address: the lists of addresses do not change
      have hih : ∀ {a'' : Answers}, a''.results = a.results →
          (parseAnswers data allocs left next a'').1.results ≠ a.results →
          ∀ b' : Answers, b'.results = b.results →
            b.results.length < (parseAnswers data .ok left next b').1.results.length := by
        intro a'' ha'' hne b' hb'
        rw [← hb']
        exact ih (by rw [ha'']; exact hne) b'
      have hleft : ∃ a'' : Answers, a''.results = a.results ∧
          (parseAnswers data allocs left next a'').1.results ≠ a.results := by
        split at h
        · exact ⟨a, rfl, h⟩
        · rename_i a' happend
          split at h
          · exact ⟨a', Answers.append?_results happend hnone, h⟩
          · exact absurd rfl h
      obtain ⟨a'', ha'', hne⟩ := hleft
      split
      · exact hih ha'' hne b rfl
      · rename_i b' happend
        exact hih ha'' hne b' (Answers.append?_results happend (hresult.trans hnone))
    · obtain ⟨address, haddress⟩ := Option.ne_none_iff_exists'.1 hnone
      have happend : b.append? answer' =
          some { b with results := b.results ++ [address],
                        minTtl := min b.minTtl answer'.ttl } := by
        simp [Answers.append?, hptr' hnone, hresult, haddress]
      rw [happend]
      refine lt_of_lt_of_le ?_ (parseAnswers_results_le _ _ _ _ _)
      simp

/-- A datagram that adds addresses to a server has addresses. -/
theorem collectAnswers_supplies {data : Datagram} {allocs : Allocs} {a : Answers}
    (h : (collectAnswers data allocs a).1.results ≠ a.results) :
    (collectAnswers data .ok {}).1.results ≠ [] := by
  have := parseAnswers_ok h {}
  exact List.ne_nil_of_length_pos (lt_of_le_of_lt (Nat.zero_le _) this)

/-- An accepted datagram belongs to a slot. -/
theorem matchedSlot_of_accepted {queries : List QuerySlot} {d : Datagram}
    (h : classify queries d = .accepted) :
    ∃ slot < queries.length, matchedSlot queries d = some slot := by
  unfold classify at h
  split at h
  · exact nomatch h
  · rename_i q hq
    obtain ⟨slot, hslot, hget⟩ := Option.bind_eq_some_iff.1 hq
    exact ⟨slot, (List.getElem?_eq_some_iff.1 hget).1, hslot⟩

namespace Lookup

/-! ### What an event does to the data of its server -/

/-- The queries, the history and the answers of a server are the same. -/
structure Kept (a b : ServerQueryData) : Prop where
  queries : b.queries = a.queries
  hostnamesLen : b.hostnamesLen = a.hostnamesLen
  history : b.history = a.history
  answers : b.answers = a.answers

theorem Kept.refl (a : ServerQueryData) : Kept a a := ⟨rfl, rfl, rfl, rfl⟩

theorem Kept.trans {a b c : ServerQueryData} (h : Kept a b) (h' : Kept b c) : Kept a c :=
  ⟨h'.queries.trans h.queries, h'.hostnamesLen.trans h.hostnamesLen,
    h'.history.trans h.history, h'.answers.trans h.answers⟩

section

variable {l : Lookup} {i : ℕ}

theorem kept_setServer {sd : ServerQueryData} (hi : i < l.servers.length)
    (h : Kept (l.server i) sd) : Kept (l.server i) ((l.setServer i sd).server i) := by
  rw [server_setServer sd hi, if_pos rfl]
  exact h

theorem kept_release (hi : i < l.servers.length) : Kept (l.server i) ((l.release i).server i) := by
  cases hf : (l.server i).finished with
  | true =>
    have : (l.release i).servers = l.servers := by
      unfold release
      dsimp only
      rw [server_congr (touch_servers l), hf]
      exact touch_servers l
    rw [server_congr this]
    exact .refl _
  | false =>
    have hset : (l.release i).server i = (l.setServer i _).server i :=
      server_congr (release_servers hi hf) i
    rw [hset]
    exact kept_setServer hi ⟨rfl, rfl, rfl, rfl⟩

theorem kept_resolveAndRelease (hi : i < l.servers.length) (cause : Cause) (dupe : Bool) (now : ℤ) :
    Kept (l.server i) ((l.resolveAndRelease i cause dupe now).server i) := by
  obtain ⟨hlen, hserver⟩ := markResolved_servers l i cause dupe now
  obtain ⟨fd, hfd⟩ := hserver i
  have hkept : Kept (l.server i) ((l.markResolved i cause dupe now).1.server i) := by
    rw [hfd]
    exact ⟨rfl, rfl, rfl, rfl⟩
  have hi' := hlen.symm ▸ hi
  unfold resolveAndRelease
  split
  · rename_i l' heq
    rw [heq] at hkept hi'
    exact hkept.trans (kept_release hi')
  · rename_i l' heq
    rw [heq] at hkept hi'
    exact hkept.trans (kept_setServer hi' ⟨rfl, rfl, rfl, rfl⟩)

theorem kept_countResponse (hi : i < l.servers.length) :
    Kept (l.server i) ((l.countResponse i).server i) :=
  kept_setServer hi ⟨rfl, rfl, rfl, rfl⟩

theorem kept_dropResponse (hi : i < l.servers.length) (guarded dupe : Bool) (now : ℤ) :
    Kept (l.server i) ((l.dropResponse i guarded dupe now).server i) := by
  have hi' : i < (l.countResponse i).servers.length := by simpa [countResponse] using hi
  refine (kept_countResponse hi).trans ?_
  unfold dropResponse
  dsimp only
  split
  · exact kept_setServer hi' ⟨rfl, rfl, rfl, rfl⟩
  split
  · exact kept_resolveAndRelease hi' _ _ _
  · exact kept_release hi'

theorem kept_finishResponse (hi : i < l.servers.length) (dupe : Bool) (now : ℤ) :
    Kept (l.server i) ((l.finishResponse i dupe now).server i) := by
  have hi' : i < (l.countResponse i).servers.length := by simpa [countResponse] using hi
  refine (kept_countResponse hi).trans ?_
  unfold finishResponse
  dsimp only
  split
  · exact kept_resolveAndRelease hi' _ _ _
  split
  · exact kept_setServer hi' ⟨rfl, rfl, rfl, rfl⟩
  split
  · exact kept_resolveAndRelease hi' _ _ _
  · exact kept_release hi'

theorem kept_datagramReceived (hi : i < l.servers.length) (response : Datagram) (allocs : Allocs)
    (now : ℤ) :
    Kept { l.server i with answers := answersAfter (l.server i) response allocs }
      ((l.datagramReceived i response allocs now).server i) := by
  have hsame : classify (l.server i).queries response ≠ .accepted →
      Kept { l.server i with answers := answersAfter (l.server i) response allocs }
        (l.server i) := fun hne => ⟨rfl, rfl, rfl, (if_neg hne).symm⟩
  unfold datagramReceived
  split
  · exact (hsame (by simp [*])).trans (kept_finishResponse hi _ _)
  · exact (hsame (by simp [*])).trans (kept_dropResponse hi _ _ _)
  · exact (hsame (by simp [*])).trans (kept_dropResponse hi _ _ _)
  · exact (hsame (by simp [*])).trans (kept_dropResponse hi _ _ _)
  · exact (hsame (by simp [*])).trans (kept_dropResponse hi _ _ _)
  · exact (hsame (by simp [*])).trans (kept_dropResponse hi _ _ _)
  · rename_i hv
    have hself := server_setServer
      { l.server i with answers := (collectAnswers response allocs (l.server i).answers).1 } hi i
    rw [if_pos rfl] at hself
    have hkept : Kept { l.server i with answers := answersAfter (l.server i) response allocs }
        ((l.setServer i { l.server i with
          answers := (collectAnswers response allocs (l.server i).answers).1 }).server i) := by
      rw [hself]
      exact ⟨rfl, rfl, rfl, (if_pos hv).symm⟩
    unfold acceptResponse
    dsimp only
    split
    · exact hkept.trans (kept_finishResponse (by simpa using hi) _ _)
    · exact hkept.trans (kept_setServer (by simpa using hi) ⟨rfl, rfl, rfl, rfl⟩)

theorem kept_onQuerySent (hi : i < l.servers.length) (failed cancelled dupe : Bool) (now : ℤ) :
    Kept (l.server i) ((l.onQuerySent i failed cancelled dupe now).server i) := by
  have hsend : Kept (l.server i) ((l.setServer i
      { l.server i with sendIdx := (l.server i).sendIdx + 1 }).server i) :=
    kept_setServer hi ⟨rfl, rfl, rfl, rfl⟩
  unfold onQuerySent
  dsimp only
  split
  · split
    · exact kept_resolveAndRelease hi _ _ _
    · exact kept_release hi
  · split
    · exact hsend.trans (kept_setServer (by simpa using hi) ⟨rfl, rfl, rfl, rfl⟩)
    · exact hsend.trans (kept_setServer (by simpa using hi) ⟨rfl, rfl, rfl, rfl⟩)

end

/-- What an event does to the data of its server. -/
theorem step_own {l t : Lookup} {e : Event} {i : ℕ} (h : Inv none l) (hs : l.step e = some t)
    (he : e.server? = some i) :
    (∃ received, Kept { l.server i with op := none, history := (l.server i).history ++ received }
        (t.server i)) ∨
      ∃ response allocs now, e = .response i (some response) false allocs now ∧
        l.resolved = false ∧ Kept
          { l.server i with
            op := none
            history := (l.server i).history ++ [response]
            answers := answersAfter (l.server i) response allocs } (t.server i) := by
  cases e with
  | querySent i' failed cancelled dupe now =>
    obtain rfl := Option.some.inj he
    simp only [step] at hs
    split at hs
    · rename_i hop
      obtain rfl := Option.some.inj hs
      have hi := lt_of_op hop
      have hkept := kept_onQuerySent (l := l.complete i' none) (by simpa [complete] using hi)
        failed cancelled dupe now
      rw [complete_server hi] at hkept
      rw [(h.complete hop none).touch_eq]
      exact .inl ⟨[], hkept⟩
    · cases hs
  | response i' datagram cancelled allocs now =>
    obtain rfl := Option.some.inj he
    simp only [step] at hs
    split at hs
    · rename_i hop
      obtain rfl := Option.some.inj hs
      have hi := lt_of_op hop.1
      have hi' : i' < (l.complete i' datagram).servers.length := by simpa [complete] using hi
      have hself := complete_server hi datagram
      rw [(h.complete hop.1 datagram).touch_eq]
      unfold processDnsResponse
      split
      · have hkept := kept_release hi'
        rw [hself] at hkept
        exact .inl ⟨_, hkept⟩
      rename_i hlive
      push Not at hlive
      split
      · left
        split
        · have hkept := kept_resolveAndRelease hi' .readFailed allocs.dupe now
          rw [hself] at hkept
          exact ⟨_, hkept⟩
        · have hkept := kept_release hi'
          rw [hself] at hkept
          exact ⟨_, hkept⟩
      · rename_i response
        have hkept := kept_datagramReceived hi' response allocs now
        rw [hself] at hkept
        have hcancelled : cancelled = false := by simpa using hlive.1
        have hresolved : l.resolved = false := Bool.eq_false_iff.2 hlive.2
        exact .inr ⟨response, allocs, now, by rw [hcancelled], hresolved, hkept⟩
    · cases hs
  | cleanup i' =>
    obtain rfl := Option.some.inj he
    simp only [step] at hs
    split at hs
    · rename_i hop
      obtain rfl := Option.some.inj hs
      have hi := lt_of_op hop
      have hkept := kept_release (l := l.complete i' none) (by simpa [complete] using hi)
      rw [complete_server hi] at hkept
      exact .inl ⟨[], hkept⟩
    · cases hs
  | attach callback alloc => cases he
  | evict => cases he

/-! ### What goes on after an event -/

/-- No datagram and no send is awaited for the server. -/
def Stops (l : Lookup) (i : ℕ) : Prop :=
  (l.server i).op ≠ some .reading ∧ (l.server i).op ≠ some .sending

section

variable {l : Lookup} {i : ℕ}

theorem stops_of_idle (h : (l.server i).op = none) : l.Stops i := by
  constructor <;> simp [h]

theorem stops_release (hi : i < l.servers.length) (hop : (l.server i).op = none) :
    (l.release i).Stops i := by
  apply stops_of_idle
  cases hf : (l.server i).finished with
  | true =>
    have : (l.release i).servers = l.servers := by
      unfold release
      dsimp only
      rw [server_congr (touch_servers l), hf]
      exact touch_servers l
    rw [server_congr this]
    exact hop
  | false =>
    have hset : (l.release i).server i = (l.setServer i _).server i :=
      server_congr (release_servers hi hf) i
    rw [hset, server_setServer _ hi, if_pos rfl]
    exact hop

theorem stops_callbackFailed (hi : i < l.servers.length) : (l.callbackFailed i).Stops i := by
  have hself := server_setServer { l.server i with op := some .cleanup } hi i
  rw [if_pos rfl] at hself
  unfold Stops callbackFailed
  rw [hself]
  exact ⟨nofun, nofun⟩

theorem stops_resolveAndRelease (hi : i < l.servers.length) (hop : (l.server i).op = none)
    (cause : Cause) (dupe : Bool) (now : ℤ) : (l.resolveAndRelease i cause dupe now).Stops i := by
  obtain ⟨hlen, hserver⟩ := markResolved_servers l i cause dupe now
  obtain ⟨fd, hfd⟩ := hserver i
  have hop' : ((l.markResolved i cause dupe now).1.server i).op = none := by
    rw [hfd]
    exact hop
  have hi' := hlen.symm ▸ hi
  unfold resolveAndRelease
  split
  · rename_i l' heq
    rw [heq] at hop' hi'
    exact stops_release hi' hop'
  · rename_i l' heq
    rw [heq] at hop' hi'
    exact stops_callbackFailed hi'

/-- The server stops, or it reads on and has counted the datagram. -/
def Counts (l t : Lookup) (i : ℕ) : Prop :=
  t.Stops i ∨ (t.server i).op = some .reading ∧
    (t.server i).responsesReceived = (l.server i).responsesReceived + 1

theorem counts_readOn (hi : i < l.servers.length) :
    Counts l ((l.countResponse i).queueNextResponseRead i) i := by
  have hi' : i < (l.countResponse i).servers.length := by simpa [countResponse] using hi
  have hself := server_setServer { (l.countResponse i).server i with op := some .reading } hi' i
  rw [if_pos rfl, countResponse_server hi] at hself
  unfold Counts queueNextResponseRead
  rw [countResponse_server hi, hself]
  exact .inr ⟨rfl, rfl⟩

theorem idle_countResponse (hi : i < l.servers.length) (hop : (l.server i).op = none) :
    i < (l.countResponse i).servers.length ∧ ((l.countResponse i).server i).op = none := by
  rw [countResponse_server hi]
  exact ⟨by simpa [countResponse] using hi, hop⟩

theorem counts_dropResponse (hi : i < l.servers.length) (hop : (l.server i).op = none)
    (guarded dupe : Bool) (now : ℤ) : Counts l (l.dropResponse i guarded dupe now) i := by
  obtain ⟨hi', hop'⟩ := idle_countResponse hi hop
  unfold dropResponse
  dsimp only
  split
  · exact counts_readOn hi
  split
  · exact .inl (stops_resolveAndRelease hi' hop' _ _ _)
  · exact .inl (stops_release hi' hop')

theorem counts_finishResponse (hi : i < l.servers.length) (hop : (l.server i).op = none)
    (dupe : Bool) (now : ℤ) : Counts l (l.finishResponse i dupe now) i := by
  obtain ⟨hi', hop'⟩ := idle_countResponse hi hop
  unfold finishResponse
  dsimp only
  split
  · exact .inl (stops_resolveAndRelease hi' hop' _ _ _)
  split
  · exact counts_readOn hi
  split
  · exact .inl (stops_resolveAndRelease hi' hop' _ _ _)
  · exact .inl (stops_release hi' hop')

theorem counts_datagramReceived (hi : i < l.servers.length) (hop : (l.server i).op = none)
    (response : Datagram) (allocs : Allocs) (now : ℤ) :
    Counts l (l.datagramReceived i response allocs now) i := by
  unfold datagramReceived
  split
  · exact counts_finishResponse hi hop _ _
  · exact counts_dropResponse hi hop _ _ _
  · exact counts_dropResponse hi hop _ _ _
  · exact counts_dropResponse hi hop _ _ _
  · exact counts_dropResponse hi hop _ _ _
  · exact counts_dropResponse hi hop _ _ _
  · have hself := server_setServer
      { l.server i with answers := (collectAnswers response allocs (l.server i).answers).1 } hi i
    rw [if_pos rfl] at hself
    unfold acceptResponse
    dsimp only
    split
    · have hcounts := counts_finishResponse (l := l.setServer i _) (by simpa using hi)
        (by rw [hself]; exact hop) allocs.dupe now
      rw [Counts, hself] at hcounts
      exact hcounts
    · exact .inl (stops_callbackFailed (by simpa using hi))

theorem onQuerySent_goesOn (hi : i < l.servers.length) (hop : (l.server i).op = none)
    (failed cancelled dupe : Bool) (now : ℤ) :
    (l.onQuerySent i failed cancelled dupe now).Stops i ∨
      ((l.onQuerySent i failed cancelled dupe now).server i).responsesReceived =
        (l.server i).responsesReceived := by
  have hself := server_setServer { l.server i with sendIdx := (l.server i).sendIdx + 1 } hi i
  rw [if_pos rfl] at hself
  have hnext : ∀ op : Option Op, (((l.setServer i
      { l.server i with sendIdx := (l.server i).sendIdx + 1 }).setServer i
        { (l.setServer i { l.server i with sendIdx := (l.server i).sendIdx + 1 }).server i with
          op := op }).server i).responsesReceived = (l.server i).responsesReceived := by
    intro op
    rw [server_setServer _ (by simpa using hi), if_pos rfl, hself]
  unfold onQuerySent
  dsimp only
  split
  · split
    · exact .inl (stops_resolveAndRelease hi hop _ _ _)
    · exact .inl (stops_release hi hop)
  · split
    · exact .inr (hnext _)
    · exact .inr (hnext _)

end

/-- A server that goes on had its send completed, or it received a datagram and counted it. -/
theorem step_goesOn {l t : Lookup} {e : Event} {i : ℕ} (h : Inv none l) (hs : l.step e = some t)
    (he : e.server? = some i) :
    t.Stops i ∨
      ((l.server i).op = some .sending ∧ (t.server i).history = (l.server i).history ∧
        (t.server i).responsesReceived = (l.server i).responsesReceived) ∨
      ∃ received allocs now, e = .response i (some received) false allocs now ∧
        l.resolved = false ∧ (l.server i).op = some .reading ∧ (t.server i).op = some .reading ∧
        (t.server i).history = (l.server i).history ++ [received] ∧
        (t.server i).responsesReceived = (l.server i).responsesReceived + 1 := by
  cases e with
  | querySent i' failed cancelled dupe now =>
    obtain rfl := Option.some.inj he
    simp only [step] at hs
    split at hs
    · rename_i hop
      obtain rfl := Option.some.inj hs
      have hi := lt_of_op hop
      have hself := complete_server hi none
      have hi' : i' < (l.complete i' none).servers.length := by simpa [complete] using hi
      rw [(h.complete hop none).touch_eq]
      have hgoes := onQuerySent_goesOn hi' (by rw [hself]) failed cancelled dupe now
      have hkept := kept_onQuerySent hi' failed cancelled dupe now
      rw [hself] at hgoes hkept
      refine hgoes.imp id fun hcount => .inl ⟨hop, ?_, hcount⟩
      rw [hkept.history]
      exact List.append_nil _
    · cases hs
  | response i' datagram cancelled allocs now =>
    obtain rfl := Option.some.inj he
    simp only [step] at hs
    split at hs
    · rename_i hop
      obtain rfl := Option.some.inj hs
      have hi := lt_of_op hop.1
      have hself := complete_server hi datagram
      have hi' : i' < (l.complete i' datagram).servers.length := by simpa [complete] using hi
      have hidle : ((l.complete i' datagram).server i').op = none := by rw [hself]
      rw [(h.complete hop.1 datagram).touch_eq]
      unfold processDnsResponse
      split
      · exact .inl (stops_release hi' hidle)
      rename_i hlive
      push Not at hlive
      split
      · split
        · exact .inl (stops_resolveAndRelease hi' hidle _ _ _)
        · exact .inl (stops_release hi' hidle)
      · rename_i response
        have hcounts := counts_datagramReceived hi' hidle response allocs now
        have hkept := kept_datagramReceived hi' response allocs now
        rw [Counts, hself] at hcounts
        rw [hself] at hkept
        have hcancelled : cancelled = false := by simpa using hlive.1
        subst hcancelled
        rcases hcounts with hstops | ⟨hreads, hcount⟩
        · exact .inl hstops
        · exact .inr (.inr ⟨response, allocs, now, rfl, Bool.eq_false_iff.2 hlive.2, hop.1, hreads,
            hkept.history, hcount⟩)
    · cases hs
  | cleanup i' =>
    obtain rfl := Option.some.inj he
    simp only [step] at hs
    split at hs
    · rename_i hop
      obtain rfl := Option.some.inj hs
      have hi := lt_of_op hop
      exact .inl (stops_release (by simpa [complete] using hi) (by rw [complete_server hi]))
    · cases hs
  | attach callback alloc => cases he
  | evict => cases he

/-! ### The servers of a dual-stack lookup -/

/-- The server asks `queries` for `hosts` candidates, and its addresses come from candidates. -/
structure Asks (queries : List QuerySlot) (hosts : ℕ) (sd : ServerQueryData) : Prop where
  queries_eq : sd.queries = queries
  hosts_eq : sd.hostnamesLen = hosts
  supplied : sd.answers.results ≠ [] → ∃ c < hosts, Supplied queries sd.history c

/-- The addresses collected with a datagram come from candidates too. -/
theorem Asks.suppliedAfter {queries : List QuerySlot} {hosts : ℕ} {sd : ServerQueryData}
    (h : Asks queries hosts sd) (hlen : queries.length = hosts * 2) (response : Datagram)
    (allocs : Allocs) (hne : (answersAfter sd response allocs).results ≠ []) :
    ∃ c < hosts, Supplied queries (sd.history ++ [response]) c := by
  by_cases hsame : (answersAfter sd response allocs).results = sd.answers.results
  · obtain ⟨c, hc, hsup⟩ := h.supplied (hsame ▸ hne)
    exact ⟨c, hc, hsup.append _⟩
  · have hv : classify queries response = .accepted := by
      by_contra hv
      rw [← h.queries_eq] at hv
      exact hsame (congrArg Answers.results (if_neg hv))
    rw [answersAfter, h.queries_eq, if_pos hv] at hsame
    obtain ⟨slot, hslot, hmatch⟩ := matchedSlot_of_accepted hv
    refine ⟨slot / 2, by omega, response, by simp, hv, ?_, collectAnswers_supplies hsame⟩
    rw [hmatch]
    rfl

theorem Asks.step {queries : List QuerySlot} {hosts : ℕ} {l t : Lookup} {e : Event} {j : ℕ}
    (hask : Asks queries hosts (l.server j)) (hlen : queries.length = hosts * 2)
    (h : Inv none l) (hphase : ∀ j, InPhase (l.server j)) (hs : l.step e = some t) :
    Asks queries hosts (t.server j) := by
  obtain ⟨i, -, he, hsp⟩ | ⟨-, hsame⟩ := step_spends h hphase hs
  · by_cases hji : j = i
    · subst hji
      obtain ⟨received, hkept⟩ | ⟨response, allocs, now, -, -, hkept⟩ := step_own h hs he
      · refine ⟨hkept.queries.trans hask.queries_eq, hkept.hostnamesLen.trans hask.hosts_eq, ?_⟩
        rw [hkept.answers, hkept.history]
        intro hne
        obtain ⟨c, hc, hsup⟩ := hask.supplied hne
        exact ⟨c, hc, hsup.append received⟩
      · refine ⟨hkept.queries.trans hask.queries_eq, hkept.hostnamesLen.trans hask.hosts_eq, ?_⟩
        rw [hkept.answers, hkept.history]
        exact hask.suppliedAfter hlen response allocs
    · obtain ⟨fd, hfd⟩ := hsp.others j hji
      rw [hfd]
      exact ⟨hask.queries_eq, hask.hosts_eq, hask.supplied⟩
  · rw [server_congr hsame]
    exact hask

/-! ### Both queries of the answering candidate -/

/-- Both queries of every candidate with addresses were answered. -/
def BothAnswered (queries : List QuerySlot) (hosts : ℕ) (history : List Datagram) : Prop :=
  ∀ c < hosts, Supplied queries history c →
    Answered queries history (2 * c) ∧ Answered queries history (2 * c + 1)

instance (queries : List QuerySlot) (hosts : ℕ) (history : List Datagram) :
    Decidable (BothAnswered queries hosts history) :=
  inferInstanceAs (Decidable (∀ c < hosts, _ → _))

/-- The slot of the other query of a candidate. -/
def companion (slot : ℕ) : ℕ := if slot % 2 = 0 then slot + 1 else slot - 1

/-- If the datagram is a response with addresses, its companion query was answered. -/
def Accompanied (queries : List QuerySlot) (history : List Datagram) (d : Datagram) : Prop :=
  classify queries d = .accepted → (collectAnswers d .ok {}).1.results ≠ [] →
    ∀ slot ∈ matchedSlot queries d, Answered queries history (companion slot)

instance (queries : List QuerySlot) (history : List Datagram) (d : Datagram) :
    Decidable (Accompanied queries history d) :=
  inferInstanceAs (Decidable (_ → _ → ∀ slot ∈ matchedSlot queries d, _))

/-- The datagrams of a server come in pairs: the first and the second, the third and the fourth, and so
on. With the second one of a pair, the companion queries of the responses with addresses in that pair have
been answered. -/
def Event.PairsUp (l : Lookup) : Event → Prop
  | .response i (some received) cancelled _ _ =>
    cancelled = false → l.resolved = false → ((l.server i).responsesReceived + 1) % 2 = 0 →
    ∀ d ∈ (l.server i).history.getLast?.toList ++ [received],
      Accompanied (l.server i).queries ((l.server i).history ++ [received]) d
  | _ => True

instance (l : Lookup) : (e : Event) → Decidable (e.PairsUp l)
  | .response _ (some _) _ _ _ =>
    inferInstanceAs (Decidable (_ → _ → _ → ∀ d ∈ _, Accompanied _ _ d))
  | .response _ none _ _ _ => isTrue trivial
  | .querySent .. => isTrue trivial
  | .cleanup _ => isTrue trivial
  | .attach .. => isTrue trivial
  | .evict => isTrue trivial

theorem Accompanied.append {queries : List QuerySlot} {history : List Datagram} {d : Datagram}
    (h : Accompanied queries history d) (new : List Datagram) :
    Accompanied queries (history ++ new) d := by
  intro hv hne slot hslot
  obtain ⟨d', hd', hrest⟩ := h hv hne slot hslot
  exact ⟨d', List.mem_append_left _ hd', hrest⟩

/-- Where each response with addresses has its companion, both queries of its candidate were answered. -/
theorem bothAnswered_of_accompanied {queries : List QuerySlot} {history : List Datagram}
    (h : ∀ d ∈ history, Accompanied queries history d) (hosts : ℕ) :
    BothAnswered queries hosts history := by
  rintro c - ⟨d, hd, hv, hc, hne⟩
  obtain ⟨slot, hslot, hhalf⟩ := Option.map_eq_some_iff.1 hc
  have hown : Answered queries history slot := by
    have hmatch := hslot
    unfold matchedSlot at hmatch
    split at hmatch
    · rename_i hlen
      obtain ⟨hlt, hid, -⟩ := List.findIdx?_eq_some_iff_getElem.1 hmatch
      refine ⟨d, hd, hlen, ?_⟩
      rw [List.getElem?_eq_getElem hlt]
      exact congrArg some (of_decide_eq_true hid)
    · exact nomatch hmatch
  have hother := h d hd hv hne slot hslot
  unfold companion at hother
  split at hother
  · obtain rfl : slot = 2 * c := by omega
    exact ⟨hown, hother⟩
  · obtain rfl : slot = 2 * c + 1 := by omega
    exact ⟨hother, hown⟩

/-- A server that reads has counted what it received, and in the pairs that are complete each response with
addresses has its companion. -/
structure Paired (queries : List QuerySlot) (sd : ServerQueryData) : Prop where
  sending : sd.op = some .sending → sd.history = []
  counted : sd.op = some .reading → sd.responsesReceived = sd.history.length
  complete : sd.op = some .reading → ∀ d ∈ sd.history.take (2 * (sd.history.length / 2)),
    Accompanied queries sd.history d

/-- The second datagram of a pair completes it. -/
theorem Paired.completes {l : Lookup} {i : ℕ} {received : Datagram} {allocs : Allocs} {now : ℤ}
    (hp : Paired (l.server i).queries (l.server i)) (hop : (l.server i).op = some .reading)
    (hok : (Event.response i (some received) false allocs now).PairsUp l) (hres : l.resolved = false)
    (heven : ((l.server i).responsesReceived + 1) % 2 = 0) :
    ∀ d ∈ (l.server i).history ++ [received],
      Accompanied (l.server i).queries ((l.server i).history ++ [received]) d := by
  have hpair := hok rfl hres heven
  have hcount := hp.counted hop
  generalize hhist : (l.server i).history = history at hpair hcount ⊢
  obtain rfl | ⟨earlier, last, rfl⟩ := List.eq_nil_or_concat' history
  · rw [hcount] at heven
    exact absurd heven (by decide)
  have hlen : (earlier ++ [last]).length = earlier.length + 1 := by simp
  have hearlier : ∀ d ∈ earlier, Accompanied (l.server i).queries (earlier ++ [last]) d := by
    intro d hd
    have hcomplete := hp.complete hop d
    rw [hhist] at hcomplete
    refine hcomplete ?_
    have htwo : 2 * ((earlier ++ [last]).length / 2) = earlier.length := by omega
    rw [htwo, List.take_left']
    · exact hd
    · rfl
  intro d hd
  rw [List.append_assoc, List.mem_append] at hd
  rcases hd with hd | hd
  · exact (hearlier d hd).append _
  · exact hpair d (by simpa using hd)

theorem Paired.step {queries : List QuerySlot} {l t : Lookup} {e : Event} {j : ℕ}
    (hp : Paired queries (l.server j)) (hq : (l.server j).queries = queries) (h : Inv none l)
    (hphase : ∀ j, InPhase (l.server j)) (hok : e.PairsUp l) (hs : l.step e = some t) :
    Paired queries (t.server j) := by
  subst hq
  obtain ⟨i, -, he, hsp⟩ | ⟨-, hsame⟩ := step_spends h hphase hs
  · by_cases hji : j = i
    · subst hji
      obtain hstops | ⟨hsending, hhistory, hcount⟩ |
        ⟨received, allocs, now, rfl, hres, hop, hreads, hhistory, hcount⟩ := step_goesOn h hs he
      · exact ⟨fun hop => absurd hop hstops.2, fun hop => absurd hop hstops.1,
          fun hop => absurd hop hstops.1⟩
      · rw [hp.sending hsending] at hhistory
        have hzero := hphase j
        simp only [InPhase, hsending] at hzero
        refine ⟨fun _ => hhistory, fun _ => ?_, fun _ => ?_⟩
        · rw [hcount, hzero.2, hhistory]
          rfl
        · simp [hhistory]
      · have hlen := hp.counted hop
        have hsending : (t.server j).op ≠ some .sending := by
          rw [hreads]
          decide
        refine ⟨fun hop' => absurd hop' hsending, fun _ => ?_, fun _ => ?_⟩
        · rw [hcount, hhistory, hlen, List.length_append]
          rfl
        · rw [hhistory]
          intro d hd
          by_cases heven : ((l.server j).responsesReceived + 1) % 2 = 0
          · exact hp.completes hop hok hres heven d (List.mem_of_mem_take hd)
          · have htwo : 2 * (((l.server j).history ++ [received]).length / 2) =
                (l.server j).history.length := by
              rw [List.length_append, List.length_singleton]
              omega
            rw [htwo, List.take_left] at hd
            refine (hp.complete hop d ?_).append _
            rwa [show 2 * ((l.server j).history.length / 2) = (l.server j).history.length by omega,
              List.take_length]
    · obtain ⟨fd, hfd⟩ := hsp.others j hji
      rw [hfd]
      exact ⟨hp.sending, hp.counted, hp.complete⟩
  · rw [server_congr hsame]
    exact hp

/-- How a dual-stack lookup may be resolved by a datagram: the addresses come from a candidate, and
both its queries were answered. -/
def FromAnsweredCandidate (start : Lookup) (r : Resolution) : Prop :=
  r.cause = .datagram → r.answers.ptrResults = [] → r.answers.results ≠ [] →
    (∃ c < (start.server r.server).hostnamesLen,
      Supplied (start.server r.server).queries r.history c) ∧
    BothAnswered (start.server r.server).queries (start.server r.server).hostnamesLen r.history

theorem queue_dualStack {hostname : Datagram} {userCallback : CallbackId}
    {configuration : Configuration} {ids : ℕ → ℕ → UInt16} {fds : ℕ → ℕ} {l : Lookup}
    (h : queue hostname userCallback configuration true none ids fds = some l) {j : ℕ}
    (hj : j < l.servers.length) :
    0 < (l.server j).hostnamesLen ∧
      (l.server j).queries.length = (l.server j).hostnamesLen * 2 ∧
      (l.server j).answers.results = [] := by
  unfold queue at h
  dsimp only at h
  split at h
  · exact nomatch h
  rename_i hne
  obtain rfl := Option.some.inj h
  simp only [List.length_mapIdx] at hj
  simp [server, hj, length_buildQueries, questionTypes]
  omega

/-- Nothing was received before the queries are sent. -/
theorem queue_paired {hostname : Datagram} {userCallback : CallbackId}
    {configuration : Configuration} {ids : ℕ → ℕ → UInt16} {fds : ℕ → ℕ} {l : Lookup}
    (h : queue hostname userCallback configuration true none ids fds = some l) (j : ℕ) :
    Paired (l.server j).queries (l.server j) := by
  have hfresh : (l.server j).history = [] ∧ (l.server j).op ≠ some .reading := by
    unfold queue at h
    dsimp only at h
    split at h
    · exact nomatch h
    obtain rfl := Option.some.inj h
    by_cases hj : j < configuration.servers.length
    · simp [server, hj]
    · rw [server_of_le (by simpa using hj)]
      exact ⟨rfl, by decide⟩
  exact ⟨fun _ => hfresh.1, fun hop => absurd hop hfresh.2, fun hop => absurd hop hfresh.2⟩

/-- An event leaves the queries of a server alone. -/
theorem step_queries {l t : Lookup} {e : Event} (h : Inv none l) (hphase : ∀ j, InPhase (l.server j))
    (hs : l.step e = some t) (j : ℕ) : (t.server j).queries = (l.server j).queries := by
  obtain ⟨i, -, he, hsp⟩ | ⟨-, hsame⟩ := step_spends h hphase hs
  · by_cases hji : j = i
    · subst hji
      obtain ⟨received, hkept⟩ | ⟨response, allocs, now, -, -, hkept⟩ := step_own h hs he
      · exact hkept.queries
      · exact hkept.queries
    · obtain ⟨fd, hfd⟩ := hsp.others j hji
      rw [hfd]
  · rw [server_congr hsame]

/-- One datagram. -/
theorem fromAnsweredCandidate_of_resolvedBy {start l t : Lookup} {e : Event} {r : Resolution}
    (hask : ∀ j < l.servers.length,
      Asks (start.server j).queries (start.server j).hostnamesLen (l.server j))
    (hstart : ∀ j < l.servers.length, 0 < (start.server j).hostnamesLen ∧
      (start.server j).queries.length = (start.server j).hostnamesLen * 2)
    (hphase : ∀ j, InPhase (l.server j)) (hpaired : ∀ j, Paired (l.server j).queries (l.server j))
    (hs : l.step e = some t) (hres : l.resolved = false) (hok : e.PairsUp l)
    (hby : ResolvedBy l e r) : FromAnsweredCandidate start r := by
  intro hcause hptr hne
  cases hby with
  | sendFailed cause _ _ => exact absurd (cause.symm.trans hcause) (by decide)
  | readFailed cause _ _ => exact absurd (cause.symm.trans hcause) (by decide)
  | @datagram i response allocs now _ _ on =>
    have hi := step_response_lt hs
    have hself := complete_server hi (some response)
    obtain ⟨hserver, hanswers, hhistory, -, hcount, -⟩ := on
    rw [hself] at hanswers hhistory hcount
    replace hanswers : r.answers = answersAfter (l.server i) response allocs := hanswers
    replace hhistory : r.history = (l.server i).history ++ [response] := hhistory
    obtain ⟨hpos, hlen⟩ := hstart i hi
    have hasks := hask i hi
    have htypes : typesPerHost (l.server i) = 2 := by
      unfold typesPerHost
      rw [hasks.hosts_eq, hasks.queries_eq, if_pos ⟨hpos, hlen.ge⟩]
    have hop : (l.server i).op = some .reading := by
      simp only [Lookup.step] at hs
      split at hs
      · rename_i hop
        exact hop.1
      · cases hs
    have hmore := hphase i
    simp only [InPhase, hop, hasks.queries_eq] at hmore
    -- the last datagram of a server is the second one of a pair as well
    have heven : ((l.server i).responsesReceived + 1) % 2 = 0 := by
      obtain hlast | ⟨-, heven⟩ := hcount
      · replace hlast : (l.server i).queries.length ≤ (l.server i).responsesReceived + 1 := hlast
        rw [hasks.queries_eq] at hlast
        omega
      · replace heven : ((l.server i).responsesReceived + 1) % typesPerHost (l.server i) = 0 := heven
        rwa [htypes] at heven
    have hboth := bothAnswered_of_accompanied ((hpaired i).completes hop hok hres heven)
      (start.server i).hostnamesLen
    rw [hasks.queries_eq] at hboth
    rw [hserver, hhistory]
    exact ⟨hasks.suppliedAfter hlen response allocs (hanswers ▸ hne), hboth⟩

/-- A response with one address to the query for the IPv4 address of the name `a`, with id 1. -/
def responseA : Datagram :=
  [0, 1, 0x81, 0x80, 0, 1, 0, 1, 0, 0, 0, 0, 1, 97, 0, 0, 1, 0, 1,
    0xC0, 0x0C, 0, 1, 0, 1, 0, 0, 0, 60, 0, 4, 10, 0, 0, 1]

/-- An empty response to the query for its IPv6 address, with id 2. -/
def responseAAAA : Datagram :=
  [0, 2, 0x81, 0x80, 0, 1, 0, 0, 0, 0, 0, 0, 1, 97, 0, 0, 28, 0, 1]

end Lookup

end Talyn.Dns
