import Talyn.Dns.DualStack

/-!
# Candidate names

A name without a dot is looked up under every search suffix and then as it stands
(`get_hostname_array`). A server sends the queries of all candidates on one socket and appends the
addresses of every accepted response to one list, which is published when the count of datagrams
says that a candidate is done. Nothing keeps the addresses of two candidates apart: the published
list is that of one candidate as long as no server accepts addresses for a second one
(`SameCandidate`).
-/

namespace Talyn.Dns

/-! ### The candidate a datagram answers -/

/-- The name asked in the slot a datagram belongs to; `perHost` slots stand for each candidate. -/
def candidateName (hostnames : List Datagram) (perHost : ℕ) (queries : List QuerySlot)
    (d : Datagram) : Option Datagram :=
  (matchedSlot queries d).bind fun slot => hostnames[slot / perHost]?

/-- The questions of all candidates, in the order of the slots. -/
theorem getElem?_questions {types : List QuestionType} {hostnames : List Datagram} {slot : ℕ}
    {name : Datagram} (hname : hostnames[slot / types.length]? = some name)
    (hpos : 0 < types.length) :
    ∃ type ∈ types, (hostnames.flatMap fun hostname =>
      types.map fun type => (hostname, type))[slot]? = some (name, type) := by
  induction hostnames generalizing slot with
  | nil => exact nomatch hname
  | cons hostname hostnames ih =>
    rw [List.flatMap_cons]
    by_cases hlt : slot < types.length
    · rw [Nat.div_eq_of_lt hlt, List.getElem?_cons_zero] at hname
      obtain rfl := Option.some.inj hname
      refine ⟨types[slot], List.getElem_mem hlt, ?_⟩
      rw [List.getElem?_append_left (by simpa using hlt)]
      simp [hlt]
    · replace hlt := Nat.le_of_not_lt hlt
      rw [← Nat.sub_add_cancel hlt, Nat.add_div_right _ hpos, List.getElem?_cons_succ] at hname
      obtain ⟨type, htype, hget⟩ := ih hname
      refine ⟨type, htype, ?_⟩
      rw [List.getElem?_append_right (by simpa using hlt), List.length_map]
      exact hget

/-- The query in a slot asks for the candidate of the slot. -/
theorem getElem?_buildQueries {types : List QuestionType} {hostnames : List Datagram} {slot : ℕ}
    {name : Datagram} (ids : ℕ → UInt16) (hname : hostnames[slot / types.length]? = some name)
    (hpos : 0 < types.length) :
    ∃ type ∈ types, (buildQueries types hostnames ids)[slot]? =
      some ⟨(ids slot).toNat, buildQuery (ids slot).toNat type name⟩ := by
  obtain ⟨type, htype, hget⟩ := getElem?_questions hname hpos
  refine ⟨type, htype, ?_⟩
  rw [buildQueries, List.getElem?_mapIdx, hget]
  rfl

/-- A datagram is accepted and has addresses. -/
def Bears (queries : List QuerySlot) (d : Datagram) : Prop :=
  classify queries d = .accepted ∧ (collectAnswers d .ok {}).1.results ≠ []

instance (queries : List QuerySlot) (d : Datagram) : Decidable (Bears queries d) :=
  inferInstanceAs (Decidable (_ ∧ _))

/-- The address is in an accepted response for the candidate. -/
def AnsweredFor (hostnames : List Datagram) (perHost : ℕ) (queries : List QuerySlot)
    (history : List Datagram) (name : Datagram) (a : Address) : Prop :=
  ∃ d ∈ history, classify queries d = .accepted ∧
    candidateName hostnames perHost queries d = some name ∧ a ∈ (collectAnswers d .ok {}).1.results

instance (hostnames : List Datagram) (perHost : ℕ) (queries : List QuerySlot)
    (history : List Datagram) (name : Datagram) (a : Address) :
    Decidable (AnsweredFor hostnames perHost queries history name a) :=
  inferInstanceAs (Decidable (∃ d ∈ history, _ ∧ _ ∧ _))

/-- All addresses of a list were answered for one of the candidates. -/
def OneCandidate (hostnames : List Datagram) (perHost : ℕ) (queries : List QuerySlot)
    (history : List Datagram) (addresses : List Address) : Prop :=
  ∃ name ∈ hostnames, ∀ a ∈ addresses, AnsweredFor hostnames perHost queries history name a

instance (hostnames : List Datagram) (perHost : ℕ) (queries : List QuerySlot)
    (history : List Datagram) (addresses : List Address) :
    Decidable (OneCandidate hostnames perHost queries history addresses) :=
  inferInstanceAs (Decidable (∃ name ∈ hostnames, ∀ a ∈ addresses, _))

/-! ### Addresses come out of a datagram -/

theorem Answers.append?_address {a a' : Answers} {answer : Answer} {address : Address}
    (h : a.append? answer = some a') (hptr : answer.ptrName = none)
    (haddress : answer.result = some address) : a'.results = a.results ++ [address] := by
  unfold Answers.append? at h
  rw [hptr, haddress] at h
  obtain rfl := Option.some.inj h
  rfl

theorem parseAnswers_results_subset (data : Datagram) (allocs : Allocs) (left offset : ℕ)
    (a : Answers) : a.results ⊆ (parseAnswers data allocs left offset a).1.results := by
  induction left generalizing offset a with
  | zero => exact List.Subset.refl _
  | succ left ih =>
    unfold parseAnswers
    split
    · exact List.Subset.refl _
    rename_i next answer _
    split
    · exact ih next a
    rename_i a' happend
    split
    · refine List.Subset.trans ?_ (ih next a')
      unfold Answers.append? at happend
      split at happend
      · obtain rfl := Option.some.inj happend
        exact List.Subset.refl _
      · obtain rfl := Option.some.inj happend
        exact List.subset_append_left _ _
      · cases happend
    · exact List.Subset.refl _

/-- Whatever allocations fail, a collected address was there before or stands in the datagram. -/
theorem mem_parseAnswers {data : Datagram} {allocs : Allocs} {left offset : ℕ} {a : Answers}
    {x : Address} (h : x ∈ (parseAnswers data allocs left offset a).1.results) (b : Answers) :
    x ∈ a.results ∨ x ∈ (parseAnswers data .ok left offset b).1.results := by
  induction left generalizing offset a b with
  | zero => exact .inl h
  | succ left ih =>
    unfold parseAnswers at h ⊢
    split at h
    · exact .inl h
    rename_i next answer hparse
    obtain ⟨hptr, answer', hparse', hresult, hptr'⟩ := parseIndividualDnsResult_alloc hparse
    rw [show Allocs.ok.name (left + 1) = true from rfl, hparse']
    simp only [show Allocs.ok.append (left + 1) = true from rfl, if_true]
    cases haddress : answer.result with
    | none =>
      -- not an address: both lists of addresses go on as they are
      have hleft : ∃ a'' : Answers, a''.results = a.results ∧
          (x ∈ a.results ∨ x ∈ (parseAnswers data allocs left next a'').1.results) := by
        split at h
        · exact ⟨a, rfl, .inr h⟩
        · rename_i a' happend
          split at h
          · exact ⟨a', Answers.append?_results happend haddress, .inr h⟩
          · exact ⟨a, rfl, .inl h⟩
      obtain ⟨a'', ha'', hx | hx⟩ := hleft
      · exact .inl hx
      · rw [← ha'']
        split
        · exact ih hx b
        · exact ih hx _
    | some address =>
      have hne : answer.result ≠ none := by simp [haddress]
      have hb : b.append? answer' =
          some { b with results := b.results ++ [address],
                        minTtl := min b.minTtl answer'.ttl } := by
        simp [Answers.append?, hptr' hne, hresult, haddress]
      rw [hb]
      split at h
      · rename_i happend
        simp [Answers.append?, hptr hne, haddress] at happend
      · rename_i a' happend
        split at h
        · obtain hx | hx := ih h { b with results := b.results ++ [address],
                                          minTtl := min b.minTtl answer'.ttl }
          · rw [Answers.append?_address happend (hptr hne) haddress, List.mem_append] at hx
            refine hx.imp id fun hx => parseAnswers_results_subset _ _ _ _ _ ?_
            exact List.mem_append_right _ hx
          · exact .inr hx
        · exact .inl h

theorem mem_collectAnswers {d : Datagram} {allocs : Allocs} {a : Answers} {x : Address}
    (h : x ∈ (collectAnswers d allocs a).1.results) :
    x ∈ a.results ∨ x ∈ (collectAnswers d .ok {}).1.results :=
  mem_parseAnswers h {}

section

variable {hostnames : List Datagram} {perHost : ℕ} {queries : List QuerySlot}
  {history : List Datagram} {addresses : List Address}

theorem OneCandidate.append (h : OneCandidate hostnames perHost queries history addresses)
    (new : List Datagram) : OneCandidate hostnames perHost queries (history ++ new) addresses := by
  obtain ⟨name, hname, hall⟩ := h
  refine ⟨name, hname, fun a ha => ?_⟩
  obtain ⟨d, hd, hrest⟩ := hall a ha
  exact ⟨d, List.mem_append_left _ hd, hrest⟩

/-- An accepted datagram answers a candidate. -/
theorem candidateName_of_accepted (hlen : queries.length = hostnames.length * perHost) {d : Datagram}
    (h : classify queries d = .accepted) :
    ∃ name ∈ hostnames, candidateName hostnames perHost queries d = some name := by
  obtain ⟨slot, hslot, hmatch⟩ := matchedSlot_of_accepted h
  have hlt : slot / perHost < hostnames.length :=
    Nat.div_lt_of_lt_mul (by rwa [Nat.mul_comm, ← hlen])
  refine ⟨hostnames[slot / perHost], List.getElem_mem hlt, ?_⟩
  rw [candidateName, hmatch]
  exact List.getElem?_eq_getElem hlt

/-- The addresses collected with a datagram are of one candidate when the datagrams with addresses
are. -/
theorem OneCandidate.collect (h : OneCandidate hostnames perHost queries history addresses)
    (hlen : queries.length = hostnames.length * perHost) {d : Datagram}
    (hacc : classify queries d = .accepted)
    (hsame : Bears queries d → ∀ d' ∈ history, Bears queries d' →
      candidateName hostnames perHost queries d' = candidateName hostnames perHost queries d)
    {addresses' : List Address}
    (hnew : ∀ x ∈ addresses', x ∈ addresses ∨ x ∈ (collectAnswers d .ok {}).1.results) :
    OneCandidate hostnames perHost queries (history ++ [d]) addresses' := by
  by_cases hbears : (collectAnswers d .ok {}).1.results = []
  · obtain ⟨name, hname, hall⟩ := h.append [d]
    refine ⟨name, hname, fun x hx => ?_⟩
    obtain hold | hin := hnew x hx
    · exact hall x hold
    · rw [hbears] at hin
      exact nomatch hin
  · obtain ⟨name, hname, hcand⟩ := candidateName_of_accepted hlen hacc
    refine ⟨name, hname, fun x hx => ?_⟩
    obtain hold | hin := hnew x hx
    · -- an earlier address stands in an earlier datagram, which is for the same candidate
      obtain ⟨name', -, hall⟩ := h
      obtain ⟨d', hd', hacc', -, hx'⟩ := hall x hold
      refine ⟨d', List.mem_append_left _ hd', hacc', ?_, hx'⟩
      rw [hsame ⟨hacc, hbears⟩ d' hd' ⟨hacc', List.ne_nil_of_mem hx'⟩, hcand]
    · exact ⟨d, by simp, hacc, hcand, hin⟩

end

/-- `get_address_list`. -/
def Record.getAddressList (r : Record) : Option (List Address) :=
  match r.state with
  | .resolved addressList => some addressList
  | _ => none

namespace Lookup

/-! ### What is published -/

/-- The address list in the cache. -/
def stored (l : Lookup) : Option (List Address) := l.record.bind Record.getAddressList

/-- What is in the cache are the answers the lookup was resolved with. -/
structure Published (l : Lookup) : Prop where
  iff : l.resolved = l.resolution.isSome
  stored : ∀ addresses, l.stored = some addresses →
    ∃ r, l.resolution = some r ∧ r.answers.results = addresses

namespace Published

variable {l l' : Lookup}

/-- The outcome stands, and the record is the same or has no addresses any more. -/
theorem congr (h : Published l) (hout : l'.outcome = l.outcome)
    (hs : l'.stored = l.stored ∨ l'.stored = none) : Published l' := by
  obtain ⟨hresolved, hresolution⟩ := Prod.mk.inj hout
  refine ⟨by rw [hresolved, hresolution, h.iff], ?_⟩
  intro addresses hstored
  rw [hresolution]
  obtain hsame | hnone := hs
  · exact h.stored _ (hsame ▸ hstored)
  · rw [hnone] at hstored
    exact nomatch hstored

theorem of_control (h : Published l) (hc : l'.control = l.control) : Published l' := by
  refine h.congr (outcome_of_control hc) (.inl ?_)
  rw [Lookup.stored, Lookup.stored, show l'.record = l.record from congrArg Control.record hc]

theorem touch (h : Published l) : Published l.touch := by
  refine h.congr (outcome_touch l) (.inl ?_)
  unfold Lookup.touch
  split <;> rfl

theorem controlRelease (h : Published l) : Published l.controlRelease := by
  refine h.congr (outcome_controlRelease l) ?_
  unfold Lookup.controlRelease
  split
  · exact .inl rfl
  simp only [emit]
  split
  · exact .inl rfl
  split
  · exact .inl rfl
  · right
    simp only [Lookup.stored, dispatchAll, discardRecord, setRecord]
    split
    · rfl
    · rename_i hnone
      exact congrArg (Option.bind · Record.getAddressList) hnone

theorem finishServer (h : Published l) (i : ℕ) : Published (l.finishServer i) :=
  h.of_control ((control_cancel (l.setServer i _) i).trans (control_setServer l i _))

theorem release (h : Published l) (i : ℕ) : Published (l.release i) := by
  unfold Lookup.release
  dsimp only
  split
  · exact h.touch
  split
  · exact (h.touch.finishServer i).controlRelease
  · exact h.touch.finishServer i

/-- The copy for the cache holds the answers of the server. -/
theorem stored_setupRecord {a : Answers} {dupe : Bool} {now : ℤ}
    (h : l.setupRecord a dupe now = some l') :
    l'.stored = l.stored ∨ l'.stored = none ∨ l'.stored = some a.results := by
  unfold setupRecord at h
  split at h
  · obtain rfl := Option.some.inj h
    exact .inl rfl
  have hset : ∀ r : Record, (l.setRecord r).stored = none ∨
      (l.setRecord r).stored = r.getAddressList := by
    intro r
    simp only [Lookup.stored, setRecord]
    split
    · exact .inr rfl
    · rename_i hnone
      exact .inl (congrArg (Option.bind · Record.getAddressList) hnone)
  right
  split at h
  · split at h
    · obtain rfl := Option.some.inj h
      exact .inl ((hset _).elim id fun hr => hr)
    · cases h
  · split at h
    · obtain rfl := Option.some.inj h
      exact hset _
    · cases h
  · obtain rfl := Option.some.inj h
    exact .inl ((hset _).elim id fun hr => hr)

theorem markResolved (h : Published l) (i : ℕ) (cause : Cause) (dupe : Bool) (now : ℤ) :
    Published (l.markResolved i cause dupe now).1 := by
  have ht := h.touch
  have htouch := Prod.mk.inj (outcome_touch l)
  unfold Lookup.markResolved
  split
  · exact ht
  rename_i hres
  replace hres : l.touch.resolved = false := by simpa using hres
  have hnone : l.touch.resolution = none := by
    rw [← Option.not_isSome_iff_eq_none, ← ht.iff, hres]
    exact Bool.false_ne_true
  -- an unresolved lookup has no addresses in the cache
  have hstored : l.touch.stored = none := by
    by_contra hne
    obtain ⟨addresses, haddresses⟩ := Option.ne_none_iff_exists'.1 hne
    obtain ⟨r, hr, -⟩ := ht.stored _ haddresses
    exact nomatch hnone.symm.trans hr
  have hcontrol := control_cancelUnfinished { l.touch with resolved := true }
  have hcancel : ({ l.touch with resolved := true }.cancelUnfinished).stored = none :=
    (congrArg (Option.bind · Record.getAddressList) (congrArg Control.record hcontrol)).trans hstored
  dsimp only
  split
  · refine ⟨?_, fun addresses ha => nomatch hcancel.symm.trans ha⟩
    exact (congrArg Option.isSome ((congrArg Control.resolution hcontrol).trans hnone)).symm
  · rename_i l'' hsetup
    have hresolved : l''.resolved = true := by
      obtain ⟨-, rfl⟩ | ⟨-, r, -, rfl⟩ := setupRecord_cases hsetup
      · exact congrArg Control.resolved hcontrol
      · exact (Prod.mk.inj (outcome_setRecord _ r)).1.trans (congrArg Control.resolved hcontrol)
    refine ⟨hresolved, fun addresses ha => ⟨_, rfl, ?_⟩⟩
    replace ha : l''.stored = some addresses := ha
    obtain hs | hs | hs := stored_setupRecord hsetup
    · rw [hs, hcancel] at ha
      exact nomatch ha
    · rw [hs] at ha
      exact nomatch ha
    · exact Option.some.inj (hs.symm.trans ha)

theorem step {e : Event} {t : Lookup} (h : Published l) (hs : l.step e = some t) : Published t := by
  cases he : e.completes with
  | true =>
    exact completion_keeps h (fun l i sd _ hl => hl.of_control (control_setServer l i sd))
      (fun l hl => hl.touch) (fun l i hl => hl.release i)
      (fun l i cause dupe now hl => hl.markResolved i cause dupe now) he hs
  | false =>
    cases e with
    | querySent i failed cancelled dupe now => exact nomatch he
    | response i datagram cancelled allocs now => exact nomatch he
    | cleanup i => exact nomatch he
    | attach callback alloc =>
      obtain ⟨r, -, rfl⟩ := Option.map_eq_some_iff.1 hs
      unfold appendCallback
      split
      · dsimp only
        split
        · exact h.touch
        · exact h.touch.congr rfl (.inl rfl)
      · exact h
    | evict =>
      obtain ⟨r, -, rfl⟩ := Option.map_eq_some_iff.1 hs
      unfold evictRecord
      split
      · exact h.touch.congr rfl (.inr rfl)
      · exact h.congr rfl (.inr rfl)

end Published

/-! ### The answers of one candidate -/

/-- The server asks `queries`, and its addresses were answered for one of the candidates. -/
structure Collects (hostnames : List Datagram) (perHost : ℕ) (queries : List QuerySlot)
    (sd : ServerQueryData) : Prop where
  queries_eq : sd.queries = queries
  one : OneCandidate hostnames perHost queries sd.history sd.answers.results

/-- A server that accepts a response with addresses has accepted responses with addresses for the
same candidate only. -/
def Event.SameCandidate (hostnames : List Datagram) (perHost : ℕ) (l : Lookup) : Event → Prop
  | .response i (some received) cancelled _ _ =>
    cancelled = false → l.resolved = false → Bears (l.server i).queries received →
    ∀ d ∈ (l.server i).history, Bears (l.server i).queries d →
      candidateName hostnames perHost (l.server i).queries d =
        candidateName hostnames perHost (l.server i).queries received
  | _ => True

instance (hostnames : List Datagram) (perHost : ℕ) (l : Lookup) :
    (e : Event) → Decidable (e.SameCandidate hostnames perHost l)
  | .response _ (some _) _ _ _ => inferInstanceAs (Decidable (_ → _ → _ → ∀ d ∈ _, _ → _))
  | .response _ none _ _ _ => isTrue trivial
  | .querySent .. => isTrue trivial
  | .cleanup _ => isTrue trivial
  | .attach .. => isTrue trivial
  | .evict => isTrue trivial

section

variable {hostnames : List Datagram} {perHost : ℕ} {queries : List QuerySlot} {l t : Lookup}
  {e : Event}

/-- The answers after a datagram are of one candidate. -/
theorem Collects.after {i : ℕ} {response : Datagram} {allocs : Allocs} {now : ℤ}
    (h : Collects hostnames perHost queries (l.server i))
    (hlen : queries.length = hostnames.length * perHost)
    (hok : Event.SameCandidate hostnames perHost l (.response i (some response) false allocs now))
    (hres : l.resolved = false) :
    OneCandidate hostnames perHost queries ((l.server i).history ++ [response])
      (answersAfter (l.server i) response allocs).results := by
  have hsame := hok rfl hres
  rw [h.queries_eq] at hsame
  by_cases hv : classify queries response = .accepted
  · refine h.one.collect hlen hv hsame fun x hx => ?_
    rw [answersAfter, h.queries_eq, if_pos hv] at hx
    exact mem_collectAnswers hx
  · rw [answersAfter, h.queries_eq, if_neg hv]
    exact h.one.append _

theorem Collects.step {j : ℕ} (h : Collects hostnames perHost queries (l.server j))
    (hlen : queries.length = hostnames.length * perHost) (hinv : Inv none l)
    (hphase : ∀ j, InPhase (l.server j)) (hok : e.SameCandidate hostnames perHost l)
    (hs : l.step e = some t) : Collects hostnames perHost queries (t.server j) := by
  obtain ⟨i, -, he, hsp⟩ | ⟨-, hsame⟩ := step_spends hinv hphase hs
  · by_cases hji : j = i
    · subst hji
      obtain ⟨received, hkept⟩ | ⟨response, allocs, now, rfl, hres, hkept⟩ := step_own hinv hs he
      · refine ⟨hkept.queries.trans h.queries_eq, ?_⟩
        rw [hkept.answers, hkept.history]
        exact h.one.append received
      · refine ⟨hkept.queries.trans h.queries_eq, ?_⟩
        rw [hkept.answers, hkept.history]
        exact h.after hlen hok hres
    · obtain ⟨fd, hfd⟩ := hsp.others j hji
      rw [hfd]
      exact ⟨h.queries_eq, h.one⟩
  · rw [server_congr hsame]
    exact h

/-- The resolution holds addresses of one candidate. -/
def ResolvedForOne (hostnames : List Datagram) (perHost : ℕ) (start : Lookup) (r : Resolution) :
    Prop :=
  OneCandidate hostnames perHost (start.server r.server).queries r.history r.answers.results

/-- A server resolves with what it has collected, with the last datagram or without. -/
theorem resolvedForOne_of_resolvedBy {start : Lookup} {r : Resolution}
    (hcollect : ∀ j < l.servers.length,
      Collects hostnames perHost (start.server j).queries (l.server j))
    (hlen : ∀ j < l.servers.length,
      (start.server j).queries.length = hostnames.length * perHost)
    (hs : l.step e = some t) (hres : l.resolved = false)
    (hok : e.SameCandidate hostnames perHost l) (hby : ResolvedBy l e r) :
    ResolvedForOne hostnames perHost start r := by
  have hfailed : ∀ i < l.servers.length, ∀ cause,
      ResolvedForOne hostnames perHost start ((l.complete i none).resolutionBy i cause) := by
    intro i hi cause
    have hone := (hcollect i hi).one.append []
    unfold ResolvedForOne resolutionBy
    rw [complete_server hi]
    exact hone
  cases hby with
  | sendFailed cause last made =>
    simp only [step] at hs
    split at hs
    · rename_i hop
      rw [made]
      exact hfailed _ (lt_of_op hop) _
    · cases hs
  | readFailed cause entitled made =>
    rw [made]
    exact hfailed _ (step_response_lt hs) _
  | @datagram i response allocs now _ _ on =>
    have hi := step_response_lt hs
    have hself := complete_server hi (some response)
    obtain ⟨hserver, hanswers, hhistory, -, -, -⟩ := on
    rw [hself] at hanswers hhistory
    replace hanswers : r.answers = answersAfter (l.server i) response allocs := hanswers
    replace hhistory : r.history = (l.server i).history ++ [response] := hhistory
    unfold ResolvedForOne
    rw [hserver, hanswers, hhistory]
    exact (hcollect i hi).after (hlen i hi) hok hres

end

theorem queue_collects {hostname : Datagram} {userCallback : CallbackId}
    {configuration : Configuration} {ipv6Supported : Bool} {questionType : Option QuestionType}
    {ids : ℕ → ℕ → UInt16} {fds : ℕ → ℕ} {l : Lookup}
    (h : queue hostname userCallback configuration ipv6Supported questionType ids fds = some l)
    {j : ℕ} (hj : j < l.servers.length) :
    (l.server j).queries.length = (getHostnameArray hostname configuration.search).length *
        (questionTypes ipv6Supported questionType).length ∧
      Collects (getHostnameArray hostname configuration.search)
        (questionTypes ipv6Supported questionType).length (l.server j).queries (l.server j) := by
  unfold queue at h
  dsimp only at h
  split at h
  · exact nomatch h
  rename_i hne
  obtain rfl := Option.some.inj h
  simp only [List.length_mapIdx] at hj
  obtain ⟨name, hname⟩ := List.exists_mem_of_length_pos (Nat.pos_of_ne_zero hne)
  refine ⟨by simp [server, hj, length_buildQueries], rfl, name, hname, ?_⟩
  simp [server, hj]

/-- **The addresses of one candidate.** In every run of a lookup in which no server accepts addresses
for two candidates, the address list in the cache was answered, as a whole, for one candidate. -/
theorem addresses_from_one_candidate {hostname : Datagram} {userCallback : CallbackId}
    {configuration : Configuration} {ipv6Supported : Bool} {questionType : Option QuestionType}
    {ids : ℕ → ℕ → UInt16} {fds : ℕ → ℕ} {l t : Lookup}
    (h : queue hostname userCallback configuration ipv6Supported questionType ids fds = some l)
    (hrun : Runs.Reaches step (fun l e => e.SameCandidate
      (getHostnameArray hostname configuration.search)
      (questionTypes ipv6Supported questionType).length l) l t)
    {addresses : List Address} (hstored : t.stored = some addresses) :
    ∃ r, t.resolution = some r ∧
      OneCandidate (getHostnameArray hostname configuration.search)
        (questionTypes ipv6Supported questionType).length (l.server r.server).queries r.history
        addresses := by
  have hstarted := queue_started h
  have hfirst := fun j (hj : j < l.servers.length) => queue_collects h hj
  generalize getHostnameArray hostname configuration.search = hostnames at hrun hfirst ⊢
  generalize (questionTypes ipv6Supported questionType).length = perHost at hrun hfirst ⊢
  have hinv := hrun.invariant (I := fun u => (Inv none u ∧ ∀ j, InPhase (u.server j)) ∧
    u.servers.length = l.servers.length ∧
    (∀ j < l.servers.length, Collects hostnames perHost (l.server j).queries (u.server j)) ∧
    ResolvedAs (ResolvedForOne hostnames perHost l) u ∧ Published u)
    ⟨⟨hstarted.inv, hstarted.inPhase⟩, rfl, fun j hj => (hfirst j hj).2, hstarted.resolvedAs _, ?_⟩ ?_
  · obtain ⟨-, -, -, hresolved, hpublished⟩ := hinv
    obtain ⟨r, hr, rfl⟩ := hpublished.stored _ hstored
    exact ⟨r, hr, hresolved.resolution r hr⟩
  · refine ⟨(hstarted.resolvedAs fun _ => True).iff, fun addresses ha => ?_⟩
    have hrecord : l.record = some ⟨.pending, 9223372036854775807⟩ :=
      congrArg Control.record hstarted.control
    rw [Lookup.stored, hrecord] at ha
    exact nomatch ha
  · rintro u e v ⟨⟨hu, hphase⟩, hlen, hcollect, hp, hpub⟩ hok hs
    refine ⟨⟨hu.step hs, ?_⟩, ?_, ?_, ?_, hpub.step hs⟩
    · exact (step_shape hu hphase hs).1
    · exact (step_shape hu hphase hs).2.trans hlen
    · intro j hj
      exact (hcollect j hj).step (hfirst j hj).1 hu hphase hok hs
    · refine hp.step hu hs fun hres r hby => ?_
      rw [← hlen] at hcollect hfirst
      exact resolvedForOne_of_resolvedBy hcollect (fun j hj => (hfirst j hj).1) hs hres hok hby

/-- A response for `a.b` with the address 10.0.0.1, to the query with id 1. -/
def responseSearched : Datagram :=
  [0, 1, 0x81, 0x80, 0, 1, 0, 1, 0, 0, 0, 0, 1, 97, 1, 98, 0, 0, 1, 0, 1,
    0xC0, 0x0C, 0, 1, 0, 1, 0, 0, 0, 60, 0, 4, 10, 0, 0, 1]

/-- An empty response for `a.b`, to the query with id 2. -/
def responseSearchedAAAA : Datagram :=
  [0, 2, 0x81, 0x80, 0, 1, 0, 0, 0, 0, 0, 0, 1, 97, 1, 98, 0, 0, 28, 0, 1]

/-- A response for `a` with the address 10.0.0.2, to the query with id 3. -/
def responseBare : Datagram :=
  [0, 3, 0x81, 0x80, 0, 1, 0, 1, 0, 0, 0, 0, 1, 97, 0, 0, 1, 0, 1,
    0xC0, 0x0C, 0, 1, 0, 1, 0, 0, 0, 60, 0, 4, 10, 0, 0, 2]

/-- The four queries for `a` with the search suffix `b`, and all their sends. -/
def queueSearched : Option Lookup :=
  queue [97] 7 ⟨[.ip4 [1, 1, 1, 1]], [[98]], by simp⟩ true none
    (fun _ slot => UInt16.ofNat (slot + 1)) id

/-- Both responses for `a.b` come first. -/
theorem addresses_from_one_candidate_searched :
    ∃ l t r, queueSearched = some l ∧
      Runs.Reaches step (fun l e => e.SameCandidate [[97, 46, 98], [97]] 2 l) l t ∧
      t.stored = some [.ip4 [10, 0, 0, 1]] ∧ t.resolution = some r ∧
      OneCandidate [[97, 46, 98], [97]] 2 (l.server r.server).queries r.history
        [.ip4 [10, 0, 0, 1]] := by
  have hd : (queueSearched.bind fun l =>
      (Runs.execWhile step (fun l e => e.SameCandidate [[97, 46, 98], [97]] 2 l) l
        [.querySent 0 false false true 0, .querySent 0 false false true 0,
          .querySent 0 false false true 0, .querySent 0 false false true 0,
          .response 0 (some responseSearched) false .ok 0,
          .response 0 (some responseSearchedAAAA) false .ok 0]).bind stored) =
      some [.ip4 [10, 0, 0, 1]] := by
    decide +kernel
  obtain ⟨l, hl, hrun⟩ := Option.bind_eq_some_iff.1 hd
  obtain ⟨t, ht, hstored⟩ := Option.bind_eq_some_iff.1 hrun
  have hreach := Runs.Reaches.of_execWhile ht
  obtain ⟨r, hr, hone⟩ := addresses_from_one_candidate hl hreach hstored
  exact ⟨l, t, r, hl, hreach, hstored, hr, hone⟩

/-- The addresses of `a.b` and of `a` come in before the other responses: the count of datagrams is
even, and both addresses are published as one list. -/
theorem candidates_are_merged :
    ∃ l t r, queueSearched = some l ∧
      Runs.exec step l [.querySent 0 false false true 0, .querySent 0 false false true 0,
        .querySent 0 false false true 0, .querySent 0 false false true 0,
        .response 0 (some responseSearched) false .ok 0,
        .response 0 (some responseBare) false .ok 0] = some t ∧
      t.stored = some [.ip4 [10, 0, 0, 1], .ip4 [10, 0, 0, 2]] ∧ t.resolution = some r ∧
      ¬OneCandidate [[97, 46, 98], [97]] 2 (l.server r.server).queries r.history
        [.ip4 [10, 0, 0, 1], .ip4 [10, 0, 0, 2]] := by
  have hd : (queueSearched.bind fun l =>
      (Runs.exec step l [.querySent 0 false false true 0, .querySent 0 false false true 0,
        .querySent 0 false false true 0, .querySent 0 false false true 0,
        .response 0 (some responseSearched) false .ok 0,
        .response 0 (some responseBare) false .ok 0]).bind fun t => t.resolution.map fun r =>
      decide (t.stored = some [.ip4 [10, 0, 0, 1], .ip4 [10, 0, 0, 2]] ∧
        ¬OneCandidate [[97, 46, 98], [97]] 2 (l.server r.server).queries r.history
        [.ip4 [10, 0, 0, 1], .ip4 [10, 0, 0, 2]])) = some true := by
    decide +kernel
  obtain ⟨l, hl, hrun⟩ := Option.bind_eq_some_iff.1 hd
  obtain ⟨t, ht, hr⟩ := Option.bind_eq_some_iff.1 hrun
  obtain ⟨r, hr, hall⟩ := Option.map_eq_some_iff.1 hr
  obtain ⟨hstored, hnot⟩ := of_decide_eq_true hall
  exact ⟨l, t, r, hl, ht, hstored, hr, hnot⟩

end Lookup

end Talyn.Dns
