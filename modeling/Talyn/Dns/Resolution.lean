import Talyn.Dns.Accounting

/-!
# Who resolves a lookup, and with what

`step_resolution` says once what resolves a lookup: a send or read that fails, or a datagram. From it
follows that a lookup is resolved without an answer only by the last server, unless a server's last
datagram is truncated or does not echo its question: these branches of `process_dns_response` resolve
without looking at the other servers. Nor may `io.queue` fail and leave the operation in the ring
(`LookupRing`): its completion counts a server that has already been counted.
-/

namespace Talyn.Dns

/-- The verdicts that drop a datagram. -/
def Verdict.dropped : Verdict → Bool
  | .badFlags | .truncated | .badQdcount | .shortQuestion | .questionMismatch => true
  | .unmatched | .accepted => false

/-- The verdicts whose branch resolves the lookup without looking at the other servers. -/
def Verdict.unguarded : Verdict → Bool
  | .truncated | .badQdcount | .shortQuestion | .questionMismatch => true
  | .unmatched | .badFlags | .accepted => false

/-- The answers of a server after a datagram. -/
def answersAfter (sd : ServerQueryData) (response : Datagram) (allocs : Allocs) : Answers :=
  if classify sd.queries response = .accepted then (collectAnswers response allocs sd.answers).1
  else sd.answers

namespace Lookup

/-! ### The outcome -/

/-- Whether the lookup is resolved, and how. -/
def outcome (l : Lookup) : Bool × Option Resolution := (l.resolved, l.resolution)

theorem outcome_of_control {l l' : Lookup} (h : l'.control = l.control) : l'.outcome = l.outcome := by
  simp only [control, Control.mk.injEq] at h
  simp [outcome, h]

@[simp] theorem outcome_setServer (l : Lookup) (i : ℕ) (sd : ServerQueryData) :
    (l.setServer i sd).outcome = l.outcome := rfl

@[simp] theorem outcome_touch (l : Lookup) : l.touch.outcome = l.outcome := by
  unfold touch
  split <;> rfl

@[simp] theorem outcome_setRecord (l : Lookup) (r : Record) : (l.setRecord r).outcome = l.outcome := by
  unfold setRecord
  split <;> rfl

theorem outcome_controlRelease (l : Lookup) : l.controlRelease.outcome = l.outcome := by
  unfold controlRelease
  split
  · rfl
  simp only [emit]
  split
  · rfl
  split
  · rfl
  · exact outcome_setRecord _ _

theorem outcome_finishServer (l : Lookup) (i : ℕ) : (l.finishServer i).outcome = l.outcome :=
  outcome_of_control ((control_cancel (l.setServer i _) i).trans (control_setServer l i _))

@[simp] theorem outcome_release (l : Lookup) (i : ℕ) : (l.release i).outcome = l.outcome := by
  unfold release
  dsimp only
  split
  · exact outcome_touch l
  split
  · rw [outcome_controlRelease, outcome_finishServer, outcome_touch]
  · rw [outcome_finishServer, outcome_touch]

/-- `mark_resolved_and_execute_user_callbacks` either leaves the outcome or brings it about. -/
theorem outcome_markResolved (l : Lookup) (i : ℕ) (cause : Cause) (dupe : Bool) (now : ℤ) :
    (l.markResolved i cause dupe now).1.outcome = l.outcome ∨
      l.resolved = false ∧
        (l.markResolved i cause dupe now).1.outcome = (true, some (l.resolutionBy i cause)) := by
  have htouch := outcome_touch l
  have hcancel := outcome_of_control (control_cancelUnfinished { l.touch with resolved := true })
  simp only [outcome, Prod.mk.injEq] at htouch hcancel
  unfold markResolved
  rw [htouch.1]
  split
  · left
    exact outcome_touch l
  rename_i hres
  replace hres : l.resolved = false := by simpa using hres
  dsimp only
  split
  · left
    exact Prod.ext hres.symm (hcancel.2.trans htouch.2)
  · rename_i l'' hsetup
    refine .inr ⟨hres, Prod.ext ?_ rfl⟩
    show l''.resolved = true
    obtain ⟨-, rfl⟩ | ⟨-, r, -, rfl⟩ := setupRecord_cases hsetup
    · exact hcancel.1
    · exact (Prod.mk.inj (outcome_setRecord _ r)).1.trans hcancel.1

theorem outcome_resolveAndRelease (l : Lookup) (i : ℕ) (cause : Cause) (dupe : Bool) (now : ℤ) :
    (l.resolveAndRelease i cause dupe now).outcome = l.outcome ∨
      l.resolved = false ∧
        (l.resolveAndRelease i cause dupe now).outcome =
          (true, some (l.resolutionBy i cause)) := by
  have hmark := outcome_markResolved l i cause dupe now
  unfold resolveAndRelease
  split
  · rename_i l' heq
    rw [heq] at hmark
    rwa [outcome_release]
  · rename_i l' heq
    rw [heq] at hmark
    exact hmark

/-! ### What resolves a lookup -/

theorem outstanding_setServer {l : Lookup} {i : ℕ} (sd : ServerQueryData)
    (hi : i < l.servers.length) : (l.setServer i sd).outstanding i = l.outstanding i := by
  unfold outstanding
  rw [length_setServer]
  apply List.filter_congr
  intro j _
  by_cases hji : j = i
  · simp [hji]
  · rw [server_setServer sd hi, if_neg (Ne.symm hji)]

/-- The last server: all others have finished. -/
theorem outstanding_eq_nil {l : Lookup} {i : ℕ} (h : Inv (some i) l)
    (hlast : l.shouldFailResolutionOnServerFinish = true) : l.outstanding i = [] := by
  have hi := (h.servers.runs i rfl).1
  have hcount := h.servers.counted
  simp only [shouldFailResolutionOnServerFinish, decide_eq_true_eq] at hlast
  -- with server `i` finished as well, all of them would be counted
  have hall : (l.servers.set i { l.server i with finished := true }).countP (·.finished) =
      (l.servers.set i { l.server i with finished := true }).length := by
    have hget : l.servers[i] = l.server i := by
      simp [server, hi]
    rw [List.countP_set hi, hget, h.servers.unfinished, List.length_set]
    simp only [Bool.false_eq_true, if_false, if_true]
    omega
  rw [List.countP_eq_length] at hall
  unfold outstanding
  rw [List.filter_eq_nil_iff]
  intro j hj
  rw [List.mem_range] at hj
  by_cases hji : j = i
  · simp [hji]
  · have hserver := server_setServer { l.server i with finished := true } hi j
    rw [if_neg (Ne.symm hji)] at hserver
    have hj' : j < (l.servers.set i { l.server i with finished := true }).length := by simpa using hj
    have hget : (l.servers.set i { l.server i with finished := true })[j] = l.server j := by
      rw [← hserver]
      simp [server, setServer, hj]
    have := hall _ (List.getElem_mem hj')
    rw [hget] at this
    simp [this]

/-- Server `i` resolves the lookup, as `r`, on a datagram. -/
structure ResolvesOn (l : Lookup) (i : ℕ) (response : Datagram) (allocs : Allocs) (r : Resolution) :
    Prop where
  server : r.server = i
  answers : r.answers = answersAfter (l.server i) response allocs
  history : r.history = (l.server i).history
  outstanding : r.outstanding = l.outstanding i
  /-- the server has its last datagram, or the count says that a candidate is done -/
  counted : (l.server i).queries.length ≤ (l.server i).responsesReceived + 1 ∨
    (classify (l.server i).queries response).dropped = false ∧
      ((l.server i).responsesReceived + 1) % typesPerHost (l.server i) = 0
  /-- the server has answers or is the last one, or its branch does not ask -/
  entitled : r.answers.isEmpty = false ∨ r.outstanding = [] ∨
    (classify (l.server i).queries response).unguarded = true

section

variable {l : Lookup} {i : ℕ}

/-- What the datagram count does to the resolution a server would bring about. -/
theorem countResponse_server (hi : i < l.servers.length) : (l.countResponse i).server i =
    { l.server i with responsesReceived := (l.server i).responsesReceived + 1 } := by
  unfold countResponse
  rw [server_setServer _ hi, if_pos rfl]

theorem resolutionBy_countResponse (hi : i < l.servers.length) (cause : Cause) :
    (l.countResponse i).resolutionBy i cause = l.resolutionBy i cause := by
  unfold resolutionBy
  rw [countResponse_server hi, countResponse, outstanding_setServer _ hi]

/-- Server `i` resolves once it has counted the datagram. -/
theorem outcome_resolve_counted (hi : i < l.servers.length) (dupe : Bool) (now : ℤ) :
    ((l.countResponse i).resolveAndRelease i .datagram dupe now).outcome = l.outcome ∨
      l.resolved = false ∧
        ((l.countResponse i).resolveAndRelease i .datagram dupe now).outcome =
          (true, some (l.resolutionBy i .datagram)) := by
  obtain hsame | ⟨hres, hout⟩ := outcome_resolveAndRelease (l.countResponse i) i .datagram dupe now
  · exact .inl hsame
  · rw [resolutionBy_countResponse hi] at hout
    exact .inr ⟨hres, hout⟩

/-- It does not read on although the lookup is not resolved: it has its last datagram. -/
theorem counted_of_not_more (hi : i < l.servers.length) (hres : l.resolved = false)
    (hmore : ¬(((l.countResponse i).server i).responsesReceived < ((l.countResponse i).server i).queries.length ∧
      (l.countResponse i).resolved = false)) :
    (l.server i).queries.length ≤ (l.server i).responsesReceived + 1 := by
  rw [countResponse_server hi] at hmore
  by_contra hlt
  exact hmore ⟨Nat.lt_of_not_le hlt, hres⟩

/-- It is the last server that is not finished, when it has counted the datagram. -/
theorem outstanding_of_last (h : Inv (some i) l)
    (hlast : (l.countResponse i).shouldFailResolutionOnServerFinish = true) : l.outstanding i = [] := by
  have hnil := outstanding_eq_nil h.countResponse hlast
  rwa [countResponse, outstanding_setServer _ (h.servers.runs i rfl).1] at hnil

/-- A branch that drops a datagram. -/
theorem outcome_dropResponse (h : Inv (some i) l) (guarded dupe : Bool) (now : ℤ) :
    (l.dropResponse i guarded dupe now).outcome = l.outcome ∨
      l.resolved = false ∧
        (l.dropResponse i guarded dupe now).outcome = (true, some (l.resolutionBy i .datagram)) ∧
        (l.server i).queries.length ≤ (l.server i).responsesReceived + 1 ∧
        ((l.server i).answers.isEmpty = false ∨ l.outstanding i = [] ∨ guarded = false) := by
  have hi := (h.servers.runs i rfl).1
  unfold dropResponse
  dsimp only
  split
  · exact .inl rfl
  rename_i hmore
  split
  · rename_i hent
    obtain hsame | ⟨hres, hout⟩ := outcome_resolve_counted hi dupe now
    · exact .inl hsame
    · refine .inr ⟨hres, hout, counted_of_not_more hi hres hmore, ?_⟩
      rw [countResponse_server hi] at hent
      obtain hg | ha | hlast := hent
      · exact .inr (.inr hg)
      · exact .inl ha
      · exact .inr (.inl (outstanding_of_last h hlast))
  · left
    rw [outcome_release]
    rfl

/-- The end of `process_dns_response`. -/
theorem outcome_finishResponse (h : Inv (some i) l) (dupe : Bool) (now : ℤ) :
    (l.finishResponse i dupe now).outcome = l.outcome ∨
      l.resolved = false ∧
        (l.finishResponse i dupe now).outcome = (true, some (l.resolutionBy i .datagram)) ∧
        ((l.server i).queries.length ≤ (l.server i).responsesReceived + 1 ∨
          ((l.server i).responsesReceived + 1) % typesPerHost (l.server i) = 0) ∧
        ((l.server i).answers.isEmpty = false ∨ l.outstanding i = []) := by
  have hi := (h.servers.runs i rfl).1
  have htypes : typesPerHost { l.server i with
      responsesReceived := (l.server i).responsesReceived + 1 } = typesPerHost (l.server i) := rfl
  unfold finishResponse
  dsimp only
  split
  · rename_i hdone
    obtain hsame | ⟨hres, hout⟩ := outcome_resolve_counted hi dupe now
    · exact .inl hsame
    · rw [countResponse_server hi, htypes] at hdone
      exact .inr ⟨hres, hout, hdone.2.symm, .inl hdone.1⟩
  split
  · exact .inl rfl
  rename_i hmore
  split
  · rename_i hent
    obtain hsame | ⟨hres, hout⟩ := outcome_resolve_counted hi dupe now
    · exact .inl hsame
    · refine .inr ⟨hres, hout, .inl (counted_of_not_more hi hres hmore), ?_⟩
      rw [countResponse_server hi] at hent
      obtain ha | hlast := hent
      · exact .inl ha
      · exact .inr (outstanding_of_last h hlast)
  · left
    rw [outcome_release]
    rfl

theorem resolvesOn_of_drop {response : Datagram} (allocs : Allocs) (h : Inv (some i) l)
    (hne : classify (l.server i).queries response ≠ .accepted) (guarded dupe : Bool) (now : ℤ)
    (hg : guarded = false → (classify (l.server i).queries response).unguarded = true) :
    (l.dropResponse i guarded dupe now).outcome = l.outcome ∨
      l.resolved = false ∧ ∃ r, r.cause = .datagram ∧
        (l.dropResponse i guarded dupe now).outcome = (true, some r) ∧
        ResolvesOn l i response allocs r := by
  obtain hsame | ⟨hres, hout, hcount, hent⟩ := outcome_dropResponse h guarded dupe now
  · exact .inl hsame
  · have hafter : answersAfter (l.server i) response allocs = (l.server i).answers := if_neg hne
    refine .inr ⟨hres, _, rfl, hout, rfl, hafter.symm, rfl, rfl, .inl hcount, ?_⟩
    obtain ha | ho | hguard := hent
    · exact .inl ha
    · exact .inr (.inl ho)
    · exact .inr (.inr (hg hguard))

/-- What `process_dns_response` does with a datagram. -/
theorem outcome_datagramReceived (h : Inv (some i) l) (response : Datagram) (allocs : Allocs)
    (now : ℤ) :
    (l.datagramReceived i response allocs now).outcome = l.outcome ∨
      l.resolved = false ∧ ∃ r, r.cause = .datagram ∧
        (l.datagramReceived i response allocs now).outcome = (true, some r) ∧
        ResolvesOn l i response allocs r := by
  have hi := (h.servers.runs i rfl).1
  unfold datagramReceived
  split
  · rename_i hv
    have hafter : answersAfter (l.server i) response allocs = (l.server i).answers :=
      if_neg (by simp [hv])
    obtain hsame | ⟨hres, hout, hcount, hent⟩ := outcome_finishResponse h allocs.dupe now
    · exact .inl hsame
    · refine .inr ⟨hres, _, rfl, hout, rfl, hafter.symm, rfl, rfl, ?_, ?_⟩
      · rw [hv]
        exact hcount.imp id fun heven => ⟨rfl, heven⟩
      · exact hent.imp id .inl
  · rename_i hv
    exact resolvesOn_of_drop allocs h (by simp [hv]) _ _ _ nofun
  · rename_i hv
    exact resolvesOn_of_drop allocs h (by simp [hv]) _ _ _ fun _ => by rw [hv]; rfl
  · rename_i hv
    exact resolvesOn_of_drop allocs h (by simp [hv]) _ _ _ fun _ => by rw [hv]; rfl
  · rename_i hv
    exact resolvesOn_of_drop allocs h (by simp [hv]) _ _ _ fun _ => by rw [hv]; rfl
  · rename_i hv
    exact resolvesOn_of_drop allocs h (by simp [hv]) _ _ _ fun _ => by rw [hv]; rfl
  · rename_i hv
    have hafter : answersAfter (l.server i) response allocs =
        (collectAnswers response allocs (l.server i).answers).1 := if_pos hv
    unfold acceptResponse
    dsimp only
    split
    · -- the rest of the handler sees the server with the new answers
      rw [← hafter]
      have hl' : Inv (some i)
          (l.setServer i { l.server i with answers := answersAfter (l.server i) response allocs }) := by
        refine h.setServer ?_ ?_ ?_ <;> rfl
      have hself := server_setServer
        { l.server i with answers := answersAfter (l.server i) response allocs } hi i
      rw [if_pos rfl] at hself
      obtain hsame | ⟨hres, hout, hcount, hent⟩ := outcome_finishResponse hl' allocs.dupe now
      · exact .inl hsame
      · rw [hself] at hcount hent
        rw [outstanding_setServer _ hi] at hent
        refine .inr ⟨hres, _, rfl, hout, rfl, ?_, ?_, outstanding_setServer _ hi, ?_, ?_⟩
        · simp only [resolutionBy, hself]
        · simp only [resolutionBy, hself]
        · rw [hv]
          exact hcount.imp id fun heven => ⟨rfl, heven⟩
        · simp only [resolutionBy, hself, outstanding_setServer _ hi]
          exact hent.imp id .inl
    · exact .inl rfl

end

/-- How an event resolves a lookup: a send or a read of a server fails, or a datagram comes in. -/
inductive ResolvedBy (l : Lookup) : Event → Resolution → Prop
  | sendFailed {i : ℕ} {failed cancelled dupe : Bool} {now : ℤ} {r : Resolution}
      (cause : r.cause = .sendFailed) (last : r.outstanding = [])
      (made : r = (l.complete i none).resolutionBy i .sendFailed) :
      ResolvedBy l (.querySent i failed cancelled dupe now) r
  | readFailed {i : ℕ} {allocs : Allocs} {now : ℤ} {r : Resolution}
      (cause : r.cause = .readFailed) (entitled : r.answers.isEmpty = false ∨ r.outstanding = [])
      (made : r = (l.complete i none).resolutionBy i .readFailed) :
      ResolvedBy l (.response i none false allocs now) r
  | datagram {i : ℕ} {response : Datagram} {allocs : Allocs} {now : ℤ} {r : Resolution}
      (cause : r.cause = .datagram)
      (on : ResolvesOn (l.complete i (some response)) i response allocs r) :
      ResolvedBy l (.response i (some response) false allocs now) r

/-- **What resolves a lookup.** -/
theorem step_resolution {l t : Lookup} {e : Event} (h : Inv none l) (hs : l.step e = some t) :
    t.outcome = l.outcome ∨
      l.resolved = false ∧ ∃ r, t.outcome = (true, some r) ∧ ResolvedBy l e r := by
  cases e with
  | querySent i failed cancelled dupe now =>
    simp only [step] at hs
    split at hs
    · rename_i hop
      obtain rfl := Option.some.inj hs
      have hc := h.complete hop none
      rw [hc.touch_eq]
      unfold onQuerySent
      dsimp only
      split
      · split
        · rename_i hlast
          obtain hsame | ⟨hres, hout⟩ :=
            outcome_resolveAndRelease (l.complete i none) i .sendFailed dupe now
          · exact .inl hsame
          · exact .inr ⟨hres, _, hout, .sendFailed rfl (outstanding_eq_nil hc hlast) rfl⟩
        · exact .inl (outcome_release _ i)
      · split <;> exact .inl rfl
    · cases hs
  | response i datagram cancelled allocs now =>
    simp only [step] at hs
    split at hs
    · rename_i hop
      obtain rfl := Option.some.inj hs
      have hc := h.complete hop.1 datagram
      rw [hc.touch_eq]
      unfold processDnsResponse
      split
      · exact .inl (outcome_release _ i)
      rename_i hlive
      have hcancelled : cancelled = false := by
        by_contra hcancelled
        exact hlive (.inl (by simpa using hcancelled))
      subst hcancelled
      split
      · split
        · rename_i hent
          obtain hsame | ⟨hres, hout⟩ :=
            outcome_resolveAndRelease (l.complete i none) i .readFailed allocs.dupe now
          · exact .inl hsame
          · exact .inr ⟨hres, _, hout, .readFailed rfl (hent.imp id (outstanding_eq_nil hc)) rfl⟩
        · exact .inl (outcome_release _ i)
      · rename_i response
        obtain hsame | ⟨hres, r, hcause, hout, hon⟩ := outcome_datagramReceived hc response allocs now
        · exact .inl hsame
        · exact .inr ⟨hres, r, hout, .datagram hcause hon⟩
    · cases hs
  | cleanup i =>
    simp only [step] at hs
    split at hs
    · obtain rfl := Option.some.inj hs
      exact .inl (outcome_release _ i)
    · cases hs
  | attach callback alloc =>
    obtain ⟨r, -, rfl⟩ := Option.map_eq_some_iff.1 hs
    left
    unfold appendCallback
    split
    · dsimp only
      split
      · exact outcome_touch l
      · exact outcome_touch l
    · rfl
  | evict =>
    obtain ⟨r, -, rfl⟩ := Option.map_eq_some_iff.1 hs
    left
    unfold evictRecord
    split
    · exact outcome_touch l
    · rfl

/-! ### A lookup fails with its last server -/

/-- The lookup is resolved exactly when a resolution is recorded, and the resolution is as `P` says. -/
structure ResolvedAs (P : Resolution → Prop) (l : Lookup) : Prop where
  iff : l.resolved = l.resolution.isSome
  resolution : ∀ r, l.resolution = some r → P r

/-- One event keeps `ResolvedAs`, given what it may resolve the lookup with. -/
theorem ResolvedAs.step {P : Resolution → Prop} {l t : Lookup} {e : Event} (hp : ResolvedAs P l)
    (h : Inv none l) (hs : l.step e = some t)
    (he : l.resolved = false → ∀ r, ResolvedBy l e r → P r) : ResolvedAs P t := by
  obtain hsame | ⟨hres, r, hout, hby⟩ := step_resolution h hs
  · obtain ⟨hresolved, hresolution⟩ := Prod.mk.inj hsame
    exact ⟨by rw [hresolved, hresolution, hp.iff], by rw [hresolution]; exact hp.resolution⟩
  · obtain ⟨hresolved, hresolution⟩ := Prod.mk.inj hout
    refine ⟨by rw [hresolved, hresolution]; rfl, ?_⟩
    intro r' hr'
    obtain rfl : r = r' := Option.some.inj (hresolution.symm.trans hr')
    exact he hres r hby

theorem Started.resolvedAs {l : Lookup} (h : Started l) (P : Resolution → Prop) : ResolvedAs P l := by
  have hcontrol := h.control
  simp only [Lookup.control, Control.mk.injEq] at hcontrol
  obtain ⟨-, hres, -, -, -, -, -, hresolution⟩ := hcontrol
  exact ⟨by rw [hres, hresolution]; rfl, by simp [hresolution]⟩

/-- The server of the event gets its last datagram, which is truncated or does not echo the question;
it has no answers, and another server is outstanding. -/
def Event.givesUp (l : Lookup) : Event → Bool
  | .response i (some received) cancelled _ _ =>
    !cancelled && !l.resolved && (classify (l.server i).queries received).unguarded &&
      decide ((l.server i).queries.length ≤ (l.server i).responsesReceived + 1) &&
      (l.server i).answers.isEmpty && !(l.outstanding i).isEmpty
  | _ => false

/-- Nobody gives the lookup up for the others. -/
def FailsLast (r : Resolution) : Prop := r.answers.isEmpty = true → r.outstanding = []

theorem complete_server {l : Lookup} {i : ℕ} (hi : i < l.servers.length) (received : Option Datagram) :
    (l.complete i received).server i =
      { l.server i with op := none, history := (l.server i).history ++ received.toList } := by
  unfold complete
  rw [server_setServer _ hi, if_pos rfl]

/-- A server whose data is used has an index below the number of servers. -/
theorem lt_of_op {l : Lookup} {i : ℕ} {op : Op} (h : (l.server i).op = some op) :
    i < l.servers.length := by
  by_contra hle
  rw [server_of_le (Nat.le_of_not_lt hle)] at h
  exact nomatch (show (none : Option Op) = some op from h)

theorem step_response_lt {l t : Lookup} {i : ℕ} {datagram : Option Datagram} {cancelled : Bool}
    {allocs : Allocs} {now : ℤ} (hs : l.step (.response i datagram cancelled allocs now) = some t) :
    i < l.servers.length := by
  simp only [step] at hs
  split at hs
  · rename_i hop
    exact lt_of_op hop.1
  · cases hs

/-- A server that resolves without answers is the last one, or it gives up. -/
theorem failsLast_of_resolvedBy {l t : Lookup} {e : Event} {r : Resolution}
    (hs : l.step e = some t) (hres : l.resolved = false) (hok : e.givesUp l = false)
    (hby : ResolvedBy l e r) : FailsLast r := by
  intro hempty
  cases hby with
  | sendFailed _ last _ => exact last
  | readFailed _ entitled _ =>
    obtain ha | ho := entitled
    · simp [ha] at hempty
    · exact ho
  | @datagram i response allocs now _ _ on =>
    have hi := step_response_lt hs
    have hself := complete_server hi (some response)
    obtain ⟨-, hanswers, -, hout, hcount, hent⟩ := on
    rw [hself] at hanswers hcount hent
    rw [complete, outstanding_setServer _ hi] at hout
    obtain ha | ho | hu := hent
    · simp [ha] at hempty
    · exact ho
    · -- an unguarded branch: the datagram is dropped and was the last one
      replace hu : (classify (l.server i).queries response).unguarded = true := hu
      have hne : classify (l.server i).queries response ≠ .accepted := by
        intro hv
        simp [hv, Verdict.unguarded] at hu
      have hdropped : (classify (l.server i).queries response).dropped = true := by
        revert hu
        cases classify (l.server i).queries response <;> simp [Verdict.unguarded, Verdict.dropped]
      have hlast : (l.server i).queries.length ≤ (l.server i).responsesReceived + 1 := by
        obtain hlast | ⟨hd, -⟩ := hcount
        · exact hlast
        · exact absurd (show (classify (l.server i).queries response).dropped = false from hd)
            (by simp [hdropped])
      have hnone : (l.server i).answers.isEmpty = true := by
        have : r.answers = (l.server i).answers := hanswers.trans (if_neg hne)
        rwa [this] at hempty
      rw [hout]
      simpa [Event.givesUp, hres, hu, hlast, hnone] using hok

/-- A callback whose last act was to queue an operation fails instead. -/
theorem Inv.callbackFailed {l : Lookup} {i : ℕ} {op : Op} (h : Inv none l)
    (hop : (l.server i).op = some op) : Inv none (l.callbackFailed i) := by
  have hi := lt_of_op hop
  have hcleanup := (h.complete hop none).setOp .cleanup
  rw [complete_server hi] at hcleanup
  have hsame : (l.complete i none).setServer i
      { l.server i with op := some .cleanup, history := (l.server i).history ++ [] } =
        l.callbackFailed i := by
    simp [Lookup.callbackFailed, Lookup.complete, Lookup.setServer]
  exact hsame ▸ hcleanup

end Lookup

/-! ### Operations that are left in the ring -/

/-- A lookup with the operations that a failing flush left in the ring, and their servers. -/
structure LookupRing where
  lookup : Lookup
  left : List (ℕ × Op)
  deriving DecidableEq, Repr

namespace LookupRing

open Lookup

/-- What can happen. -/
inductive Event
  /-- an event of the lookup; what its callback queues is queued -/
  | event (e : Lookup.Event)
  /-- an event at the end of which `io.queue` fails; `left` is whether the operation stays in the ring -/
  | refused (e : Lookup.Event) (left : Bool)
  /-- a send that was left in the ring completes -/
  | leftSent (server : ℕ) (failed cancelled dupe : Bool) (now : ℤ)
  /-- a read that was left in the ring completes -/
  | leftResponse (server : ℕ) (datagram : Option Datagram) (cancelled : Bool) (allocs : Allocs) (now : ℤ)

/-- The event of the lookup. -/
def Event.base? : Event → Option Lookup.Event
  | .event e | .refused e _ => some e
  | .leftSent .. | .leftResponse .. => none

/-- An event ended by queuing the operation `op` of server `i`, and `io.queue` fails. -/
def refuse (s : LookupRing) (l : Lookup) (i : ℕ) (op : Op) (left : Bool) : LookupRing where
  lookup := l.callbackFailed i
  left := if left then s.left ++ [(i, op)] else s.left

/-- What an event does; `none` when it cannot happen. A callback that failed is cleaned up before the next
one runs. -/
def step (s : LookupRing) : Event → Option LookupRing
  | .event e => (s.lookup.step e).map fun l => { s with lookup := l }
  | .refused e left =>
    (s.lookup.step e).bind fun l => e.server?.bind fun i =>
      match (l.server i).op with
      | some .sending => some (s.refuse l i .sending left)
      | some .reading => some (s.refuse l i .reading left)
      | _ => none
  | .leftSent i failed cancelled dupe now =>
    if (i, .sending) ∈ s.left ∧ (s.lookup.server i).op ≠ some .cleanup then
      some
        { lookup := s.lookup.touch.onQuerySent i failed cancelled dupe now
          left := s.left.erase (i, .sending) }
    else none
  | .leftResponse i datagram cancelled allocs now =>
    if (i, .reading) ∈ s.left ∧ (s.lookup.server i).op ≠ some .cleanup ∧
        ∀ d ∈ datagram, d.length ≤ 512 then
      let l := s.lookup.touch
      let l := l.setServer i
        { l.server i with history := (l.server i).history ++ datagram.toList }
      some
        { lookup := l.processDnsResponse i datagram cancelled allocs now
          left := s.left.erase (i, .reading) }
    else none

/-- No server gives up for the others, and no operation is left in the ring. -/
def Event.Fair (s : LookupRing) (e : Event) : Prop :=
  (∀ base ∈ e.base?, base.givesUp s.lookup = false) ∧ ∀ base, e ≠ .refused base true

instance (s : LookupRing) : (e : Event) → Decidable (e.Fair s)
  | .event base => decidable_of_iff (base.givesUp s.lookup = false) (by simp [Event.Fair, Event.base?])
  | .refused base left => decidable_of_iff (base.givesUp s.lookup = false ∧ left = false)
      (by simp [Event.Fair, Event.base?])
  | .leftSent .. => isTrue (by simp [Event.Fair, Event.base?])
  | .leftResponse .. => isTrue (by simp [Event.Fair, Event.base?])

/-- What a fair step does while nothing is left in the ring. -/
theorem step_fair {s t : LookupRing} {e : Event} (hleft : s.left = []) (hok : e.Fair s)
    (hs : s.step e = some t) :
    t.left = [] ∧ ∃ base l, base.givesUp s.lookup = false ∧ s.lookup.step base = some l ∧
      (t.lookup = l ∨ ∃ i op, (l.server i).op = some op ∧ t.lookup = l.callbackFailed i) := by
  cases e with
  | event base =>
    obtain ⟨l, hl, rfl⟩ := Option.map_eq_some_iff.1 hs
    exact ⟨hleft, base, l, hok.1 base rfl, hl, .inl rfl⟩
  | refused base left =>
    obtain ⟨l, hl, hs⟩ := Option.bind_eq_some_iff.1 hs
    obtain ⟨i, -, hs⟩ := Option.bind_eq_some_iff.1 hs
    have hnot : left = false := by
      cases left with
      | false => rfl
      | true => exact absurd rfl (hok.2 base)
    subst hnot
    have hrefused : ∀ op, (l.server i).op = some op → s.refuse l i op false = t →
        t.left = [] ∧ ∃ base l, base.givesUp s.lookup = false ∧ s.lookup.step base = some l ∧
          (t.lookup = l ∨ ∃ i op, (l.server i).op = some op ∧ t.lookup = l.callbackFailed i) := by
      rintro op hop rfl
      exact ⟨hleft, base, l, hok.1 base rfl, hl, .inr ⟨i, op, hop, rfl⟩⟩
    split at hs
    · rename_i hop
      exact hrefused _ hop (Option.some.inj hs)
    · rename_i hop
      exact hrefused _ hop (Option.some.inj hs)
    · cases hs
  | leftSent i failed cancelled dupe now =>
    simp [step, hleft] at hs
  | leftResponse i datagram cancelled allocs now =>
    simp [step, hleft] at hs

/-- **A lookup fails with its last server.** In every run of a lookup in which no server gives up for
the others and no operation is left in the ring, a lookup resolved without an answer was resolved by the
last server outstanding. -/
theorem lookup_fails_with_last_server {hostname : Datagram} {userCallback : CallbackId}
    {configuration : Configuration} {ipv6Supported : Bool} {questionType : Option QuestionType}
    {ids : ℕ → ℕ → UInt16} {fds : ℕ → ℕ} {l : Lookup} {t : LookupRing}
    (h : queue hostname userCallback configuration ipv6Supported questionType ids fds = some l)
    (hrun : Runs.Reaches step (fun s e => e.Fair s) ⟨l, []⟩ t) : ResolvedAs FailsLast t.lookup := by
  have hstarted := queue_started h
  refine (hrun.invariant
    (I := fun s => s.left = [] ∧ Inv none s.lookup ∧ ResolvedAs FailsLast s.lookup)
    ⟨rfl, hstarted.inv, hstarted.resolvedAs _⟩ ?_).2.2
  rintro u e v ⟨hleft, hinv, hp⟩ hok hs
  obtain ⟨hleft', base, l', hfair, hstep, hlookup⟩ := step_fair hleft hok hs
  have hinv' := hinv.step hstep
  have hp' := hp.step hinv hstep fun hres _ => failsLast_of_resolvedBy hstep hres hfair
  refine ⟨hleft', ?_⟩
  obtain hsame | ⟨i, op, hop, hfailed⟩ := hlookup
  · rw [hsame]
    exact ⟨hinv', hp'⟩
  · rw [hfailed]
    exact ⟨hinv'.callbackFailed hop, hp'.iff, hp'.resolution⟩

/-- The read of the first server is refused, and the second server times out and fails the lookup. -/
theorem lookup_fails_with_last_server_timeouts :
    ∃ l t r, queue [97] 7 ⟨[.ip4 [1, 1, 1, 1], .ip4 [8, 8, 8, 8]], [], by simp⟩ false none
        (fun _ _ => 1) id = some l ∧
      Runs.Reaches step (fun s e => e.Fair s) ⟨l, []⟩ t ∧ t.lookup.resolution = some r ∧
      r.answers.isEmpty = true ∧ FailsLast r := by
  have hd : ((queue [97] 7 ⟨[.ip4 [1, 1, 1, 1], .ip4 [8, 8, 8, 8]], [], by simp⟩ false none
      (fun _ _ => 1) id).bind fun l => (Runs.execWhile step (fun s e => e.Fair s) ⟨l, []⟩
        [.refused (.querySent 0 false false true 0) false, .event (.cleanup 0),
          .event (.querySent 1 false false true 0), .event (.response 1 none false .ok 0)]).bind
      fun t => t.lookup.resolution.map fun r => r.answers.isEmpty) = some true := by
    decide +kernel
  obtain ⟨l, hl, hrun⟩ := Option.bind_eq_some_iff.1 hd
  obtain ⟨t, ht, hr⟩ := Option.bind_eq_some_iff.1 hrun
  obtain ⟨r, hr, hempty⟩ := Option.map_eq_some_iff.1 hr
  have hreach := Runs.Reaches.of_execWhile ht
  exact ⟨l, t, r, hl, hreach, hr, hempty, (lookup_fails_with_last_server hl hreach).resolution r hr⟩

/-- The lookup is resolved without an answer while the second server has not finished: the only datagram of
the first server has the TC bit set, or the read of the first server is left in the ring and ends when the
server has been counted. -/
theorem first_server_fails_lookup :
    ∃ l, queue [97] 7 ⟨[.ip4 [1, 1, 1, 1], .ip4 [8, 8, 8, 8]], [], by simp⟩ false none
        (fun _ _ => 1) id = some l ∧
      (∃ t r, Runs.exec step ⟨l, []⟩ [.event (.querySent 0 false false true 0),
          .event (.response 0 (some [0, 1, 0x82, 0, 0, 1, 0, 0, 0, 0, 0, 0]) false .ok 0)] = some t ∧
        t.lookup.resolution = some r ∧ r.answers.isEmpty = true ∧ r.outstanding = [1]) ∧
      ∃ t r, Runs.exec step ⟨l, []⟩ [.refused (.querySent 0 false false true 0) true,
          .event (.cleanup 0), .leftResponse 0 none false .ok 0] = some t ∧
        t.lookup.resolution = some r ∧ r.answers.isEmpty = true ∧ r.outstanding = [1] := by
  have htruncated : ((queue [97] 7 ⟨[.ip4 [1, 1, 1, 1], .ip4 [8, 8, 8, 8]], [], by simp⟩ false none
      (fun _ _ => 1) id).bind fun l => (Runs.exec step ⟨l, []⟩ [.event (.querySent 0 false false true 0),
        .event (.response 0 (some [0, 1, 0x82, 0, 0, 1, 0, 0, 0, 0, 0, 0]) false .ok 0)]).bind
      fun t => t.lookup.resolution.map fun r => (r.answers.isEmpty, r.outstanding)) =
        some (true, [1]) := by
    decide +kernel
  have hflush : ((queue [97] 7 ⟨[.ip4 [1, 1, 1, 1], .ip4 [8, 8, 8, 8]], [], by simp⟩ false none
      (fun _ _ => 1) id).bind fun l => (Runs.exec step ⟨l, []⟩
        [.refused (.querySent 0 false false true 0) true, .event (.cleanup 0),
          .leftResponse 0 none false .ok 0]).bind
      fun t => t.lookup.resolution.map fun r => (r.answers.isEmpty, r.outstanding)) =
        some (true, [1]) := by
    decide +kernel
  obtain ⟨l, hl, hrun⟩ := Option.bind_eq_some_iff.1 htruncated
  rw [hl, Option.bind_some] at hflush
  obtain ⟨t, ht, hr⟩ := Option.bind_eq_some_iff.1 hrun
  obtain ⟨r, hr, heq⟩ := Option.map_eq_some_iff.1 hr
  obtain ⟨t', ht', hr'⟩ := Option.bind_eq_some_iff.1 hflush
  obtain ⟨r', hr', heq'⟩ := Option.map_eq_some_iff.1 hr'
  obtain ⟨hempty, hout⟩ := Prod.mk.inj heq
  obtain ⟨hempty', hout'⟩ := Prod.mk.inj heq'
  exact ⟨l, hl, ⟨t, r, ht, hr, hempty, hout⟩, t', r', ht', hr', hempty', hout'⟩

end LookupRing

end Talyn.Dns
