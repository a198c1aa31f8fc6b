import Mathlib.Data.List.ReduceOption
import Talyn.Loop.Exceptions

/-!
# When the exceptions of user code are dealt with

The phases of a tick are compared with what they should do. Two facts carry the proof. From a thread
state in which nothing is owed, the batch and the ready callbacks settle every exception: it is
reported, or it ends the run. And once an exception is left pending at the end of a phase, or an exit
has not ended the run, no later call makes up for it, because phases that ended and exits that were
raised are never forgotten.
-/

namespace Talyn

namespace Thread

/-! ### What a run promises -/

/-- Every exception was dealt with: nothing was pending when a phase ended, what user code raised was
reported, once and in order, and the run goes on as long as no exit was raised and has ended with the
exit otherwise. -/
def Handled (r : Bool × Thread) : Prop :=
  (∀ p, some p ∉ r.2.ends) ∧ r.2.reported = r.2.raised ∧
    ((r.1 = true ∧ r.2.exits = []) ∨
      (r.1 = false ∧ ∃ e, r.2.exits = [e] ∧ r.2.pending = some (.exception e)))

/-- A thread state in which nothing is owed. -/
structure Clear (t : Thread) : Prop where
  pending : t.pending = none
  reported : t.reported = t.raised
  exits : t.exits = []
  ends : ∀ e, some e ∉ t.ends

/-- A thread state in which a run ended as it should. -/
structure Ended (t : Thread) : Prop where
  exit : ∃ e, t.exits = [e] ∧ t.pending = some (.exception e)
  reported : t.reported = t.raised
  ends : ∀ e, some e ∉ t.ends

/-- An exception was left pending at the end of a phase, or an exit did not end the run. -/
def Spoils (r : Bool × Thread) : Prop :=
  (∃ e, some e ∈ r.2.ends) ∨ (if r.1 then 1 else 2) ≤ r.2.exits.length

theorem Clear.handled {t : Thread} (h : t.Clear) : Handled (true, t) :=
  ⟨h.ends, h.reported, .inl ⟨rfl, h.exits⟩⟩

theorem Ended.handled {t : Thread} (h : t.Ended) : Handled (false, t) :=
  ⟨h.ends, h.reported, .inr ⟨rfl, h.exit⟩⟩

theorem Spoils.not_handled {r : Bool × Thread} (h : Spoils r) : ¬ Handled r := by
  obtain ⟨ok, t⟩ := r
  rintro ⟨hends, -, hresult⟩
  rcases h with ⟨e, he⟩ | hlen
  · exact hends e he
  · rcases hresult with ⟨rfl, hexits⟩ | ⟨rfl, e, hexits, -⟩
    · rw [hexits] at hlen
      simp at hlen
    · rw [hexits] at hlen
      simp at hlen

/-! ### Runs of a thread state that is clear -/

/-- The run stops as it should if `stop`, and goes on with nothing owed otherwise. -/
def Settles (stop : Bool) (r : Bool × Thread) : Prop :=
  match stop with
  | true => r.1 = false ∧ r.2.Ended
  | false => r.1 = true ∧ r.2.Clear

theorem Clear.exit {t : Thread} (ht : t.Clear) (e : PyException) :
    ({ t with pending := some (.exception e), exits := t.exits ++ [e] } : Thread).Ended :=
  ⟨⟨e, by rw [ht.exits]; rfl, rfl⟩, ht.reported, ht.ends⟩

/-- An exception that is not an exit is taken off the thread state and reported. -/
theorem Clear.report {t : Thread} (ht : t.Clear) (r : Report) :
    ({ t with pending := none, reported := t.reported ++ [r], raised := t.raised ++ [r] }
      : Thread).Clear :=
  ⟨rfl, by rw [ht.reported], ht.exits, ht.ends⟩

theorem callHandler_settles {t : Thread} (ht : t.Clear) (h : HandlerRun) :
    Settles h.exits (t.callHandler h) := by
  unfold callHandler HandlerRun.exits
  split
  · rename_i hh
    rw [hh]
    exact ⟨rfl, ht⟩
  · rename_i e hh
    rw [hh, Option.any_some]
    cases he : e.exits with
    | true => exact ⟨rfl, ht.exit e⟩
    | false => exact ⟨rfl, rfl, ht.reported, ht.exits, ht.ends⟩

theorem call_raises {t : Thread} {e : PyException} (hx : e.exits = false) :
    t.call (some e) =
      (false, { t with pending := some (.exception e), raised := t.raised ++ [.exception e] }) := by
  simp [call, note, hx]

theorem call_exits {t : Thread} {e : PyException} (hx : e.exits = true) :
    t.call (some e) = (false, { t with pending := some (.exception e), exits := t.exits ++ [e] }) := by
  simp [call, note, hx]

theorem Clear.call_returns {t : Thread} (ht : t.Clear) : t.call none = (true, t) := by
  simp [call, ht.pending]

/-- The protocol callback of the record, or the handler called for it, raises an exit. -/
def recordExits (record : Option PyException × HandlerRun) : Bool :=
  match record.1 with
  | none => false
  | some e => e.exits || record.2.exits

theorem dispatchRecord_settles {t : Thread} (ht : t.Clear) (record : Option PyException × HandlerRun) :
    Settles (recordExits record) (t.dispatchRecord record) := by
  obtain ⟨raises, h⟩ := record
  cases raises with
  | none =>
    simp only [dispatchRecord, recordExits, ht.call_returns]
    exact ⟨rfl, ht⟩
  | some e =>
    cases he : e.exits with
    | true =>
      simp only [dispatchRecord, call_exits he, dispatchProtocolCallbackException, recordExits,
        Pending.exits, he, Bool.true_or, if_true]
      exact ⟨rfl, ht.exit e⟩
    | false =>
      simp only [dispatchRecord, call_raises he, dispatchProtocolCallbackException, recordExits,
        Pending.exits, he, Bool.false_or, Bool.false_eq_true, if_false]
      exact callHandler_settles (ht.report (.exception e)) h

end Thread

/-- The run ends with an exit: the callback, or the handler called for its exception, raises it. -/
def ReadyCall.exits (c : ReadyCall) : Bool :=
  match c.outcome with
  | .returns | .reports _ | .stores _ => false
  | .raises e => e.exits || c.handler.exits
  | .fails _ => c.handler.exits
  | .collects calls => calls.any Option.isSome && c.handler.exits

/-- The callback is slow, and the handler raises an exit when it is told so. -/
def ReadyCall.swallowsSlow (c : ReadyCall) (debug : Bool) : Bool := debug && c.slow && c.handler.exits

/-- An exit is raised that does not end the run: user code that the callback calls itself raises it, or the
handler that the callback calls does, or the handler when it is told that the callback is slow. -/
def ReadyCall.swallows (c : ReadyCall) (debug : Bool) : Bool :=
  match c.outcome with
  | .returns => c.swallowsSlow debug
  | .raises _ | .fails _ => false
  | .collects calls =>
    calls.any (·.any PyException.exits) || !calls.any Option.isSome && c.swallowsSlow debug
  | .reports calls => calls.any Thread.recordExits || c.swallowsSlow debug
  | .stores calls => calls.any (·.any PyException.exits) || c.swallowsSlow debug

namespace Thread

theorem callbackReturns_settles {t : Thread} (ht : t.Clear) {debug : Bool} {c : ReadyCall}
    (hc : c.swallowsSlow debug = false) : Settles false (callbackReturns debug c t) := by
  unfold callbackReturns
  cases hslow : debug && c.slow with
  | true =>
    -- the handler is told of the slow callback, and does not raise an exit
    have hh : c.handler.exits = false := by simpa [ReadyCall.swallowsSlow, hslow] using hc
    have hsettles := callHandler_settles ht c.handler
    rw [hh] at hsettles
    exact ⟨rfl, hsettles.2⟩
  | false => exact ⟨rfl, ht⟩

theorem notes_eq (t : Thread) (es : List PyException) : es.foldl note t =
    { t with
      exits := t.exits ++ es.filter PyException.exits
      raised := t.raised ++ (es.filter (!PyException.exits ·)).map .exception } := by
  induction es generalizing t with
  | nil => simp
  | cons e es ih =>
    rw [List.foldl_cons, ih]
    cases he : e.exits with
    | true => simp [note, he]
    | false => simp [note, he]

/-- What the callbacks of a future raise is taken off the thread state, one after the other. -/
theorem foldl_collect {t : Thread} (ht : t.pending = none) (members : List PyException)
    (calls : List (Option PyException)) : calls.foldl collect (t, members) =
      (calls.reduceOption.foldl note t, members ++ calls.reduceOption) := by
  induction calls generalizing t members with
  | nil => simp
  | cons raises calls ih =>
    rw [List.foldl_cons]
    cases raises with
    | none =>
      have hcall : collect (t, members) none = (t, members) := by simp [collect, call, ht]
      rw [hcall, ih ht, List.reduceOption_cons_of_none]
    | some e =>
      have hnote : (t.note e).pending = none := by
        unfold note
        split <;> exact ht
      have hcall : collect (t, members) (some e) = (t.note e, members ++ [e]) := by
        simp only [collect, call, Option.elim_some, Pending.members, ← hnote]
      rw [hcall, ih hnote, List.reduceOption_cons_of_some, List.foldl_cons, List.append_assoc]
      rfl

theorem reduceOption_eq_nil_iff (calls : List (Option PyException)) :
    calls.reduceOption = [] ↔ calls.any Option.isSome = false := by
  induction calls with
  | nil => simp
  | cons raises calls ih => cases raises <;> simp [ih]

/-- The exceptions of the callbacks of a future are reported in one group, when none is an exit. -/
theorem collects_settles {t : Thread} (ht : t.Clear) {debug : Bool} {c : ReadyCall}
    {calls : List (Option PyException)} (houtcome : c.outcome = .collects calls)
    (hc : c.swallows debug = false) : Settles c.exits (t.executeCallback debug c) := by
  simp only [ReadyCall.swallows, houtcome, Bool.or_eq_false_iff] at hc
  obtain ⟨hexits, hslow⟩ := hc
  have hfilter : ∀ e ∈ calls.reduceOption, e.exits = false := by
    intro e he
    rw [List.reduceOption_mem_iff] at he
    simpa using List.any_eq_false.1 hexits (some e) he
  have hnone : calls.reduceOption.filter PyException.exits = [] := by
    rw [List.filter_eq_nil_iff]
    intro e he
    rw [hfilter e he]
    exact Bool.false_ne_true
  have hall : calls.reduceOption.filter (!PyException.exits ·) = calls.reduceOption := by
    rw [List.filter_eq_self]
    intro e he
    rw [hfilter e he]
    rfl
  have hfold := foldl_collect ht.pending [] calls
  rw [notes_eq, hnone, hall, List.append_nil, List.nil_append] at hfold
  simp only [executeCallback, houtcome, hfold, ReadyCall.exits]
  cases hmembers : calls.reduceOption with
  | nil =>
    have hany := (reduceOption_eq_nil_iff calls).1 hmembers
    rw [hany] at hslow ⊢
    simp only [List.map_nil, List.append_nil]
    exact callbackReturns_settles ht hslow
  | cons e es =>
    have hany : calls.any Option.isSome = true := by
      rw [← Bool.not_eq_false, ← reduceOption_eq_nil_iff, hmembers]
      exact List.cons_ne_nil e es
    rw [hany, Bool.true_and]
    have hclear : Clear { t with
        pending := none
        reported := t.reported ++ (e :: es).map .exception
        raised := t.raised ++ (e :: es).map .exception } :=
      ⟨rfl, congrArg (· ++ (e :: es).map Report.exception) ht.reported, ht.exits, ht.ends⟩
    exact callHandler_settles hclear c.handler

/-- What a loop over user code that a ready callback calls itself owes: it keeps a clear thread state clear up to
a call that swallows an exit, and such an exit is not forgotten. -/
structure Keeps {α : Type*} (f : Thread → α → Thread) (swallows : α → Bool) : Prop where
  clear : ∀ t a, t.Clear → swallows a = false → (f t a).Clear
  exit : ∀ t a, t.Clear → swallows a = true → 1 ≤ (f t a).exits.length
  ends : ∀ t a, (f t a).ends = t.ends
  exits : ∀ t a, t.exits.length ≤ (f t a).exits.length

variable {α : Type*} {f : Thread → α → Thread} {swallows : α → Bool}

theorem foldl_grows (hf : Keeps f swallows) (t : Thread) (as : List α) :
    (as.foldl f t).ends = t.ends ∧ t.exits.length ≤ (as.foldl f t).exits.length := by
  induction as generalizing t with
  | nil => exact ⟨rfl, le_rfl⟩
  | cons a as ih =>
    obtain ⟨hends, hexits⟩ := ih (f t a)
    exact ⟨hends.trans (hf.ends t a), (hf.exits t a).trans hexits⟩

theorem Clear.foldl {t : Thread} (ht : t.Clear) (hf : Keeps f swallows) {as : List α}
    (h : as.any swallows = false) : (as.foldl f t).Clear := by
  induction as generalizing t with
  | nil => exact ht
  | cons a as ih =>
    rw [List.any_cons, Bool.or_eq_false_iff] at h
    exact ih (hf.clear t a ht h.1) h.2

theorem Clear.foldl_exit {t : Thread} (ht : t.Clear) (hf : Keeps f swallows) {as : List α}
    (h : as.any swallows = true) : 1 ≤ (as.foldl f t).exits.length := by
  induction as generalizing t with
  | nil => exact absurd h Bool.false_ne_true
  | cons a as ih =>
    cases ha : swallows a with
    | true => exact (hf.exit t a ht ha).trans (foldl_grows hf (f t a) as).2
    | false =>
      rw [List.any_cons, ha, Bool.false_or] at h
      exact ih (hf.clear t a ht ha) h

/-- A loop over calls that settle stops with the first that does. -/
theorem forEach_settles {α : Type*} {f : Thread → α → Bool × Thread} {stops : α → Bool}
    (hf : ∀ t a, t.Clear → Settles (stops a) (f t a)) {t : Thread} (ht : t.Clear) (as : List α) :
    Settles (as.any stops) (t.forEach f as) := by
  induction as generalizing t with
  | nil => exact ⟨rfl, ht⟩
  | cons a as ih =>
    rcases hfa : f t a with ⟨ok, t'⟩
    have hsettles := hf t a ht
    rw [hfa] at hsettles
    rw [List.any_cons]
    cases hstop : stops a with
    | true =>
      rw [hstop] at hsettles
      obtain ⟨rfl, hended⟩ := hsettles
      simp only [forEach, hfa, Bool.true_or]
      exact ⟨rfl, hended⟩
    | false =>
      rw [hstop] at hsettles
      obtain ⟨rfl, hclear⟩ := hsettles
      simp only [forEach, hfa, Bool.false_or]
      exact ih hclear

/-! ### Runs that go wrong -/

/-- What every call does: no phase ends, no exit is forgotten, and an error is the work of a new
exit. -/
def Grows (t : Thread) (r : Bool × Thread) : Prop :=
  r.2.ends = t.ends ∧ t.exits.length + (if r.1 then 0 else 1) ≤ r.2.exits.length

theorem callHandler_grows (t : Thread) (h : HandlerRun) : Grows t (t.callHandler h) := by
  unfold callHandler
  split
  · exact ⟨rfl, le_rfl⟩
  · split
    · exact ⟨rfl, by simp⟩
    · exact ⟨rfl, le_rfl⟩

theorem exceptionHandler_grows (t : Thread) (name : ℕ) (h : HandlerRun) :
    Grows t (t.exceptionHandler name h) := by
  unfold exceptionHandler
  split
  · exact callHandler_grows _ h
  · exact callHandler_grows _ h

/-- A call that gives no result has an exit pending only if it has just raised it. -/
theorem call_cases (t : Thread) (raises : Option PyException) :
    (t.call raises).2.ends = t.ends ∧
      ((t.call raises).1 = true ∧ (t.call raises).2.exits = t.exits ∨
        (t.call raises).1 = false ∧ ∃ e, (t.call raises).2.pending = some (.exception e) ∧
          (t.call raises).2.exits = if e.exits then t.exits ++ [e] else t.exits) := by
  cases raises with
  | none =>
    simp only [call]
    split
    · exact ⟨rfl, .inl ⟨rfl, rfl⟩⟩
    · exact ⟨rfl, .inr ⟨rfl, .systemError, rfl, rfl⟩⟩
  | some e =>
    cases he : e.exits with
    | true =>
      rw [call_exits he]
      exact ⟨rfl, .inr ⟨rfl, e, rfl, by rw [he]; rfl⟩⟩
    | false =>
      rw [call_raises he]
      exact ⟨rfl, .inr ⟨rfl, e, rfl, by rw [he]; rfl⟩⟩

theorem Grows.trans_exits {t u : Thread} {r : Bool × Thread} (hends : u.ends = t.ends)
    (hexits : t.exits.length ≤ u.exits.length) (h : Grows u r) : Grows t r :=
  ⟨h.1.trans hends, le_trans (Nat.add_le_add_right hexits _) h.2⟩

/-- What is spoiled stays spoiled. -/
theorem Spoils.grows {t : Thread} {r : Bool × Thread} (h : Spoils (true, t)) (hr : Grows t r) :
    Spoils r := by
  rcases h with ⟨e, he⟩ | hlen
  · exact .inl ⟨e, by rw [hr.1]; exact he⟩
  · right
    refine le_trans ?_ hr.2
    replace hlen : 1 ≤ t.exits.length := hlen
    split <;> omega

theorem dispatchRecord_grows (t : Thread) (record : Option PyException × HandlerRun) :
    Grows t (t.dispatchRecord record) := by
  rcases hcall : t.call record.1 with ⟨ok, u⟩
  have hcases := t.call_cases record.1
  rw [hcall] at hcases
  obtain ⟨hends, ⟨rfl, hexits⟩ | ⟨rfl, e, hpending, hexits⟩⟩ := hcases
  · simp only [dispatchRecord, hcall]
    exact ⟨hends, by simp [show u.exits = t.exits from hexits]⟩
  · replace hpending : u.pending = some (.exception e) := hpending
    replace hexits : u.exits = if e.exits then t.exits ++ [e] else t.exits := hexits
    cases he : e.exits with
    | true =>
      simp only [dispatchRecord, hcall, dispatchProtocolCallbackException, hpending, Pending.exits, he,
        if_true]
      rw [if_pos he] at hexits
      exact ⟨hends, by simp [hexits]⟩
    | false =>
      simp only [dispatchRecord, hcall, dispatchProtocolCallbackException, hpending, Pending.exits, he,
        Bool.false_eq_true, if_false]
      rw [if_neg (by simp [he])] at hexits
      exact Grows.trans_exits hends (by rw [hexits]) (callHandler_grows _ record.2)

theorem callbackReturns_grows {debug : Bool} {c : ReadyCall} (t : Thread) :
    Grows t (callbackReturns debug c t) := by
  unfold callbackReturns
  split
  · have hgrows := callHandler_grows t c.handler
    exact ⟨hgrows.1, le_trans (Nat.le_add_right _ _) hgrows.2⟩
  · exact ⟨rfl, le_rfl⟩

/-- A callback that raised nothing that is an exit does not end the run by itself. -/
theorem callbackRaises_grows {c : ReadyCall} {t : Thread} (h : t.pending.any Pending.exits = false) :
    Grows t (callbackRaises c t) := by
  unfold callbackRaises
  rw [if_neg (by simp [h])]
  exact exceptionHandler_grows t pythonError c.handler

/-- User code is called, and its exception dealt with. -/
theorem call_callbackRaises_grows {c : ReadyCall} {t u : Thread} {raises : Option PyException}
    (hcall : t.call raises = (false, u)) : Grows t (callbackRaises c u) := by
  obtain ⟨hends, hcases⟩ := t.call_cases raises
  rw [hcall] at hends hcases
  obtain ⟨hno, -⟩ | ⟨-, e, hpending, hexits⟩ := hcases
  · exact absurd hno Bool.false_ne_true
  · replace hpending : u.pending = some (.exception e) := hpending
    replace hexits : u.exits = if e.exits then t.exits ++ [e] else t.exits := hexits
    cases he : e.exits with
    | true =>
      rw [if_pos he] at hexits
      have hstop : callbackRaises c u = (false, u) := by simp [callbackRaises, hpending, Pending.exits, he]
      rw [hstop]
      exact ⟨hends, by simp [hexits]⟩
    | false =>
      rw [if_neg (by simp [he])] at hexits
      refine Grows.trans_exits hends (by rw [hexits]) (callbackRaises_grows ?_)
      simp [hpending, Pending.exits, he]

theorem collect_grows (r : Thread × List PyException) (raises : Option PyException) :
    (collect r raises).1.ends = r.1.ends ∧ r.1.exits.length ≤ (collect r raises).1.exits.length := by
  have hcases := r.1.call_cases raises
  unfold collect
  rcases hcall : r.1.call raises with ⟨ok, u⟩
  rw [hcall] at hcases
  obtain ⟨hends, ⟨rfl, hexits⟩ | ⟨rfl, e, -, hexits⟩⟩ := hcases
  · exact ⟨hends, (congrArg List.length hexits).ge⟩
  · refine ⟨hends, ?_⟩
    show r.1.exits.length ≤ u.exits.length
    rw [show u.exits = _ from hexits]
    split <;> simp

theorem foldl_collect_grows (calls : List (Option PyException)) (r : Thread × List PyException) :
    (calls.foldl collect r).1.ends = r.1.ends ∧
      r.1.exits.length ≤ (calls.foldl collect r).1.exits.length := by
  induction calls generalizing r with
  | nil => exact ⟨rfl, le_rfl⟩
  | cons raises calls ih =>
    obtain ⟨hends, hexits⟩ := ih (collect r raises)
    have hstep := collect_grows r raises
    exact ⟨hends.trans hstep.1, hstep.2.trans hexits⟩

theorem keeps_reportCall : Keeps reportCall recordExits where
  clear t c ht hc := by
    obtain ⟨raises, h⟩ := c
    cases raises with
    | none => simpa only [reportCall, ht.call_returns] using ht
    | some e =>
      simp only [recordExits, Bool.or_eq_false_iff] at hc
      simp only [reportCall, call_raises hc.1, exceptionHandler]
      have hsettles := callHandler_settles (ht.report (.exception e)) h
      rw [hc.2] at hsettles
      exact ⟨rfl, hsettles.2.reported, hsettles.2.exits, hsettles.2.ends⟩
  exit t c ht hc := by
    obtain ⟨raises, h⟩ := c
    cases raises with
    | none => exact absurd hc Bool.false_ne_true
    | some e =>
      cases he : e.exits with
      | true =>
        simp only [reportCall, call_exits he]
        have hgrows := exceptionHandler_grows
          { t with pending := some (.exception e), exits := t.exits ++ [e] } pythonError h
        refine le_trans ?_ (le_trans (Nat.le_add_right _ _) hgrows.2)
        simp
      | false =>
        simp only [recordExits, he, Bool.false_or] at hc
        simp only [reportCall, call_raises he, exceptionHandler]
        have hsettles := callHandler_settles (ht.report (.exception e)) h
        rw [hc] at hsettles
        obtain ⟨-, ⟨e', hexit, -⟩, -⟩ := hsettles
        exact (congrArg List.length hexit).ge
  ends t c := by
    obtain ⟨hends, -⟩ := t.call_cases c.1
    unfold reportCall
    rcases hcall : t.call c.1 with ⟨ok, u⟩
    rw [hcall] at hends
    cases ok with
    | true => exact hends
    | false => exact (exceptionHandler_grows u pythonError c.2).1.trans hends
  exits t c := by
    obtain ⟨-, hcases⟩ := t.call_cases c.1
    unfold reportCall
    rcases hcall : t.call c.1 with ⟨ok, u⟩
    rw [hcall] at hcases
    obtain ⟨rfl, hexits⟩ | ⟨rfl, e, -, hexits⟩ := hcases
    · exact (congrArg List.length hexits).ge
    · refine le_trans ?_ (le_trans (Nat.le_add_right _ _) (exceptionHandler_grows u pythonError c.2).2)
      rw [show u.exits = _ from hexits]
      split <;> simp

theorem keeps_store : Keeps store (·.any PyException.exits) where
  clear t raises ht h := by
    cases raises with
    | none => exact ⟨rfl, ht.reported, ht.exits, ht.ends⟩
    | some e =>
      have he : e.exits = false := h
      simp only [store, he]
      exact ⟨rfl, ht.reported, ht.exits, ht.ends⟩
  exit t raises ht h := by
    cases raises with
    | none => exact absurd h Bool.false_ne_true
    | some e =>
      have he : e.exits = true := h
      simp [store, note, he]
  ends t raises := by
    cases raises with
    | none => rfl
    | some e => cases he : e.exits <;> simp [store, note, he]
  exits t raises := by
    cases raises with
    | none => exact le_rfl
    | some e => cases he : e.exits <;> simp [store, note, he]

theorem executeCallback_grows (t : Thread) (debug : Bool) (c : ReadyCall) :
    Grows t (t.executeCallback debug c) := by
  unfold executeCallback
  cases c.outcome with
  | returns =>
    have hcases := t.call_cases none
    rcases hcall : t.call none with ⟨ok, u⟩
    rw [hcall] at hcases
    cases ok with
    | true =>
      obtain ⟨hends, ⟨-, hexits⟩ | ⟨hno, -⟩⟩ := hcases
      · exact Grows.trans_exits hends (congrArg List.length hexits).ge (callbackReturns_grows u)
      · exact absurd hno.symm Bool.false_ne_true
    | false => exact call_callbackRaises_grows hcall
  | raises e =>
    have hcall : t.call (some e) = (false, (t.call (some e)).2) := rfl
    exact call_callbackRaises_grows hcall
  | fails name => exact exceptionHandler_grows { t with raised := t.raised ++ [.errorName name] } name c.handler
  | collects calls =>
    dsimp only
    have hgrows := foldl_collect_grows calls (t, [])
    rcases hfold : calls.foldl collect (t, []) with ⟨u, members⟩
    rw [hfold] at hgrows
    cases members with
    | nil => exact Grows.trans_exits hgrows.1 hgrows.2 (callbackReturns_grows u)
    | cons e es =>
      have hraises : Grows { u with pending := some (.group (e :: es)) }
          (callbackRaises c { u with pending := some (.group (e :: es)) }) := callbackRaises_grows rfl
      exact Grows.trans_exits hgrows.1 hgrows.2 ⟨hraises.1, hraises.2⟩
  | reports calls =>
    have hgrows := foldl_grows keeps_reportCall t calls
    exact Grows.trans_exits hgrows.1 hgrows.2 (callbackReturns_grows _)
  | stores calls =>
    have hgrows := foldl_grows keeps_store t calls
    exact Grows.trans_exits hgrows.1 hgrows.2 (callbackReturns_grows _)

theorem executeCallback_settles {t : Thread} (ht : t.Clear) {debug : Bool} {c : ReadyCall}
    (hc : c.swallows debug = false) : Settles c.exits (t.executeCallback debug c) := by
  rcases houtcome : c.outcome with _ | e | name | calls | calls | calls
  case collects => exact collects_settles ht houtcome hc
  all_goals
    simp only [ReadyCall.swallows, houtcome, Bool.or_eq_false_iff] at hc
    simp only [executeCallback, houtcome, ReadyCall.exits]
  case returns =>
    rw [ht.call_returns]
    exact callbackReturns_settles ht hc
  case raises =>
    cases he : e.exits with
    | true =>
      simp only [call_exits he, callbackRaises, Option.any_some, Pending.exits, he, Bool.true_or, if_true]
      exact ⟨rfl, ht.exit e⟩
    | false =>
      simp only [call_raises he, callbackRaises, Option.any_some, Pending.exits, he, Bool.false_or,
        Bool.false_eq_true, if_false, exceptionHandler]
      exact callHandler_settles (ht.report (.exception e)) c.handler
  case fails =>
    simp only [exceptionHandler, ht.pending]
    exact callHandler_settles (ht.report (.errorName name)) c.handler
  case reports => exact callbackReturns_settles (ht.foldl keeps_reportCall hc.1) hc.2
  case stores => exact callbackReturns_settles (ht.foldl keeps_store hc.1) hc.2

theorem callbackReturns_spoils {t : Thread} (ht : t.Clear) {debug : Bool} {c : ReadyCall}
    (hc : c.swallowsSlow debug = true) : Spoils (callbackReturns debug c t) := by
  simp only [ReadyCall.swallowsSlow, Bool.and_eq_true] at hc
  obtain ⟨⟨hdebug, hslow⟩, hexits⟩ := hc
  unfold callbackReturns
  rw [if_pos (by simp [hdebug, hslow])]
  have hsettles := callHandler_settles ht c.handler
  rw [hexits] at hsettles
  obtain ⟨-, ⟨e, he, -⟩, -⟩ := hsettles
  exact .inr (by rw [slowCallbackWarningHandler, he]; exact le_rfl)

/-- An exit that user code raised in a ready callback and that is not pending any more. -/
theorem spoils_of_exit {t : Thread} {r : Bool × Thread} (h : 1 ≤ t.exits.length) (hr : Grows t r) :
    Spoils r :=
  Spoils.grows (.inr h) hr

theorem executeCallback_spoils {t : Thread} (ht : t.Clear) {debug : Bool} {c : ReadyCall}
    (hc : c.swallows debug = true) : Spoils (t.executeCallback debug c) := by
  rcases houtcome : c.outcome with _ | e | name | calls | calls | calls
  all_goals
    simp only [ReadyCall.swallows, houtcome] at hc
    simp only [executeCallback, houtcome]
  case raises | fails => exact absurd hc Bool.false_ne_true
  case returns =>
    rw [ht.call_returns]
    exact callbackReturns_spoils ht hc
  all_goals rw [Bool.or_eq_true] at hc
  case collects =>
    have hfold := foldl_collect ht.pending [] calls
    rw [notes_eq, List.nil_append] at hfold
    rw [hfold]
    cases hmembers : calls.reduceOption with
    | nil =>
      have hany := (reduceOption_eq_nil_iff calls).1 hmembers
      obtain hexits | hslow := hc
      · obtain ⟨raises, hmem, hexits⟩ := List.any_eq_true.1 hexits
        obtain rfl : raises = none := by simpa using List.any_eq_false.1 hany raises hmem
        exact absurd hexits Bool.false_ne_true
      · rw [Bool.and_eq_true] at hslow
        simpa using callbackReturns_spoils ht hslow.2
    | cons e es =>
      have hexits : ∃ e' ∈ e :: es, e'.exits = true := by
        obtain hexits | hslow := hc
        · obtain ⟨raises, hmem, hexits⟩ := List.any_eq_true.1 hexits
          obtain ⟨e', rfl, he'⟩ := (Option.any_eq_true _ _).1 hexits
          exact ⟨e', hmembers ▸ List.reduceOption_mem_iff.2 hmem, he'⟩
        · rw [Bool.and_eq_true, Bool.not_eq_true', ← reduceOption_eq_nil_iff, hmembers] at hslow
          exact absurd hslow.1 (List.cons_ne_nil e es)
      refine spoils_of_exit ?_ (callbackRaises_grows rfl)
      obtain ⟨e', hmem, he'⟩ := hexits
      have hpos := List.length_pos_of_mem (List.mem_filter.2 ⟨hmem, he'⟩)
      rw [List.length_append]
      exact Nat.le_add_left_of_le hpos
  case reports =>
    obtain hexits | hslow := hc
    · exact spoils_of_exit (ht.foldl_exit keeps_reportCall hexits) (callbackReturns_grows _)
    · cases hexits : calls.any recordExits with
      | true => exact spoils_of_exit (ht.foldl_exit keeps_reportCall hexits) (callbackReturns_grows _)
      | false => exact callbackReturns_spoils (ht.foldl keeps_reportCall hexits) hslow
  case stores =>
    obtain hexits | hslow := hc
    · exact spoils_of_exit (ht.foldl_exit keeps_store hexits) (callbackReturns_grows _)
    · cases hexits : calls.any (·.any PyException.exits) with
      | true => exact spoils_of_exit (ht.foldl_exit keeps_store hexits) (callbackReturns_grows _)
      | false => exact callbackReturns_spoils (ht.foldl keeps_store hexits) hslow

theorem forEach_grows {α : Type*} {f : Thread → α → Bool × Thread} (hf : ∀ t a, Grows t (f t a))
    (t : Thread) (as : List α) : Grows t (t.forEach f as) := by
  induction as generalizing t with
  | nil => exact ⟨rfl, le_rfl⟩
  | cons a as ih =>
    rcases hfa : f t a with ⟨ok, u⟩
    have hgrows := hf t a
    rw [hfa] at hgrows
    cases ok with
    | true =>
      simp only [forEach, hfa]
      exact Grows.trans_exits hgrows.1 hgrows.2 (ih u)
    | false =>
      simp only [forEach, hfa]
      exact hgrows

/-! ### Hooks -/

theorem executeHooks_grows (t : Thread) (hooks : List (Option PyException)) :
    (t.executeHooks hooks).ends = t.ends ∧ t.exits.length ≤ (t.executeHooks hooks).exits.length := by
  induction hooks generalizing t with
  | nil => exact ⟨rfl, le_rfl⟩
  | cons raises hooks ih =>
    obtain ⟨hends, hcases⟩ := t.call_cases raises
    obtain ⟨hends', hle⟩ := ih (t.call raises).2
    refine ⟨hends'.trans hends, le_trans ?_ hle⟩
    rcases hcases with ⟨-, hexits⟩ | ⟨-, e, -, hexits⟩
    · rw [hexits]
    · rw [hexits]
      split <;> simp

/-- Hooks that return leave a clear thread state as it is. -/
theorem Clear.executeHooks {t : Thread} (ht : t.Clear) {hooks : List (Option PyException)}
    (h : ∀ raises ∈ hooks, raises = none) : t.executeHooks hooks = t := by
  induction hooks with
  | nil => rfl
  | cons raises hooks ih =>
    obtain rfl := h raises List.mem_cons_self
    show ((t.call none).2).executeHooks hooks = t
    rw [ht.call_returns]
    exact ih fun r hr => h r (List.mem_cons_of_mem _ hr)

/-- An exception that is pending stays pending, or another takes its place, in the following hooks. -/
theorem executeHooks_pending {t : Thread} {hooks : List (Option PyException)}
    (h : t.pending ≠ none ∨ ∃ raises ∈ hooks, raises ≠ none) :
    (t.executeHooks hooks).pending ≠ none := by
  induction hooks generalizing t with
  | nil =>
    rcases h with h | ⟨raises, hmem, -⟩
    · exact h
    · exact nomatch hmem
  | cons raises hooks ih =>
    refine ih (t := (t.call raises).2) ?_
    cases raises with
    | some e => exact .inl (Option.some_ne_none _)
    | none =>
      rcases h with h | ⟨r, hmem, hr⟩
      · left
        simp only [call]
        split
        · rename_i hp
          exact absurd hp h
        · exact Option.some_ne_none _
      · rcases List.mem_cons.1 hmem with rfl | hmem
        · exact absurd rfl hr
        · exact .inr ⟨r, hmem, hr⟩

theorem Clear.endPhase {t : Thread} (ht : t.Clear) : t.endPhase.Clear where
  pending := ht.pending
  reported := ht.reported
  exits := ht.exits
  ends := by
    intro e he
    rcases List.mem_append.1 he with he | he
    · exact ht.ends e he
    · rw [ht.pending] at he
      exact nomatch List.mem_singleton.1 he

/-- A phase that ends with an exception pending. -/
theorem exists_mem_ends_endPhase {t : Thread} (h : t.pending ≠ none) :
    ∃ e, some e ∈ t.endPhase.ends := by
  obtain ⟨e, he⟩ := Option.ne_none_iff_exists'.1 h
  exact ⟨e, List.mem_append_right _ (by rw [he]; exact List.mem_singleton_self _)⟩

end Thread

/-! ### Ticks -/

/-- The ready callbacks up to the one that ends the run: none of them swallows an exit. -/
def CleanReady (debug : Bool) : List ReadyCall → Prop
  | [] => True
  | c :: cs => c.swallows debug = false ∧ (c.exits = true ∨ CleanReady debug cs)

namespace Tick

/-- The tick ends the run. -/
def exits (k : Tick) : Bool := k.batch.any Thread.recordExits || k.ready.any ReadyCall.exits

/-- Of the calls that are made, no hook raises, and no ready callback swallows an exit. -/
def Clean (k : Tick) : Prop :=
  k.batch.any Thread.recordExits = true ∨
    (∀ raises ∈ k.checkHooks, raises = none) ∧ CleanReady k.debug k.ready ∧
      (k.ready.any ReadyCall.exits = true ∨
        (∀ raises ∈ k.idleHooks, raises = none) ∧ ∀ raises ∈ k.prepareHooks, raises = none)

end Tick

namespace Thread

theorem forEach_cleanReady {debug : Bool} {t : Thread} (ht : t.Clear) {cs : List ReadyCall}
    (h : CleanReady debug cs) :
    Settles (cs.any ReadyCall.exits) (t.forEach (executeCallback debug) cs) := by
  induction cs generalizing t with
  | nil => exact ⟨rfl, ht⟩
  | cons c cs ih =>
    obtain ⟨hswallows, hrest⟩ := h
    have hsettles := executeCallback_settles ht hswallows
    rcases hc : t.executeCallback debug c with ⟨ok, u⟩
    rw [hc] at hsettles
    rw [List.any_cons]
    cases hstop : c.exits with
    | true =>
      rw [hstop] at hsettles
      obtain ⟨rfl, hended⟩ := hsettles
      simp only [forEach, hc, Bool.true_or]
      exact ⟨rfl, hended⟩
    | false =>
      rw [hstop] at hsettles
      obtain ⟨rfl, hclear⟩ := hsettles
      simp only [forEach, hc, Bool.false_or]
      exact ih hclear (hrest.resolve_left (by rw [hstop]; exact Bool.false_ne_true))

/-- An exit that was swallowed is missing in the end, whether the callbacks go on or not. -/
theorem forEach_not_cleanReady {debug : Bool} {t : Thread} (ht : t.Clear) {cs : List ReadyCall}
    (h : ¬ CleanReady debug cs) : Spoils (t.forEach (executeCallback debug) cs) := by
  induction cs generalizing t with
  | nil => exact absurd trivial h
  | cons c cs ih =>
    rcases hc : t.executeCallback debug c with ⟨ok, u⟩
    cases hswallows : c.swallows debug with
    | true =>
      have hspoils := executeCallback_spoils ht hswallows
      rw [hc] at hspoils
      cases ok with
      | true =>
        simp only [forEach, hc]
        exact hspoils.grows (forEach_grows (fun t c => executeCallback_grows t debug c) u cs)
      | false =>
        simp only [forEach, hc]
        exact hspoils
    | false =>
      have hsettles := executeCallback_settles ht hswallows
      rw [hc] at hsettles
      have hnot : c.exits = false ∧ ¬ CleanReady debug cs := by
        constructor
        · cases hstop : c.exits with
          | true => exact absurd ⟨hswallows, .inl hstop⟩ h
          | false => rfl
        · exact fun hcs => h ⟨hswallows, .inr hcs⟩
      rw [hnot.1] at hsettles
      obtain ⟨rfl, hclear⟩ := hsettles
      simp only [forEach, hc]
      exact ih hclear hnot.2

theorem readyPhase_settles {t : Thread} (ht : t.Clear) {k : Tick} (hready : CleanReady k.debug k.ready)
    (hhooks : k.ready.any ReadyCall.exits = true ∨
      (∀ raises ∈ k.idleHooks, raises = none) ∧ ∀ raises ∈ k.prepareHooks, raises = none) :
    Settles (k.ready.any ReadyCall.exits) (t.readyPhase k) := by
  have hsettles := forEach_cleanReady ht hready
  rcases hr : t.forEach (executeCallback k.debug) k.ready with ⟨ok, u⟩
  rw [hr] at hsettles
  cases hstop : k.ready.any ReadyCall.exits with
  | true =>
    rw [hstop] at hsettles
    obtain ⟨rfl, hended⟩ := hsettles
    simp only [readyPhase, hr]
    exact ⟨rfl, hended⟩
  | false =>
    rw [hstop] at hsettles hhooks
    obtain ⟨rfl, hclear⟩ := hsettles
    obtain ⟨hidle, hprepare⟩ := hhooks.resolve_left Bool.false_ne_true
    simp only [readyPhase, hr]
    rw [hclear.endPhase.executeHooks hidle, hclear.endPhase.endPhase.executeHooks hprepare]
    exact ⟨rfl, hclear.endPhase.endPhase.endPhase⟩

/-- A tick that starts clear and is clean goes on clear, or ends the run with the exit. -/
theorem tick_settles {t : Thread} (ht : t.Clear) {k : Tick} (hk : k.Clean) :
    Settles k.exits (t.tick k) := by
  have hsettles := forEach_settles (fun _ a hu => dispatchRecord_settles hu a) ht k.batch
  rcases hb : t.forEach dispatchRecord k.batch with ⟨ok, u⟩
  rw [hb] at hsettles
  have hpoll : (k.parked && t.pending.isSome) = false := by simp [ht.pending]
  unfold Tick.exits
  cases hstop : k.batch.any recordExits with
  | true =>
    rw [hstop] at hsettles
    obtain ⟨rfl, hended⟩ := hsettles
    simp only [tick, hpoll, Bool.false_eq_true, if_false, hb, Bool.true_or]
    exact ⟨rfl, hended⟩
  | false =>
    rw [hstop] at hsettles
    obtain ⟨rfl, hclear⟩ := hsettles
    unfold Tick.Clean at hk
    rw [hstop] at hk
    obtain ⟨hcheck, hready, hhooks⟩ := hk.resolve_left Bool.false_ne_true
    simp only [tick, hpoll, Bool.false_eq_true, if_false, hb, Bool.false_or]
    rw [hclear.endPhase.executeHooks hcheck]
    exact readyPhase_settles hclear.endPhase.endPhase hready hhooks

/-! ### What is spoiled stays spoiled -/

theorem Spoils.endPhase {t : Thread} (h : Spoils (true, t)) : Spoils (true, t.endPhase) := by
  rcases h with ⟨e, he⟩ | hlen
  · exact .inl ⟨e, List.mem_append_left _ he⟩
  · exact .inr hlen

theorem Spoils.executeHooks {t : Thread} (h : Spoils (true, t)) (hooks : List (Option PyException)) :
    Spoils (true, t.executeHooks hooks) :=
  h.grows ⟨(t.executeHooks_grows hooks).1, (t.executeHooks_grows hooks).2⟩

theorem Spoils.hookPhases {t : Thread} (h : Spoils (true, t)) (k : Tick) : Spoils
    (true, ((t.endPhase.executeHooks k.idleHooks).endPhase.executeHooks k.prepareHooks).endPhase) :=
  (((h.endPhase.executeHooks k.idleHooks).endPhase).executeHooks k.prepareHooks).endPhase

theorem Spoils.readyPhase {t : Thread} (h : Spoils (true, t)) (k : Tick) :
    Spoils (t.readyPhase k) := by
  have hready := h.grows (forEach_grows (fun u c => executeCallback_grows u k.debug c) t k.ready)
  rcases hr : t.forEach (executeCallback k.debug) k.ready with ⟨ok, u⟩
  rw [hr] at hready
  cases ok with
  | true =>
    simp only [Thread.readyPhase, hr]
    exact hready.hookPhases k
  | false =>
    simp only [Thread.readyPhase, hr]
    exact hready

/-- A hook that raises leaves its exception pending at the end of the phase. -/
theorem spoils_hooks {t : Thread} {hooks : List (Option PyException)}
    (h : ¬ ∀ raises ∈ hooks, raises = none) : Spoils (true, (t.executeHooks hooks).endPhase) := by
  push Not at h
  exact .inl (exists_mem_ends_endPhase (executeHooks_pending (.inr h)))

theorem readyPhase_spoils {t : Thread} (ht : t.Clear) {k : Tick}
    (h : ¬ (CleanReady k.debug k.ready ∧ (k.ready.any ReadyCall.exits = true ∨
      (∀ raises ∈ k.idleHooks, raises = none) ∧ ∀ raises ∈ k.prepareHooks, raises = none))) :
    Spoils (t.readyPhase k) := by
  rcases hr : t.forEach (executeCallback k.debug) k.ready with ⟨ok, u⟩
  by_cases hready : CleanReady k.debug k.ready
  · have hsettles := forEach_cleanReady ht hready
    rw [hr] at hsettles
    have hrest : ¬ (k.ready.any ReadyCall.exits = true ∨
        (∀ raises ∈ k.idleHooks, raises = none) ∧ ∀ raises ∈ k.prepareHooks, raises = none) :=
      fun hhooks => h ⟨hready, hhooks⟩
    have hstop : k.ready.any ReadyCall.exits = false := by
      cases hx : k.ready.any ReadyCall.exits with
      | true => exact absurd (.inl hx) hrest
      | false => rfl
    rw [hstop] at hsettles
    obtain ⟨rfl, hclear⟩ := hsettles
    simp only [Thread.readyPhase, hr]
    by_cases hidle : ∀ raises ∈ k.idleHooks, raises = none
    · exact spoils_hooks fun hprepare => hrest (.inr ⟨hidle, hprepare⟩)
    · exact ((spoils_hooks hidle).executeHooks k.prepareHooks).endPhase
  · have hspoils := forEach_not_cleanReady ht hready
    rw [hr] at hspoils
    cases ok with
    | true =>
      simp only [Thread.readyPhase, hr]
      exact hspoils.hookPhases k
    | false =>
      simp only [Thread.readyPhase, hr]
      exact hspoils

theorem tick_spoils {t : Thread} (ht : t.Clear) {k : Tick} (hk : ¬ k.Clean) : Spoils (t.tick k) := by
  have hsettles := forEach_settles (fun _ a hu => dispatchRecord_settles hu a) ht k.batch
  rcases hb : t.forEach dispatchRecord k.batch with ⟨ok, u⟩
  rw [hb] at hsettles
  have hpoll : (k.parked && t.pending.isSome) = false := by simp [ht.pending]
  have hstop : k.batch.any recordExits = false := by
    cases hx : k.batch.any recordExits with
    | true => exact absurd (.inl hx) hk
    | false => rfl
  rw [hstop] at hsettles
  obtain ⟨rfl, hclear⟩ := hsettles
  simp only [tick, hpoll, Bool.false_eq_true, if_false, hb]
  by_cases hcheck : ∀ raises ∈ k.checkHooks, raises = none
  · rw [hclear.endPhase.executeHooks hcheck]
    exact readyPhase_spoils hclear.endPhase.endPhase fun hrest => hk (.inr ⟨hcheck, hrest⟩)
  · exact (spoils_hooks hcheck).readyPhase k

/-- Between two ticks, an exception that is pending was pending when the last phase ended. -/
def AtEnd (t : Thread) : Prop := t.pending ≠ none → ∃ e, some e ∈ t.ends

theorem atEnd_tick {t t' : Thread} {k : Tick} (h : t.tick k = (true, t')) : t'.AtEnd := by
  unfold tick at h
  split at h
  · exact nomatch (Prod.mk.inj h).1
  · split at h
    · exact nomatch (Prod.mk.inj h).1
    · unfold Thread.readyPhase at h
      split at h
      · exact nomatch (Prod.mk.inj h).1
      · obtain rfl := (Prod.mk.inj h).2
        intro hpending
        exact exists_mem_ends_endPhase hpending

theorem Spoils.tick {t : Thread} (h : Spoils (true, t)) (hend : t.AtEnd) (k : Tick) :
    Spoils (t.tick k) := by
  unfold Thread.tick
  split
  · rename_i hpoll
    refine .inl (hend ?_)
    rw [Bool.and_eq_true] at hpoll
    exact Option.isSome_iff_ne_none.1 hpoll.2
  · have hbatch := h.grows (forEach_grows dispatchRecord_grows t k.batch)
    split
    · rename_i u hb
      rw [hb] at hbatch
      exact hbatch
    · rename_i u hb
      rw [hb] at hbatch
      exact ((hbatch.endPhase.executeHooks k.checkHooks).endPhase).readyPhase k

theorem Spoils.start {t : Thread} (h : Spoils (true, t)) (hend : t.AtEnd) (ks : List Tick) :
    Spoils (t.start ks) := by
  induction ks generalizing t with
  | nil => exact h
  | cons k ks ih =>
    have hk := h.tick hend k
    rcases hr : t.tick k with ⟨ok, u⟩
    rw [hr] at hk
    cases ok with
    | true =>
      simp only [Thread.start, forEach, hr]
      exact ih hk (atEnd_tick hr)
    | false =>
      simp only [Thread.start, forEach, hr]
      exact hk

/-- The ticks up to the one that ends the run are clean. -/
def CleanRun : List Tick → Prop
  | [] => True
  | k :: ks => k.Clean ∧ (k.exits = true ∨ CleanRun ks)

theorem start_handled_iff {t : Thread} (ht : t.Clear) (ks : List Tick) :
    Handled (t.start ks) ↔ CleanRun ks := by
  induction ks generalizing t with
  | nil => exact ⟨fun _ => trivial, fun _ => ht.handled⟩
  | cons k ks ih =>
    rcases hr : t.tick k with ⟨ok, u⟩
    by_cases hk : k.Clean
    · have hsettles := tick_settles ht hk
      rw [hr] at hsettles
      cases hstop : k.exits with
      | true =>
        rw [hstop] at hsettles
        obtain ⟨rfl, hended⟩ := hsettles
        simp only [Thread.start, forEach, hr]
        exact ⟨fun _ => ⟨hk, .inl hstop⟩, fun _ => hended.handled⟩
      | false =>
        rw [hstop] at hsettles
        obtain ⟨rfl, hclear⟩ := hsettles
        simp only [Thread.start, forEach, hr]
        refine (ih hclear).trans ⟨fun hks => ⟨hk, .inr hks⟩, fun hks => ?_⟩
        exact hks.2.resolve_left (by rw [hstop]; exact Bool.false_ne_true)
    · have hspoils := tick_spoils ht hk
      rw [hr] at hspoils
      refine ⟨fun hhandled => ?_, fun hks => absurd hks.1 hk⟩
      cases ok with
      | true =>
        simp only [Thread.start, forEach, hr] at hhandled
        exact absurd hhandled (hspoils.start (atEnd_tick hr) ks).not_handled
      | false =>
        simp only [Thread.start, forEach, hr] at hhandled
        exact absurd hhandled hspoils.not_handled

end Thread

end Talyn
