import Talyn.Utils.LinkedList
import Talyn.Lib.Runs

/-!
# `execute_hooks` and the hooks that are removed under it

`execute_hooks` reads the link to the next hook and then calls the hook it is at; the callback can add hooks,
cancel their handles and destroy transports, which remove their own hook. A pass is sound as long as the node
it has read is still that of the hook it was read for; once that node is freed the pass goes on in freed memory.
-/

namespace Talyn

inductive HookType
  | prepare
  | check
  | idle
deriving DecidableEq

/-- Who holds the node of a hook: a `HookHandle`, or a `WriteTransport` with its `prepare_hook_node`. -/
inductive HookOwner
  | handle (hookType : HookType) (node : ℕ) (cancelled : Bool)
  | transport (prepareHookNode : Option ℕ) (initialized : Bool)

namespace HookOwner

def hookType : HookOwner → HookType
  | .handle hookType _ _ => hookType
  | .transport _ _ => .prepare

/-- The hook that is still registered, by its list and its node. -/
def hook : HookOwner → Option (HookType × ℕ)
  | .handle hookType node false => some (hookType, node)
  | .handle _ _ true => none
  | .transport node true => node.map fun node => (.prepare, node)
  | .transport _ false => none

end HookOwner

/-- What is done with a hook, by the number of its registration. -/
inductive HookAction
  | executed (hook : ℕ)
  | removed (hook : ℕ)

/-- The hook lists of a loop, whose nodes hold the number of the registration in place of its callback, and a
pass of `execute_hooks` over one of them. -/
structure Hooks where
  lists : LinkedLists HookType ℕ
  /-- `loop.initialized` -/
  initialized : Bool
  /-- who each hook was registered for -/
  owners : List HookOwner
  /-- a pass goes on -/
  walking : Bool
  /-- over this list -/
  walked : HookType
  /-- `node`, the one to go on with -/
  node : Option ℕ
  /-- the pass is in the callback of a hook -/
  inCallback : Bool
  /-- the hook whose node this was when it was read -/
  remembered : Option ℕ
  /-- how many hooks had been registered when the pass began -/
  present : ℕ
  /-- the hooks the pass has executed -/
  executed : List ℕ
  /-- what was done with the hooks, in all passes -/
  trace : List HookAction

namespace Hooks

/-- No hooks yet. -/
def init (initialized : Bool) : Hooks :=
  ⟨.init, initialized, [], false, .prepare, none, false, none, 0, [], []⟩

/-- The hook that a node is that of. -/
def hookAt (s : Hooks) (node : Option ℕ) : Option ℕ := node.bind fun n => (s.lists.nodes n).map Cell.item

/-- `add_hook`, for an owner that keeps the node. -/
def addHook (s : Hooks) (hookType : HookType) (address : Option ℕ) (owner : ℕ → HookOwner) : Hooks :=
  if s.initialized = false then s
  else
    match s.lists.createNewNode s.owners.length address with
    | (.node node, lists) =>
      { s with lists := lists.appendNode hookType node, owners := s.owners ++ [owner node] }
    | _ => s

/-- `remove_hook`: the node is released whatever `unlink_node` returns. -/
def removeHook (s : Hooks) (hookType : HookType) (node : ℕ) : Hooks :=
  { s with lists := (s.lists.unlinkNode hookType node).2.releaseNode node }

/-- The hook of an owner is removed. -/
def dropHook (s : Hooks) (hook : ℕ) (hookType : HookType) (node : ℕ) (owner : HookOwner) : Hooks :=
  { s.removeHook hookType node with
    owners := s.owners.set hook owner
    trace := s.trace ++ [.removed hook] }

/-- `hook_handle_cancel`. -/
def cancel (s : Hooks) (hook : ℕ) (hookType : HookType) (node : ℕ) (cancelled : Bool) : Hooks :=
  if cancelled = true ∨ s.initialized = false then
    { s with owners := s.owners.set hook (.handle hookType node true) }
  else s.dropHook hook hookType node (.handle hookType node true)

/-- What `WriteTransport.deinit` does with the hook. -/
def deinit (s : Hooks) (hook : ℕ) (prepareHookNode : Option ℕ) (initialized : Bool) : Hooks :=
  if initialized = false then s
  else if s.initialized = false then { s with owners := s.owners.set hook (.transport prepareHookNode false) }
  else
    match prepareHookNode with
    | some node => s.dropHook hook .prepare node (.transport none false)
    | none => { s with owners := s.owners.set hook (.transport none false) }

/-- The turn of the loop in `execute_hooks` for a node: read its `next`, then call its callback. -/
def enter (s : Hooks) (n : ℕ) : Hooks :=
  match s.lists.nodes n with
  | none => { s with lists := s.lists.fail, inCallback := true }
  | some cell =>
    { s with
      node := cell.next
      remembered := s.hookAt cell.next
      inCallback := true
      executed := s.executed ++ [cell.item]
      trace := s.trace ++ [.executed cell.item] }

/-- What can happen: a pass begins, goes on with the next hook, is returned to by its callback, and ends; a hook
is added for a handle or a transport, a handle is cancelled, a transport is destroyed. -/
inductive Event
  | begin (hookType : HookType)
  | enter
  | returned
  | finish
  | addHandle (hookType : HookType) (address : Option ℕ)
  | addTransport (address : Option ℕ)
  | cancel (hook : ℕ)
  | deinit (hook : ℕ)

/-- Code other than that of the pass is run. -/
def Outside (s : Hooks) : Prop := s.walking = false ∨ s.inCallback = true

instance (s : Hooks) : Decidable s.Outside := inferInstanceAs (Decidable (_ ∨ _))

/-- `allocator.create` returns memory that is not in use. -/
def Unused (s : Hooks) (address : Option ℕ) : Prop := ∀ n ∈ address, s.lists.nodes n = none

instance (s : Hooks) : (address : Option ℕ) → Decidable (s.Unused address)
  | none => isTrue fun _ h => nomatch h
  | some n =>
    match h : s.lists.nodes n with
    | none => isTrue fun _ hn => Option.some.inj hn ▸ h
    | some _ => isFalse fun hall => nomatch h.symm.trans (hall n rfl)

/-- One event. -/
def step (s : Hooks) : Event → Option Hooks
  | .begin hookType =>
    if s.walking = false then
      some { s with
        walking := true
        walked := hookType
        node := (s.lists.lists hookType).first
        inCallback := false
        remembered := s.hookAt (s.lists.lists hookType).first
        present := s.owners.length
        executed := [] }
    else none
  | .enter => if s.walking = true ∧ s.inCallback = false then s.node.map s.enter else none
  | .returned => if s.inCallback = true then some { s with inCallback := false } else none
  | .finish =>
    if s.walking = true ∧ s.inCallback = false ∧ s.node = none then some { s with walking := false } else none
  | .addHandle hookType address =>
    if s.Outside ∧ s.Unused address then
      some (s.addHook hookType address fun node => .handle hookType node false)
    else none
  | .addTransport address =>
    if s.Outside ∧ s.Unused address then
      some (s.addHook .prepare address fun node => .transport (some node) true)
    else none
  | .cancel hook =>
    match s.owners[hook]? with
    | some (.handle hookType node cancelled) =>
      if s.Outside then some (s.cancel hook hookType node cancelled) else none
    | _ => none
  | .deinit hook =>
    match s.owners[hook]? with
    | some (.transport node initialized) => if s.Outside then some (s.deinit hook node initialized) else none
    | _ => none

/-- The list and the node of a hook that is registered. -/
def hookOf (s : Hooks) (hook : ℕ) : Option (HookType × ℕ) := s.owners[hook]?.bind HookOwner.hook

/-- The list a hook was registered for. -/
def typeOf (s : Hooks) (hook : ℕ) : Option HookType := s.owners[hook]?.map HookOwner.hookType

/-- The hook is in this list. -/
def Registered (s : Hooks) (hookType : HookType) (hook : ℕ) : Prop := ∃ node, s.hookOf hook = some (hookType, node)

/-- The hook was registered when the pass began, is still registered, and was not executed. -/
def Waiting (s : Hooks) (hook : ℕ) : Prop :=
  hook < s.present ∧ s.Registered s.walked hook ∧ hook ∉ s.executed

/-- The pass has only touched nodes that are there, executed hooks of its list, each once and in the order of
their registration, passed over none that waits and executed none that was removed. -/
structure Sound (s : Hooks) : Prop where
  touched : s.lists.fault = false
  listed : ∀ hook ∈ s.executed, s.typeOf hook = some s.walked
  order : s.executed.Pairwise (· < ·)
  turn : ∀ hook, s.Waiting hook → s.node ≠ none ∧ ∀ done ∈ s.executed, done < hook
  after : s.trace.Pairwise fun a b => ∀ hook, a = .removed hook → b ≠ .executed hook
  /-- every turn is that of another registration -/
  bounded : s.executed.length ≤ s.owners.length

/-- The condition on an event: when the pass goes on, the node it has read is still that of the hook it was read
for, or it was given to a hook that was added to the list since and no other hook waits. -/
def Keeps (s : Hooks) : Event → Prop
  | .enter => s.walking = true → s.inCallback = false → ∀ n, s.node = some n → ∃ hook, s.hookAt (some n) = some hook ∧
      (s.remembered = some hook ∨ s.typeOf hook = some s.walked ∧ ∀ other, ¬s.Waiting other)
  | _ => True

/-! ### The invariant -/

open Chain LinkedLists

/-- What holds in the runs that meet the condition; `d` are the hook lists. -/
structure Inv (s : Hooks) (d : Deques HookType ℕ) : Prop where
  holds : Holds s.lists d
  tight : ∀ n, d.loose n = none
  mem : ∀ t n hook, (n, hook) ∈ d.lists t ↔ s.hookOf hook = some (t, n)
  sorted : ∀ t, ((d.lists t).map Prod.snd).Pairwise (· < ·)
  closed : s.initialized = false → s.owners = []
  order : s.executed.Pairwise (· < ·)
  listed : ∀ hook ∈ s.executed, s.typeOf hook = some s.walked
  before : ∀ r, s.remembered = some r → ∀ hook ∈ s.executed, hook < r
  node : s.node = none ↔ s.remembered = none
  remembered : ∀ r, s.remembered = some r → s.typeOf r = some s.walked
  occupant : ∀ n r hook, s.node = some n → s.remembered = some r → s.hookAt (some n) = some hook →
    hook = r ∨ r < hook ∧ s.present ≤ hook
  waiting : ∀ hook, s.Waiting hook → ∃ r, s.remembered = some r ∧ r ≤ hook
  present : s.present ≤ s.owners.length
  gone : ∀ hook, .removed hook ∈ s.trace → hook < s.owners.length ∧ s.hookOf hook = none
  after : s.trace.Pairwise fun a b => ∀ hook, a = .removed hook → b ≠ .executed hook

variable {s t : Hooks} {d : Deques HookType ℕ}

theorem inv_init (initialized : Bool) : Inv (init initialized) .empty where
  holds := holds_init
  tight := fun _ => rfl
  mem := fun _ _ _ => iff_of_false List.not_mem_nil nofun
  sorted := fun _ => List.Pairwise.nil
  closed := fun _ => rfl
  order := List.Pairwise.nil
  listed := fun _ h => absurd h List.not_mem_nil
  before := nofun
  node := iff_of_true rfl rfl
  remembered := nofun
  occupant := nofun
  waiting := fun _ h => absurd h.1 (Nat.not_lt_zero _)
  present := le_rfl
  gone := fun _ h => absurd h List.not_mem_nil
  after := List.Pairwise.nil

theorem lt_of_typeOf {hook : ℕ} {hookType : HookType} (h : s.typeOf hook = some hookType) :
    hook < s.owners.length := by
  obtain ⟨owner, howner, -⟩ := Option.map_eq_some_iff.1 h
  exact (List.getElem?_eq_some_iff.1 howner).1

/-- A sequence of different numbers below a bound. -/
theorem length_le_of_lt {l : List ℕ} {n : ℕ} (h : l.Pairwise (· < ·)) (hlt : ∀ i ∈ l, i < n) : l.length ≤ n := by
  have hnodup : l.Nodup := h.imp Nat.ne_of_lt
  have hsub : l ⊆ List.range n := fun i hi => List.mem_range.2 (hlt i hi)
  have hle := (List.subperm_of_subset hnodup hsub).length_le
  rwa [List.length_range] at hle

theorem Inv.sound (h : Inv s d) : Sound s where
  touched := h.holds.sound
  listed := h.listed
  order := h.order
  turn := by
    intro hook hwaiting
    obtain ⟨r, hr, hle⟩ := h.waiting hook hwaiting
    refine ⟨fun hnode => ?_, fun done hdone => (h.before r hr done hdone).trans_le hle⟩
    exact nomatch hr.symm.trans (h.node.1 hnode)
  after := h.after
  bounded := length_le_of_lt h.order fun hook hhook => lt_of_typeOf (h.listed hook hhook)

/-! ### The lists and their owners -/

theorem hookOf_of_owner {hook : ℕ} {owner : HookOwner} (h : s.owners[hook]? = some owner) :
    s.hookOf hook = owner.hook := by
  rw [hookOf, h]
  rfl

theorem typeOf_of_hookOf {hook n : ℕ} {hookType : HookType} (h : s.hookOf hook = some (hookType, n)) :
    s.typeOf hook = some hookType := by
  obtain ⟨owner, howner, hhook⟩ := Option.bind_eq_some_iff.1 h
  rw [typeOf, howner]
  cases owner with
  | handle t node cancelled =>
    cases cancelled with
    | false =>
      rw [HookOwner.hook, Option.some.injEq, Prod.mk.injEq] at hhook
      rw [← hhook.1]
      rfl
    | true => exact nomatch hhook
  | transport node initialized =>
    cases initialized with
    | false => exact nomatch hhook
    | true =>
      obtain ⟨m, -, hm⟩ := Option.map_eq_some_iff.1 hhook
      rw [Prod.mk.injEq] at hm
      rw [← hm.1]
      rfl

/-- A node that is there is in one of the lists. -/
theorem hookAt_iff (hholds : Holds s.lists d) (htight : ∀ n, d.loose n = none) {n hook : ℕ} :
    s.hookAt (some n) = some hook ↔ ∃ t, (n, hook) ∈ d.lists t := by
  constructor
  · intro hat
    obtain ⟨cell, hcell, rfl⟩ := Option.map_eq_some_iff.1 hat
    by_contra hnot
    have hfresh : d.Fresh n := by
      refine ⟨htight n, fun t hmem => ?_⟩
      obtain ⟨l, x, l', hl, rfl⟩ := mem_split hmem
      have hchained := hholds.chained t
      rw [hl] at hchained
      have hnode := hchained.node
      rw [hcell, Option.some.injEq] at hnode
      refine hnot ⟨t, ?_⟩
      rw [hl, hnode]
      simp
    rw [hholds.dead n hfresh] at hcell
    exact nomatch hcell
  · rintro ⟨t, hmem⟩
    obtain ⟨l, l', hl⟩ := List.append_of_mem hmem
    have hchained := hholds.chained t
    rw [hl] at hchained
    rw [hookAt, Option.bind_some, hchained.node]
    rfl

theorem Inv.hookAt_iff (h : Inv s d) {n hook : ℕ} :
    s.hookAt (some n) = some hook ↔ ∃ t, (n, hook) ∈ d.lists t := Hooks.hookAt_iff h.holds h.tight

/-! ### Removing a hook -/

section Remove

variable {hook n : ℕ} {hookType : HookType} {owner owner' : HookOwner}

theorem owners_set_of_owner (howner : s.owners[hook]? = some owner) (k : ℕ) :
    (s.owners.set hook owner')[k]? = if k = hook then some owner' else s.owners[k]? := by
  have hlt := (List.getElem?_eq_some_iff.1 howner).1
  rw [List.getElem?_set]
  by_cases hk : hook = k
  · subst hk
    simp [hlt]
  · simp [hk, Ne.symm hk]

theorem Inv.not_same (h : Inv s d) (hmem : (n, hook) ∈ d.lists hookType) {m k : ℕ} {t : HookType}
    (hother : (m, k) ∈ d.lists t) : m = n ↔ k = hook := by
  constructor
  · rintro rfl
    have hk := h.hookAt_iff.2 ⟨t, hother⟩
    rw [h.hookAt_iff.2 ⟨hookType, hmem⟩, Option.some.injEq] at hk
    exact hk.symm
  · rintro rfl
    have hk := (h.mem _ _ _).1 hother
    rw [(h.mem _ _ _).1 hmem, Option.some.injEq, Prod.mk.injEq] at hk
    exact hk.2.symm

/-- The lists without the hook. -/
theorem Inv.holds_removeHook (h : Inv s d) (hmem : (n, hook) ∈ d.lists hookType) :
    Holds (s.removeHook hookType n).lists ((d.unlink hookType (n, hook)).release n) := by
  obtain ⟨l, l', hl⟩ := List.append_of_mem hmem
  exact (h.holds.unlink hl).2.release (Function.update_self ..)

theorem Inv.mem_unlink (h : Inv s d) (hmem : (n, hook) ∈ d.lists hookType) (t : HookType) (m k : ℕ) :
    (m, k) ∈ ((d.unlink hookType (n, hook)).release n).lists t ↔ k ≠ hook ∧ (m, k) ∈ d.lists t := by
  show (m, k) ∈ Function.update d.lists hookType ((d.lists hookType).filter fun y => y.1 ≠ n) t ↔ _
  by_cases ht : t = hookType
  · subst ht
    rw [Function.update_self, List.mem_filter, decide_eq_true_iff, and_comm]
    exact and_congr_left fun hother => not_congr (h.not_same hmem hother)
  · rw [Function.update_of_ne ht]
    refine ⟨fun hother => ⟨?_, hother⟩, And.right⟩
    rintro rfl
    have hk := (h.mem _ _ _).1 hother
    rw [(h.mem _ _ _).1 hmem, Option.some.injEq, Prod.mk.injEq] at hk
    exact ht hk.1.symm

theorem Inv.dropHook (h : Inv s d) (howner : s.owners[hook]? = some owner)
    (hregistered : owner.hook = some (hookType, n)) (hgone : owner'.hook = none)
    (htype : owner'.hookType = owner.hookType) :
    Inv (s.dropHook hook hookType n owner') ((d.unlink hookType (n, hook)).release n) := by
  have hhook : s.hookOf hook = some (hookType, n) := (hookOf_of_owner howner).trans hregistered
  have hmem := (h.mem _ _ _).2 hhook
  have hlt := (List.getElem?_eq_some_iff.1 howner).1
  have hhookOf : ∀ k, (s.dropHook hook hookType n owner').hookOf k = if k = hook then none else s.hookOf k := by
    intro k
    rw [hookOf, Hooks.dropHook]
    dsimp only
    rw [owners_set_of_owner howner]
    split
    · exact hgone
    · rfl
  have htypeOf : ∀ k, (s.dropHook hook hookType n owner').typeOf k = s.typeOf k := by
    intro k
    rw [typeOf, Hooks.dropHook]
    dsimp only
    rw [owners_set_of_owner howner]
    split
    · rename_i hk
      rw [hk, typeOf, howner]
      exact congrArg some htype
    · rfl
  have hlen : (s.dropHook hook hookType n owner').owners.length = s.owners.length := List.length_set
  have hholds := h.holds_removeHook hmem
  have htight : ∀ m, ((d.unlink hookType (n, hook)).release n).loose m = none := by
    intro m
    by_cases hm : m = n
    · subst hm
      exact Function.update_self ..
    · exact (Function.update_of_ne hm _ _).trans ((Function.update_of_ne hm _ _).trans (h.tight m))
  -- a node that is still there is that of the same hook
  have hat : ∀ m k, (s.dropHook hook hookType n owner').hookAt (some m) = some k → s.hookAt (some m) = some k := by
    intro m k hk
    obtain ⟨t, ht⟩ := (Hooks.hookAt_iff hholds htight).1 hk
    exact h.hookAt_iff.2 ⟨t, ((h.mem_unlink hmem t m k).1 ht).2⟩
  have hremoved : ∀ k, .removed k ∈ s.trace ++ [.removed hook] → .removed k ∈ s.trace ∨ k = hook := by
    intro k hk
    rcases List.mem_append.1 hk with hk | hk
    · exact .inl hk
    · exact .inr (HookAction.removed.inj (List.mem_singleton.1 hk))
  exact {
    holds := hholds
    tight := htight
    mem := by
      intro t m k
      rw [h.mem_unlink hmem, h.mem, hhookOf]
      split
      · simp [*]
      · simp [*]
    sorted := by
      intro t
      refine (h.sorted t).sublist (List.Sublist.map _ ?_)
      show (Function.update d.lists hookType ((d.lists hookType).filter fun y => y.1 ≠ n) t).Sublist (d.lists t)
      by_cases ht : t = hookType
      · subst ht
        rw [Function.update_self]
        exact List.filter_sublist
      · rw [Function.update_of_ne ht]
    closed := by
      intro hclosed
      rw [h.closed hclosed] at howner
      exact nomatch howner
    order := h.order
    listed := fun k hk => (htypeOf k).trans (h.listed k hk)
    before := h.before
    node := h.node
    remembered := fun r hr => (htypeOf r).trans (h.remembered r hr)
    occupant := fun m r k hm hr hk => h.occupant m r k hm hr (hat m k hk)
    waiting := by
      rintro k ⟨hk, ⟨m, hm⟩, hnot⟩
      rw [hhookOf] at hm
      split at hm
      · exact nomatch hm
      · exact h.waiting k ⟨hk, ⟨m, hm⟩, hnot⟩
    present := hlen ▸ h.present
    gone := by
      intro k hk
      rw [hlen, hhookOf]
      rcases hremoved k hk with hk | rfl
      · refine ⟨(h.gone k hk).1, ?_⟩
        split
        · rfl
        · exact (h.gone k hk).2
      · exact ⟨hlt, if_pos rfl⟩
    after := by
      refine List.pairwise_append.2 ⟨h.after, List.pairwise_singleton _ _, fun a _ b hb k _ => ?_⟩
      rw [List.mem_singleton.1 hb]
      exact nofun }

/-- The owner of a hook that is not registered is changed. -/
theorem Inv.setOwner (h : Inv s d) (howner : s.owners[hook]? = some owner) (hhook : owner'.hook = owner.hook)
    (htype : owner'.hookType = owner.hookType) : Inv { s with owners := s.owners.set hook owner' } d := by
  have hhookOf : ∀ k, ({ s with owners := s.owners.set hook owner' } : Hooks).hookOf k = s.hookOf k := by
    intro k
    dsimp only [hookOf]
    rw [owners_set_of_owner howner]
    split
    · rename_i hk
      rw [hk, howner]
      exact hhook
    · rfl
  have htypeOf : ∀ k, ({ s with owners := s.owners.set hook owner' } : Hooks).typeOf k = s.typeOf k := by
    intro k
    dsimp only [typeOf]
    rw [owners_set_of_owner howner]
    split
    · rename_i hk
      rw [hk, howner]
      exact congrArg some htype
    · rfl
  exact {
    holds := h.holds
    tight := h.tight
    mem := fun t m k => by rw [hhookOf, h.mem]
    sorted := h.sorted
    closed := by
      intro hclosed
      rw [h.closed hclosed] at howner
      exact nomatch howner
    order := h.order
    listed := fun k hk => (htypeOf k).trans (h.listed k hk)
    before := h.before
    node := h.node
    remembered := fun r hr => (htypeOf r).trans (h.remembered r hr)
    occupant := h.occupant
    waiting := by
      rintro k ⟨hk, ⟨m, hm⟩, hnot⟩
      rw [hhookOf] at hm
      exact h.waiting k ⟨hk, ⟨m, hm⟩, hnot⟩
    present := by
      rw [List.length_set]
      exact h.present
    gone := by
      intro k hk
      rw [List.length_set, hhookOf]
      exact h.gone k hk
    after := h.after }

theorem Inv.cancel (h : Inv s d) {cancelled : Bool}
    (howner : s.owners[hook]? = some (.handle hookType n cancelled)) :
    ∃ d', Inv (s.cancel hook hookType n cancelled) d' := by
  unfold Hooks.cancel
  split
  · rename_i hdone
    refine ⟨d, h.setOwner howner ?_ rfl⟩
    rcases hdone with rfl | hclosed
    · rfl
    · rw [h.closed hclosed] at howner
      exact nomatch howner
  · rename_i hdone
    rw [not_or, Bool.not_eq_true] at hdone
    rw [hdone.1] at howner
    exact ⟨_, h.dropHook howner rfl rfl rfl⟩

theorem Inv.deinit (h : Inv s d) {node : Option ℕ} {initialized : Bool}
    (howner : s.owners[hook]? = some (.transport node initialized)) :
    ∃ d', Inv (s.deinit hook node initialized) d' := by
  unfold Hooks.deinit
  split
  · exact ⟨d, h⟩
  · rename_i hinit
    rw [Bool.not_eq_false] at hinit
    rw [hinit] at howner
    split
    · rename_i hclosed
      rw [h.closed hclosed] at howner
      exact nomatch howner
    · split
      · exact ⟨_, h.dropHook howner rfl rfl rfl⟩
      · exact ⟨d, h.setOwner howner rfl rfl⟩

end Remove

/-! ### Adding a hook -/

section Add

variable {n : ℕ} {hookType : HookType} {owner : ℕ → HookOwner}

theorem Inv.fresh (h : Inv s d) (hn : s.lists.nodes n = none) : d.Fresh n := by
  refine ⟨h.tight n, fun t hmem => ?_⟩
  obtain ⟨x, hx, rfl⟩ := List.mem_map.1 hmem
  obtain ⟨cell, hcell, -⟩ := Option.map_eq_some_iff.1 (h.hookAt_iff.2 ⟨t, hx⟩)
  exact nomatch hn.symm.trans hcell

theorem Inv.lt_of_mem (h : Inv s d) {m k : ℕ} {t : HookType} (hmem : (m, k) ∈ d.lists t) : k < s.owners.length :=
  lt_of_typeOf (typeOf_of_hookOf ((h.mem t m k).1 hmem))

theorem Inv.addNode (h : Inv s d) (hn : s.lists.nodes n = none) (hopen : s.initialized ≠ false)
    (hregistered : (owner n).hook = some (hookType, n)) (htype : (owner n).hookType = hookType) :
    Inv { s with
        lists := LinkedLists.appendNode
          { s.lists with nodes := Function.update s.lists.nodes n (some ⟨s.owners.length, none, none⟩) } hookType n
        owners := s.owners ++ [owner n] } ((d.create s.owners.length n).link hookType n Deques.atEnd) := by
  have hfresh := h.fresh hn
  have hloose : (d.create s.owners.length n).loose n = some s.owners.length := Function.update_self ..
  have hlink : (d.create s.owners.length n).link hookType n Deques.atEnd =
      ⟨Function.update d.lists hookType (d.lists hookType ++ [(n, s.owners.length)]),
        Function.update (d.create s.owners.length n).loose n none⟩ := by
    rw [Deques.link, hloose]
    rfl
  have hholds : Holds _ ((d.create s.owners.length n).link hookType n Deques.atEnd) :=
    (h.holds.create hfresh).appendNode hloose
  rw [hlink] at hholds ⊢
  have htight : ∀ m, Function.update (d.create s.owners.length n).loose n none m = none := by
    intro m
    by_cases hm : m = n
    · subst hm
      exact Function.update_self ..
    · exact (Function.update_of_ne hm _ _).trans ((Function.update_of_ne hm _ _).trans (h.tight m))
  -- the new hook is the last one of its list
  have hmem : ∀ t m k, (m, k) ∈ Function.update d.lists hookType (d.lists hookType ++ [(n, s.owners.length)]) t ↔
      (m, k) ∈ d.lists t ∨ t = hookType ∧ m = n ∧ k = s.owners.length := by
    intro t m k
    by_cases ht : t = hookType
    · subst ht
      simp
    · simp [ht]
  have hget : ∀ k, (s.owners ++ [owner n])[k]? = if k = s.owners.length then some (owner n) else s.owners[k]? := by
    intro k
    split
    · rename_i hk
      rw [hk, List.getElem?_concat_length]
    · rename_i hk
      rw [List.getElem?_append]
      split
      · rfl
      · rw [List.getElem?_eq_none (by simp; omega), List.getElem?_eq_none (by omega)]
  have htypeOf : ∀ k t, s.typeOf k = some t → (s.owners ++ [owner n])[k]?.map HookOwner.hookType = some t := by
    intro k t hk
    rw [hget, if_neg (lt_of_typeOf hk).ne]
    exact hk
  have hlen : (s.owners ++ [owner n]).length = s.owners.length + 1 := List.length_append
  have hhookOf : ∀ k, k ≠ s.owners.length → (s.owners ++ [owner n])[k]?.bind HookOwner.hook = s.hookOf k := by
    intro k hk
    rw [hget, if_neg hk]
    rfl
  have hnew : (s.owners ++ [owner n])[s.owners.length]?.bind HookOwner.hook = some (hookType, n) := by
    rw [hget, if_pos rfl]
    exact hregistered
  exact {
    holds := hholds
    tight := htight
    mem := by
      intro t m k
      rw [hookOf, hmem]
      by_cases hk : k = s.owners.length
      · subst hk
        rw [hnew, Option.some.injEq, Prod.mk.injEq]
        refine ⟨?_, fun ht => .inr ⟨ht.1.symm, ht.2.symm, rfl⟩⟩
        rintro (hother | ⟨rfl, rfl, -⟩)
        · exact absurd (h.lt_of_mem hother) (lt_irrefl _)
        · exact ⟨rfl, rfl⟩
      · rw [hhookOf k hk, ← h.mem]
        simp [hk]
    sorted := by
      intro t
      by_cases ht : t = hookType
      · subst ht
        dsimp only
        rw [Function.update_self, List.map_append]
        refine List.pairwise_append.2 ⟨h.sorted t, List.pairwise_singleton _ _, fun k hk k' hk' => ?_⟩
        obtain ⟨⟨m, k⟩, hother, rfl⟩ := List.mem_map.1 hk
        obtain rfl : k' = s.owners.length := by simpa using hk'
        exact h.lt_of_mem hother
      · dsimp only
        rw [Function.update_of_ne ht]
        exact h.sorted t
    closed := fun hclosed => absurd hclosed hopen
    order := h.order
    listed := fun k hk => htypeOf k _ (h.listed k hk)
    before := h.before
    node := h.node
    remembered := fun r hr => htypeOf r _ (h.remembered r hr)
    occupant := by
      intro m r k hm hr hk
      obtain ⟨t, ht⟩ := (Hooks.hookAt_iff hholds htight).1 hk
      rcases (hmem t m k).1 ht with hother | ⟨-, -, rfl⟩
      · exact h.occupant m r k hm hr (h.hookAt_iff.2 ⟨t, hother⟩)
      · exact .inr ⟨lt_of_typeOf (h.remembered r hr), h.present⟩
    waiting := by
      rintro k ⟨hk, ⟨m, hm⟩, hnot⟩
      have hlt : k < s.owners.length := hk.trans_le h.present
      rw [hookOf, hhookOf k hlt.ne] at hm
      exact h.waiting k ⟨hk, ⟨m, hm⟩, hnot⟩
    present := by
      rw [hlen]
      exact Nat.le_succ_of_le h.present
    gone := by
      intro k hk
      obtain ⟨hlt, hgone⟩ := h.gone k hk
      rw [hookOf, hhookOf k hlt.ne, hlen]
      exact ⟨Nat.lt_succ_of_lt hlt, hgone⟩
    after := h.after }

theorem Inv.addHook (h : Inv s d) {address : Option ℕ} (hunused : s.Unused address)
    (hregistered : ∀ n, (owner n).hook = some (hookType, n)) (htype : ∀ n, (owner n).hookType = hookType) :
    ∃ d', Inv (s.addHook hookType address owner) d' := by
  unfold Hooks.addHook
  split
  · exact ⟨d, h⟩
  · cases address with
    | none => exact ⟨d, h⟩
    | some n => exact ⟨_, h.addNode (hunused n rfl) ‹_› (hregistered n) (htype n)⟩

end Add

/-! ### The pass -/

section Pass

variable {n hook : ℕ} {l l' : List (ℕ × ℕ)} {hookType : HookType}

/-- What is remembered of a link in a list: the hook it leads to. -/
theorem Inv.hookAt_firstOf (h : Inv s d) (hl : d.lists hookType = l ++ l') :
    s.hookAt (firstOf l' none) = l'.head?.map Prod.snd := by
  cases l' with
  | nil => rfl
  | cons y rest =>
    refine h.hookAt_iff.2 ⟨hookType, ?_⟩
    rw [hl]
    simp

theorem Inv.begin (h : Inv s d) (hs : s.step (.begin hookType) = some t) : Inv t d := by
  obtain ⟨-, hs⟩ := Option.ite_none_right_eq_some.1 hs
  obtain rfl := Option.some.inj hs
  have hfirst : (s.lists.lists hookType).first = firstOf (d.lists hookType) none := (h.holds.chained hookType).first
  have hat : s.hookAt (s.lists.lists hookType).first = (d.lists hookType).head?.map Prod.snd := by
    rw [hfirst]
    exact h.hookAt_firstOf (l := []) rfl
  exact { h with
    order := List.Pairwise.nil
    listed := fun _ hk => absurd hk List.not_mem_nil
    before := fun _ _ _ hk => absurd hk List.not_mem_nil
    node := by
      dsimp only
      rw [hat, hfirst]
      cases d.lists hookType <;> simp
    remembered := by
      intro r hr
      dsimp only at hr
      rw [hat] at hr
      cases hl : d.lists hookType with
      | nil =>
        rw [hl] at hr
        exact nomatch hr
      | cons y rest =>
        rw [hl] at hr
        obtain rfl : y.2 = r := by simpa using hr
        refine typeOf_of_hookOf (n := y.1) ((h.mem _ _ _).1 ?_)
        rw [hl]
        exact List.mem_cons_self
    occupant := by
      intro m r k hm hr hk
      dsimp only at hm hr
      rw [hm] at hr
      exact .inl (Option.some.inj (hk.symm.trans hr))
    waiting := by
      rintro k ⟨-, ⟨m, hm⟩, -⟩
      have hmem := (h.mem _ _ _).2 hm
      dsimp only at hmem ⊢
      rw [hat]
      cases hl : d.lists hookType with
      | nil =>
        rw [hl] at hmem
        exact absurd hmem List.not_mem_nil
      | cons y rest =>
        refine ⟨y.2, rfl, ?_⟩
        have hsorted := h.sorted hookType
        rw [hl] at hmem hsorted
        rcases List.mem_cons.1 hmem with rfl | hrest
        · exact le_rfl
        · exact (List.rel_of_pairwise_cons hsorted (List.mem_map_of_mem hrest)).le
    present := le_rfl }

/-- The node the pass goes on with was read for a hook. -/
theorem Inv.exists_remembered (h : Inv s d) (hnode : s.node = some n) : ∃ r, s.remembered = some r := by
  refine Option.ne_none_iff_exists'.1 fun hnone => ?_
  exact nomatch hnode.symm.trans (h.node.2 hnone)

/-- The pass goes on with a hook that meets the condition. -/
theorem Inv.enter (h : Inv s d) (hnode : s.node = some n) (hat : s.hookAt (some n) = some hook)
    (hok : s.remembered = some hook ∨ s.typeOf hook = some s.walked ∧ ∀ other, ¬s.Waiting other) :
    Inv (s.enter n) d := by
  obtain ⟨r, hr⟩ := h.exists_remembered hnode
  -- the hook is not older than the one the node was read for
  have hle : r ≤ hook := by
    rcases h.occupant n r hook hnode hr hat with rfl | hlt
    · exact le_rfl
    · exact hlt.1.le
  have hwalked : s.typeOf hook = some s.walked := by
    rcases hok with hsame | hnew
    · exact h.remembered hook hsame
    · exact hnew.1
  have hmem : (n, hook) ∈ d.lists s.walked := by
    obtain ⟨t, ht⟩ := h.hookAt_iff.1 hat
    have htype := typeOf_of_hookOf ((h.mem _ _ _).1 ht)
    rw [hwalked, Option.some.injEq] at htype
    exact htype ▸ ht
  obtain ⟨l, l', hl⟩ := List.append_of_mem hmem
  have hchained := h.holds.chained s.walked
  have hsorted := h.sorted s.walked
  rw [hl] at hchained hsorted
  have hl' : d.lists s.walked = (l ++ [(n, hook)]) ++ l' := by simpa using hl
  have hnext : s.hookAt (firstOf l' none) = l'.head?.map Prod.snd := h.hookAt_firstOf hl'
  have hexecuted : ∀ k ∈ s.executed, k < hook := fun k hk => (h.before r hr k hk).trans_le hle
  rw [List.map_append, List.map_cons, List.pairwise_append] at hsorted
  obtain ⟨-, hbehind, hbefore⟩ := hsorted
  rw [List.pairwise_cons] at hbehind
  have henter : s.enter n = { s with
      node := firstOf l' none
      remembered := l'.head?.map Prod.snd
      inCallback := true
      executed := s.executed ++ [hook]
      trace := s.trace ++ [.executed hook] } := by
    rw [Hooks.enter, hchained.node]
    dsimp only
    rw [hnext]
  rw [henter]
  -- what is in the list behind the hook
  have hrest : ∀ y rest, l' = y :: rest → hook < y.2 ∧ (y.1, y.2) ∈ d.lists s.walked := by
    rintro y rest rfl
    refine ⟨hbehind.1 y.2 (by simp), ?_⟩
    rw [hl]
    simp
  exact {
    holds := h.holds
    tight := h.tight
    mem := h.mem
    sorted := h.sorted
    closed := h.closed
    order := by
      refine List.pairwise_append.2 ⟨h.order, List.pairwise_singleton _ _, fun k hk k' hk' => ?_⟩
      rw [List.mem_singleton.1 hk']
      exact hexecuted k hk
    listed := by
      intro k hk
      rcases List.mem_append.1 hk with hk | hk
      · exact h.listed k hk
      · rw [List.mem_singleton.1 hk]
        exact hwalked
    before := by
      intro r' hr' k hk
      cases l' with
      | nil => exact nomatch hr'
      | cons y rest =>
        obtain rfl : y.2 = r' := by simpa using hr'
        have hlt := (hrest y rest rfl).1
        rcases List.mem_append.1 hk with hk | hk
        · exact (hexecuted k hk).trans hlt
        · rw [List.mem_singleton.1 hk]
          exact hlt
    node := by cases l' <;> simp
    remembered := by
      intro r' hr'
      cases l' with
      | nil => exact nomatch hr'
      | cons y rest =>
        obtain rfl : y.2 = r' := by simpa using hr'
        exact typeOf_of_hookOf ((h.mem _ _ _).1 (hrest y rest rfl).2)
    occupant := by
      intro m r' k hm hr' hk
      dsimp only at hm hr'
      rw [hm] at hnext
      exact .inl (Option.some.inj ((hk.symm.trans hnext).trans hr'))
    waiting := by
      rintro k ⟨hk, hregistered, hnot⟩
      rw [List.mem_append, List.mem_singleton, not_or] at hnot
      have hwaiting : s.Waiting k := ⟨hk, hregistered, hnot.1⟩
      rcases hok with hsame | hnew
      · obtain ⟨r', hr', hle'⟩ := h.waiting k hwaiting
        rw [hsame, Option.some.injEq] at hr'
        subst hr'
        obtain ⟨m, hm⟩ := hregistered
        have hk' := (h.mem _ _ _).2 hm
        rw [hl, List.mem_append, List.mem_cons] at hk'
        -- it is behind the hook that is executed now
        rcases hk' with hk' | hk' | hk'
        · have hlt : k < hook := hbefore k (List.mem_map.2 ⟨_, hk', rfl⟩) hook List.mem_cons_self
          omega
        · exact absurd (Prod.mk.inj hk').2 hnot.2
        · cases l' with
          | nil => exact absurd hk' List.not_mem_nil
          | cons y rest =>
            refine ⟨y.2, rfl, ?_⟩
            rcases List.mem_cons.1 hk' with rfl | hk'
            · exact le_rfl
            · have hlater := hbehind.2
              rw [List.map_cons] at hlater
              exact (List.rel_of_pairwise_cons hlater (List.mem_map.2 ⟨_, hk', rfl⟩)).le
      · exact absurd hwaiting (hnew.2 k)
    present := h.present
    gone := by
      intro k hk
      rcases List.mem_append.1 hk with hk | hk
      · exact h.gone k hk
      · exact nomatch List.mem_singleton.1 hk
    after := by
      refine List.pairwise_append.2 ⟨h.after, List.pairwise_singleton _ _, fun a ha b hb k hk heq => ?_⟩
      rw [List.mem_singleton.1 hb, HookAction.executed.injEq] at heq
      subst heq
      have hgone := (h.gone hook (hk ▸ ha)).2
      rw [(h.mem _ _ _).1 hmem] at hgone
      exact nomatch hgone }

/-- A step that meets the condition keeps the invariant. -/
theorem Inv.step (h : Inv s d) {e : Event} (hok : s.Keeps e) (hs : s.step e = some t) : ∃ d', Inv t d' := by
  cases e with
  | begin hookType => exact ⟨d, h.begin hs⟩
  | enter =>
    obtain ⟨⟨hwalking, hout⟩, hs⟩ := Option.ite_none_right_eq_some.1 hs
    obtain ⟨n, hnode, rfl⟩ := Option.map_eq_some_iff.1 hs
    obtain ⟨hook, hat, hok⟩ := hok hwalking hout n hnode
    exact ⟨d, h.enter hnode hat hok⟩
  | returned =>
    obtain ⟨-, hs⟩ := Option.ite_none_right_eq_some.1 hs
    obtain rfl := Option.some.inj hs
    exact ⟨d, { h with }⟩
  | finish =>
    obtain ⟨-, hs⟩ := Option.ite_none_right_eq_some.1 hs
    obtain rfl := Option.some.inj hs
    exact ⟨d, { h with }⟩
  | addHandle hookType address =>
    obtain ⟨⟨-, hunused⟩, hs⟩ := Option.ite_none_right_eq_some.1 hs
    obtain rfl := Option.some.inj hs
    exact h.addHook hunused (fun _ => rfl) fun _ => rfl
  | addTransport address =>
    obtain ⟨⟨-, hunused⟩, hs⟩ := Option.ite_none_right_eq_some.1 hs
    obtain rfl := Option.some.inj hs
    exact h.addHook hunused (fun _ => rfl) fun _ => rfl
  | cancel hook =>
    rw [Hooks.step] at hs
    split at hs
    · rename_i hookType node cancelled howner
      obtain ⟨-, hs⟩ := Option.ite_none_right_eq_some.1 hs
      obtain rfl := Option.some.inj hs
      exact h.cancel howner
    · exact nomatch hs
  | deinit hook =>
    rw [Hooks.step] at hs
    split at hs
    · rename_i node initialized howner
      obtain ⟨-, hs⟩ := Option.ite_none_right_eq_some.1 hs
      obtain rfl := Option.some.inj hs
      exact h.deinit howner
    · exact nomatch hs

/-- After the pass went on with a node and is still sound, that node met the condition. -/
theorem Sound.keeps_enter (hsound : Sound (s.enter n)) (h : Inv s d) (hnode : s.node = some n) :
    ∃ hook, s.hookAt (some n) = some hook ∧
      (s.remembered = some hook ∨ s.typeOf hook = some s.walked ∧ ∀ other, ¬s.Waiting other) := by
  cases hcell : s.lists.nodes n with
  | none =>
    have htouched := hsound.touched
    rw [Hooks.enter, hcell] at htouched
    exact nomatch htouched
  | some cell =>
    have hat : s.hookAt (some n) = some cell.item := by
      rw [hookAt, Option.bind_some, hcell]
      rfl
    have henter : s.enter n = { s with
        node := cell.next
        remembered := s.hookAt cell.next
        inCallback := true
        executed := s.executed ++ [cell.item]
        trace := s.trace ++ [.executed cell.item] } := by
      rw [Hooks.enter, hcell]
    rw [henter] at hsound
    refine ⟨cell.item, hat, ?_⟩
    by_cases hsame : s.remembered = some cell.item
    · exact .inl hsame
    · obtain ⟨r, hr⟩ := h.exists_remembered hnode
      -- the node was given to a hook that was added since
      have hnew : s.present ≤ cell.item := by
        rcases h.occupant n r cell.item hnode hr hat with heq | hlt
        · exact absurd (heq ▸ hr) hsame
        · exact hlt.2
      refine .inr ⟨hsound.listed cell.item (by simp), fun other hwaiting => ?_⟩
      have hother : other ∉ s.executed ++ [cell.item] := by
        rw [List.mem_append, List.mem_singleton, not_or]
        exact ⟨hwaiting.2.2, (hwaiting.1.trans_le hnew).ne⟩
      have hlt := (hsound.turn other ⟨hwaiting.1, hwaiting.2.1, hother⟩).2 cell.item (by simp)
      exact absurd (hlt.trans hwaiting.1) (Nat.not_lt.2 hnew)

/-- **A pass over hooks that are removed under it.** Every run of passes, of hooks added and removed, in the
callbacks of the hooks and outside, is sound throughout exactly when each step meets its condition. -/
theorem pass_sound_iff (initialized : Bool) (es : List Event) :
    Runs.Always step Sound (init initialized) es ↔ Runs.Along step Keeps (init initialized) es := by
  refine Runs.always_iff_along_of_break (I := fun s => ∃ d, Inv s d) ⟨_, inv_init initialized⟩ ?_ ?_ ?_ ?_
  · rintro s ⟨d, h⟩
    exact h.sound
  · rintro s e t ⟨d, h⟩ hok hs
    exact h.step hok hs
  · rintro s e t ⟨d, h⟩ hs hsound
    cases e with
    | enter =>
      intro _ _ n hnode
      obtain ⟨-, hs⟩ := Option.ite_none_right_eq_some.1 hs
      rw [hnode, Option.map_some, Option.some.injEq] at hs
      subst hs
      exact hsound.keeps_enter h hnode
    | begin | returned | finish | addHandle | addTransport | cancel | deinit => trivial
  · intro s e hs
    cases e with
    | enter =>
      intro hwalking hout n hnode
      rw [Hooks.step, if_pos ⟨hwalking, hout⟩, hnode] at hs
      exact nomatch hs
    | begin | returned | finish | addHandle | addTransport | cancel | deinit => trivial

/-- The callback of the first of two hooks cancels the second one, and the pass goes on in its node. -/
theorem successor_cancelled :
    ¬Runs.Always step Sound (init true) [.addHandle .prepare (some 0), .addHandle .prepare (some 1),
      .begin .prepare, .enter, .cancel 1, .returned, .enter] := by
  intro h
  have hsound := h.last rfl
  exact absurd hsound.touched (by decide)

end Pass

end Hooks

end Talyn
