import Mathlib.Logic.Function.Basic
import Mathlib.Data.List.Nodup

/-!
# Doubly linked lists

The cells of a doubly linked list are found by their numbers. `Linked cells prev l next` says that the cells
hold the items of `l` in order, with the links between them, and point to `prev` and `next` at the ends.
A list is cut and joined with `linked_append`; the links at its ends are changed by `setNext` and `setPrev`.
-/

/-- An item with the links to its neighbours. -/
structure Cell (α : Type*) where
  item : α
  prev : Option ℕ
  next : Option ℕ

namespace Chain

variable {α : Type*}

/-- The first cell of a list, or what comes behind it. -/
def firstOf : List (ℕ × α) → Option ℕ → Option ℕ
  | [], next => next
  | x :: _, _ => some x.1

/-- The last cell of a list, or what comes before it. -/
def lastOf : Option ℕ → List (ℕ × α) → Option ℕ
  | prev, [] => prev
  | _, x :: l => lastOf (some x.1) l

/-- The cells hold these items, linked in this order. -/
def Linked (cells : ℕ → Option (Cell α)) : Option ℕ → List (ℕ × α) → Option ℕ → Prop
  | _, [], _ => True
  | prev, x :: l, next => cells x.1 = some ⟨x.2, prev, firstOf l next⟩ ∧ Linked cells (some x.1) l next

/-- Another cell comes behind a cell. -/
def setNext (cells : ℕ → Option (Cell α)) (i : ℕ) (next : Option ℕ) : ℕ → Option (Cell α) :=
  Function.update cells i ((cells i).map fun cell => { cell with next })

/-- Another cell comes before a cell. -/
def setPrev (cells : ℕ → Option (Cell α)) (i : ℕ) (prev : Option ℕ) : ℕ → Option (Cell α) :=
  Function.update cells i ((cells i).map fun cell => { cell with prev })

section Ends

variable {prev next : Option ℕ} {l l' : List (ℕ × α)} {x : ℕ × α}

@[simp] theorem firstOf_nil : firstOf ([] : List (ℕ × α)) next = next := rfl

@[simp] theorem firstOf_cons : firstOf (x :: l) next = some x.1 := rfl

@[simp] theorem lastOf_nil : lastOf prev ([] : List (ℕ × α)) = prev := rfl

@[simp] theorem lastOf_cons : lastOf prev (x :: l) = lastOf (some x.1) l := rfl

@[simp] theorem firstOf_append : firstOf (l ++ l') next = firstOf l (firstOf l' next) := by
  cases l <;> rfl

@[simp] theorem lastOf_append : lastOf prev (l ++ l') = lastOf (lastOf prev l) l' := by
  induction l generalizing prev with
  | nil => rfl
  | cons x l ih => exact ih

end Ends

section Links

variable {cells cells' : ℕ → Option (Cell α)} {prev next : Option ℕ} {l l' : List (ℕ × α)} {x : ℕ × α}

theorem linked_append :
    Linked cells prev (l ++ l') next ↔
      Linked cells prev l (firstOf l' next) ∧ Linked cells (lastOf prev l) l' next := by
  induction l generalizing prev with
  | nil => exact ⟨fun h => ⟨trivial, h⟩, And.right⟩
  | cons x l ih =>
    rw [List.cons_append, Linked, Linked, ih, firstOf_append, lastOf_cons, and_assoc]

/-- Only the cells of the list count. -/
theorem Linked.congr (h : Linked cells prev l next) (hcells : ∀ x ∈ l, cells' x.1 = cells x.1) :
    Linked cells' prev l next := by
  induction l generalizing prev with
  | nil => trivial
  | cons x l ih =>
    refine ⟨(hcells x List.mem_cons_self).trans h.1, ih h.2 fun y hy => hcells y (List.mem_cons_of_mem _ hy)⟩

theorem Linked.update {i : ℕ} {cell : Option (Cell α)} (h : Linked cells prev l next)
    (hi : i ∉ l.map Prod.fst) : Linked (Function.update cells i cell) prev l next := by
  refine h.congr fun x hx => Function.update_of_ne ?_ _ _
  rintro rfl
  exact hi (List.mem_map_of_mem hx)

theorem Linked.isSome (h : Linked cells prev l next) (hx : x ∈ l) :
    ∃ prev' next', cells x.1 = some ⟨x.2, prev', next'⟩ := by
  induction l generalizing prev with
  | nil => exact absurd hx List.not_mem_nil
  | cons y l ih =>
    rcases List.mem_cons.1 hx with rfl | hx
    · exact ⟨_, _, h.1⟩
    · exact ih h.2 hx

/-- What comes before the first cell is changed. -/
theorem Linked.setPrev (h : Linked cells prev (x :: l) next) (hx : x.1 ∉ l.map Prod.fst) (prev' : Option ℕ) :
    Linked (Chain.setPrev cells x.1 prev') prev' (x :: l) next := by
  refine ⟨?_, h.2.update hx⟩
  rw [Chain.setPrev, Function.update_self, h.1]
  rfl

/-- What comes behind the last cell is changed. -/
theorem Linked.setNext (h : Linked cells prev (l ++ [x]) next) (hx : x.1 ∉ l.map Prod.fst)
    (next' : Option ℕ) : Linked (Chain.setNext cells x.1 next') prev (l ++ [x]) next' := by
  rw [linked_append] at h ⊢
  refine ⟨h.1.update hx, ?_, trivial⟩
  rw [Chain.setNext, Function.update_self, h.2.1]
  rfl

end Links

/-! ### Unlinking, pushing and joining -/

/-- The neighbours of a cell are linked to each other. -/
def unlink (cells : ℕ → Option (Cell α)) (prev next : Option ℕ) : ℕ → Option (Cell α) :=
  let cells := match prev with
    | some p => setNext cells p next
    | none => cells
  match next with
  | some n => setPrev cells n prev
  | none => cells

/-- A cell is linked before the first one. -/
def push (cells : ℕ → Option (Cell α)) (i : ℕ) (head : Option ℕ) : ℕ → Option (Cell α) :=
  let cells := setPrev (setNext cells i head) i none
  match head with
  | some h => setPrev cells h (some i)
  | none => cells

/-- The last cell of a list and the first cell of another one are linked to each other. -/
def join (cells : ℕ → Option (Cell α)) (last first : Option ℕ) : ℕ → Option (Cell α) :=
  let cells := match first with
    | some f => setPrev cells f last
    | none => cells
  match last with
  | some p => setNext cells p first
  | none => cells

section Updates

variable {cells : ℕ → Option (Cell α)} {l l' : List (ℕ × α)} {x : ℕ × α}

theorem setNext_of_ne {i j : ℕ} (h : j ≠ i) (next : Option ℕ) : setNext cells i next j = cells j :=
  Function.update_of_ne h _ _

theorem setPrev_of_ne {i j : ℕ} (h : j ≠ i) (prev : Option ℕ) : setPrev cells i prev j = cells j :=
  Function.update_of_ne h _ _

/-- The cells that are not neighbours stay as they are. -/
theorem unlink_of_ne {prev next : Option ℕ} {j : ℕ} (hprev : prev ≠ some j) (hnext : next ≠ some j) :
    unlink cells prev next j = cells j := by
  cases prev with
  | none =>
    cases next with
    | none => rfl
    | some n => exact setPrev_of_ne (fun h => hnext (congrArg some h.symm)) _
  | some p =>
    have hp := fun h : j = p => hprev (congrArg some h.symm)
    cases next with
    | none => exact setNext_of_ne hp _
    | some n =>
      exact (setPrev_of_ne (fun h => hnext (congrArg some h.symm)) _).trans (setNext_of_ne hp _)

theorem lastOf_mem (h : l ≠ []) (prev : Option ℕ) : ∃ x ∈ l, lastOf prev l = some x.1 := by
  obtain ⟨init, x, rfl⟩ := List.eq_nil_or_concat' l |>.resolve_left h
  exact ⟨x, by simp, by simp⟩

theorem ne_lastOf {prev : Option ℕ} {i : ℕ} (hprev : prev ≠ some i) (hi : i ∉ l.map Prod.fst) :
    lastOf prev l ≠ some i := by
  by_cases hl : l = []
  · subst hl
    exact hprev
  · obtain ⟨y, hy, hlast⟩ := lastOf_mem hl prev
    rw [hlast]
    intro heq
    exact hi (Option.some.inj heq ▸ List.mem_map_of_mem hy)

theorem ne_firstOf {i : ℕ} (hi : i ∉ l.map Prod.fst) : firstOf l none ≠ some i := by
  cases l with
  | nil => exact nofun
  | cons y l =>
    intro heq
    exact hi (Option.some.inj heq ▸ List.mem_cons_self)

/-- A list without one of its cells. -/
theorem Linked.unlink (h : Linked cells none (l ++ x :: l') none)
    (hnodup : ((l ++ x :: l').map Prod.fst).Nodup) :
    Linked (Chain.unlink cells (lastOf none l) (firstOf l' none)) none (l ++ l') none := by
  rw [linked_append] at h
  obtain ⟨hl, -, hl'⟩ := h
  rw [linked_append]
  rw [List.map_append, List.map_cons, List.nodup_append] at hnodup
  obtain ⟨hnodup, hnodup', hdisjoint⟩ := hnodup
  rw [List.nodup_cons] at hnodup'
  -- the cell before is linked to the cell behind
  have hprev : ∀ next, ∃ cells₁, (match lastOf none l with
        | some p => Chain.setNext cells p next
        | none => cells) = cells₁ ∧
      Linked cells₁ none l next ∧ Linked cells₁ (some x.1) l' none := by
    intro next
    rcases List.eq_nil_or_concat' l with rfl | ⟨init, y, rfl⟩
    · exact ⟨cells, rfl, trivial, hl'⟩
    · rw [List.map_append, List.nodup_append] at hnodup
      have hy : y.1 ∉ init.map Prod.fst := fun hmem =>
        hnodup.2.2 _ hmem _ (List.mem_singleton.2 rfl) rfl
      have hy' : y.1 ∉ l'.map Prod.fst := fun hmem =>
        hdisjoint y.1 (by simp) _ (List.mem_cons_of_mem _ hmem) rfl
      refine ⟨Chain.setNext cells y.1 next, by simp, hl.setNext hy next, hl'.update hy'⟩
  obtain ⟨cells₁, hcells, hl, hl'⟩ := hprev (firstOf l' none)
  unfold Chain.unlink
  rw [hcells]
  cases l' with
  | nil => exact ⟨hl, trivial⟩
  | cons z rest =>
    rw [List.map_cons, List.nodup_cons] at hnodup'
    have hz : z.1 ∉ l.map Prod.fst := fun hmem => hdisjoint _ hmem z.1 (by simp) rfl
    exact ⟨hl.update hz, hl'.setPrev hnodup'.2.1 _⟩

/-- A list with a new first cell. -/
theorem Linked.push {i : ℕ} {cell : Cell α} (h : Linked cells none l none) (hi : i ∉ l.map Prod.fst)
    (hnodup : (l.map Prod.fst).Nodup) (hcell : cells i = some cell) :
    Linked (Chain.push cells i (firstOf l none)) none ((i, cell.item) :: l) none := by
  have hl : Linked (Chain.setPrev (Chain.setNext cells i (firstOf l none)) i none) none l none :=
    (h.update hi).update hi
  have hfirst : Chain.setPrev (Chain.setNext cells i (firstOf l none)) i none i =
      some ⟨cell.item, none, firstOf l none⟩ := by
    rw [Chain.setPrev, Function.update_self, Chain.setNext, Function.update_self, hcell]
    rfl
  cases l with
  | nil => exact ⟨hfirst, trivial⟩
  | cons z rest =>
    rw [List.map_cons, List.nodup_cons] at hnodup
    have hz : i ≠ z.1 := fun hiz => hi (hiz ▸ List.mem_cons_self)
    exact ⟨(setPrev_of_ne hz _).trans hfirst, hl.setPrev hnodup.1 _⟩

/-- The cells that are not at the ends stay as they are. -/
theorem join_of_ne {last first : Option ℕ} {j : ℕ} (hlast : last ≠ some j) (hfirst : first ≠ some j) :
    join cells last first j = cells j := by
  cases first with
  | none =>
    cases last with
    | none => rfl
    | some p => exact setNext_of_ne (fun h => hlast (congrArg some h.symm)) _
  | some f =>
    have hf := fun h : j = f => hfirst (congrArg some h.symm)
    cases last with
    | none => exact setPrev_of_ne hf _
    | some p =>
      exact (setNext_of_ne (fun h => hlast (congrArg some h.symm)) _).trans (setPrev_of_ne hf _)

/-- Two lists one behind the other. -/
theorem Linked.join (h : Linked cells none l none) (h' : Linked cells none l' none)
    (hnodup : ((l ++ l').map Prod.fst).Nodup) :
    Linked (Chain.join cells (lastOf none l) (firstOf l' none)) none (l ++ l') none := by
  rw [List.map_append, List.nodup_append] at hnodup
  obtain ⟨hnodup, hnodup', hdisjoint⟩ := hnodup
  rw [linked_append]
  unfold Chain.join
  -- the first cell of the second list points back
  have hfirst : ∀ last, ∃ cells₁, (match firstOf l' none with
        | some f => Chain.setPrev cells f last
        | none => cells) = cells₁ ∧
      Linked cells₁ none l none ∧ Linked cells₁ last l' none := by
    intro last
    cases l' with
    | nil => exact ⟨cells, rfl, h, trivial⟩
    | cons z rest =>
      rw [List.map_cons, List.nodup_cons] at hnodup'
      have hz : z.1 ∉ l.map Prod.fst := fun hmem => hdisjoint _ hmem z.1 (by simp) rfl
      exact ⟨Chain.setPrev cells z.1 last, rfl, h.update hz, h'.setPrev hnodup'.1 _⟩
  obtain ⟨cells₁, hcells, hl, hl'⟩ := hfirst (lastOf none l)
  rw [hcells]
  rcases List.eq_nil_or_concat' l with rfl | ⟨init, y, rfl⟩
  · exact ⟨trivial, hl'⟩
  · rw [List.map_append, List.nodup_append] at hnodup
    have hy : y.1 ∉ init.map Prod.fst := fun hmem => hnodup.2.2 _ hmem _ (List.mem_singleton.2 rfl) rfl
    have hy' : y.1 ∉ l'.map Prod.fst := fun hmem => hdisjoint y.1 (by simp) _ hmem rfl
    rw [lastOf_append, lastOf_cons, lastOf_nil] at hl' ⊢
    exact ⟨hl.setNext hy _, hl'.update hy'⟩

theorem push_of_ne {i j : ℕ} {head : Option ℕ} (hi : j ≠ i) (hhead : head ≠ some j) :
    Chain.push cells i head j = cells j := by
  have hset : setPrev (setNext cells i head) i none j = cells j :=
    (setPrev_of_ne hi _).trans (setNext_of_ne hi _)
  cases head with
  | none => exact hset
  | some h => exact (setPrev_of_ne (fun hj => hhead (congrArg some hj.symm)) _).trans hset

end Updates

end Chain
