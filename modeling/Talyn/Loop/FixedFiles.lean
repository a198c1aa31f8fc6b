import Talyn.Lib.Runs

/-!
# The table of fixed files

`register_fixed_file` takes an index from the free list and writes the table before the kernel takes the update;
when it does not, the index goes back to the free list and the table keeps the fd. The whole table is pushed to
the ring of another thread later. `inUse` says what is registered at an index, and index 0 is that of the eventfd.
-/

namespace Talyn

/-- The fixed files of an `IO`. -/
structure FixedFiles where
  /-- `fixed_file_table` -/
  table : List ℤ
  /-- `fixed_file_free` -/
  free : List ℕ
  /-- `fixed_files_enabled` -/
  enabled : Bool
  /-- `ring.fd >= 0` -/
  ringOpen : Bool
  /-- what is registered at an index -/
  inUse : ℕ → Option ℤ
  /-- a `register_fixed_file` that failed changed the table or the free list -/
  changed : Bool
  /-- what was pushed to new rings, and what was in use then -/
  pushed : List (List ℤ × (ℕ → Option ℤ))

namespace FixedFiles

/-- `TotalTasksItems`, the length of the table. -/
def nrFiles : ℕ := 1024

theorem one_lt_nrFiles : 1 < nrFiles := by decide

attribute [irreducible] nrFiles

/-- What `init` leaves; without `register_files_sparse` the fixed files are disabled. -/
def init (enabled ringOpen : Bool) (eventfd : ℤ) : FixedFiles where
  table := if enabled then (List.replicate nrFiles (-1)).set 0 eventfd else List.replicate nrFiles (-1)
  free := List.range' 1 (nrFiles - 1)
  enabled := enabled
  ringOpen := ringOpen
  inUse := if enabled then Function.update (fun _ => none) 0 (some eventfd) else fun _ => none
  changed := false
  pushed := []

/-- `fixed_file_free.append`; it needs no memory while the list is shorter than what `init` reserved. -/
def append (free : List ℕ) (index : ℕ) (memory : Bool) : List ℕ :=
  if free.length < nrFiles - 1 ∨ memory = true then free ++ [index] else free

/-- `register_fixed_file`; `updated` is whether the kernel takes the update. -/
def register (s : FixedFiles) (fd : ℤ) (updated memory : Bool) : FixedFiles :=
  if s.enabled = false then s
  else if s.ringOpen = false then s
  else
    match s.free.getLast? with
    | none => s
    | some index =>
      let table := s.table.set index fd
      let free := s.free.dropLast
      if updated then { s with table, free, inUse := Function.update s.inUse index (some fd) }
      else
        let free := append free index memory
        { s with table, free, changed := s.changed || decide (table ≠ s.table ∨ free ≠ s.free) }

/-- `unregister_fixed_file`; what the kernel does with the update has no part in it. -/
def unregister (s : FixedFiles) (index : ℕ) (memory : Bool) : FixedFiles :=
  if s.enabled = false then { s with inUse := Function.update s.inUse index none }
  else
    { s with
      table := s.table.set index (-1)
      free := append s.free index memory
      inUse := Function.update s.inUse index none }

/-- The fixed files in `ensure_ring_for_current_thread`, with what the new ring takes. -/
def handoff (s : FixedFiles) (sparse updated : Bool) : FixedFiles :=
  if s.enabled = false then s
  else if sparse = false then { s with enabled := false }
  else { s with enabled := updated, pushed := s.pushed ++ [(s.table, s.inUse)] }

/-- What can happen. -/
inductive Event
  | register (fd : ℤ) (updated memory : Bool)
  | unregister (index : ℕ) (memory : Bool)
  | handoff (sparse updated : Bool)

/-- One event; what is unregistered is registered, and is not the eventfd. -/
def step (s : FixedFiles) : Event → Option FixedFiles
  | .register fd updated memory => some (s.register fd updated memory)
  | .unregister index memory =>
    if index ≠ 0 ∧ s.inUse index ≠ none then some (s.unregister index memory) else none
  | .handoff sparse updated => some (s.handoff sparse updated)

/-- A table that has what is in use, and -1 elsewhere. -/
def Matches (table : List ℤ) (inUse : ℕ → Option ℤ) : Prop :=
  ∀ i < nrFiles, table[i]? = some ((inUse i).getD (-1))

/-- The free list has no index twice, none that is in use and not the one of the eventfd; the table has what is in
use, as did every table that was pushed to a new ring; and no failure has changed anything. -/
structure Sound (s : FixedFiles) : Prop where
  nodup : s.free.Nodup
  reserved : 0 ∉ s.free
  unused : ∀ i ∈ s.free, s.inUse i = none
  table : Matches s.table s.inUse
  pushed : ∀ p ∈ s.pushed, Matches p.1 p.2
  atomic : s.changed = false

/-- `register_fixed_file` gets to the update of the kernel. -/
def Updates (s : FixedFiles) : Prop := s.enabled = true ∧ s.ringOpen = true ∧ s.free ≠ []

/-- The condition on an event: the kernel takes the update, or there is none, or the fd is -1; and what is
unregistered while fixed files are disabled was registered as -1. -/
def Keeps (s : FixedFiles) : Event → Prop
  | .register fd updated _ => updated = true ∨ ¬s.Updates ∨ fd = -1
  | .unregister index _ => index = 0 ∨ s.inUse index = none ∨ s.enabled = true ∨ s.inUse index = some (-1)
  | .handoff _ _ => True

/-- What holds in the runs that meet the condition. -/
structure Inv (s : FixedFiles) : Prop where
  sound : Sound s
  length : s.table.length = nrFiles
  free_lt : ∀ i ∈ s.free, i < nrFiles
  inUse_lt : ∀ i, s.inUse i ≠ none → i < nrFiles

variable {s t : FixedFiles}

theorem init_inUse (enabled ringOpen : Bool) (eventfd : ℤ) {i : ℕ} (hi : i ≠ 0) :
    (init enabled ringOpen eventfd).inUse i = none := by
  cases enabled <;> simp [init, hi]

theorem init_table (enabled ringOpen : Bool) (eventfd : ℤ) :
    Matches (init enabled ringOpen eventfd).table (init enabled ringOpen eventfd).inUse := by
  intro i hi
  by_cases h0 : i = 0
  · subst h0
    cases enabled <;> simp [init, hi]
  · rw [init_inUse enabled ringOpen eventfd h0]
    cases enabled <;> simp [init, hi, Ne.symm h0]

theorem inv_init (enabled ringOpen : Bool) (eventfd : ℤ) : Inv (init enabled ringOpen eventfd) := by
  have hpos := one_lt_nrFiles
  have hmem : ∀ i ∈ List.range' 1 (nrFiles - 1), 0 < i ∧ i < nrFiles := by
    intro i hi
    rw [List.mem_range'_1] at hi
    omega
  refine ⟨⟨List.nodup_range', fun h0 => absurd (hmem 0 h0).1 (lt_irrefl 0), fun i hi => ?_,
    init_table enabled ringOpen eventfd, fun p hp => absurd hp List.not_mem_nil, rfl⟩, ?_,
    fun i hi => (hmem i hi).2, fun i hi => ?_⟩
  · exact init_inUse enabled ringOpen eventfd (hmem i hi).1.ne'
  · cases enabled <;> simp [init]
  · by_contra hnot
    exact hi (init_inUse enabled ringOpen eventfd (by omega))

/-- An index that is free or not in use has -1 in the table. -/
theorem Matches.set {table : List ℤ} {inUse : ℕ → Option ℤ} {index : ℕ} (h : Matches table inUse)
    (hlen : table.length = nrFiles) (hindex : index < nrFiles) (value : Option ℤ) :
    Matches (table.set index (value.getD (-1))) (Function.update inUse index value) := by
  intro i hi
  rw [List.getElem?_set]
  by_cases hii : i = index
  · subst hii
    simp [hlen, hindex]
  · rw [if_neg (Ne.symm hii), Function.update_of_ne hii]
    exact h i hi

/-- The free list has room for an index that is not in it. -/
theorem append_eq {free : List ℕ} {index : ℕ} (hnodup : (free ++ [index]).Nodup)
    (hlt : ∀ i ∈ free ++ [index], 0 < i ∧ i < nrFiles) (memory : Bool) : append free index memory = free ++ [index] := by
  have hsub : free ++ [index] ⊆ List.range' 1 (nrFiles - 1) := by
    intro i hi
    have hlt' := hlt i hi
    rw [List.mem_range'_1]
    omega
  have hle := (List.subperm_of_subset hnodup hsub).length_le
  rw [List.length_append, List.length_singleton, List.length_range'] at hle
  exact if_pos (.inl (by omega))

theorem Inv.free_pos (h : Inv s) {i : ℕ} (hi : i ∈ s.free) : 0 < i ∧ i < nrFiles :=
  ⟨Nat.pos_of_ne_zero fun h0 => h.sound.reserved (h0 ▸ hi), h.free_lt i hi⟩

/-- The table at a free index. -/
theorem Inv.table_free (h : Inv s) {index : ℕ} (hi : index ∈ s.free) : s.table[index]? = some (-1) := by
  rw [h.sound.table index (h.free_lt index hi), h.sound.unused index hi]
  rfl

/-- `register_fixed_file` up to the update, and after it. -/
theorem register_cases (s : FixedFiles) (fd : ℤ) (updated memory : Bool) :
    (¬s.Updates ∧ s.register fd updated memory = s) ∨
    ∃ front index, s.Updates ∧ s.free = front ++ [index] ∧
      s.register fd updated memory =
        if updated then
          { s with table := s.table.set index fd, free := front, inUse := Function.update s.inUse index (some fd) }
        else
          { s with
            table := s.table.set index fd
            free := append front index memory
            changed := s.changed ||
              decide (s.table.set index fd ≠ s.table ∨ append front index memory ≠ front ++ [index]) } := by
  unfold register
  split
  · rename_i hdisabled
    exact .inl ⟨fun hupdates => (nomatch hdisabled.symm.trans hupdates.1), rfl⟩
  · rename_i henabled
    split
    · rename_i hclosed
      exact .inl ⟨fun hupdates => (nomatch hclosed.symm.trans hupdates.2.1), rfl⟩
    · rename_i hopen
      rcases List.eq_nil_or_concat' s.free with hempty | ⟨front, index, hfree⟩
      · rw [hempty]
        exact .inl ⟨fun hupdates => hupdates.2.2 hempty, rfl⟩
      · rw [Bool.not_eq_false] at henabled hopen
        refine .inr ⟨front, index, ⟨henabled, hopen, ?_⟩, hfree, ?_⟩
        · rw [hfree]
          exact List.concat_ne_nil index front
        · rw [hfree, List.getLast?_concat, List.dropLast_concat]

theorem Inv.register (h : Inv s) {fd : ℤ} {updated memory : Bool} (hok : updated = true ∨ ¬s.Updates ∨ fd = -1) :
    Inv (s.register fd updated memory) := by
  rcases s.register_cases fd updated memory with ⟨-, hsame⟩ | ⟨front, index, hupdates, hfree, hregister⟩
  · rw [hsame]
    exact h
  · have hindex : index ∈ s.free := by
      rw [hfree]
      simp
    have hlt := h.free_lt index hindex
    have hnodup := h.sound.nodup
    rw [hfree] at hnodup
    rw [hregister]
    split
    · have hfront : ∀ i ∈ front, i ∈ s.free ∧ i ≠ index := by
        intro i hi
        refine ⟨hfree ▸ List.mem_append_left _ hi, ?_⟩
        rintro rfl
        exact (List.nodup_append.1 hnodup).2.2 i hi i (List.mem_singleton.2 rfl) rfl
      refine ⟨⟨(List.nodup_append.1 hnodup).1, fun h0 => h.sound.reserved (hfront 0 h0).1, fun i hi => ?_, ?_,
        h.sound.pushed, h.sound.atomic⟩, List.length_set.trans h.length, fun i hi => h.free_lt i (hfront i hi).1,
        fun i hi => ?_⟩
      · exact (Function.update_of_ne (hfront i hi).2 _ _).trans (h.sound.unused i (hfront i hi).1)
      · exact h.sound.table.set h.length hlt (some fd)
      · by_cases hii : i = index
        · exact hii ▸ hlt
        · exact h.inUse_lt i fun hnone => hi ((Function.update_of_ne hii _ _).trans hnone)
    · rename_i hfailed
      -- nothing is different from before
      have hfd : fd = -1 := (hok.resolve_left hfailed).resolve_left (not_not.2 hupdates)
      have htable : s.table.set index fd = s.table := by
        refine List.ext_getElem? fun i => ?_
        rw [List.getElem?_set]
        by_cases hii : index = i
        · subst hii
          rw [if_pos rfl, if_pos (h.length ▸ hlt), h.table_free hindex, hfd]
        · rw [if_neg hii]
      have happend : append front index memory = front ++ [index] :=
        append_eq hnodup (fun i hi => h.free_pos (hfree ▸ hi)) memory
      rw [htable, happend, ← hfree]
      exact ⟨{ h.sound with atomic := by simp [h.sound.atomic] }, h.length, h.free_lt, h.inUse_lt⟩

theorem Inv.unregister (h : Inv s) {index : ℕ} {memory : Bool} (h0 : index ≠ 0) (hin : s.inUse index ≠ none)
    (hok : s.enabled = true ∨ s.inUse index = some (-1)) : Inv (s.unregister index memory) := by
  have hlt := h.inUse_lt index hin
  have hnot : index ∉ s.free := fun hi => hin (h.sound.unused index hi)
  have hinUse : ∀ i, Function.update s.inUse index none i ≠ none → i < nrFiles := by
    intro i hi
    by_cases hii : i = index
    · exact hii ▸ hlt
    · exact h.inUse_lt i fun hnone => hi ((Function.update_of_ne hii _ _).trans hnone)
  have hunused : ∀ i ∈ s.free, Function.update s.inUse index none i = none := by
    intro i hi
    have hii : i ≠ index := by
      rintro rfl
      exact hnot hi
    rw [Function.update_of_ne hii]
    exact h.sound.unused i hi
  unfold FixedFiles.unregister
  split
  · rename_i hdisabled
    have hvalue : s.inUse index = some (-1) := hok.resolve_left (by rw [hdisabled]; exact nofun)
    refine ⟨⟨h.sound.nodup, h.sound.reserved, hunused, fun i hi => ?_, h.sound.pushed, h.sound.atomic⟩, h.length,
      h.free_lt, hinUse⟩
    dsimp only
    by_cases hii : i = index
    · subst hii
      rw [h.sound.table i hi, hvalue, Function.update_self]
      rfl
    · rw [Function.update_of_ne hii]
      exact h.sound.table i hi
  · have hnodup : (s.free ++ [index]).Nodup := by
      rw [List.nodup_append]
      refine ⟨h.sound.nodup, List.nodup_singleton index, fun a ha b hb hab => hnot ?_⟩
      rw [← List.mem_singleton.1 hb, ← hab]
      exact ha
    have hpos : ∀ i ∈ s.free ++ [index], 0 < i ∧ i < nrFiles := by
      intro i hi
      rcases List.mem_append.1 hi with hi | hi
      · exact h.free_pos hi
      · rw [List.mem_singleton.1 hi]
        exact ⟨Nat.pos_of_ne_zero h0, hlt⟩
    rw [append_eq hnodup hpos]
    refine ⟨⟨hnodup, fun hzero => absurd (hpos 0 hzero).1 (lt_irrefl 0), fun i hi => ?_, ?_, h.sound.pushed,
      h.sound.atomic⟩, List.length_set.trans h.length, fun i hi => (hpos i hi).2, hinUse⟩
    · rcases List.mem_append.1 hi with hi | hi
      · exact hunused i hi
      · rw [List.mem_singleton.1 hi]
        exact Function.update_self ..
    · exact h.sound.table.set h.length hlt none

theorem Inv.handoff (h : Inv s) (sparse updated : Bool) : Inv (s.handoff sparse updated) := by
  unfold FixedFiles.handoff
  split
  · exact h
  · split
    · exact ⟨{ h.sound with }, h.length, h.free_lt, h.inUse_lt⟩
    · refine ⟨{ h.sound with pushed := fun p hp => ?_ }, h.length, h.free_lt, h.inUse_lt⟩
      rcases List.mem_append.1 hp with hp | hp
      · exact h.sound.pushed p hp
      · rw [List.mem_singleton.1 hp]
        exact h.sound.table

/-- An event after which the table is still right met the condition. -/
theorem Sound.keeps (hsound : Sound t) (h : Inv s) {e : Event} (hs : s.step e = some t) : s.Keeps e := by
  cases e with
  | register fd updated memory =>
    obtain rfl := Option.some.inj hs
    by_contra hnot
    rw [Keeps, not_or, not_or, not_not] at hnot
    obtain ⟨hfailed, hupdates, hfd⟩ := hnot
    rcases s.register_cases fd updated memory with ⟨hno, -⟩ | ⟨front, index, -, hfree, hregister⟩
    · exact hno hupdates
    · have hindex : index ∈ s.free := by
        rw [hfree]
        simp
      have hlt := h.free_lt index hindex
      rw [hregister, if_neg hfailed] at hsound
      have hentry := hsound.table index hlt
      rw [List.getElem?_set_self (h.length ▸ hlt), h.sound.unused index hindex] at hentry
      exact hfd (Option.some.inj hentry)
  | unregister index memory =>
    obtain ⟨⟨h0, hin⟩, hs⟩ := Option.ite_none_right_eq_some.1 hs
    obtain rfl := Option.some.inj hs
    refine .inr (.inr ?_)
    cases henabled : s.enabled with
    | true => exact .inl rfl
    | false =>
      right
      have hlt := h.inUse_lt index hin
      rw [FixedFiles.unregister, if_pos henabled] at hsound
      have hentry := hsound.table index hlt
      dsimp only at hentry
      rw [h.sound.table index hlt, Function.update_self] at hentry
      obtain ⟨fd, hfd⟩ := Option.ne_none_iff_exists'.1 hin
      rw [hfd] at hentry ⊢
      exact hentry
  | handoff sparse updated => trivial

/-- **The table of fixed files.** In a sequence of events the free list, the table and what is pushed to new rings
are right throughout exactly when each event meets its condition. -/
theorem table_sound_iff (enabled ringOpen : Bool) (eventfd : ℤ) (es : List Event) :
    Runs.Always step Sound (init enabled ringOpen eventfd) es ↔
      Runs.Along step Keeps (init enabled ringOpen eventfd) es := by
  refine Runs.always_iff_along_of_break (inv_init enabled ringOpen eventfd) (fun _ h => h.sound) ?_ ?_ ?_
  · intro s e t h hok hs
    cases e with
    | register fd updated memory =>
      obtain rfl := Option.some.inj hs
      exact h.register hok
    | unregister index memory =>
      obtain ⟨⟨h0, hin⟩, hs⟩ := Option.ite_none_right_eq_some.1 hs
      obtain rfl := Option.some.inj hs
      exact h.unregister h0 hin ((hok.resolve_left h0).resolve_left hin)
    | handoff sparse updated =>
      obtain rfl := Option.some.inj hs
      exact h.handoff sparse updated
  · intro s e t h hs hsound
    exact hsound.keeps h hs
  · intro s e hs
    cases e with
    | register fd updated memory => exact nomatch hs
    | unregister index memory =>
      by_cases h0 : index = 0
      · exact .inl h0
      · by_cases hin : s.inUse index = none
        · exact .inr (.inl hin)
        · rw [step, if_pos ⟨h0, hin⟩] at hs
          exact nomatch hs
    | handoff sparse updated => exact nomatch hs

/-- The kernel does not take the update for fd 7, and the table is pushed to a new ring with it. -/
theorem failed_update_left :
    ¬Runs.Always step Sound (init true true 3) [.register 7 false false, .handoff true true] := by
  intro h
  have hsound : Sound ((init true true 3).register 7 false false) := (h.2 _ rfl).1
  have hfree : (init true true 3).free ≠ [] := by
    have hlt := one_lt_nrFiles
    refine List.ne_nil_of_length_pos ?_
    show 0 < (List.range' 1 (nrFiles - 1)).length
    rw [List.length_range']
    omega
  have hkeeps : (init true true 3).Keeps (.register 7 false false) := hsound.keeps (inv_init true true 3) rfl
  rcases hkeeps with hupdated | hno | hfd
  · exact nomatch hupdated
  · exact hno ⟨rfl, rfl, hfree⟩
  · exact absurd hfd (by decide)

end FixedFiles

end Talyn
