import Talyn.Lib.Lru
import Talyn.Utils.LruRefinement

/-!
# `LRUCache` and `Lru`

A step of the bounded map is the operation of an `Lru` whose keys are the contents. The resolver's cache is
built on `Lru`; so this is what an `LRUCache` does there.
-/

namespace Talyn

namespace Recency

variable {K V C : Type} {content : K → C} {capacity : ℕ} {a : Lru C (K × V) capacity}
  {es es' left : List (K × V)} {entry : K × V} {key : K}

/-- The entry of an `Lru` for an entry of the map. -/
def toEntry (content : K → C) (entry : K × V) : C × K × V := (content entry.1, entry)

section Find

variable [DecidableEq C]

theorem find?_of_hit (ha : a.entries = (es ++ entry :: es').map (toEntry content))
    (hentry : content entry.1 = content key) : a.find? (content key) = some entry := by
  rw [Lru.find?_eq_some, ha, ← hentry]
  exact List.mem_map.2 ⟨entry, List.mem_append_right _ List.mem_cons_self, rfl⟩

theorem find?_of_miss (ha : a.entries = es.map (toEntry content))
    (hmiss : ∀ entry ∈ es, content entry.1 ≠ content key) : a.find? (content key) = none := by
  rw [Lru.find?_eq_none, ha]
  intro hmem
  obtain ⟨p, hp, heq⟩ := List.mem_map.1 hmem
  obtain ⟨entry, hentry, rfl⟩ := List.mem_map.1 hp
  exact hmiss entry hentry heq

theorem erase_of_miss (ha : a.entries = es.map (toEntry content))
    (hmiss : ∀ entry ∈ es, content entry.1 ≠ content key) :
    (a.erase (content key)).entries = es.map (toEntry content) := by
  show a.entries.filter (fun p => decide (p.1 ≠ content key)) = _
  rw [ha]
  refine List.filter_eq_self.2 fun p hp => ?_
  obtain ⟨entry, hentry, rfl⟩ := List.mem_map.1 hp
  exact decide_eq_true (hmiss entry hentry)

theorem erase_of_hit (ha : a.entries = (es ++ entry :: es').map (toEntry content))
    (hentry : content entry.1 = content key) :
    (a.erase (content key)).entries = (es ++ es').map (toEntry content) := by
  have hnodup := a.nodup
  rw [ha, List.map_append, List.map_cons, List.map_append, List.map_cons, List.nodup_middle, List.nodup_cons,
    ← List.map_append] at hnodup
  -- the other entries have other contents
  have hkeep : ∀ other ∈ es ++ es', content other.1 ≠ content key := by
    intro other hother heq
    refine hnodup.1 (List.mem_map.2 ⟨toEntry content other, ?_, heq.trans hentry.symm⟩)
    rw [← List.map_append]
    exact List.mem_map_of_mem hother
  have hfilter : ∀ l : List (K × V), (∀ other ∈ l, other ∈ es ++ es') →
      (l.map (toEntry content)).filter (fun p => decide (p.1 ≠ content key)) = l.map (toEntry content) := by
    intro l hl
    refine List.filter_eq_self.2 fun p hp => ?_
    obtain ⟨other, hother, rfl⟩ := List.mem_map.1 hp
    exact decide_eq_true (hkeep other (hl other hother))
  have hdrop : ¬decide ((toEntry content entry).1 ≠ content key) = true := fun hne => of_decide_eq_true hne hentry
  show a.entries.filter (fun p => decide (p.1 ≠ content key)) = _
  rw [ha, List.map_append, List.map_cons, List.filter_append, List.filter_cons, if_neg hdrop,
    hfilter es fun _ h => List.mem_append_left _ h, hfilter es' fun _ h => List.mem_append_right _ h, List.map_append]

end Find

/-- What an operation is on an `Lru`: what it returns, the entries that leave, and the entries afterwards. -/
def LruStep [DecidableEq C] (content : K → C) (a : Lru C (K × V) capacity) :
    LruOp K V → LruResult V × List (K × V) × List (C × K × V)
  | .put key value _ =>
    let t := a.put (content key) (key, value) true
    (.put t.2.2, t.1.map Prod.snd, t.2.1.entries)
  | .get key =>
    let t := a.get (content key)
    (.value (t.1.map Prod.snd), [], t.2.entries)
  | .remove key =>
    let t := a.remove (content key)
    (.removed (a.find? (content key)).isSome, t.1.map Prod.snd, t.2.entries)
  | .popTail => (.value (a.entries.getLast?.map fun p => p.2.2), [], a.entries.dropLast)

/-- A step of the bounded map is the operation on an `Lru` with its entries. -/
theorem Step.lruStep [DecidableEq C] {op : LruOp K V} {result : LruResult V}
    (h : Step content capacity es op result left es') (ha : a.entries = es.map (toEntry content)) :
    LruStep content a op = (result, left, es'.map (toEntry content)) := by
  have hlength : a.entries.length = es.length := by rw [ha, List.length_map]
  cases h with
  | off es key value node hcapacity =>
    rw [LruStep, Lru.put, dif_neg (by omega)]
    simp [ha]
  | replace es es' entry key value node hcapacity hentry =>
    have hfind := find?_of_hit ha hentry
    obtain ⟨hevicted, hentries, hok⟩ := a.put_of_pos (content key) (key, value) hcapacity
    rw [Lru.evicted_of_find? hfind] at hevicted
    rw [Lru.roomFor_of_lt (Lru.length_erase hfind), erase_of_hit ha hentry] at hentries
    rw [LruStep, hevicted, hentries, hok]
    rfl
  | insert es key value node hroom hmiss =>
    have hfind := find?_of_miss ha hmiss
    have herase := erase_of_miss ha hmiss
    have hlt : (a.erase (content key)).entries.length < capacity := by rwa [herase, ← ha, hlength]
    obtain ⟨hevicted, hentries, hok⟩ := a.put_of_pos (content key) (key, value) (by omega)
    rw [Lru.roomFor_of_lt hlt, herase] at hentries
    have hnone : a.evicted (content key) = [] := by
      rw [Lru.evicted, hfind, Lru.overflow, if_neg (Nat.not_le.2 hlt)]
      rfl
    rw [LruStep, hevicted, hnone, hentries, hok]
    rfl
  | full es last key value node hfull hmiss =>
    have hfind := find?_of_miss ha hmiss
    have herase := erase_of_miss ha hmiss
    have hle : capacity ≤ (a.erase (content key)).entries.length := by rw [herase, ← ha, hlength, hfull]
    have hpos : 0 < capacity := by
      rw [← hfull, List.length_append, List.length_singleton]
      omega
    obtain ⟨hevicted, hentries, hok⟩ := a.put_of_pos (content key) (key, value) hpos
    have hone : a.evicted (content key) = [toEntry content last] := by
      rw [Lru.evicted, hfind, Lru.overflow, if_pos hle, herase]
      simp
    have hroom : (a.roomFor (content key)).entries = es.map (toEntry content) := by
      rw [Lru.roomFor, Lru.makeRoom, if_pos hle]
      show (a.erase (content key)).entries.dropLast = _
      rw [herase, List.map_append, List.map_singleton, List.dropLast_concat]
    rw [LruStep, hevicted, hone, hentries, hroom, hok]
    rfl
  | get es es' entry key hentry =>
    have hfind := find?_of_hit ha hentry
    rw [LruStep, Lru.get_fst, hfind, Lru.entries_get_of_find? hfind, erase_of_hit ha hentry, ← hentry]
    rfl
  | getMiss es key hmiss =>
    rw [LruStep, Lru.get_of_find?_none (find?_of_miss ha hmiss), ← ha]
    rfl
  | remove es es' entry key hentry =>
    rw [LruStep, Lru.remove, find?_of_hit ha hentry, erase_of_hit ha hentry]
    rfl
  | removeMiss es key hmiss =>
    rw [LruStep, Lru.remove, find?_of_miss ha hmiss, erase_of_miss ha hmiss]
    rfl
  | popTail es last => simp [LruStep, ha, toEntry]
  | popEmpty => simp [LruStep, ha]

/-- The `Lru` after an operation. -/
def lruNext [DecidableEq C] (content : K → C) (a : Lru C (K × V) capacity) : LruOp K V → Lru C (K × V) capacity
  | .put key value _ => (a.put (content key) (key, value) true).2.1
  | .get key => (a.get (content key)).2
  | .remove key => (a.remove (content key)).2
  | .popTail => a.restrict a.entries.dropLast (List.dropLast_sublist _)

/-- Operations on an `Lru`: what they return, the entries that leave, and the `Lru` after them. -/
def lruRun [DecidableEq C] (content : K → C) (a : Lru C (K × V) capacity) :
    List (LruOp K V) → List (LruResult V) × List (K × V) × Lru C (K × V) capacity
  | [] => ([], [], a)
  | op :: ops =>
    let (result, left, _) := LruStep content a op
    let (results, left', b) := lruRun content (lruNext content a op) ops
    (result :: results, left ++ left', b)

theorem entries_lruNext [DecidableEq C] (a : Lru C (K × V) capacity) (op : LruOp K V) :
    (lruNext content a op).entries = (LruStep content a op).2.2 := by
  cases op <;> rfl

/-- A run of the bounded map is the run of an `Lru` with its entries. -/
theorem Run.lruRun [DecidableEq C] {ops : List (LruOp K V)} {results : List (LruResult V)}
    (h : Run content capacity es ops results left es') (ha : a.entries = es.map (toEntry content)) :
    ∃ b, lruRun content a ops = (results, left, b) ∧ b.entries = es'.map (toEntry content) := by
  induction h generalizing a with
  | nil es => exact ⟨a, rfl, ha⟩
  | cons hstep hrun ih =>
    have hlru := hstep.lruStep ha
    obtain ⟨b, hb, hentries⟩ := ih (a := lruNext content a _) (by rw [entries_lruNext, hlru])
    exact ⟨b, by rw [Recency.lruRun, hlru, hb], hentries⟩

end Recency

namespace LRUCache

open Recency

/-- **An `LRUCache` is an `Lru`.** In every run it returns what the `Lru` returns, its callback gets the entries
that leave the `Lru`, and its list and its map hold those that stay. -/
theorem refines_lru {K V C : Type} [DecidableEq C] [DecidableEq K] (content : K → C) (capacity : ℕ)
    (evictCallback : EvictCallback) (ops : List (LruOp K V))
    (hops : (init capacity evictCallback).AllAllowed content ops) :
    let c := (init capacity evictCallback).run content ops
    let a := lruRun content (Lru.empty : Lru C (K × V) capacity) ops
    c.1 = a.1 ∧ c.2.calls = (init capacity evictCallback).called a.2.1 ∧
      ∃ l, Holds content c.2 l ∧ (l.map Prod.snd).map (toEntry content) = a.2.2.entries := by
  intro c a
  obtain ⟨left, l, hrun, hholds, hevicts, -⟩ := (holds_init capacity evictCallback).run (Nat.zero_le _) ops hops
  obtain ⟨b, hb, hentries⟩ := hrun.lruRun (a := Lru.empty) rfl
  have ha : a = _ := hb
  rw [ha]
  exact ⟨rfl, hevicts.calls, l, hholds, hentries.symm⟩

/-- The `get` keeps the first entry from being the one that leaves. -/
theorem refines_lru_touch :
    let ops : List (LruOp ℕ ℕ) := [.put 1 10 0, .put 2 20 1, .get 1, .put 3 30 2, .remove 1]
    let c := ((init 2 .freesKey).run id ops).2
    c.calls = [(2, 20), (1, 10)] ∧ ∃ l, Holds id c l ∧ (l.map Prod.snd).map (toEntry id) = [(3, 3, 30)] := by
  intro ops c
  obtain ⟨-, hcalls, hholds⟩ := refines_lru id 2 .freesKey ops (by decide)
  exact ⟨hcalls, hholds⟩

end LRUCache

end Talyn
