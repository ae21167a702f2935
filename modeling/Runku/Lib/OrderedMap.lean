import Mathlib.Data.List.Lex
import Mathlib.Data.List.Sort
import Mathlib.Data.Prod.Lex

open Std (ExtTreeMap LawfulEqCmp TransCmp)

namespace ordered_map

instance instLawfulEqCmp {K : Type*} [LinearOrder K] : LawfulEqCmp (compare : K → K → Ordering) where
  eq_of_compare h := compare_eq_iff_eq.mp h

instance instTransCmp {K : Type*} [LinearOrder K] : TransCmp (compare : K → K → Ordering) := inferInstance

variable {K : Type*} [LinearOrder K] {V : Type*}

@[simp]
theorem getElem?_insert (m : ExtTreeMap K V) (k a : K) (v : V) :
    (m.insert k v)[a]? = if k = a then some v else m[a]? := by
  simp [ExtTreeMap.getElem?_insert]

variable {m : ExtTreeMap K V}

theorem mem_iff_getElem? {k : K} : k ∈ m ↔ ∃ v, m[k]? = some v := by
  rw [ExtTreeMap.mem_iff_isSome_getElem?, Option.isSome_iff_exists]

/-- A row after a write is the new one or was there before. -/
theorem getElem?_of_insert {k a : K} {v w : V} (h : (m.insert k v)[a]? = some w) :
    k = a ∧ v = w ∨ m[a]? = some w := by
  rw [getElem?_insert] at h
  split at h
  · exact .inl ⟨by assumption, Option.some.inj h⟩
  · exact .inr h

variable {v : V}

/-- Putting back the row that is there changes nothing. -/
theorem insert_eq_self {k : K} (h : m[k]? = some v) : m.insert k v = m := by
  apply ExtTreeMap.ext_getElem?
  intro a
  rw [getElem?_insert]
  split
  · rename_i hk
    rw [← hk, h]
  · rfl

@[simp]
theorem getElem?_erase (m : ExtTreeMap K V) (k a : K) : (m.erase k)[a]? = if k = a then none else m[a]? := by
  simp [ExtTreeMap.getElem?_erase]

theorem getElem?_of_erase {k a : K} (h : (m.erase k)[a]? = some v) : m[a]? = some v := by
  rw [getElem?_erase] at h
  split at h
  · cases h
  · exact h

/-- One row write: `some v` puts the row `v` at `k`, `none` removes the row at `k`. -/
def write (m : ExtTreeMap K V) (k : K) : Option V → ExtTreeMap K V
  | some v => m.insert k v
  | none => m.erase k

@[simp]
theorem getElem?_write (m : ExtTreeMap K V) (k a : K) (o : Option V) :
    (write m k o)[a]? = if k = a then o else m[a]? := by
  cases o with
  | some v => exact getElem?_insert m k a v
  | none => exact getElem?_erase m k a

/-- Applies row writes in order. -/
def writes (m : ExtTreeMap K V) (ws : List (K × Option V)) : ExtTreeMap K V :=
  ws.foldl (fun m w => write m w.1 w.2) m

@[simp]
theorem writes_cons (m : ExtTreeMap K V) (w : K × Option V) (ws : List (K × Option V)) :
    writes m (w :: ws) = writes (write m w.1 w.2) ws := rfl

/-- A key no write names keeps its row. -/
theorem getElem?_writes_of_notMem {ws : List (K × Option V)} {a : K} (ha : a ∉ ws.map Prod.fst)
    (m : ExtTreeMap K V) : (writes m ws)[a]? = m[a]? := by
  induction ws generalizing m with
  | nil => rfl
  | cons w ws ih =>
    simp only [List.map_cons, List.mem_cons, not_or] at ha
    rw [writes_cons, ih ha.2, getElem?_write, if_neg (Ne.symm ha.1)]

/-- When every key is written at most once, a written key holds what its write says. -/
theorem getElem?_writes_of_mem {ws : List (K × Option V)} (hnodup : (ws.map Prod.fst).Nodup)
    {a : K} {o : Option V} (ha : (a, o) ∈ ws) (m : ExtTreeMap K V) : (writes m ws)[a]? = o := by
  induction ws generalizing m with
  | nil => simp at ha
  | cons w ws ih =>
    rw [List.map_cons, List.nodup_cons] at hnodup
    rw [writes_cons]
    rcases List.mem_cons.mp ha with rfl | ha
    · rw [getElem?_writes_of_notMem hnodup.1, getElem?_write, if_pos rfl]
    · exact ih hnodup.2 ha _

/-- Rows selected from a table, in any order, have different keys. -/
theorem nodup_map_fst_of_subperm {rows : List (K × V)} (h : rows.Subperm m.toList) : (rows.map Prod.fst).Nodup := by
  have hkeys : (m.toList.map Prod.fst).Nodup := by
    rw [Std.ExtTreeMap.map_fst_toList_eq_keys]
    exact Std.ExtTreeMap.nodup_keys
  obtain ⟨rows', hperm, hsublist⟩ := h
  exact (hperm.map Prod.fst).nodup_iff.mp (hkeys.sublist (hsublist.map Prod.fst))

theorem nodup_map_fst_toList (m : ExtTreeMap K V) : (m.toList.map Prod.fst).Nodup :=
  nodup_map_fst_of_subperm (List.Subperm.refl _)

/-- Writing out the rows of a table gives the table. -/
theorem writes_toList (m : ExtTreeMap K V) : writes ∅ (m.toList.map fun row => (row.1, some row.2)) = m := by
  have hkeys : (m.toList.map fun row => (row.1, some row.2)).map Prod.fst = m.toList.map Prod.fst := by
    rw [List.map_map]
    rfl
  apply ExtTreeMap.ext_getElem?
  intro a
  cases ha : m[a]? with
  | none =>
    rw [getElem?_writes_of_notMem, ExtTreeMap.getElem?_empty]
    rw [hkeys]
    intro hmem
    obtain ⟨row, hrow, rfl⟩ := List.mem_map.mp hmem
    rw [ExtTreeMap.mem_toList_iff_getElem?_eq_some.mp hrow] at ha
    cases ha
  | some v =>
    have hmem : (a, some v) ∈ m.toList.map fun row => (row.1, some row.2) :=
      List.mem_map.mpr ⟨(a, v), ExtTreeMap.mem_toList_iff_getElem?_eq_some.mpr ha, rfl⟩
    exact getElem?_writes_of_mem (hkeys ▸ nodup_map_fst_toList m) hmem ∅

theorem mem_map_snd_toList : v ∈ m.toList.map Prod.snd ↔ ∃ k : K, m[k]? = some v := by
  constructor
  · intro h
    obtain ⟨row, hrow, rfl⟩ := List.mem_map.mp h
    exact ⟨row.1, ExtTreeMap.mem_toList_iff_getElem?_eq_some.mp hrow⟩
  · rintro ⟨k, hk⟩
    exact List.mem_map_of_mem (ExtTreeMap.mem_toList_iff_getElem?_eq_some.mpr hk)

/-- Two tables that agree on the rows a scan selects give the same list of selected rows. -/
theorem filter_toList_congr {m m' : ExtTreeMap K V} {p : K → V → Bool}
    (h : ∀ k, m[k]?.filter (p k) = m'[k]?.filter (p k)) :
    m.toList.filter (fun row => p row.1 row.2) = m'.toList.filter (fun row => p row.1 row.2) := by
  have hfilter : m.filter p = m'.filter p := by
    apply ExtTreeMap.ext_getElem?
    intro k
    rw [ExtTreeMap.getElem?_filter', ExtTreeMap.getElem?_filter', h k]
  rw [← ExtTreeMap.toList_filter, ← ExtTreeMap.toList_filter, hfilter]

theorem pairwise_toList (m : ExtTreeMap K V) : m.toList.Pairwise fun a b => a.1 < b.1 :=
  ExtTreeMap.ordered_keys_toList.imp fun h => compare_lt_iff_lt.mp h

/-- The last row a scan selects has the greatest key. -/
theorem getLast?_filter_toList {m : ExtTreeMap K V} {p : K → V → Bool} {row : K × V}
    (h : (m.toList.filter fun row => p row.1 row.2).getLast? = some row) :
    m[row.1]? = some row.2 ∧ p row.1 row.2 = true ∧ ∀ k v, m[k]? = some v → p k v = true → k ≤ row.1 := by
  obtain ⟨rows, hrows⟩ := List.getLast?_eq_some_iff.mp h
  have hsorted := (pairwise_toList m).filter fun row => p row.1 row.2
  have hrow := List.mem_filter.mp (hrows ▸ List.mem_append_right rows List.mem_cons_self)
  refine ⟨ExtTreeMap.mem_toList_iff_getElem?_eq_some.mp hrow.1, hrow.2, fun k v hk hp => ?_⟩
  have hmem : (k, v) ∈ m.toList.filter fun row => p row.1 row.2 :=
    List.mem_filter.mpr ⟨ExtTreeMap.mem_toList_iff_getElem?_eq_some.mpr hk, hp⟩
  rw [hrows] at hmem hsorted
  rcases List.mem_append.mp hmem with hearlier | hlast
  · exact ((List.pairwise_append.mp hsorted).2.2 _ hearlier _ List.mem_cons_self).le
  · rw [List.mem_singleton] at hlast
    rw [← hlast]

/-- The rows a scan selects are any ascending list of exactly those rows. -/
theorem filter_toList_eq {m : ExtTreeMap K V} {p : K → V → Bool} {rows : List (K × V)}
    (hsorted : rows.Pairwise fun a b => a.1 < b.1) (hmem : ∀ k v, (k, v) ∈ rows ↔ m[k]? = some v ∧ p k v = true) :
    m.toList.filter (fun row => p row.1 row.2) = rows := by
  have : Std.Irrefl fun a b : K × V => a.1 < b.1 := ⟨fun a => lt_irrefl a.1⟩
  have : Std.Antisymm fun a b : K × V => a.1 < b.1 := ⟨fun a b h h' => absurd h' h.asymm⟩
  refine ((pairwise_toList m).filter _).eq_of_mem_iff hsorted ?_
  rintro ⟨k, v⟩
  rw [List.mem_filter, ExtTreeMap.mem_toList_iff_getElem?_eq_some, hmem]

end ordered_map
