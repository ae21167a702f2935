import Mathlib.Algebra.Order.BigOperators.Group.List
import Mathlib.Algebra.Order.Ring.Nat
import Runku.Lib.OrderedMap

open Std (ExtTreeMap)

namespace ordered_map

variable {K : Type*} [LinearOrder K] {V : Type*}

/-- The sum of `f` over the rows. -/
def total (f : K → V → Nat) (m : ExtTreeMap K V) : Nat := (m.toList.map fun row => f row.1 row.2).sum

theorem nodup_toList (m : ExtTreeMap K V) : m.toList.Nodup := (nodup_map_fst_toList m).of_map _

/-- The rows after a write are the new row and the others. -/
theorem toList_insert_perm (m : ExtTreeMap K V) (k : K) (v : V) :
    (m.insert k v).toList.Perm ((k, v) :: (m.erase k).toList) := by
  have hfresh : (k, v) ∉ (m.erase k).toList := by
    simp [ExtTreeMap.mem_toList_iff_getElem?_eq_some]
  refine (List.perm_ext_iff_of_nodup (nodup_toList _) (List.nodup_cons.mpr ⟨hfresh, nodup_toList _⟩)).mpr ?_
  rintro ⟨a, w⟩
  rw [List.mem_cons, ExtTreeMap.mem_toList_iff_getElem?_eq_some, ExtTreeMap.mem_toList_iff_getElem?_eq_some,
    getElem?_insert, getElem?_erase]
  split
  · rename_i heq
    subst heq
    simp [eq_comm]
  · rename_i hne
    simp [Ne.symm hne]

theorem total_insert (f : K → V → Nat) (m : ExtTreeMap K V) (k : K) (v : V) :
    total f (m.insert k v) = f k v + total f (m.erase k) :=
  ((toList_insert_perm m k v).map _).sum_eq

variable {m : ExtTreeMap K V} {k : K}

/-- A row that is there counts once. -/
theorem total_eq_add_erase (f : K → V → Nat) {v : V} (h : m[k]? = some v) :
    total f m = f k v + total f (m.erase k) := by
  rw [← total_insert, insert_eq_self h]

theorem erase_eq_self (h : m[k]? = none) : m.erase k = m := by
  apply ExtTreeMap.ext_getElem?
  intro a
  rw [getElem?_erase]
  split
  · rename_i heq
    rw [← heq, h]
  · rfl

theorem total_insert_of_none (f : K → V → Nat) (h : m[k]? = none) (v : V) :
    total f (m.insert k v) = f k v + total f m := by
  rw [total_insert, erase_eq_self h]

theorem total_erase_le (f : K → V → Nat) (m : ExtTreeMap K V) (k : K) : total f (m.erase k) ≤ total f m := by
  cases h : m[k]? with
  | none => rw [erase_eq_self h]
  | some v =>
    rw [total_eq_add_erase f h]
    exact Nat.le_add_left _ _

/-- A row that counts nothing. -/
theorem total_erase_of_eq_zero {f : K → V → Nat} (m : ExtTreeMap K V) (h : ∀ v, f k v = 0) :
    total f (m.erase k) = total f m := by
  cases hk : m[k]? with
  | none => rw [erase_eq_self hk]
  | some v => rw [total_eq_add_erase f hk, h, Nat.zero_add]

/-- Some of the rows count at most as much as all. -/
theorem total_le_of_subset (f : K → V → Nat) {m m' : ExtTreeMap K V}
    (h : ∀ (k : K) (v : V), m'[k]? = some v → m[k]? = some v) : total f m' ≤ total f m := by
  have hsubset : m'.toList ⊆ m.toList := fun row hrow => by
    rw [ExtTreeMap.mem_toList_iff_getElem?_eq_some] at hrow ⊢
    exact h row.1 row.2 hrow
  obtain ⟨rows, hperm, hsublist⟩ := List.subperm_of_subset (nodup_toList m') hsubset
  rw [total, total, ← (hperm.map _).sum_eq]
  exact (hsublist.map _).sum_le_sum fun _ _ => Nat.zero_le _

theorem total_congr {f g : K → V → Nat} {m : ExtTreeMap K V} (h : ∀ k v, m[k]? = some v → f k v = g k v) :
    total f m = total g m := by
  refine congrArg List.sum (List.map_congr_left fun row hrow => ?_)
  exact h row.1 row.2 (ExtTreeMap.mem_toList_iff_getElem?_eq_some.mp hrow)

theorem total_map {W : Type*} (f : K → W → Nat) (g : K → V → W) (m : ExtTreeMap K V) :
    total f (m.map g) = total (fun k v => f k (g k v)) m := by
  rw [total, total, ExtTreeMap.toList_map, List.map_map]
  rfl

theorem total_mono {f g : K → V → Nat} (h : ∀ k v, m[k]? = some v → f k v ≤ g k v) : total f m ≤ total g m := by
  refine List.sum_le_sum fun row hrow => ?_
  exact h row.1 row.2 (ExtTreeMap.mem_toList_iff_getElem?_eq_some.mp hrow)

/-- Removing rows that count nothing does not change the total. -/
theorem total_filter (f : K → V → Nat) {p : K → V → Bool}
    (h : ∀ k v, m[k]? = some v → p k v = false → f k v = 0) : total f (m.filter p) = total f m := by
  have hrows : ∀ row ∈ m.toList, p row.1 row.2 = false → f row.1 row.2 = 0 := fun row hrow =>
    h row.1 row.2 (ExtTreeMap.mem_toList_iff_getElem?_eq_some.mp hrow)
  rw [total, total, ExtTreeMap.toList_filter]
  generalize m.toList = rows at hrows ⊢
  induction rows with
  | nil => rfl
  | cons row rows ih =>
    rw [List.forall_mem_cons] at hrows
    cases hp : p row.1 row.2 with
    | true => rw [List.filter_cons_of_pos (by simpa using hp), List.map_cons, List.map_cons, List.sum_cons,
        List.sum_cons, ih hrows.2]
    | false => rw [List.filter_cons_of_neg (by simp [hp]), List.map_cons, List.sum_cons, hrows.1 hp, Nat.zero_add,
        ih hrows.2]

theorem le_total (f : K → V → Nat) {v : V} (h : m[k]? = some v) : f k v ≤ total f m := by
  rw [total_eq_add_erase f h]
  exact Nat.le_add_right _ _

@[simp]
theorem total_empty (f : K → V → Nat) : total f (∅ : ExtTreeMap K V) = 0 := by
  have hrows : (∅ : ExtTreeMap K V).toList = [] := by
    refine List.eq_nil_iff_forall_not_mem.mpr fun row hrow => ?_
    rw [ExtTreeMap.mem_toList_iff_getElem?_eq_some, ExtTreeMap.getElem?_empty] at hrow
    cases hrow
  rw [total, hrows]
  rfl

end ordered_map
