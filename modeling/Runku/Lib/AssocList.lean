import Mathlib.Order.Lattice

namespace assoc_list

variable {K V : Type}

section Insert

variable [LinearOrder K]

/-- Every key is below those after it. -/
def Ascending (entries : List (K × V)) : Prop := entries.Pairwise fun a b => a.1 < b.1

instance (entries : List (K × V)) : Decidable (Ascending entries) :=
  inferInstanceAs (Decidable (entries.Pairwise fun a b => a.1 < b.1))

/-- Inserts an entry, or replaces the one with this key. -/
def insert (key : K) (value : V) : List (K × V) → List (K × V)
  | [] => [(key, value)]
  | entry :: entries =>
    if key < entry.1 then (key, value) :: entry :: entries
    else if key = entry.1 then (key, value) :: entries
    else entry :: insert key value entries

theorem mem_insert {key : K} {value : V} {entries : List (K × V)} {entry : K × V}
    (h : entry ∈ insert key value entries) : entry = (key, value) ∨ entry ∈ entries := by
  induction entries with
  | nil => exact .inl (List.mem_singleton.mp h)
  | cons first entries ih =>
    rw [insert] at h
    split at h
    · exact List.mem_cons.mp h
    · split at h
      · exact (List.mem_cons.mp h).imp_right (List.mem_cons_of_mem _)
      · rcases List.mem_cons.mp h with rfl | h
        · exact .inr List.mem_cons_self
        · exact (ih h).imp_right (List.mem_cons_of_mem _)

theorem Ascending.insert {key : K} {value : V} {entries : List (K × V)} (h : Ascending entries) :
    Ascending (insert key value entries) := by
  induction entries with
  | nil => exact List.pairwise_singleton _ _
  | cons first entries ih =>
    obtain ⟨hfirst, hrest⟩ := List.pairwise_cons.mp h
    rw [assoc_list.insert]
    split
    · rename_i hlt
      refine List.pairwise_cons.mpr ⟨fun entry hentry => ?_, h⟩
      rcases List.mem_cons.mp hentry with rfl | hentry
      · exact hlt
      · exact hlt.trans (hfirst entry hentry)
    · split
      · rename_i hkey
        exact List.pairwise_cons.mpr ⟨fun entry hentry => hkey ▸ hfirst entry hentry, hrest⟩
      · rename_i hnot hne
        refine List.pairwise_cons.mpr ⟨fun entry hentry => ?_, ih hrest⟩
        rcases mem_insert hentry with rfl | hentry
        · exact (lt_or_gt_of_ne hne).resolve_left hnot
        · exact hfirst entry hentry

end Insert

section Lookup

variable [BEq K] [LawfulBEq K]

variable {entries : List (K × V)} {key : K}

/-- What is found under a key is one of the entries. -/
theorem mem_of_lookup {value : V} (h : entries.lookup key = some value) : (key, value) ∈ entries := by
  induction entries with
  | nil => cases h
  | cons entry entries ih =>
    rw [List.lookup_cons] at h
    split at h
    · rename_i hkey
      rw [eq_of_beq hkey, ← Option.some.inj h]
      exact List.mem_cons_self
    · exact List.mem_cons_of_mem _ (ih h)

variable [LinearOrder K]

theorem lookup_cons (entry : K × V) (entries : List (K × V)) (key : K) :
    (entry :: entries).lookup key = if key = entry.1 then some entry.2 else entries.lookup key := by
  rw [List.lookup_cons]
  by_cases hkey : key = entry.1
  · rw [if_pos hkey, hkey, beq_self_eq_true]
  · rw [if_neg hkey, beq_false_of_ne hkey]

/-- Under ascending keys every entry is found under its key. -/
theorem Ascending.lookup_of_mem (h : Ascending entries) {value : V}
    (hmem : (key, value) ∈ entries) : entries.lookup key = some value := by
  induction entries with
  | nil => cases hmem
  | cons first entries ih =>
    obtain ⟨hfirst, hrest⟩ := List.pairwise_cons.mp h
    rw [List.lookup_cons]
    rcases List.mem_cons.mp hmem with rfl | hmem
    · rw [beq_self_eq_true]
    · rw [beq_false_of_ne (hfirst _ hmem).ne']
      exact ih hrest hmem

/-- Nothing is found under a key that is below all others. -/
theorem lookup_eq_none (h : ∀ entry ∈ entries, key < entry.1) : entries.lookup key = none := by
  cases hlookup : entries.lookup key with
  | none => rfl
  | some value => exact absurd (h _ (mem_of_lookup hlookup)) (lt_irrefl _)

/-- The entries are determined by what is found. -/
theorem Ascending.ext {entries other : List (K × V)} (hentries : Ascending entries) (hother : Ascending other)
    (h : ∀ key, entries.lookup key = other.lookup key) : entries = other := by
  have hsubset {xs ys : List (K × V)} (hxs : Ascending xs) (hxy : ∀ key, xs.lookup key = ys.lookup key) :
      xs ⊆ ys := by
    intro entry hentry
    apply mem_of_lookup
    rw [← hxy]
    exact hxs.lookup_of_mem hentry
  have hnodup {xs : List (K × V)} (hxs : Ascending xs) : xs.Nodup :=
    List.Pairwise.imp (fun hlt heq => (heq ▸ hlt).false) hxs
  have hperm : entries.Perm other := (List.perm_ext_iff_of_nodup (hnodup hentries) (hnodup hother)).mpr
    fun entry => ⟨fun hmem => hsubset hentries h hmem, fun hmem => hsubset hother (fun key => (h key).symm) hmem⟩
  exact hperm.eq_of_pairwise (fun _ _ _ _ hlt hgt => absurd hlt hgt.not_gt) hentries hother

theorem lookup_insert (key other : K) (value : V) (entries : List (K × V)) :
    (insert key value entries).lookup other = if other = key then some value else entries.lookup other := by
  induction entries with
  | nil => exact lookup_cons _ _ _
  | cons entry entries ih =>
    rw [insert]
    split
    · exact lookup_cons _ _ _
    · split
      · rename_i hkey
        rw [lookup_cons, lookup_cons, ← hkey]
        split <;> rfl
      · rename_i hkey
        rw [lookup_cons, lookup_cons, ih]
        by_cases hother : other = key
        · rw [if_pos hother, if_pos hother, if_neg (hother ▸ hkey)]
        · rw [if_neg hother, if_neg hother]

end Lookup

end assoc_list
