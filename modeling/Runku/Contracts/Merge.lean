import Runku.Contracts.View
import Runku.Value.StoredBody

namespace runku.contracts

open assoc_list fallible runku.value

/-- A node whose fields, if it is an object, stand in key order. -/
def InKeyOrder : CanonicalValue → Prop
  | .Object fields => Ascending fields
  | _ => True

/-- A value of the source, where every object is a map: its fields stand in key order at every depth. -/
def Ordered (value : CanonicalValue) : Prop := Everywhere InKeyOrder value

/-- The stored fields that a merge into an object can keep. -/
def stored_fields : CanonicalValue → Fields
  | .Object fields => fields
  | _ => []

/-- The stored items that a merge into an array can keep parts of. -/
def stored_items : CanonicalValue → List CanonicalValue
  | .Array values => values
  | _ => []

variable {stored : CanonicalValue}

theorem Ordered.fields (h : Ordered stored) : Ascending (stored_fields stored) := by
  obtain ⟨hnode, _⟩ := h
  cases stored with
  | Object fields => exact hnode
  | _ => exact List.Pairwise.nil

variable {key : String} {value : CanonicalValue}

theorem Ordered.field (h : Ordered stored)
    (hvalue : (stored_fields stored).lookup key = some value) : Ordered value := by
  obtain ⟨_, hitems⟩ := h
  cases stored with
  | Object fields => exact hitems value (List.mem_map_of_mem (mem_of_lookup hvalue))
  | _ => cases hvalue

theorem Ordered.item (h : Ordered stored) (hmem : value ∈ stored_items stored) : Ordered value := by
  obtain ⟨_, hitems⟩ := h
  cases stored with
  | Array values => exact hitems value hmem
  | _ => cases hmem

/-- A value that is not an array keeps nothing in one. -/
theorem preserve_array_other {items : Contract} {minimum maximum : Option UInt32}
    (hstored : ∀ values, stored ≠ .Array values) (replacement : CanonicalValue) :
    (Contract.Array items minimum maximum).preserve_unknown_fields_at stored replacement = .ok replacement := by
  cases stored with
  | Array values => exact absurd rfl (hstored values)
  | _ => rw [Contract.preserve_unknown_fields_at] <;> intros <;> contradiction

/-- A value that is not an object keeps nothing in one. -/
theorem preserve_object_other {fields : ContractFields} {optional : List String}
    (hstored : ∀ values, stored ≠ .Object values) (replacement : CanonicalValue) :
    (Contract.Object fields optional).preserve_unknown_fields_at stored replacement = .ok replacement := by
  cases stored with
  | Object values => exact absurd rfl (hstored values)
  | _ => rw [Contract.preserve_unknown_fields_at] <;> intros <;> contradiction

section Merge

variable {fields : ContractFields} {optional : List String} {replacement : Fields}

/-- The field of a merge under a key. -/
def MergedField (contract : Option Contract) (stored replacement merged : Option CanonicalValue) : Prop :=
  match contract, stored, replacement with
  | none, some value, _ => merged = some value
  | some contract, some value, some next =>
    ∃ value', contract.preserve_unknown_fields_at value next = .ok value' ∧ merged = some value'
  | some _, some _, none => merged = none
  | _, none, replacement => merged = replacement

/-- One stored field of the loop that merges objects. -/
def merge_field (fields : ContractFields) (replacement : Fields) (field : String × CanonicalValue) (merged : Fields) :
    Except ValidationError Fields :=
  match fields.lookup field.1, replacement.lookup field.1 with
  | none, _ => .ok (insert field.1 field.2 merged)
  | some contract, some next => do
    .ok (insert field.1 (← contract.preserve_unknown_fields_at field.2 next) merged)
  | some _, none => .ok merged

theorem preserve_object_eq (stored replacement : Fields) :
    (Contract.Object fields optional).preserve_unknown_fields_at (.Object stored) (.Object replacement) =
      (do .ok (.Object (← stored.foldrM (merge_field fields replacement) replacement))) := by
  rw [Contract.preserve_unknown_fields_at]
  congr 2
  funext field merged
  unfold merge_field
  split <;> split <;> simp_all

/-- What the loop over the stored fields builds. -/
theorem merge_fields_eq_ok {stored merged : Fields} (hstored : Ascending stored)
    (h : stored.foldrM (merge_field fields replacement) replacement = .ok merged) :
    (Ascending replacement → Ascending merged) ∧
      ∀ key, MergedField (fields.lookup key) (stored.lookup key) (replacement.lookup key) (merged.lookup key) := by
  induction stored generalizing merged with
  | nil =>
    cases h
    exact ⟨id, fun key => by cases fields.lookup key <;> rfl⟩
  | cons field stored ih =>
    rw [List.foldrM_cons] at h
    obtain ⟨rest, hrest, hfield⟩ := bind_eq_ok_iff.mp h
    obtain ⟨hfirst, hstored⟩ := List.pairwise_cons.mp hstored
    obtain ⟨hascending, hmerged⟩ := ih hstored hrest
    have hnone := hmerged field.1
    rw [lookup_eq_none hfirst] at hnone
    -- The field is in none of the later rounds, so under its key there is still the replacement.
    have hrest : rest.lookup field.1 = replacement.lookup field.1 := by
      cases hcontract : fields.lookup field.1 <;> rw [hcontract] at hnone <;> exact hnone
    have hother (value : CanonicalValue) (key : String) (hkey : key ≠ field.1) :
        MergedField (fields.lookup key) ((field :: stored).lookup key) (replacement.lookup key)
          ((insert field.1 value rest).lookup key) := by
      rw [lookup_cons, if_neg hkey, lookup_insert, if_neg hkey]
      exact hmerged key
    unfold merge_field at hfield
    split at hfield
    · rename_i hcontract
      cases hfield
      refine ⟨fun h => (hascending h).insert, fun key => ?_⟩
      by_cases hkey : key = field.1
      · rw [lookup_cons, if_pos hkey, lookup_insert, if_pos hkey, hkey, hcontract]
        rfl
      · exact hother _ key hkey
    · rename_i contract next hcontract hnext
      obtain ⟨value, hvalue, hfield⟩ := bind_eq_ok_iff.mp hfield
      cases hfield
      refine ⟨fun h => (hascending h).insert, fun key => ?_⟩
      by_cases hkey : key = field.1
      · rw [lookup_cons, if_pos hkey, lookup_insert, if_pos hkey, hkey, hcontract, hnext]
        exact ⟨value, hvalue, rfl⟩
      · exact hother _ key hkey
    · rename_i contract hcontract hnext
      cases hfield
      refine ⟨hascending, fun key => ?_⟩
      rw [lookup_cons]
      by_cases hkey : key = field.1
      · rw [if_pos hkey, hkey, hrest, hcontract, hnext]
        rfl
      · rw [if_neg hkey]
        exact hmerged key

/-- The merge into an object, key by key. -/
theorem preserve_object_eq_ok {stored merged : CanonicalValue} (hstored : Ordered stored)
    (h : (Contract.Object fields optional).preserve_unknown_fields_at stored (.Object replacement) = .ok merged) :
    ∃ result, merged = .Object result ∧ (Ascending replacement → Ascending result) ∧
      ∀ key, MergedField (fields.lookup key) ((stored_fields stored).lookup key) (replacement.lookup key)
        (result.lookup key) := by
  by_cases hobject : ∃ values, stored = .Object values
  · obtain ⟨values, rfl⟩ := hobject
    rw [preserve_object_eq] at h
    obtain ⟨result, hresult, h⟩ := bind_eq_ok_iff.mp h
    exact ⟨result, (Except.ok.inj h).symm, merge_fields_eq_ok hstored.fields hresult⟩
  · have hother : ∀ values, stored ≠ .Object values := fun values heq => hobject ⟨values, heq⟩
    rw [preserve_object_other hother] at h
    refine ⟨replacement, (Except.ok.inj h).symm, id, fun key => ?_⟩
    rw [show stored_fields stored = [] by cases stored <;> first | rfl | exact absurd rfl (hother _)]
    cases fields.lookup key <;> rfl

/-- A merge of objects succeeds when the merges of the fields do. -/
theorem preserve_object_isOk {stored : Fields} (hstored : Ascending stored)
    (h : ∀ key contract value next, fields.lookup key = some contract → stored.lookup key = some value →
      replacement.lookup key = some next → ∃ result, contract.preserve_unknown_fields_at value next = .ok result) :
    ∃ merged, (Contract.Object fields optional).preserve_unknown_fields_at (.Object stored) (.Object replacement) =
      .ok merged := by
  have hround {field : String × CanonicalValue} (hmem : field ∈ stored) (merged : Fields) :
      ∃ result, merge_field fields replacement field merged = .ok result := by
    unfold merge_field
    split
    · exact ⟨_, rfl⟩
    · rename_i contract next hcontract hnext
      obtain ⟨result, hresult⟩ := h field.1 contract field.2 next hcontract (hstored.lookup_of_mem hmem) hnext
      exact ⟨_, by rw [hresult]; rfl⟩
    · exact ⟨_, rfl⟩
  have hloop : ∃ result, stored.foldrM (merge_field fields replacement) replacement = .ok result := by
    clear h hstored
    induction stored with
    | nil => exact ⟨_, rfl⟩
    | cons field stored ih =>
      obtain ⟨rest, hrest⟩ := ih fun hmem => hround (List.mem_cons_of_mem _ hmem)
      obtain ⟨result, hresult⟩ := hround List.mem_cons_self rest
      exact ⟨result, by rw [List.foldrM_cons, hrest, ok_bind, hresult]⟩
  obtain ⟨result, hresult⟩ := hloop
  exact ⟨.Object result, by rw [preserve_object_eq, hresult]; rfl⟩

end Merge

/-- The item of a merged array that comes from a stored item, if there is one, and a new one. -/
def MergedItem (items : Contract) (stored : Option CanonicalValue) (next merged : CanonicalValue) : Prop :=
  match stored with
  | none => merged = next
  | some value => items.preserve_unknown_fields_at value next = .ok merged

/-- The merge into an array, item by item. -/
theorem preserve_array_iff {items : Contract} {minimum maximum : Option UInt32} {stored merged : CanonicalValue}
    {replacement : List CanonicalValue} :
    (Contract.Array items minimum maximum).preserve_unknown_fields_at stored (.Array replacement) = .ok merged ↔
      ∃ result, merged = .Array result ∧ replacement.length = result.length ∧
        ∀ (index : Nat) (hnext : index < replacement.length) (hitem : index < result.length),
          MergedItem items (stored_items stored)[index]? replacement[index] result[index] := by
  by_cases harray : ∃ values, stored = .Array values
  · obtain ⟨values, rfl⟩ := harray
    have hitem (next : CanonicalValue) (index : Nat) (result : CanonicalValue) :
        (match values[index]? with
          | none => Except.ok next
          | some value => items.preserve_unknown_fields_at value next) = .ok result ↔
        MergedItem items values[index]? next result := by
      unfold MergedItem
      cases values[index]? with
      | none => exact ⟨fun h => (Except.ok.inj h).symm, fun h => h ▸ rfl⟩
      | some value => exact Iff.rfl
    rw [Contract.preserve_unknown_fields_at, bind_eq_ok_iff]
    simp only [mapM_eq_ok_iff, List.forall₂_iff_get, List.length_zipIdx, List.get_eq_getElem, List.getElem_zipIdx,
      Nat.zero_add]
    constructor
    · rintro ⟨result, ⟨hlength, hitems⟩, h⟩
      exact ⟨result, (Except.ok.inj h).symm, hlength, fun index hnext hindex =>
        (hitem _ _ _).mp (hitems index hnext hindex)⟩
    · rintro ⟨result, rfl, hlength, hitems⟩
      exact ⟨result, ⟨hlength, fun index hnext hindex => (hitem _ _ _).mpr (hitems index hnext hindex)⟩, rfl⟩
  · have hother : ∀ values, stored ≠ .Array values := fun values heq => harray ⟨values, heq⟩
    rw [preserve_array_other hother,
      show stored_items stored = [] by cases stored <;> first | rfl | exact absurd rfl (hother _)]
    constructor
    · intro h
      exact ⟨replacement, (Except.ok.inj h).symm, rfl, fun index _ _ => rfl⟩
    · rintro ⟨result, rfl, hlength, hitems⟩
      rw [List.ext_getElem hlength fun index hnext hindex => (hitems index hnext hindex).symm]

variable {contract : Contract}

/-- Without parts there is nothing to keep. -/
theorem preserve_scalar (hscalar : contract.is_scalar = true) (stored replacement : CanonicalValue) :
    contract.preserve_unknown_fields_at stored replacement = .ok replacement := by
  cases contract <;> try cases hscalar
  all_goals rw [Contract.preserve_unknown_fields_at] <;> intros <;> contradiction

theorem preserve_any (stored replacement : CanonicalValue) :
    Contract.Any.preserve_unknown_fields_at stored replacement = .ok replacement := by
  rw [Contract.preserve_unknown_fields_at] <;> intros <;> contradiction

/-- Nothing stored leaves the replacement as it is. -/
theorem preserve_null {replacement : CanonicalValue} (h : contract.Accepts replacement) :
    contract.preserve_unknown_fields_at .Null replacement = .ok replacement := by
  induction contract using Contract.induction with
  | any => exact preserve_any _ _
  | scalar contract hscalar => exact preserve_scalar hscalar _ _
  | array items minimum maximum _ => exact preserve_array_other (fun _ h => by cases h) _
  | object fields optional _ => exact preserve_object_other (fun _ h => by cases h) _
  | union variants ih =>
    obtain ⟨before, variant, after, hsplit, hbefore, haccepts⟩ := exists_first (accepts_union_iff.mp h)
    rw [preserve_union_first hsplit hbefore haccepts]
    exact ih variant (by simp [hsplit]) haccepts

/-- A merged array is read under an item contract that reads the new items and the merged ones. -/
theorem reads_merged_array {items other : Contract} (hvalid : other.Valid) {minimum maximum minimum' maximum' : Option UInt32}
    {stored merged : CanonicalValue} {replacement : List CanonicalValue}
    (h : (Contract.Array items minimum maximum).preserve_unknown_fields_at stored (.Array replacement) = .ok merged)
    (hlength : validate_length replacement.length minimum' maximum' = .ok ())
    (hnew : ∀ next ∈ replacement, other.Reads next)
    (hmerged : ∀ value ∈ stored_items stored, ∀ next ∈ replacement, ∀ result,
      items.preserve_unknown_fields_at value next = .ok result → other.Reads result) :
    (Contract.Array other minimum' maximum').Reads merged := by
  obtain ⟨result, rfl, hsame, hitems⟩ := preserve_array_iff.mp h
  refine (reads_array_iff hvalid).mpr ⟨hsame ▸ hlength, fun item hmem => ?_⟩
  obtain ⟨index, hindex, rfl⟩ := List.mem_iff_getElem.mp hmem
  have hnext : index < replacement.length := hsame ▸ hindex
  have hitem := hitems index hnext hindex
  cases hvalue : (stored_items stored)[index]? with
  | none =>
    rw [hvalue] at hitem
    rw [show result[index] = replacement[index] from hitem]
    exact hnew _ (List.getElem_mem hnext)
  | some value =>
    rw [hvalue] at hitem
    exact hmerged value (List.mem_of_getElem? hvalue) _ (List.getElem_mem hnext) _ hitem

/-- A merged field is read when its contract reads what it merges. -/
theorem MergedField.viewed {contract : Option Contract} {optional : Prop} {stored replacement merged : Option CanonicalValue}
    (h : MergedField contract stored replacement merged) (haccepted : AcceptedField contract optional replacement)
    (hnew : ∀ contract' next, contract = some contract' → contract'.Accepts next → contract'.Reads next)
    (hmerged : ∀ contract' value next result, contract = some contract' → stored = some value →
      contract'.Accepts next → contract'.preserve_unknown_fields_at value next = .ok result → contract'.Reads result) :
    ∃ viewed, ViewedField contract optional merged viewed := by
  cases contract with
  | none => exact ⟨none, rfl⟩
  | some contract =>
    cases replacement with
    | none =>
      have hnone : merged = none := by cases stored <;> exact h
      rw [hnone]
      exact ⟨none, haccepted, rfl⟩
    | some next =>
      have hreads : ∃ value, merged = some value ∧ contract.Reads value := by
        cases stored with
        | none => exact ⟨next, h, hnew contract next rfl haccepted⟩
        | some value =>
          obtain ⟨result, hresult, hmerge⟩ := h
          exact ⟨result, hmerge, hmerged contract value next result rfl rfl haccepted hresult⟩
      obtain ⟨value, rfl, view, hview⟩ := hreads
      exact ⟨some view, view, hview, rfl⟩

/-- A merge of values of the source is one. -/
theorem ordered_of_preserve (hvalid : contract.Valid) {stored replacement merged : CanonicalValue}
    (hstored : Ordered stored) (hreplacement : Ordered replacement) (haccepts : contract.Accepts replacement)
    (h : contract.preserve_unknown_fields_at stored replacement = .ok merged) : Ordered merged := by
  induction contract using Contract.induction generalizing stored replacement merged with
  | any =>
    rw [preserve_any] at h
    exact Except.ok.inj h ▸ hreplacement
  | scalar contract hscalar =>
    rw [preserve_scalar hscalar] at h
    exact Except.ok.inj h ▸ hreplacement
  | array items minimum maximum ih =>
    obtain ⟨next, rfl, _, hitems⟩ := accepts_array_iff.mp haccepts
    obtain ⟨result, rfl, hsame, hmerged⟩ := preserve_array_iff.mp h
    refine .intro trivial fun item hmem => ?_
    obtain ⟨index, hindex, rfl⟩ := List.mem_iff_getElem.mp hmem
    have hnext : index < next.length := hsame ▸ hindex
    have hordered := hreplacement.item (List.getElem_mem hnext)
    have hitem := hmerged index hnext hindex
    cases hvalue : (stored_items stored)[index]? with
    | none =>
      rw [hvalue] at hitem
      exact (show result[index] = next[index] from hitem) ▸ hordered
    | some value =>
      rw [hvalue] at hitem
      exact ih hvalid.array (hstored.item (List.mem_of_getElem? hvalue)) hordered (hitems _ (List.getElem_mem hnext)) hitem
  | object fields optional ih =>
    obtain ⟨next, rfl, _⟩ := accepts_object_iff.mp haccepts
    obtain ⟨_, _, _, hparts⟩ := valid_object hvalid
    obtain ⟨result, rfl, hascending, hmerged⟩ := preserve_object_eq_ok hstored h
    have hresult := hascending hreplacement.fields
    refine .intro hresult fun item hmem => ?_
    obtain ⟨⟨key, value⟩, hfield, rfl⟩ := List.mem_map.mp hmem
    have hmerge := hmerged key
    rw [hresult.lookup_of_mem hfield] at hmerge
    cases hold : (stored_fields stored).lookup key with
    | none =>
      have hnext : next.lookup key = some value := by
        rw [hold] at hmerge
        cases hcontract : fields.lookup key <;> rw [hcontract] at hmerge <;> exact hmerge.symm
      exact hreplacement.field hnext
    | some old =>
      rw [hold] at hmerge
      cases hcontract : fields.lookup key with
      | none =>
        rw [hcontract] at hmerge
        exact Option.some.inj hmerge ▸ hstored.field hold
      | some contract =>
        rw [hcontract] at hmerge
        cases hnext : next.lookup key with
        | none => rw [hnext] at hmerge; cases hmerge
        | some part =>
          rw [hnext] at hmerge
          obtain ⟨_, hmerge, heq⟩ := hmerge
          cases heq
          have haccepted := accepted_fields haccepts key
          rw [hcontract, hnext] at haccepted
          have hmem := mem_of_lookup hcontract
          exact ih _ hmem (hparts _ hmem) (hstored.field hold) (hreplacement.field hnext) haccepted hmerge
  | union variants ih =>
    obtain ⟨before, variant, after, hsplit, hbefore, hvariant⟩ := exists_first (accepts_union_iff.mp haccepts)
    rw [preserve_union_first hsplit hbefore hvariant] at h
    have hmem : variant ∈ variants := by simp [hsplit]
    exact ih variant hmem ((valid_union hvalid).2 variant hmem) hstored hreplacement hvariant h

/-- A contract says something about the field of an object. -/
def knows_field (key : String) : Contract → Bool
  | .Any => true
  | .Object fields _ => (fields.lookup key).isSome
  | .Union variants => variants.attach.any fun variant => knows_field key variant.1
  | _ => false
termination_by contract => sizeOf contract
decreasing_by
  have := List.sizeOf_lt_of_mem variant.2
  simp
  omega

/-- A field that the contract of an object does not know is merged as it is stored. -/
theorem lookup_merge_fields {fields : ContractFields} {replacement stored merged : Fields}
    (hkey : fields.lookup key = none) (h : stored.foldrM (merge_field fields replacement) replacement = .ok merged) :
    merged.lookup key = (stored.lookup key).or (replacement.lookup key) := by
  induction stored generalizing merged with
  | nil =>
    cases h
    rfl
  | cons field stored ih =>
    rw [List.foldrM_cons] at h
    obtain ⟨rest, hrest, hfield⟩ := bind_eq_ok_iff.mp h
    rw [lookup_cons]
    by_cases hfirst : key = field.1
    · subst hfirst
      rw [merge_field, hkey] at hfield
      cases hfield
      rw [lookup_insert, if_pos rfl, if_pos rfl]
      rfl
    · rw [if_neg hfirst, ← ih hrest]
      unfold merge_field at hfield
      split at hfield
      · cases hfield
        rw [lookup_insert, if_neg hfirst]
      · obtain ⟨value, _, hfield⟩ := bind_eq_ok_iff.mp hfield
        cases hfield
        rw [lookup_insert, if_neg hfirst]
      · cases hfield
        rfl

/-- An object keeps the stored fields that its contract does not know. -/
theorem preserve_keeps_unknown {stored replacement : Fields} {merged : CanonicalValue}
    (haccepts : contract.Accepts (.Object replacement))
    (h : contract.preserve_unknown_fields_at (.Object stored) (.Object replacement) = .ok merged)
    (hkey : knows_field key contract = false)
    (hvalue : stored.lookup key = some value) : ∃ fields, merged = .Object fields ∧ fields.lookup key = some value := by
  induction contract using Contract.induction with
  | any =>
    rw [knows_field] at hkey
    cases hkey
  | scalar contract hscalar =>
    -- No contract of a scalar accepts an object.
    rw [Contract.Accepts] at haccepts
    cases contract <;> try cases hscalar
    all_goals
      rw [Contract.validate_value] at haccepts
      · cases haccepts
      all_goals
        intros
        contradiction
  | array items minimum maximum _ =>
    obtain ⟨values, hvalues, _⟩ := accepts_array_iff.mp haccepts
    cases hvalues
  | object fields optional _ =>
    rw [knows_field, Option.isSome_eq_false_iff, Option.isNone_iff_eq_none] at hkey
    rw [preserve_object_eq] at h
    obtain ⟨result, hresult, h⟩ := bind_eq_ok_iff.mp h
    refine ⟨result, (Except.ok.inj h).symm, ?_⟩
    rw [lookup_merge_fields hkey hresult, hvalue]
    rfl
  | union variants ih =>
    obtain ⟨before, variant, after, hsplit, hbefore, hvariant⟩ := exists_first (accepts_union_iff.mp haccepts)
    have hmem : variant ∈ variants := by simp [hsplit]
    rw [preserve_union_first hsplit hbefore hvariant] at h
    rw [knows_field, List.any_eq_false] at hkey
    exact ih variant hmem hvariant h (Bool.eq_false_iff.mpr (hkey ⟨variant, hmem⟩ (List.mem_attach _ _)))

/-- What a contract accepts it still reads after the merge with a stored value. -/
theorem reads_of_preserve (hvalid : contract.Valid) {stored replacement merged : CanonicalValue}
    (hstored : Ordered stored) (haccepts : contract.Accepts replacement)
    (h : contract.preserve_unknown_fields_at stored replacement = .ok merged) : contract.Reads merged := by
  induction contract using Contract.induction generalizing stored replacement merged with
  | any => exact reads_any merged
  | scalar contract hscalar =>
    rw [preserve_scalar hscalar] at h
    exact Except.ok.inj h ▸ reads_of_accepts hvalid haccepts
  | array items minimum maximum ih =>
    obtain ⟨next, rfl, hlength, hitems⟩ := accepts_array_iff.mp haccepts
    refine reads_merged_array hvalid.array h hlength (fun item hmem => reads_of_accepts hvalid.array (hitems item hmem)) ?_
    intro value hvalue item hmem result hresult
    exact ih hvalid.array (hstored.item hvalue) (hitems item hmem) hresult
  | object fields optional ih =>
    obtain ⟨next, rfl, _⟩ := accepts_object_iff.mp haccepts
    obtain ⟨hfields, _, _, hparts⟩ := valid_object hvalid
    obtain ⟨result, rfl, _, hmerged⟩ := preserve_object_eq_ok hstored h
    refine (reads_object_iff hfields).mpr fun key => ?_
    refine (hmerged key).viewed (accepted_fields haccepts key) ?_ ?_
    · intro contract next hcontract haccepted
      exact reads_of_accepts (hparts _ (mem_of_lookup hcontract)) haccepted
    · intro contract value next result hcontract hvalue haccepted hresult
      have hmem := mem_of_lookup hcontract
      exact ih _ hmem (hparts _ hmem) (hstored.field hvalue) haccepted hresult
  | union variants ih =>
    obtain ⟨before, variant, after, hsplit, hbefore, hvariant⟩ := exists_first (accepts_union_iff.mp haccepts)
    rw [preserve_union_first hsplit hbefore hvariant] at h
    have hmem : variant ∈ variants := by simp [hsplit]
    exact (reads_union_iff hvalid).mpr
      ⟨variant, hmem, ih variant hmem ((valid_union hvalid).2 variant hmem) hstored hvariant h⟩

end runku.contracts
