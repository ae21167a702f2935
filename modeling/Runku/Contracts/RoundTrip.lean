import Runku.Contracts.Merge

namespace runku.contracts

open assoc_list fallible runku.value

/-- Reading the stored value and merging the view take the same variant of every union they meet: the first variant
that reads the one or accepts the other does both. -/
def Contract.agrees : Contract → CanonicalValue → CanonicalValue → Bool
  | .Object fields _, .Object stored, .Object view =>
    fields.attach.all fun field =>
      match stored.lookup field.1.1, view.lookup field.1.1 with
      | some value, some part => field.1.2.agrees value part
      | _, _ => true
  | .Array items _ _, .Array stored, .Array view =>
    (stored.zip view).all fun pair => items.agrees pair.1 pair.2
  | .Union variants, stored, view =>
    match variants.attach.find? fun variant =>
        (variant.1.project_value stored).isOk || (variant.1.validate_value view).isOk with
    | none => true
    | some variant =>
      (variant.1.project_value stored).isOk && (variant.1.validate_value view).isOk && variant.1.agrees stored view
  | _, _, _ => true
termination_by contract => sizeOf contract
decreasing_by
  · obtain ⟨⟨name, contract⟩, hmem⟩ := field
    have := sizeOf_lt_of_mem_fields hmem
    simp
    omega
  · simp
    omega
  · have := List.sizeOf_lt_of_mem variant.2
    simp
    omega

theorem isOk_project_iff {contract : Contract} {value : CanonicalValue} :
    (contract.project_value value).isOk = true ↔ contract.Reads value := isOk_iff_exists

theorem agrees_any (stored view : CanonicalValue) : Contract.Any.agrees stored view = true := by
  rw [Contract.agrees] <;> nofun

theorem agrees_scalar {contract : Contract} (hscalar : contract.is_scalar = true) (stored view : CanonicalValue) :
    contract.agrees stored view = true := by
  cases contract <;> try cases hscalar
  all_goals rw [Contract.agrees] <;> nofun

theorem agrees_array_iff {items : Contract} {minimum maximum : Option UInt32} {stored view : List CanonicalValue}
    (hlength : stored.length = view.length) :
    (Contract.Array items minimum maximum).agrees (.Array stored) (.Array view) = true ↔
      ∀ (index : Nat) (hstored : index < stored.length) (hview : index < view.length),
        items.agrees stored[index] view[index] = true := by
  have hforall := @List.forall₂_iff_get _ _ (fun value part => items.agrees value part = true) stored view
  rw [List.forall₂_iff_zip] at hforall
  rw [Contract.agrees, List.all_eq_true]
  constructor
  · intro h
    exact (hforall.mp ⟨hlength, fun hmem => h _ hmem⟩).2
  · intro h pair hmem
    exact (hforall.mpr ⟨hlength, h⟩).2 hmem

theorem agrees_object_iff {fields : ContractFields} (hfields : Ascending fields) {optional : List String}
    {stored view : Fields} : (Contract.Object fields optional).agrees (.Object stored) (.Object view) = true ↔
      ∀ key contract value part, fields.lookup key = some contract → stored.lookup key = some value →
        view.lookup key = some part → contract.agrees value part = true := by
  rw [Contract.agrees, List.all_eq_true]
  constructor
  · intro h key contract value part hcontract hvalue hpart
    have hfield := h ⟨(key, contract), mem_of_lookup hcontract⟩ (List.mem_attach _ _)
    simp only [hvalue, hpart] at hfield
    exact hfield
  · rintro h ⟨⟨key, contract⟩, hmem⟩ _
    dsimp only
    split
    · rename_i hvalue hpart
      exact h key contract _ _ (hfields.lookup_of_mem hmem) hvalue hpart
    · rfl

/-- Reading and merging take the first variant that does either. -/
theorem agrees_union_first {variants before after : List Contract} {variant : Contract}
    (hsplit : variants = before ++ variant :: after) {stored view : CanonicalValue}
    (hbefore : ∀ other ∈ before, ¬(other.Reads stored ∨ other.Accepts view))
    (hvariant : variant.Reads stored ∨ variant.Accepts view) : (Contract.Union variants).agrees stored view = true ↔
      variant.Reads stored ∧ variant.Accepts view ∧ variant.agrees stored view = true := by
  have hfirst (contract : Contract) :
      ((contract.project_value stored).isOk || (contract.validate_value view).isOk) = true ↔
        contract.Reads stored ∨ contract.Accepts view := by
    rw [Bool.or_eq_true, isOk_project_iff, isOk_validate_iff]
  obtain ⟨found, hfound, rfl⟩ := @find?_attach_first _
    (fun contract => (contract.project_value stored).isOk || (contract.validate_value view).isOk) _ _ _ _ hsplit
    (fun other hother => Bool.eq_false_iff.mpr fun hok => hbefore other hother ((hfirst other).mp hok))
    ((hfirst variant).mpr hvariant)
  rw [Contract.agrees, hfound]
  simp only [Bool.and_eq_true, isOk_project_iff, isOk_validate_iff, and_assoc]

/-- A merge with the view of a field keeps the field when the parts are kept. -/
theorem MergedField.kept {contract : Option Contract} {optional : Prop} {stored viewed merged : Option CanonicalValue}
    (h : MergedField contract stored viewed merged) (hviewed : ViewedField contract optional stored viewed)
    (hkept : ∀ contract' value part, contract = some contract' → stored = some value → viewed = some part →
      contract'.preserve_unknown_fields_at value part = .ok value) : merged = stored := by
  cases stored with
  | none =>
    have hnone : viewed = none := by cases contract <;> first | exact hviewed | exact hviewed.2
    cases contract <;> exact h.trans hnone
  | some value =>
    cases contract with
    | none => exact h
    | some contract =>
      obtain ⟨part, _, rfl⟩ := hviewed
      obtain ⟨result, hresult, rfl⟩ := h
      rw [hkept contract value part rfl rfl rfl] at hresult
      rw [Except.ok.inj hresult]

/-- The merge of a stored value with its view is the stored value exactly when both take the same variants. -/
theorem preserve_view_iff {contract : Contract} (hvalid : contract.Valid) {stored view : CanonicalValue}
    (hstored : Ordered stored) (h : contract.project_value stored = .ok view) :
    contract.preserve_unknown_fields_at stored view = .ok stored ↔ contract.agrees stored view = true := by
  induction contract using Contract.induction generalizing stored view with
  | any =>
    rw [Contract.project_value] at h
    cases h
    exact iff_of_true (preserve_any _ _) (agrees_any _ _)
  | scalar contract hscalar =>
    rw [project_scalar hscalar, check_bind_eq_ok_iff] at h
    obtain rfl := Except.ok.inj h.2
    exact iff_of_true (preserve_scalar hscalar _ _) (agrees_scalar hscalar _ _)
  | array items minimum maximum ih =>
    cases stored with
    | Array values =>
      obtain ⟨viewed, rfl, hviewed, _⟩ := project_array_iff.mp h
      obtain ⟨hlength, hparts⟩ := List.forall₂_iff_get.mp hviewed
      have hitem (index : Nat) (hvalue : index < values.length) (hpart : index < viewed.length) :
          MergedItem items values[index]? viewed[index] values[index] ↔ items.agrees values[index] viewed[index] = true := by
        rw [List.getElem?_eq_getElem hvalue]
        exact ih hvalid.array (hstored.item (List.getElem_mem hvalue)) (hparts index hvalue hpart)
      rw [preserve_array_iff, agrees_array_iff hlength]
      constructor
      · rintro ⟨_, heq, _, hmerged⟩ index hvalue hpart
        obtain rfl := CanonicalValue.Array.inj heq
        exact (hitem index hvalue hpart).mp (hmerged index hpart hvalue)
      · intro hagrees
        exact ⟨values, rfl, hlength.symm, fun index hpart hvalue =>
          (hitem index hvalue hpart).mpr (hagrees index hvalue hpart)⟩
    | _ => simp [Contract.project_value, Contract.validate_value] at h
  | object fields optional ih =>
    cases stored with
    | Object values =>
      obtain ⟨hfields, _, _, hparts⟩ := valid_object hvalid
      obtain ⟨viewed, rfl, hascending, hviewed⟩ := (project_object_iff hfields).mp h
      have hfield (key : String) {contract : Contract} {value part : CanonicalValue}
          (hcontract : fields.lookup key = some contract) (hvalue : values.lookup key = some value)
          (hpart : viewed.lookup key = some part) :
          contract.preserve_unknown_fields_at value part = .ok value ↔ contract.agrees value part = true := by
        have hmem := mem_of_lookup hcontract
        have hview := hviewed key
        rw [hcontract, hvalue, hpart] at hview
        obtain ⟨_, hview, heq⟩ := hview
        cases heq
        exact ih _ hmem (hparts _ hmem) (hstored.field hvalue) hview
      rw [agrees_object_iff hfields]
      constructor
      · intro hsame key contract value part hcontract hvalue hpart
        obtain ⟨_, heq, _, hmerged⟩ := preserve_object_eq_ok hstored hsame
        obtain rfl := CanonicalValue.Object.inj heq
        have hmerge := hmerged key
        rw [stored_fields, hcontract, hvalue, hpart] at hmerge
        obtain ⟨_, hmerge, heq⟩ := hmerge
        cases heq
        exact (hfield key hcontract hvalue hpart).mp hmerge
      · intro hagrees
        have hkept (key : String) {contract : Contract} {value part : CanonicalValue}
            (hcontract : fields.lookup key = some contract) (hvalue : values.lookup key = some value)
            (hpart : viewed.lookup key = some part) : contract.preserve_unknown_fields_at value part = .ok value :=
          (hfield key hcontract hvalue hpart).mpr (hagrees key contract value part hcontract hvalue hpart)
        have hvalues : Ascending values := hstored.fields
        obtain ⟨merged, hmerged⟩ := @preserve_object_isOk fields optional viewed values hvalues
          fun key contract value next hcontract hvalue hnext => ⟨value, hkept key hcontract hvalue hnext⟩
        obtain ⟨result, rfl, hresult, hkeys⟩ := preserve_object_eq_ok hstored hmerged
        have hsame : result = values := (hresult hascending).ext hvalues fun key =>
          (hkeys key).kept (hviewed key) fun contract value part => hkept key
        rw [hmerged, hsame]
    | _ => simp [Contract.project_value, Contract.validate_value] at h
  | union variants ih =>
    have hreads : ∃ variant ∈ variants, variant.Reads stored ∨ variant.Accepts view := by
      obtain ⟨variant, hmem, hvariant, _⟩ := project_union_eq_ok h
      exact ⟨variant, hmem, .inl ⟨view, hvariant⟩⟩
    obtain ⟨before, variant, after, hsplit, hbefore, hvariant⟩ := exists_first hreads
    have hmem : variant ∈ variants := by simp [hsplit]
    have hvariant_valid := (valid_union hvalid).2 variant hmem
    rw [agrees_union_first hsplit hbefore hvariant]
    by_cases hvariant_reads : variant.Reads stored
    · rw [project_union_first hvalid hsplit (fun other hother hreads => hbefore other hother (.inl hreads))
        hvariant_reads] at h
      have haccepts := accepts_of_project hvariant_valid h
      rw [preserve_union_first hsplit (fun other hother haccepts => hbefore other hother (.inr haccepts)) haccepts,
        ih variant hmem hvariant_valid hstored h]
      exact ⟨fun hagrees => ⟨hvariant_reads, haccepts, hagrees⟩, fun hagrees => hagrees.2.2⟩
    · -- The merge takes a variant that does not read the stored value, but would read the merged one.
      have haccepts := hvariant.resolve_left hvariant_reads
      rw [preserve_union_first hsplit (fun other hother haccepts => hbefore other hother (.inr haccepts)) haccepts]
      refine iff_of_false (fun hsame => ?_) fun hagrees => hvariant_reads hagrees.1
      exact hvariant_reads (reads_of_preserve hvariant_valid hstored haccepts hsame)

/-- A Release that writes back its view of a document keeps the document exactly when reading and merging take the
same variants. -/
theorem write_back_iff (definition : Definition) {stored view : CanonicalValue} (hstored : Ordered stored)
    (h : definition.contract.project_value stored = .ok view) :
    definition.contract.preserve_unknown_fields stored view = .ok stored ↔
      definition.contract.agrees stored view = true := by
  have hvalid := definition.is_valid
  rw [← preserve_view_iff hvalid hstored h, Contract.preserve_unknown_fields, check_bind_eq_ok_iff]
  exact and_iff_right (accepts_of_project hvalid h)

/-- Documents with a note and perhaps a count, or with a note alone. -/
def counted_or_plain : Definition where
  contract := .Union [.Object [("count", .Int64 none none), ("note", .Null)] ["count"], .Object [("note", .Null)] []]
  ordered := by decide +kernel
  valid := by decide +kernel

/-- A note with a count that is a text: only the second variant reads it. -/
def text_count : CanonicalValue := .Object [("count", .String "many"), ("note", .Null)]

theorem ordered_text_count : Ordered text_count := by
  refine .intro (show assoc_list.Ascending _ by decide +kernel) ?_
  intro item hitem
  rcases List.mem_pair.mp hitem with rfl | rfl <;> exact .intro trivial nofun

/-- The view of the note alone is accepted by the first variant, which drops the count it knows. -/
theorem write_back_drops_the_count : ∃ (definition : Definition) (stored view : CanonicalValue), Ordered stored ∧
      definition.contract.project_value stored = .ok view ∧
        definition.contract.preserve_unknown_fields stored view ≠ .ok stored :=
  ⟨counted_or_plain, text_count, .Object [("note", .Null)], ordered_text_count, by decide +kernel, by decide +kernel⟩

/-- A union whose first variant reads the document loses nothing. -/
theorem write_back_keeps_the_count :
    (Contract.Union [.Object [("note", .Null)] [], .Null]).preserve_unknown_fields text_count
      (.Object [("note", .Null)]) = .ok text_count :=
  (write_back_iff ⟨.Union [.Object [("note", .Null)] [], .Null], by decide +kernel, by decide +kernel⟩
    ordered_text_count (by decide +kernel)).mpr (by decide +kernel)

theorem ordered_null : Ordered .Null := .intro trivial nofun

/-- A merged field is viewed as its replacement exactly when its parts are. -/
theorem MergedField.viewed_iff {contract : Option Contract} {optional : Prop}
    {stored replacement merged : Option CanonicalValue} (h : MergedField contract stored replacement merged)
    (haccepted : AcceptedField contract optional replacement) : ViewedField contract optional merged replacement ↔
      ∀ contract' value next, contract = some contract' → merged = some value → replacement = some next →
        contract'.project_value value = .ok next := by
  cases contract with
  | none =>
    cases replacement with
    | none => exact iff_of_true rfl nofun
    | some next => exact haccepted.elim
  | some contract =>
    cases replacement with
    | none =>
      have hnone : merged = none := by cases stored <;> exact h
      subst hnone
      exact iff_of_true ⟨haccepted, rfl⟩ nofun
    | some next =>
      have hsome : ∃ value, merged = some value := by
        cases stored with
        | none => exact ⟨next, h⟩
        | some value => obtain ⟨result, _, hresult⟩ := h; exact ⟨result, hresult⟩
      obtain ⟨value, rfl⟩ := hsome
      constructor
      · rintro ⟨view, hview, heq⟩ _ _ _ hcontract hvalue hnext
        cases hcontract
        cases hvalue
        rw [← Option.some.inj hnext, Option.some.inj heq]
        exact hview
      · intro hparts
        exact ⟨next, hparts contract value next rfl rfl rfl, rfl⟩

/-- The view of a merge is the replacement exactly when both take the same variants. -/
theorem project_merge_iff {contract : Contract} (hvalid : contract.Valid) {stored replacement merged : CanonicalValue}
    (hstored : Ordered stored) (hreplacement : Ordered replacement) (haccepts : contract.Accepts replacement)
    (h : contract.preserve_unknown_fields_at stored replacement = .ok merged) :
    contract.project_value merged = .ok replacement ↔ contract.agrees merged replacement = true := by
  induction contract using Contract.induction generalizing stored replacement merged with
  | any =>
    rw [preserve_any] at h
    cases h
    exact iff_of_true (by rw [Contract.project_value]) (agrees_any _ _)
  | scalar contract hscalar =>
    rw [preserve_scalar hscalar] at h
    cases h
    refine iff_of_true ?_ (agrees_scalar hscalar _ _)
    rw [project_scalar hscalar, check_bind_eq_ok_iff]
    exact ⟨haccepts, rfl⟩
  | array items minimum maximum ih =>
    obtain ⟨next, rfl, _, hitems⟩ := accepts_array_iff.mp haccepts
    obtain ⟨result, rfl, hlength, hmerged⟩ := preserve_array_iff.mp h
    have hitem (index : Nat) (hvalue : index < result.length) (hnext : index < next.length) :
        items.project_value result[index] = .ok next[index] ↔ items.agrees result[index] next[index] = true := by
      have haccepted := hitems _ (List.getElem_mem hnext)
      have hordered := hreplacement.item (List.getElem_mem hnext)
      have hmerge := hmerged index hnext hvalue
      cases hold : (stored_items stored)[index]? with
      | none =>
        rw [hold] at hmerge
        rw [show result[index] = next[index] from hmerge]
        exact ih hvalid.array ordered_null hordered haccepted (preserve_null haccepted)
      | some value =>
        rw [hold] at hmerge
        exact ih hvalid.array (hstored.item (List.mem_of_getElem? hold)) hordered haccepted hmerge
    rw [project_array_iff, agrees_array_iff hlength.symm]
    constructor
    · rintro ⟨_, heq, hviewed, _⟩ index hvalue hnext
      obtain rfl := CanonicalValue.Array.inj heq
      exact (hitem index hvalue hnext).mp ((List.forall₂_iff_get.mp hviewed).2 index hvalue hnext)
    · intro hagrees
      refine ⟨next, rfl, List.forall₂_iff_get.mpr ⟨hlength.symm, fun index hvalue hnext => ?_⟩, haccepts⟩
      exact (hitem index hvalue hnext).mpr (hagrees index hvalue hnext)
  | object fields optional ih =>
    obtain ⟨next, rfl, _⟩ := accepts_object_iff.mp haccepts
    obtain ⟨hfields, _, _, hparts⟩ := valid_object hvalid
    obtain ⟨result, rfl, _, hmerged⟩ := preserve_object_eq_ok hstored h
    have hfield (key : String) {contract : Contract} {value part : CanonicalValue}
        (hcontract : fields.lookup key = some contract) (hvalue : result.lookup key = some value)
        (hpart : next.lookup key = some part) :
        contract.project_value value = .ok part ↔ contract.agrees value part = true := by
      have hmem := mem_of_lookup hcontract
      have haccepted := accepted_fields haccepts key
      have hmerge := hmerged key
      rw [hcontract, hpart] at haccepted
      rw [hcontract, hvalue, hpart] at hmerge
      cases hold : (stored_fields stored).lookup key with
      | none =>
        rw [hold] at hmerge
        cases hmerge
        exact ih _ hmem (hparts _ hmem) ordered_null (hreplacement.field hpart) haccepted (preserve_null haccepted)
      | some old =>
        rw [hold] at hmerge
        obtain ⟨_, hmerge, heq⟩ := hmerge
        cases heq
        exact ih _ hmem (hparts _ hmem) (hstored.field hold) (hreplacement.field hpart) haccepted hmerge
    have hviewed (key : String) := (hmerged key).viewed_iff (accepted_fields haccepts key)
    rw [project_object_iff hfields, agrees_object_iff hfields]
    constructor
    · rintro ⟨_, heq, _, hview⟩ key contract value part hcontract hvalue hpart
      obtain rfl := CanonicalValue.Object.inj heq
      exact (hfield key hcontract hvalue hpart).mp
        ((hviewed key).mp (hview key) contract value part hcontract hvalue hpart)
    · intro hagrees
      refine ⟨next, rfl, hreplacement.fields, fun key => (hviewed key).mpr ?_⟩
      intro contract value part hcontract hvalue hpart
      exact (hfield key hcontract hvalue hpart).mpr (hagrees key contract value part hcontract hvalue hpart)
  | union variants ih =>
    have heither : ∃ variant ∈ variants, variant.Reads merged ∨ variant.Accepts replacement := by
      obtain ⟨variant, hmem, hvariant⟩ := accepts_union_iff.mp haccepts
      exact ⟨variant, hmem, .inr hvariant⟩
    obtain ⟨before, variant, after, hsplit, hbefore, hvariant⟩ := exists_first heither
    have hmem : variant ∈ variants := by simp [hsplit]
    have hvariant_valid := (valid_union hvalid).2 variant hmem
    rw [agrees_union_first hsplit hbefore hvariant]
    by_cases hvariant_accepts : variant.Accepts replacement
    · rw [preserve_union_first hsplit (fun other hother haccepts => hbefore other hother (.inr haccepts))
        hvariant_accepts] at h
      have hreads := reads_of_preserve hvariant_valid hstored hvariant_accepts h
      rw [project_union_first hvalid hsplit (fun other hother hreads => hbefore other hother (.inl hreads)) hreads,
        ih variant hmem hvariant_valid hstored hreplacement hvariant_accepts h]
      exact ⟨fun hagrees => ⟨hreads, hvariant_accepts, hagrees⟩, fun hagrees => hagrees.2.2⟩
    · -- Reading takes a variant that does not accept the replacement, so its view is another value.
      have hreads := hvariant.resolve_right hvariant_accepts
      rw [project_union_first hvalid hsplit (fun other hother hreads => hbefore other hother (.inl hreads)) hreads]
      refine iff_of_false (fun hview => ?_) fun hagrees => hvariant_accepts hagrees.2.1
      exact hvariant_accepts (accepts_of_project hvariant_valid hview)

/-- A Release reads what it wrote over a document exactly when reading the merge and merging take the same variants. -/
theorem read_back_iff (definition : Definition) {stored replacement merged : CanonicalValue} (hstored : Ordered stored)
    (hreplacement : Ordered replacement) (haccepts : definition.contract.validate_value replacement = .ok ())
    (h : definition.contract.preserve_unknown_fields stored replacement = .ok merged) :
    definition.contract.project_value merged = .ok replacement ↔
      definition.contract.agrees merged replacement = true := by
  rw [Contract.preserve_unknown_fields, check_bind_eq_ok_iff] at h
  exact project_merge_iff definition.is_valid hstored hreplacement haccepts h.2

/-- Documents with a draft, or with a title. -/
def draft_or_title : Definition where
  contract := .Union [.Object [("draft", .Null)] [], .Object [("title", .Null)] []]
  ordered := by decide +kernel
  valid := by decide +kernel

/-- The title of a published draft is not read: the draft is kept, and its variant comes first. -/
theorem read_back_finds_the_draft :
    ∃ (definition : Definition) (stored replacement merged : CanonicalValue), Ordered stored ∧ Ordered replacement ∧
      (∃ view, definition.contract.project_value stored = .ok view) ∧
        definition.contract.validate_value replacement = .ok () ∧
          definition.contract.preserve_unknown_fields stored replacement = .ok merged ∧
            definition.contract.project_value merged ≠ .ok replacement := by
  have hordered (key : String) : Ordered (.Object [(key, .Null)]) := by
    refine .intro (List.pairwise_singleton _ _) fun item hitem => ?_
    obtain rfl := List.mem_singleton.mp hitem
    exact ordered_null
  exact ⟨draft_or_title, .Object [("draft", .Null)], .Object [("title", .Null)],
    .Object [("draft", .Null), ("title", .Null)], hordered _, hordered _, ⟨.Object [("draft", .Null)], by decide +kernel⟩,
    by decide +kernel, by decide +kernel, by decide +kernel⟩

/-- A title that is written over a title is read back, with a field that the Release does not know left out: reading and
merging take the second variant. -/
theorem read_back_finds_the_title :
    draft_or_title.contract.project_value (.Object [("tag", .Null), ("title", .Null)]) =
      .ok (.Object [("title", .Null)]) := by
  have hordered (keys : List String) (hkeys : assoc_list.Ascending (keys.map fun key => (key, CanonicalValue.Null))) :
      Ordered (.Object (keys.map fun key => (key, .Null))) := by
    refine .intro hkeys fun item hitem => ?_
    simp only [CanonicalValue.items, List.map_map, List.mem_map, Function.comp_apply] at hitem
    obtain ⟨_, _, rfl⟩ := hitem
    exact ordered_null
  exact (@read_back_iff draft_or_title (.Object [("tag", .Null), ("title", .Null)]) (.Object [("title", .Null)])
    (.Object [("tag", .Null), ("title", .Null)]) (hordered ["tag", "title"] (by decide +kernel))
    (hordered ["title"] (by decide +kernel)) (by decide +kernel) (by decide +kernel)).mpr (by decide +kernel)

end runku.contracts
