import Runku.Contracts.Contract

namespace runku.contracts

open assoc_list fallible runku.value

/-- The contract of a single value without parts. -/
def Contract.is_scalar : Contract → Bool
  | .Any | .Array .. | .Object .. | .Union .. => false
  | _ => true

/-- A property of all contracts follows from that of the parts of each. -/
theorem Contract.induction {motive : Contract → Prop} (any : motive .Any)
    (scalar : ∀ contract : Contract, contract.is_scalar = true → motive contract)
    (array : ∀ items minimum maximum, motive items → motive (.Array items minimum maximum))
    (object : ∀ fields optional, (∀ field ∈ fields, motive field.2) → motive (.Object fields optional))
    (union : ∀ variants, (∀ variant ∈ variants, motive variant) → motive (.Union variants)) :
    ∀ contract, motive contract
  | .Any => any
  | .Null | .Boolean | .Int64 .. | .Float64 .. | .String .. | .Bytes .. | .Timestamp | .TypedId _
  | .DocumentId _ => scalar _ rfl
  | .Array items minimum maximum =>
    array items minimum maximum (Contract.induction any scalar array object union items)
  | .Object fields optional => object fields optional fun field hmem =>
    have := sizeOf_lt_of_mem_fields hmem
    Contract.induction any scalar array object union field.2
  | .Union variants => union variants fun variant hmem =>
    have := List.sizeOf_lt_of_mem hmem
    Contract.induction any scalar array object union variant
termination_by contract => sizeOf contract
decreasing_by
  all_goals
    simp
    omega

/-- Validation succeeds. -/
def Contract.Accepts (contract : Contract) (value : CanonicalValue) : Prop := contract.validate_value value = .ok ()

/-- The stored value has a view. -/
def Contract.Reads (contract : Contract) (value : CanonicalValue) : Prop :=
  ∃ view, contract.project_value value = .ok view

variable {contract : Contract} {value : CanonicalValue}

theorem isOk_validate_iff : (contract.validate_value value).isOk = true ↔ contract.Accepts value :=
  isOk_iff_exists.trans ⟨fun ⟨(), h⟩ => h, fun h => ⟨(), h⟩⟩

theorem accepts_any (value : CanonicalValue) : Contract.Any.Accepts value := by
  rw [Contract.Accepts, Contract.validate_value]

theorem reads_any (value : CanonicalValue) : Contract.Any.Reads value :=
  ⟨value, by rw [Contract.project_value]⟩

variable {items : Contract} {minimum maximum : Option UInt32}

theorem accepts_array_iff : (Contract.Array items minimum maximum).Accepts value ↔
      ∃ values, value = .Array values ∧ validate_length values.length minimum maximum = .ok () ∧
        ∀ item ∈ values, items.Accepts item := by
  cases value with
  | Array values =>
    rw [Contract.Accepts, Contract.validate_value, check_bind_eq_ok_iff, List.forM_eq_forM, forM_eq_ok_iff]
    simp [Contract.Accepts]
  | _ => simp [Contract.Accepts, Contract.validate_value]

/-- Validation of an object, field by field. -/
theorem accepts_object_iff {fields : ContractFields} {optional : List String} :
    (Contract.Object fields optional).Accepts value ↔ ∃ values : Fields, value = .Object values ∧
        (∀ field ∈ values, ∃ contract, fields.lookup field.1 = some contract ∧ contract.Accepts field.2) ∧
        ∀ field ∈ fields, field.1 ∈ optional ∨ ∃ value, values.lookup field.1 = some value := by
  cases value with
  | Object values =>
    rw [Contract.Accepts, Contract.validate_value, ite_error_eq_ok_iff, List.forM_eq_forM, forM_eq_ok_iff]
    simp only [Bool.not_eq_true, Bool.or_eq_false_iff, List.any_eq_false, Option.isNone_iff_eq_none,
      Bool.and_eq_true, not_and, Bool.not_eq_true', List.contains_eq_mem, decide_eq_false_iff_not]
    constructor
    · rintro ⟨⟨_, hrequired⟩, hall⟩
      refine ⟨values, rfl, fun field hmem => ?_, fun field hmem => ?_⟩
      · have hfield := hall field hmem
        split at hfield
        · cases hfield
        · exact ⟨_, ‹_›, hfield⟩
      · by_cases hoptional : field.1 ∈ optional
        · exact .inl hoptional
        · exact .inr (Option.ne_none_iff_exists'.mp (hrequired field hmem hoptional))
    · rintro ⟨_, heq, hall, hrequired⟩
      obtain rfl := CanonicalValue.Object.inj heq
      refine ⟨⟨fun field hmem => ?_, fun field hmem hoptional => ?_⟩, fun field hmem => ?_⟩
      · obtain ⟨contract, hcontract, _⟩ := hall field hmem
        rw [hcontract]
        exact Option.some_ne_none _
      · exact Option.ne_none_iff_exists'.mpr ((hrequired field hmem).resolve_left hoptional)
      · obtain ⟨contract, hcontract, haccepts⟩ := hall field hmem
        split
        · rename_i hnone
          rw [hnone] at hcontract
          cases hcontract
        · rename_i hsome
          rw [hsome] at hcontract
          rw [Option.some.inj hcontract]
          exact haccepts
  | _ => simp [Contract.Accepts, Contract.validate_value]

variable {variants : List Contract}

theorem accepts_union_iff :
    (Contract.Union variants).Accepts value ↔ ∃ variant ∈ variants, variant.Accepts value := by
  rw [Contract.Accepts, Contract.validate_value]
  simp [isOk_validate_iff]

/-- A scalar has no view but itself. -/
theorem project_scalar (hscalar : contract.is_scalar = true) (value : CanonicalValue) :
    contract.project_value value = (do contract.validate_value value; .ok value) := by
  cases contract <;> try cases hscalar
  all_goals rw [Contract.project_value] <;> intros <;> contradiction

theorem reads_scalar_iff (hscalar : contract.is_scalar = true) : contract.Reads value ↔ contract.Accepts value := by
  simp [Contract.Reads, project_scalar hscalar, check_bind_eq_ok_iff, Contract.Accepts]

/-- A contract that is part of a valid definition. -/
def Contract.Valid (contract : Contract) : Prop :=
  contract.ordered = true ∧ ∃ depth nodes counted, contract.validate_definition_at depth nodes = .ok counted

theorem Definition.is_valid (definition : Definition) : definition.contract.Valid := by
  have hvalid := definition.valid
  rw [Contract.validate_definition, bind_eq_ok_iff] at hvalid
  obtain ⟨counted, hcounted, _⟩ := hvalid
  exact ⟨definition.ordered, 0, 0, counted, hcounted⟩

theorem Contract.Valid.array {items : Contract} {minimum maximum : Option UInt32}
    (h : (Contract.Array items minimum maximum).Valid) : items.Valid := by
  obtain ⟨hordered, depth, nodes, counted, hvalid⟩ := h
  rw [Contract.ordered] at hordered
  rw [Contract.validate_definition_at, ite_error_eq_ok_iff, check_bind_eq_ok_iff] at hvalid
  exact ⟨hordered, _, _, _, hvalid.2.2⟩

/-- The parts of a valid object contract. -/
theorem valid_object {fields : ContractFields} {optional : List String}
    (h : (Contract.Object fields optional).Valid) : Ascending fields ∧ optional.Pairwise (· < ·) ∧
      (∀ key ∈ optional, ∃ contract, fields.lookup key = some contract) ∧ ∀ field ∈ fields, field.2.Valid := by
  obtain ⟨hordered, depth, nodes, counted, hvalid⟩ := h
  rw [Contract.ordered] at hordered
  simp only [Bool.and_eq_true, decide_eq_true_eq, List.all_eq_true] at hordered
  obtain ⟨⟨hfields, hoptional⟩, hparts⟩ := hordered
  rw [Contract.validate_definition_at, ite_error_eq_ok_iff] at hvalid
  obtain ⟨_, hvalid⟩ := hvalid
  rw [ite_error_eq_ok_iff] at hvalid
  obtain ⟨hshape, hcount⟩ := hvalid
  refine ⟨hfields, hoptional, fun key hkey => ?_, fun field hmem => ?_⟩
  · by_contra hnone
    rw [← Option.ne_none_iff_exists', not_not] at hnone
    apply hshape
    rw [Bool.or_eq_true, Bool.or_eq_true, List.any_eq_true]
    exact .inl (.inr ⟨key, hkey, by rw [hnone]; rfl⟩)
  · obtain ⟨before, after, hfield⟩ := exists_of_foldlM_eq_ok hcount (List.mem_attach fields ⟨field, hmem⟩)
    exact ⟨hparts _ (List.mem_attach fields ⟨field, hmem⟩), _, _, _, hfield⟩

theorem valid_union (h : (Contract.Union variants).Valid) : variants.Nodup ∧ ∀ variant ∈ variants, variant.Valid := by
  obtain ⟨hordered, depth, nodes, counted, hvalid⟩ := h
  rw [Contract.ordered, List.all_eq_true] at hordered
  rw [Contract.validate_definition_at, ite_error_eq_ok_iff] at hvalid
  obtain ⟨_, hvalid⟩ := hvalid
  rw [ite_error_eq_ok_iff, bind_eq_ok_iff] at hvalid
  obtain ⟨_, counted', hcount, hnodup⟩ := hvalid
  refine ⟨?_, fun variant hmem => ?_⟩
  · by_contra hdup
    rw [if_neg hdup] at hnodup
    cases hnodup
  · obtain ⟨before, after, hvariant⟩ := exists_of_foldlM_eq_ok hcount (List.mem_attach variants ⟨variant, hmem⟩)
    exact ⟨hordered _ (List.mem_attach variants ⟨variant, hmem⟩), _, _, _, hvariant⟩

section Fields

variable {fields : ContractFields} {optional : List String}

/-- The field under a key is known and accepted, or unknown and absent, or optional and absent. -/
def AcceptedField (contract : Option Contract) (optional : Prop) (value : Option CanonicalValue) : Prop :=
  match contract, value with
  | none, none => True
  | none, some _ => False
  | some contract, some value => contract.Accepts value
  | some _, none => optional

/-- The field of a view under a key. -/
def ViewedField (contract : Option Contract) (optional : Prop) (stored viewed : Option CanonicalValue) : Prop :=
  match contract, stored with
  | none, _ => viewed = none
  | some contract, some value => ∃ view, contract.project_value value = .ok view ∧ viewed = some view
  | some _, none => optional ∧ viewed = none

theorem ViewedField.unique {contract : Option Contract} {optional : Prop} {stored viewed other : Option CanonicalValue}
    (h : ViewedField contract optional stored viewed) (hother : ViewedField contract optional stored other) :
    viewed = other := by
  cases contract with
  | none => exact h.trans hother.symm
  | some contract =>
    cases stored with
    | none => exact h.2.trans hother.2.symm
    | some value =>
      obtain ⟨view, hview, rfl⟩ := h
      obtain ⟨view', hview', rfl⟩ := hother
      rw [hview] at hview'
      rw [Except.ok.inj hview']

/-- The fields of an accepted object. -/
theorem accepted_fields {values : Fields} (h : (Contract.Object fields optional).Accepts (.Object values)) (key : String) :
    AcceptedField (fields.lookup key) (key ∈ optional) (values.lookup key) := by
  obtain ⟨_, heq, hall, hrequired⟩ := accepts_object_iff.mp h
  obtain rfl := CanonicalValue.Object.inj heq
  cases hvalue : values.lookup key with
  | none =>
    cases hcontract : fields.lookup key with
    | none => trivial
    | some contract =>
      refine (hrequired _ (mem_of_lookup hcontract)).resolve_right ?_
      rintro ⟨value, hsome⟩
      rw [hvalue] at hsome
      cases hsome
  | some value =>
    obtain ⟨contract, hcontract, haccepts⟩ := hall _ (mem_of_lookup hvalue)
    rw [hcontract]
    exact haccepts

theorem accepts_of_fields (hfields : Ascending fields) {values : Fields} (hvalues : Ascending values)
    (h : ∀ key, AcceptedField (fields.lookup key) (key ∈ optional) (values.lookup key)) :
    (Contract.Object fields optional).Accepts (.Object values) := by
  refine accepts_object_iff.mpr ⟨values, rfl, fun field hmem => ?_, fun field hmem => ?_⟩
  · have hfield := h field.1
    rw [hvalues.lookup_of_mem hmem] at hfield
    cases hcontract : fields.lookup field.1 with
    | none => rw [hcontract] at hfield; exact hfield.elim
    | some contract => rw [hcontract] at hfield; exact ⟨contract, rfl, hfield⟩
  · have hfield := h field.1
    rw [hfields.lookup_of_mem hmem] at hfield
    cases hvalue : values.lookup field.1 with
    | none => rw [hvalue] at hfield; exact .inl hfield
    | some value => exact .inr ⟨value, rfl⟩

/-- One field of the loop that projects an object. -/
def project_field (optional : List String) (stored : Fields) (field : String × Contract) :
    Except ValidationError (Option (String × CanonicalValue)) :=
  match stored.lookup field.1 with
  | some value => do .ok (some (field.1, ← field.2.project_value value))
  | none => if optional.contains field.1 then .ok none else .error .ObjectShape

theorem project_object_eq (stored : Fields) : (Contract.Object fields optional).project_value (.Object stored) =
      (do .ok (.Object (← fields.mapM (project_field optional stored)).reduceOption)) := by
  rw [Contract.project_value]
  conv => rhs; rw [← List.attach_map_subtype_val fields, List.mapM_map]
  rfl

variable {stored : Fields}

theorem project_field_eq_ok {field : String × Contract}
    {entry : Option (String × CanonicalValue)} (h : project_field optional stored field = .ok entry) :
    (∃ value view, stored.lookup field.1 = some value ∧ field.2.project_value value = .ok view ∧
      entry = some (field.1, view)) ∨ stored.lookup field.1 = none ∧ field.1 ∈ optional ∧ entry = none := by
  unfold project_field at h
  split at h
  · rename_i value hvalue
    obtain ⟨view, hview, h⟩ := bind_eq_ok_iff.mp h
    exact .inl ⟨value, view, hvalue, hview, (Except.ok.inj h).symm⟩
  · rename_i hnone
    split at h
    · rename_i hoptional
      exact .inr ⟨hnone, List.contains_iff_mem.mp hoptional, (Except.ok.inj h).symm⟩
    · cases h

/-- What the loop over the fields collects. -/
theorem project_fields_eq_ok (hfields : Ascending fields) {entries : List (Option (String × CanonicalValue))}
    (h : fields.mapM (project_field optional stored) = .ok entries) : Ascending entries.reduceOption ∧
      ∀ key, ViewedField (fields.lookup key) (key ∈ optional) (stored.lookup key) (entries.reduceOption.lookup key) := by
  induction fields generalizing entries with
  | nil =>
    rw [List.mapM_nil] at h
    cases h
    exact ⟨List.Pairwise.nil, fun key => rfl⟩
  | cons field fields ih =>
    rw [List.mapM_cons] at h
    obtain ⟨entry, hentry, h⟩ := bind_eq_ok_iff.mp h
    obtain ⟨rest, hrest, h⟩ := bind_eq_ok_iff.mp h
    cases h
    obtain ⟨hfirst, hfields⟩ := List.pairwise_cons.mp hfields
    obtain ⟨hascending, hviewed⟩ := ih hfields hrest
    have hnone : fields.lookup field.1 = none := lookup_eq_none hfirst
    rcases project_field_eq_ok hentry with ⟨value, view, hvalue, hview, rfl⟩ | ⟨hvalue, hoptional, rfl⟩
    · rw [List.reduceOption_cons_of_some]
      refine ⟨List.pairwise_cons.mpr ⟨fun other hother => ?_, hascending⟩, fun key => ?_⟩
      · -- A key of the rest of the view is one of the later fields.
        have hkey := hviewed other.1
        rw [hascending.lookup_of_mem hother] at hkey
        cases hcontract : fields.lookup other.1 with
        | none => rw [hcontract] at hkey; cases hkey
        | some contract => exact hfirst _ (mem_of_lookup hcontract)
      · rw [lookup_cons, lookup_cons]
        by_cases hkey : key = field.1
        · rw [if_pos hkey, if_pos hkey, hkey, hvalue]
          exact ⟨view, hview, rfl⟩
        · rw [if_neg hkey, if_neg hkey]
          exact hviewed key
    · rw [List.reduceOption_cons_of_none]
      refine ⟨hascending, fun key => ?_⟩
      rw [lookup_cons]
      by_cases hkey : key = field.1
      · have hview := hviewed key
        rw [hkey, hnone] at hview
        rw [if_pos hkey, hkey, hvalue]
        exact ⟨hoptional, hview⟩
      · rw [if_neg hkey]
        exact hviewed key

/-- An object is read when every field that a contract declares is read, or absent and optional. -/
theorem reads_object_iff (hfields : Ascending fields) : (Contract.Object fields optional).Reads (.Object stored) ↔
      ∀ key, ∃ viewed, ViewedField (fields.lookup key) (key ∈ optional) (stored.lookup key) viewed := by
  constructor
  · rintro ⟨view, hview⟩ key
    rw [project_object_eq] at hview
    obtain ⟨entries, hentries, _⟩ := bind_eq_ok_iff.mp hview
    exact ⟨_, (project_fields_eq_ok hfields hentries).2 key⟩
  · intro h
    have hentries : ∃ entries, fields.mapM (project_field optional stored) = .ok entries := by
      refine exists_mapM_eq_ok fun field hmem => ?_
      obtain ⟨viewed, hviewed⟩ := h field.1
      rw [hfields.lookup_of_mem hmem] at hviewed
      unfold project_field
      cases hvalue : stored.lookup field.1 with
      | none =>
        rw [hvalue] at hviewed
        exact ⟨none, if_pos (List.contains_iff_mem.mpr hviewed.1)⟩
      | some value =>
        rw [hvalue] at hviewed
        obtain ⟨view, hview, _⟩ := hviewed
        refine ⟨some (field.1, view), ?_⟩
        dsimp only
        rw [hview]
        rfl
    obtain ⟨entries, hentries⟩ := hentries
    exact ⟨.Object entries.reduceOption, by rw [project_object_eq, hentries]; rfl⟩

/-- The view of an object, key by key. -/
theorem project_object_iff (hfields : Ascending fields) {view : CanonicalValue} :
    (Contract.Object fields optional).project_value (.Object stored) = .ok view ↔
      ∃ viewed, view = .Object viewed ∧ Ascending viewed ∧
        ∀ key, ViewedField (fields.lookup key) (key ∈ optional) (stored.lookup key) (viewed.lookup key) := by
  have hforward {view : CanonicalValue}
      (h : (Contract.Object fields optional).project_value (.Object stored) = .ok view) :
      ∃ viewed, view = .Object viewed ∧ Ascending viewed ∧
        ∀ key, ViewedField (fields.lookup key) (key ∈ optional) (stored.lookup key) (viewed.lookup key) := by
    rw [project_object_eq] at h
    obtain ⟨entries, hentries, h⟩ := bind_eq_ok_iff.mp h
    exact ⟨_, (Except.ok.inj h).symm, project_fields_eq_ok hfields hentries⟩
  refine ⟨hforward, ?_⟩
  rintro ⟨viewed, rfl, hascending, hviewed⟩
  obtain ⟨view, hview⟩ := (reads_object_iff hfields).mpr fun key => ⟨_, hviewed key⟩
  obtain ⟨other, rfl, hother, hviewed'⟩ := hforward hview
  rw [hview, hascending.ext hother fun key => (hviewed key).unique (hviewed' key)]

end Fields

theorem project_array_iff {values : List CanonicalValue} {view : CanonicalValue} :
    (Contract.Array items minimum maximum).project_value (.Array values) = .ok view ↔
      ∃ viewed, view = .Array viewed ∧ List.Forall₂ (fun value view => items.project_value value = .ok view) values viewed ∧
        (Contract.Array items minimum maximum).Accepts (.Array viewed) := by
  rw [Contract.project_value, bind_eq_ok_iff]
  constructor
  · rintro ⟨viewed, hviewed, h⟩
    obtain ⟨haccepts, h⟩ := check_bind_eq_ok_iff.mp h
    exact ⟨viewed, (Except.ok.inj h).symm, mapM_eq_ok hviewed, haccepts⟩
  · rintro ⟨viewed, rfl, hviewed, haccepts⟩
    exact ⟨viewed, mapM_eq_ok_iff.mpr hviewed, check_bind_eq_ok_iff.mpr ⟨haccepts, rfl⟩⟩

/-- The view that a variant of a union offers. -/
def offered_view (value : CanonicalValue) (variant : Contract) : Option CanonicalValue :=
  match variant.project_value value with
  | .ok projected => if (variant.validate_value projected).isOk then some projected else none
  | .error _ => none

theorem offered_view_eq_some_iff {value view : CanonicalValue} {variant : Contract} :
    offered_view value variant = some view ↔ variant.project_value value = .ok view ∧ variant.Accepts view := by
  unfold offered_view
  cases hview : variant.project_value value with
  | error e => simp
  | ok projected =>
    simp only [isOk_validate_iff, Option.ite_none_right_eq_some, Option.some.injEq, Except.ok.injEq]
    constructor
    · rintro ⟨haccepts, rfl⟩
      exact ⟨rfl, haccepts⟩
    · rintro ⟨rfl, haccepts⟩
      exact ⟨haccepts, rfl⟩

theorem project_union_eq (variants : List Contract) (value : CanonicalValue) :
    (Contract.Union variants).project_value value =
      match variants.findSome? (offered_view value) with
      | some view => .ok view
      | none => .error .UnionMismatch := by
  rw [Contract.project_value]
  conv => rhs; rw [← List.attach_map_subtype_val variants, List.findSome?_map]
  rfl

/-- The view of a union is one that a variant has and accepts. -/
theorem project_union_eq_ok {value view : CanonicalValue}
    (h : (Contract.Union variants).project_value value = .ok view) :
    ∃ variant ∈ variants, variant.project_value value = .ok view ∧ variant.Accepts view := by
  rw [project_union_eq] at h
  split at h
  · rename_i found hfound
    cases h
    obtain ⟨variant, hmem, hvariant⟩ := List.exists_of_findSome?_eq_some hfound
    exact ⟨variant, hmem, offered_view_eq_some_iff.mp hvariant⟩
  · cases h

/-- The value of a field that is viewed is accepted by its contract. -/
theorem ViewedField.accepted {contract : Option Contract} {optional : Prop} {stored viewed : Option CanonicalValue}
    (h : ViewedField contract optional stored viewed)
    (haccepts : ∀ contract' value view, contract = some contract' → contract'.project_value value = .ok view →
      contract'.Accepts view) : AcceptedField contract optional viewed := by
  cases contract with
  | none => rw [show viewed = none from h]; trivial
  | some contract =>
    cases stored with
    | none => rw [h.2]; exact h.1
    | some value =>
      obtain ⟨view, hview, rfl⟩ := h
      exact haccepts contract value view rfl hview

/-- A view is accepted by its contract. -/
theorem accepts_of_project (hvalid : contract.Valid) {value view : CanonicalValue}
    (h : contract.project_value value = .ok view) : contract.Accepts view := by
  induction contract using Contract.induction generalizing value view with
  | any => exact accepts_any view
  | scalar contract hscalar =>
    rw [project_scalar hscalar, check_bind_eq_ok_iff] at h
    obtain rfl := Except.ok.inj h.2
    exact h.1
  | array items minimum maximum _ =>
    cases value with
    | Array values =>
      obtain ⟨viewed, rfl, _, haccepts⟩ := project_array_iff.mp h
      exact haccepts
    | _ => simp [Contract.project_value, Contract.validate_value] at h
  | object fields optional ih =>
    cases value with
    | Object stored =>
      obtain ⟨hfields, _, _, hparts⟩ := valid_object hvalid
      obtain ⟨viewed, rfl, hascending, hviewed⟩ := (project_object_iff hfields).mp h
      refine accepts_of_fields hfields hascending fun key => (hviewed key).accepted ?_
      intro contract value view hcontract hview
      have hmem := mem_of_lookup hcontract
      exact ih _ hmem (hparts _ hmem) hview
    | _ => simp [Contract.project_value, Contract.validate_value] at h
  | union variants _ =>
    obtain ⟨variant, hmem, _, haccepts⟩ := project_union_eq_ok h
    exact accepts_union_iff.mpr ⟨variant, hmem, haccepts⟩

/-- An array is read when its length is right and its items are read. -/
theorem reads_array_iff (hvalid : items.Valid) {values : List CanonicalValue} :
    (Contract.Array items minimum maximum).Reads (.Array values) ↔
      validate_length values.length minimum maximum = .ok () ∧ ∀ value ∈ values, items.Reads value := by
  constructor
  · rintro ⟨view, hview⟩
    obtain ⟨viewed, rfl, hviewed, haccepts⟩ := project_array_iff.mp hview
    obtain ⟨_, heq, hlength, _⟩ := accepts_array_iff.mp haccepts
    obtain rfl := CanonicalValue.Array.inj heq
    refine ⟨hviewed.length_eq ▸ hlength, fun value hmem => ?_⟩
    obtain ⟨view, _, hitem⟩ := exists_of_mapM_eq_ok (mapM_eq_ok_iff.mpr hviewed) hmem
    exact ⟨view, hitem⟩
  · rintro ⟨hlength, hreads⟩
    obtain ⟨viewed, hviewed⟩ := exists_mapM_eq_ok hreads
    have hitems := mapM_eq_ok hviewed
    refine ⟨.Array viewed, project_array_iff.mpr ⟨viewed, rfl, hitems, accepts_array_iff.mpr ?_⟩⟩
    refine ⟨viewed, rfl, hitems.length_eq ▸ hlength, fun view hmem => ?_⟩
    obtain ⟨value, _, hview⟩ := exists_of_mem_mapM hviewed hmem
    exact accepts_of_project hvalid hview

/-- The part of a union up to the first variant with a property. -/
theorem exists_first {α : Type} {p : α → Prop} {items : List α} (h : ∃ item ∈ items, p item) :
    ∃ before item after, items = before ++ item :: after ∧ (∀ other ∈ before, ¬p other) ∧ p item := by
  induction items with
  | nil => obtain ⟨item, hmem, _⟩ := h; cases hmem
  | cons first items ih =>
    by_cases hfirst : p first
    · exact ⟨[], first, items, rfl, nofun, hfirst⟩
    · obtain ⟨item, hmem, hitem⟩ := h
      have hrest : ∃ item ∈ items, p item := by
        rcases List.mem_cons.mp hmem with rfl | hmem
        · exact absurd hitem hfirst
        · exact ⟨item, hmem, hitem⟩
      obtain ⟨before, item, after, rfl, hbefore, hitem⟩ := ih hrest
      exact ⟨first :: before, item, after, rfl, List.forall_mem_cons.mpr ⟨hfirst, hbefore⟩, hitem⟩

theorem find?_attach_first {α : Type} {p : α → Bool} {items before after : List α} {item : α}
    (hsplit : items = before ++ item :: after) (hbefore : ∀ other ∈ before, p other = false) (hitem : p item = true) :
    ∃ found, items.attach.find? (fun attached => p attached.1) = some found ∧ found.1 = item := by
  refine Option.map_eq_some_iff.mp ?_
  rw [show (fun attached : {x // x ∈ items} => p attached.1) = p ∘ Subtype.val from rfl, ← List.find?_map,
    List.attach_map_subtype_val, hsplit, List.find?_append, List.find?_eq_none.mpr (by simpa using hbefore),
    List.find?_cons_of_pos hitem, Option.none_or]

section Union

variable {variants before after : List Contract} {variant : Contract}

/-- A union reads a value as its first variant that reads it does. -/
theorem project_union_first (hvalid : (Contract.Union variants).Valid) (hsplit : variants = before ++ variant :: after)
    {value : CanonicalValue} (hbefore : ∀ other ∈ before, ¬other.Reads value) (hreads : variant.Reads value) :
    (Contract.Union variants).project_value value = variant.project_value value := by
  obtain ⟨view, hview⟩ := hreads
  have hvariant : variant.Valid := (valid_union hvalid).2 variant (by simp [hsplit])
  have hfound : variants.findSome? (offered_view value) = some view := by
    refine List.findSome?_eq_some_iff.mpr ⟨before, variant, after, hsplit, ?_, fun other hother => ?_⟩
    · exact offered_view_eq_some_iff.mpr ⟨hview, accepts_of_project hvariant hview⟩
    · rw [Option.eq_none_iff_forall_ne_some]
      intro view' hview'
      exact hbefore other hother ⟨view', (offered_view_eq_some_iff.mp hview').1⟩
  rw [project_union_eq, hfound, hview]

theorem reads_union_iff (hvalid : (Contract.Union variants).Valid) {value : CanonicalValue} :
    (Contract.Union variants).Reads value ↔ ∃ variant ∈ variants, variant.Reads value := by
  constructor
  · rintro ⟨view, hview⟩
    obtain ⟨variant, hmem, hvariant, _⟩ := project_union_eq_ok hview
    exact ⟨variant, hmem, view, hvariant⟩
  · intro h
    obtain ⟨before, variant, after, hsplit, hbefore, hreads⟩ := exists_first h
    obtain ⟨view, hview⟩ := hreads
    exact ⟨view, by rw [project_union_first hvalid hsplit hbefore ⟨view, hview⟩, hview]⟩

/-- A union merges as its first variant that accepts the replacement does. -/
theorem preserve_union_first (hsplit : variants = before ++ variant :: after) {stored replacement : CanonicalValue}
    (hbefore : ∀ other ∈ before, ¬other.Accepts replacement) (haccepts : variant.Accepts replacement) :
    (Contract.Union variants).preserve_unknown_fields_at stored replacement =
      variant.preserve_unknown_fields_at stored replacement := by
  obtain ⟨found, hfound, rfl⟩ := @find?_attach_first _ (fun variant => (variant.validate_value replacement).isOk) _ _ _ _
    hsplit (fun other hother => Bool.eq_false_iff.mpr fun hok => hbefore other hother (isOk_validate_iff.mp hok))
    (isOk_validate_iff.mpr haccepts)
  rw [Contract.preserve_unknown_fields_at, hfound]

end Union

/-- A value that is accepted is read. -/
theorem reads_of_accepts (hvalid : contract.Valid) (h : contract.Accepts value) : contract.Reads value := by
  induction contract using Contract.induction generalizing value with
  | any => exact reads_any value
  | scalar contract hscalar => exact (reads_scalar_iff hscalar).mpr h
  | array items minimum maximum ih =>
    obtain ⟨values, rfl, hlength, hitems⟩ := accepts_array_iff.mp h
    exact (reads_array_iff hvalid.array).mpr ⟨hlength, fun item hmem => ih hvalid.array (hitems item hmem)⟩
  | object fields optional ih =>
    obtain ⟨values, rfl, _⟩ := accepts_object_iff.mp h
    obtain ⟨hfields, _, _, hparts⟩ := valid_object hvalid
    refine (reads_object_iff hfields).mpr fun key => ?_
    have hfield := accepted_fields h key
    cases hcontract : fields.lookup key with
    | none => exact ⟨none, rfl⟩
    | some contract =>
      rw [hcontract] at hfield
      have hmem := mem_of_lookup hcontract
      cases hvalue : values.lookup key with
      | none => rw [hvalue] at hfield; exact ⟨none, hfield, rfl⟩
      | some value =>
        rw [hvalue] at hfield
        obtain ⟨view, hview⟩ := ih _ hmem (hparts _ hmem) hfield
        exact ⟨some view, view, hview, rfl⟩
  | union variants ih =>
    obtain ⟨variant, hmem, haccepts⟩ := accepts_union_iff.mp h
    exact (reads_union_iff hvalid).mpr ⟨variant, hmem, ih variant hmem ((valid_union hvalid).2 variant hmem) haccepts⟩

/-- What is left of a value when fields of its objects that the contract does not name are deleted, at any depth. A
union leaves what a variant leaves that accepts it, and `Any`, which names no field, leaves anything. -/
inductive Pruned : Contract → CanonicalValue → CanonicalValue → Prop
  | same {contract : Contract} {value : CanonicalValue} : Pruned contract value value
  | any {value left : CanonicalValue} : Pruned .Any value left
  | array {items : Contract} {minimum maximum : Option UInt32} {values left : List CanonicalValue}
    (hlength : values.length = left.length)
    (hitems : ∀ (index : Nat) value item, values[index]? = some value → left[index]? = some item →
      Pruned items value item) :
    Pruned (.Array items minimum maximum) (.Array values) (.Array left)
  | object {fields optional} {stored kept : Fields}
    (hunnamed : ∀ key value, fields.lookup key = none → kept.lookup key = some value → stored.lookup key = some value)
    (hnamed : ∀ key contract, fields.lookup key = some contract →
      (stored.lookup key).isSome = (kept.lookup key).isSome)
    (hvalues : ∀ key contract value left, fields.lookup key = some contract → stored.lookup key = some value →
      kept.lookup key = some left → Pruned contract value left) :
    Pruned (.Object fields optional) (.Object stored) (.Object kept)
  | union {variants : List Contract} {variant : Contract} {value left : CanonicalValue} (hmem : variant ∈ variants)
    (haccepts : variant.Accepts left) (hvariant : Pruned variant value left) : Pruned (.Union variants) value left

/-- A value is read if the contract accepts what is left of it without some fields that it does not name. -/
theorem reads_of_pruned (hvalid : contract.Valid) {stored left : CanonicalValue}
    (h : Pruned contract stored left) (haccepts : contract.Accepts left) : contract.Reads stored := by
  induction contract using Contract.induction generalizing stored left with
  | any => exact reads_any stored
  | scalar contract hscalar =>
    cases h with
    | same => exact (reads_scalar_iff hscalar).mpr haccepts
    | _ => cases hscalar
  | array items minimum maximum ih =>
    cases h with
    | same => exact reads_of_accepts hvalid haccepts
    | @array _ _ _ values left hlength hitems =>
      obtain ⟨_, heq, hbounds, hall⟩ := accepts_array_iff.mp haccepts
      obtain rfl := CanonicalValue.Array.inj heq
      refine (reads_array_iff hvalid.array).mpr ⟨hlength ▸ hbounds, fun value hmem => ?_⟩
      obtain ⟨index, hindex, hvalue⟩ := List.mem_iff_getElem.mp hmem
      have hleft : index < left.length := hlength ▸ hindex
      exact ih hvalid.array (hitems index value _ (List.getElem?_eq_some_iff.mpr ⟨hindex, hvalue⟩)
        (List.getElem?_eq_getElem hleft)) (hall _ (List.getElem_mem hleft))
  | object fields optional ih =>
    cases h with
    | same => exact reads_of_accepts hvalid haccepts
    | @object _ _ stored kept _ hnamed hvalues =>
      obtain ⟨hfields, _, _, hparts⟩ := valid_object hvalid
      refine (reads_object_iff hfields).mpr fun key => ?_
      have hfield := accepted_fields haccepts key
      cases hcontract : fields.lookup key with
      | none => exact ⟨none, rfl⟩
      | some contract =>
        rw [hcontract] at hfield
        have hmem := mem_of_lookup hcontract
        have hsome := hnamed key contract hcontract
        cases hvalue : stored.lookup key with
        | none =>
          rw [hvalue] at hsome
          rw [Option.not_isSome_iff_eq_none.mp (Bool.eq_false_iff.mp hsome.symm)] at hfield
          exact ⟨none, hfield, rfl⟩
        | some value =>
          rw [hvalue] at hsome
          obtain ⟨left, hleft⟩ := Option.isSome_iff_exists.mp hsome.symm
          rw [hleft] at hfield
          have hpruned := hvalues key contract value left hcontract hvalue hleft
          obtain ⟨view, hview⟩ := ih _ hmem (hparts _ hmem) hpruned hfield
          exact ⟨some view, view, hview, rfl⟩
  | union variants ih =>
    cases h with
    | same => exact reads_of_accepts hvalid haccepts
    | union hmem hvariant hpruned =>
      exact (reads_union_iff hvalid).mpr ⟨_, hmem, ih _ hmem ((valid_union hvalid).2 _ hmem) hpruned hvariant⟩

/-- A view is accepted by its own contract, and a value has a view if its contract accepts it without some of the fields
that the contract does not name. -/
theorem project_value_valid_view (definition : Definition) (stored : CanonicalValue) :
    (∀ view, definition.contract.project_value stored = .ok view → definition.contract.validate_value view = .ok ()) ∧
    ∀ left, Pruned definition.contract stored left → definition.contract.validate_value left = .ok () →
      ∃ view, definition.contract.project_value stored = .ok view :=
  ⟨fun _ hview => accepts_of_project definition.is_valid hview,
    fun _ hpruned haccepts => reads_of_pruned definition.is_valid hpruned haccepts⟩

/-- The text of a note, plain or in an object. -/
def note_definition : Definition where
  contract := .Union [.String none none, .Object [("text", .String none none)] []]
  ordered := by decide +kernel
  valid := by decide +kernel

/-- A later contract added a field to the object. -/
theorem project_value_newer_field : ∃ view, note_definition.contract.project_value
    (.Object [("style", .Null), ("text", .String "milk")]) = .ok view := by
  refine (project_value_valid_view note_definition _).2 (.Object [("text", .String "milk")])
    (.union (List.mem_cons_of_mem _ List.mem_cons_self) (show Contract.validate_value _ _ = _ by decide +kernel) ?_)
    (by decide +kernel)
  refine .object (fun key value hkey hvalue => ?_) (fun key contract hcontract => ?_)
    fun key contract value left hcontract hvalue hleft => ?_
  · by_cases hkey : key = "text" <;> simp_all [lookup_cons]
  · by_cases hkey : key = "text" <;> simp_all [lookup_cons]
  · by_cases hkey : key = "text" <;> simp_all [lookup_cons]
    exact .same

end runku.contracts
