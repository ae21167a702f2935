import Runku.Compatibility.Subset
import Runku.Contracts.Merge

namespace runku.compatibility

open assoc_list fallible metered runku.contracts runku.value

/-- No part of the contract is a union. -/
def union_free : Contract → Bool
  | .Union _ => false
  | .Array items _ _ => union_free items
  | .Object fields _ => fields.attach.all fun field => union_free field.1.2
  | _ => true
termination_by contract => sizeOf contract
decreasing_by
  · simp
    omega
  · obtain ⟨⟨name, contract⟩, hmem⟩ := field
    have := sizeOf_lt_of_mem_fields hmem
    simp
    omega

variable {contract : Contract}

theorem union_free_field {fields : ContractFields} {optional : List String}
    (h : union_free (.Object fields optional) = true) {key : String}
    (hcontract : fields.lookup key = some contract) : union_free contract = true := by
  rw [union_free] at h
  exact List.all_eq_true.mp h ⟨_, mem_of_lookup hcontract⟩ (List.mem_attach _ _)

theorem union_free_array {items : Contract} {minimum maximum : Option UInt32}
    (h : union_free (.Array items minimum maximum) = true) : union_free items = true := by
  rw [union_free] at h
  exact h

section Bounds

variable {T : Type} [LinearOrder T]

theorem lower_inside_antisymm {left right : Option T} (h : lower_inside left right = true)
    (h' : lower_inside right left = true) : left = right := by
  cases left <;> cases right <;> simp only [lower_inside, Bool.false_eq_true, decide_eq_true_eq] at h h'
  · rfl
  · exact congrArg some (le_antisymm h' h)

theorem upper_inside_antisymm {left right : Option T} (h : upper_inside left right = true)
    (h' : upper_inside right left = true) : left = right := by
  cases left <;> cases right <;> simp only [upper_inside, Bool.false_eq_true, decide_eq_true_eq] at h h'
  · rfl
  · exact congrArg some (le_antisymm h h')

/-- Bounds that are inside each other are the same, also when they are compared by their values. -/
theorem bounds_eq_of_inside {S : Type} {f : S → T} (hf : Function.Injective f)
    {left_min left_max right_min right_max : Option S}
    (h : bounds_inside (left_min.map f) (left_max.map f) (right_min.map f) (right_max.map f) = true)
    (h' : bounds_inside (right_min.map f) (right_max.map f) (left_min.map f) (left_max.map f) = true) :
    left_min = right_min ∧ left_max = right_max := by
  obtain ⟨hlower, hupper⟩ := Bool.and_eq_true_iff.mp h
  obtain ⟨hlower', hupper'⟩ := Bool.and_eq_true_iff.mp h'
  exact ⟨Option.map_injective hf (lower_inside_antisymm hlower hlower'),
    Option.map_injective hf (upper_inside_antisymm hupper hupper')⟩

end Bounds

theorem units_injective : Function.Injective FiniteF64.units := by
  intro a b h
  have hcompare := compare_ordered_float_bits a b
  rw [h, compare_eq_iff_eq.mpr rfl, compare_eq_iff_eq] at hcompare
  have hbits : a.to_bits = b.to_bits := by
    rw [← float_bits_of_ordered_ordered_float_bits a, ← float_bits_of_ordered_ordered_float_bits b,
      UInt64.toNat_inj.mp hcompare]
  cases a
  cases b
  simp_all

/-- One object contract is inside another one, key by key. -/
theorem is_inside_object_iff {left_fields right_fields : ContractFields} (hleft : Ascending left_fields)
    (hright : Ascending right_fields) {left_optional right_optional : List String} :
    is_inside (.Object left_fields left_optional) (.Object right_fields right_optional) = true ↔
      (∀ key contract, left_fields.lookup key = some contract →
        ∃ other, right_fields.lookup key = some other ∧ is_inside contract other = true) ∧
      ∀ key other, right_fields.lookup key = some other → key ∉ right_optional →
        (∃ contract, left_fields.lookup key = some contract) ∧ key ∉ left_optional := by
  rw [is_inside, Bool.and_eq_true, List.all_eq_true, List.all_eq_true]
  refine and_congr ⟨fun h key contract hcontract => ?_, fun h => ?_⟩ ⟨fun h key other hother hrequired => ?_, fun h => ?_⟩
  · have hfield := h ⟨_, mem_of_lookup hcontract⟩ (List.mem_attach _ _)
    split at hfield
    · cases hfield
    · exact ⟨_, ‹_›, hfield⟩
  · rintro ⟨field, hmem⟩ _
    obtain ⟨other, hother, hinside⟩ := h field.1 field.2 (hleft.lookup_of_mem hmem)
    split
    · simp_all
    · simp_all
  · have hfield := h _ (mem_of_lookup hother)
    simp only [Bool.and_eq_true, Bool.not_eq_true', Bool.and_eq_false_imp, Option.isNone_iff_eq_none,
      Bool.not_eq_false', List.contains_eq_mem, decide_eq_true_eq, decide_eq_false_iff_not] at hfield
    exact ⟨Option.ne_none_iff_exists'.mp fun hnone => hrequired (hfield.1 hnone), hfield.2 hrequired⟩
  · intro field hmem
    simp only [Bool.and_eq_true, Bool.not_eq_true', Bool.and_eq_false_imp, Option.isNone_iff_eq_none,
      Bool.not_eq_false', List.contains_eq_mem, decide_eq_true_eq, decide_eq_false_iff_not]
    have hfield := h field.1 field.2 (hright.lookup_of_mem hmem)
    refine ⟨fun hnone => ?_, fun hrequired => (hfield hrequired).2⟩
    by_contra hrequired
    obtain ⟨contract, hcontract⟩ := (hfield hrequired).1
    rw [hnone] at hcontract
    cases hcontract

/-- Only the contract of all values is around it. -/
theorem eq_any_of_is_inside (hfree : union_free contract = true)
    (h : is_inside .Any contract = true) : contract = .Any := by
  cases contract <;> first | rfl | (simp [is_inside] at h; done) | simp [union_free] at hfree

/-- The same keys, and under each key contracts that are the same, make the same fields. -/
theorem fields_eq_of_inside {left_fields right_fields : ContractFields} (hleft : Ascending left_fields)
    (hright : Ascending right_fields)
    (h : ∀ key contract, left_fields.lookup key = some contract → right_fields.lookup key = some contract)
    (h' : ∀ key contract, right_fields.lookup key = some contract → left_fields.lookup key = some contract) :
    left_fields = right_fields := by
  refine hleft.ext hright fun key => ?_
  cases hcontract : left_fields.lookup key with
  | some contract => exact (h key contract hcontract).symm
  | none =>
    cases hother : right_fields.lookup key with
    | none => rfl
    | some other =>
      rw [h' key other hother] at hcontract
      cases hcontract

variable {left right : Contract}

/-- Contracts without unions that are inside each other are the same. -/
theorem is_inside_antisymm (hleft : left.Valid) (hright : right.Valid)
    (hleft_free : union_free left = true) (hright_free : union_free right = true)
    (h : is_inside left right = true) (h' : is_inside right left = true) : left = right := by
  fun_induction is_inside left right with
  | case1 left => exact eq_any_of_is_inside hleft_free h'
  | case2 => simp [union_free] at hleft_free
  | case3 => simp [union_free] at hright_free
  | case4 | case5 | case6 => rfl
  | case7 left_min left_max right_min right_max =>
    rw [is_inside] at h'
    obtain ⟨rfl, rfl⟩ := bounds_eq_of_inside (fun _ _ => Int64.toInt_inj.mp) h h'
    rfl
  | case8 left_min left_max right_min right_max =>
    rw [is_inside] at h'
    obtain ⟨rfl, rfl⟩ := bounds_eq_of_inside units_injective h h'
    rfl
  | case9 left_min left_max right_min right_max | case10 left_min left_max right_min right_max =>
    rw [is_inside] at h'
    obtain ⟨rfl, rfl⟩ := bounds_eq_of_inside (fun _ _ => UInt32.toNat_inj.mp) h h'
    rfl
  | case11 left right =>
    rw [is_inside] at h'
    cases left <;> cases right <;> simp_all
  | case12 left right => rw [eq_of_beq h]
  | case13 left_items left_min left_max right_items right_min right_max ih =>
    rw [is_inside] at h'
    obtain ⟨hbounds, hitems⟩ := Bool.and_eq_true_iff.mp h
    obtain ⟨hbounds', hitems'⟩ := Bool.and_eq_true_iff.mp h'
    obtain ⟨rfl, rfl⟩ := bounds_eq_of_inside (fun _ _ => UInt32.toNat_inj.mp) hbounds hbounds'
    rw [ih hleft.array hright.array (union_free_array hleft_free) (union_free_array hright_free) hitems hitems']
  | case14 left_fields left_optional right_fields right_optional ih =>
    obtain ⟨hleft_fields, hleft_optional, hleft_known, hleft_parts⟩ := valid_object hleft
    obtain ⟨hright_fields, hright_optional, hright_known, hright_parts⟩ := valid_object hright
    obtain ⟨hknown, hneeded⟩ := (is_inside_object_iff hleft_fields hright_fields).mp (by rw [is_inside]; exact h)
    obtain ⟨hknown', hneeded'⟩ := (is_inside_object_iff hright_fields hleft_fields).mp h'
    have hsame (key : String) {contract other : Contract} (hcontract : left_fields.lookup key = some contract)
        (hother : right_fields.lookup key = some other) : contract = other := by
      obtain ⟨_, heq, hinside⟩ := hknown key contract hcontract
      obtain ⟨_, heq', hinside'⟩ := hknown' key other hother
      rw [hother] at heq
      rw [hcontract] at heq'
      cases heq
      cases heq'
      exact ih ⟨_, mem_of_lookup hcontract⟩ other hother (hleft_parts _ (mem_of_lookup hcontract))
        (hright_parts _ (mem_of_lookup hother)) (union_free_field hleft_free hcontract)
        (union_free_field hright_free hother) hinside hinside'
    have hfields : left_fields = right_fields := by
      refine fields_eq_of_inside hleft_fields hright_fields (fun key contract hcontract => ?_)
        fun key other hother => ?_
      · obtain ⟨other, hother, _⟩ := hknown key contract hcontract
        rw [hother, hsame key hcontract hother]
      · obtain ⟨contract, hcontract, _⟩ := hknown' key other hother
        rw [hcontract, hsame key hcontract hother]
    have hoptional : left_optional = right_optional := by
      have hkeys (key : String) : key ∈ left_optional ↔ key ∈ right_optional := by
        constructor
        · intro hkey
          obtain ⟨contract, hcontract⟩ := hleft_known key hkey
          by_contra hrequired
          exact (hneeded key contract (hfields ▸ hcontract) hrequired).2 hkey
        · intro hkey
          obtain ⟨contract, hcontract⟩ := hright_known key hkey
          by_contra hrequired
          exact (hneeded' key contract (hfields ▸ hcontract) hrequired).2 hkey
      have hperm := (List.perm_ext_iff_of_nodup (hleft_optional.imp LT.lt.ne) (hright_optional.imp LT.lt.ne)).mpr hkeys
      exact hperm.eq_of_pairwise (fun _ _ _ _ hlt hgt => absurd hlt hgt.not_gt) hleft_optional hright_optional
    rw [hfields, hoptional]
  | case15 => cases h

/-- The items of an array that is read are read. -/
theorem reads_item {items : Contract} {minimum maximum : Option UInt32}
    (hvalid : (Contract.Array items minimum maximum).Valid) {stored : CanonicalValue}
    (h : (Contract.Array items minimum maximum).Reads stored) {value : CanonicalValue}
    (hmem : value ∈ stored_items stored) : items.Reads value := by
  cases stored with
  | Array values => exact ((reads_array_iff hvalid.array).mp h).2 value hmem
  | _ => cases hmem

/-- The fields of an object that is read are read. -/
theorem reads_fields {fields : ContractFields} {optional : List String}
    (hvalid : (Contract.Object fields optional).Valid) {stored : CanonicalValue}
    (h : (Contract.Object fields optional).Reads stored) (key : String) :
    ∃ viewed, ViewedField (fields.lookup key) (key ∈ optional) ((stored_fields stored).lookup key) viewed := by
  cases stored with
  | Object values => exact (reads_object_iff (valid_object hvalid).1).mp h key
  | _ =>
    obtain ⟨view, hview⟩ := h
    simp [Contract.project_value, Contract.validate_value] at hview

/-- A field merged under one contract is still read under another one that reads what the first one accepts. -/
theorem reads_merged_field {contract other : Option Contract} {optional other_optional : Prop}
    {stored replacement merged : Option CanonicalValue} (h : MergedField contract stored replacement merged)
    (haccepted : AcceptedField contract optional replacement)
    (hread : ∃ viewed, ViewedField other other_optional stored viewed)
    (hrequired : ∀ contract' other', contract = some contract' → other = some other' → optional → other_optional)
    (hnew : ∀ contract' other' next, contract = some contract' → other = some other' → contract'.Accepts next →
      other'.Reads next)
    (hmerged : ∀ contract' other' value next result, contract = some contract' → other = some other' →
      stored = some value → other'.Reads value → contract'.Accepts next →
        contract'.preserve_unknown_fields_at value next = .ok result → other'.Reads result) :
    ∃ viewed, ViewedField other other_optional merged viewed := by
  cases other with
  | none => exact ⟨none, rfl⟩
  | some other =>
    have hreads {value : CanonicalValue} (hvalue : stored = some value) : other.Reads value := by
      subst hvalue
      obtain ⟨_, view, hview, _⟩ := hread
      exact ⟨view, hview⟩
    have hview {value : CanonicalValue} (hvalue : other.Reads value) :
        ∃ viewed, ViewedField (some other) other_optional (some value) viewed := by
      obtain ⟨view, hview⟩ := hvalue
      exact ⟨some view, view, hview, rfl⟩
    cases contract with
    | none =>
      -- A field the writing contract does not know is kept.
      cases replacement with
      | some next => exact haccepted.elim
      | none =>
        cases stored with
        | none => rw [show merged = none from h]; exact hread
        | some value => rw [show merged = some value from h]; exact hview (hreads rfl)
    | some contract =>
      cases replacement with
      | none =>
        have hnone : merged = none := by cases stored <;> exact h
        rw [hnone]
        exact ⟨none, hrequired contract other rfl rfl haccepted, rfl⟩
      | some next =>
        cases stored with
        | none =>
          rw [show merged = some next from h]
          exact hview (hnew contract other next rfl rfl haccepted)
        | some value =>
          obtain ⟨result, hresult, rfl⟩ := h
          exact hview (hmerged contract other value next result rfl rfl rfl (hreads rfl) haccepted hresult)

/-- What is written under a smaller contract over a value that is read is still read. -/
theorem reads_of_preserve_inside {subset superset : Contract} (hsubset : subset.Valid) (hsuperset : superset.Valid)
    (hsubset_free : union_free subset = true) (hsuperset_free : union_free superset = true)
    (h : is_inside subset superset = true) {stored replacement merged : CanonicalValue} (hstored : Ordered stored)
    (hreads : superset.Reads stored) (haccepts : subset.Accepts replacement)
    (hmerged : subset.preserve_unknown_fields_at stored replacement = .ok merged) : superset.Reads merged := by
  have hsuperset_accepts := accepts_of_is_inside h haccepts
  fun_induction is_inside subset superset generalizing stored replacement merged with
  | case1 => exact reads_any merged
  | case2 => simp [union_free] at hsubset_free
  | case3 => simp [union_free] at hsuperset_free
  | case13 left_items left_min left_max right_items right_min right_max ih =>
    obtain ⟨_, hinside⟩ := Bool.and_eq_true_iff.mp h
    obtain ⟨next, rfl, _, hitems⟩ := accepts_array_iff.mp haccepts
    obtain ⟨_, heq, hlength, hother_items⟩ := accepts_array_iff.mp hsuperset_accepts
    obtain rfl := CanonicalValue.Array.inj heq
    refine reads_merged_array hsuperset.array hmerged hlength
      (fun item hmem => reads_of_accepts hsuperset.array (hother_items item hmem)) ?_
    intro value hvalue item hmem result hresult
    exact ih hsubset.array hsuperset.array (union_free_array hsubset_free) (union_free_array hsuperset_free) hinside
      (hstored.item hvalue) (reads_item hsuperset hreads hvalue) (hitems item hmem) hresult (hother_items item hmem)
  | case14 left_fields left_optional right_fields right_optional ih =>
    obtain ⟨hleft_fields, _, hleft_known, hleft_parts⟩ := valid_object hsubset
    obtain ⟨hright_fields, _, _, hright_parts⟩ := valid_object hsuperset
    obtain ⟨hknown, hneeded⟩ := (is_inside_object_iff hleft_fields hright_fields).mp (by rw [is_inside]; exact h)
    obtain ⟨next, rfl, _⟩ := accepts_object_iff.mp haccepts
    obtain ⟨result, rfl, _, hparts⟩ := preserve_object_eq_ok hstored hmerged
    refine (reads_object_iff hright_fields).mpr fun key => ?_
    have hinside {contract other : Contract} (hcontract : left_fields.lookup key = some contract)
        (hother : right_fields.lookup key = some other) : is_inside contract other = true := by
      obtain ⟨_, heq, hinside⟩ := hknown key contract hcontract
      rw [hother] at heq
      rw [Option.some.inj heq]
      exact hinside
    refine reads_merged_field (hparts key) (accepted_fields haccepts key) (reads_fields hsuperset hreads key) ?_ ?_ ?_
    · intro contract other _ hother hoptional
      by_contra hrequired
      exact (hneeded key other hother hrequired).2 hoptional
    · intro contract other next hcontract hother haccepted
      exact reads_of_accepts (hright_parts _ (mem_of_lookup hother))
        (accepts_of_is_inside (hinside hcontract hother) haccepted)
    · intro contract other value next result hcontract hother hvalue hread haccepted hresult
      exact ih ⟨_, mem_of_lookup hcontract⟩ other hother (hleft_parts _ (mem_of_lookup hcontract))
        (hright_parts _ (mem_of_lookup hother)) (union_free_field hsubset_free hcontract)
        (union_free_field hsuperset_free hother) (hinside hcontract hother) (hstored.field hvalue) hread haccepted
        hresult (accepts_of_is_inside (hinside hcontract hother) haccepted)
  | case15 => cases h
  | _ =>
    rw [preserve_scalar rfl] at hmerged
    exact Except.ok.inj hmerged ▸ reads_of_accepts hsuperset hsuperset_accepts

/-- A contract without parts. -/
def is_leaf (contract : Contract) : Prop := contract = .Any ∨ contract.is_scalar = true

/-- How two contracts of one stored document can be related. -/
inductive Coexists : Contract → Contract → Prop
  | leaf {left right : Contract} (hleft : is_leaf left) (hright : is_leaf right)
      (h : ∀ value, left.Accepts value ↔ right.Accepts value) : Coexists left right
  | array {left_items right_items : Contract} {minimum maximum : Option UInt32} (h : Coexists left_items right_items) :
      Coexists (.Array left_items minimum maximum) (.Array right_items minimum maximum)
  | object {left_fields right_fields : ContractFields} {left_optional right_optional : List String}
      (hcommon : ∀ key contract other, left_fields.lookup key = some contract → right_fields.lookup key = some other →
        Coexists contract other)
      (hoptional : ∀ key contract other, left_fields.lookup key = some contract →
        right_fields.lookup key = some other → (key ∈ left_optional ↔ key ∈ right_optional))
      (hleft : ∀ key contract, left_fields.lookup key = some contract → right_fields.lookup key = none →
        key ∈ left_optional)
      (hright : ∀ key other, right_fields.lookup key = some other → left_fields.lookup key = none →
        key ∈ right_optional) :
      Coexists (.Object left_fields left_optional) (.Object right_fields right_optional)
  | union {left right : List Contract} (h : ∀ variant, variant ∈ left ↔ variant ∈ right) :
      Coexists (.Union left) (.Union right)
  | absorbs_left {variants : List Contract} {right : Contract} (hmem : right ∈ variants)
      (hfree : ∀ variant ∈ variants, union_free variant = true)
      (hinside : ∀ variant ∈ variants, is_inside variant right = true) : Coexists (.Union variants) right
  | absorbs_right {variants : List Contract} {left : Contract} (hmem : left ∈ variants)
      (hfree : ∀ variant ∈ variants, union_free variant = true)
      (hinside : ∀ variant ∈ variants, is_inside variant left = true) : Coexists left (.Union variants)

theorem Coexists.symm (h : Coexists left right) : Coexists right left := by
  induction h with
  | leaf hleft hright h => exact .leaf hright hleft fun value => (h value).symm
  | array _ ih => exact .array ih
  | object _ hoptional hleft hright ih =>
    exact .object (fun key contract other hcontract hother => ih key other contract hother hcontract)
      (fun key contract other hcontract hother => (hoptional key other contract hother hcontract).symm) hright hleft
  | union h => exact .union fun variant => (h variant).symm
  | absorbs_left hmem hfree hinside => exact .absorbs_right hmem hfree hinside
  | absorbs_right hmem hfree hinside => exact .absorbs_left hmem hfree hinside

/-- What one side accepts the other one reads. -/
theorem Coexists.reads_of_accepts (h : Coexists left right) (hleft : left.Valid)
    (hright : right.Valid) {value : CanonicalValue} (haccepts : left.Accepts value) : right.Reads value := by
  induction h generalizing value with
  | leaf _ _ h => exact contracts.reads_of_accepts hright ((h value).mp haccepts)
  | array _ ih =>
    obtain ⟨values, rfl, hlength, hitems⟩ := accepts_array_iff.mp haccepts
    exact (reads_array_iff hright.array).mpr
      ⟨hlength, fun item hmem => ih hleft.array hright.array (hitems item hmem)⟩
  | @object left_fields right_fields left_optional right_optional _ hoptional _ hexclusive ih =>
    obtain ⟨values, rfl, _⟩ := accepts_object_iff.mp haccepts
    obtain ⟨hleft_fields, _, _, hleft_parts⟩ := valid_object hleft
    obtain ⟨hright_fields, _, _, hright_parts⟩ := valid_object hright
    refine (reads_object_iff hright_fields).mpr fun key => ?_
    have hfield := accepted_fields haccepts key
    cases hother : right_fields.lookup key with
    | none => exact ⟨none, rfl⟩
    | some other =>
      cases hcontract : left_fields.lookup key with
      | none =>
        rw [hcontract] at hfield
        cases hvalue : values.lookup key with
        | none => exact ⟨none, hexclusive key other hother hcontract, rfl⟩
        | some value => rw [hvalue] at hfield; exact hfield.elim
      | some contract =>
        rw [hcontract] at hfield
        cases hvalue : values.lookup key with
        | none =>
          rw [hvalue] at hfield
          exact ⟨none, (hoptional key contract other hcontract hother).mp hfield, rfl⟩
        | some value =>
          rw [hvalue] at hfield
          obtain ⟨view, hview⟩ := ih key contract other hcontract hother (hleft_parts _ (mem_of_lookup hcontract))
            (hright_parts _ (mem_of_lookup hother)) hfield
          exact ⟨some view, view, hview, rfl⟩
  | union h =>
    obtain ⟨variant, hmem, hvariant⟩ := accepts_union_iff.mp haccepts
    exact contracts.reads_of_accepts hright (accepts_union_iff.mpr ⟨variant, (h variant).mp hmem, hvariant⟩)
  | absorbs_left _ _ hinside =>
    obtain ⟨variant, hmem, hvariant⟩ := accepts_union_iff.mp haccepts
    exact contracts.reads_of_accepts hright (accepts_of_is_inside (hinside variant hmem) hvariant)
  | absorbs_right hmem _ _ =>
    exact contracts.reads_of_accepts hright (accepts_union_iff.mpr ⟨_, hmem, haccepts⟩)

/-- What one side writes over a value that the other one reads is still read by the other one. -/
theorem Coexists.reads_of_preserve (h : Coexists left right) (hleft : left.Valid)
    (hright : right.Valid) {stored replacement merged : CanonicalValue} (hstored : Ordered stored)
    (hreads : right.Reads stored) (haccepts : left.Accepts replacement)
    (hmerged : left.preserve_unknown_fields_at stored replacement = .ok merged) : right.Reads merged := by
  induction h generalizing stored replacement merged with
  | leaf hleaf _ h =>
    have hsame : merged = replacement := by
      rcases hleaf with rfl | hscalar
      · rw [preserve_any] at hmerged
        exact (Except.ok.inj hmerged).symm
      · rw [preserve_scalar hscalar] at hmerged
        exact (Except.ok.inj hmerged).symm
    rw [hsame]
    exact contracts.reads_of_accepts hright ((h replacement).mp haccepts)
  | array hitems ih =>
    obtain ⟨next, rfl, hlength, hparts⟩ := accepts_array_iff.mp haccepts
    refine reads_merged_array hright.array hmerged hlength
      (fun item hmem => hitems.reads_of_accepts hleft.array hright.array (hparts item hmem)) ?_
    intro value hvalue item hmem result hresult
    exact ih hleft.array hright.array (hstored.item hvalue) (reads_item hright hreads hvalue) (hparts item hmem) hresult
  | @object left_fields right_fields left_optional right_optional hcommon hoptional _ _ ih =>
    obtain ⟨hleft_fields, _, _, hleft_parts⟩ := valid_object hleft
    obtain ⟨hright_fields, _, _, hright_parts⟩ := valid_object hright
    obtain ⟨next, rfl, _⟩ := accepts_object_iff.mp haccepts
    obtain ⟨result, rfl, _, hparts⟩ := preserve_object_eq_ok hstored hmerged
    refine (reads_object_iff hright_fields).mpr fun key => ?_
    refine reads_merged_field (hparts key) (accepted_fields haccepts key) (reads_fields hright hreads key) ?_ ?_ ?_
    · intro contract other hcontract hother
      exact (hoptional key contract other hcontract hother).mp
    · intro contract other next hcontract hother
      exact (hcommon key contract other hcontract hother).reads_of_accepts (hleft_parts _ (mem_of_lookup hcontract))
        (hright_parts _ (mem_of_lookup hother))
    · intro contract other value next result hcontract hother hvalue hread haccepted hresult
      exact ih key contract other hcontract hother (hleft_parts _ (mem_of_lookup hcontract))
        (hright_parts _ (mem_of_lookup hother)) (hstored.field hvalue) hread haccepted hresult
  | union h =>
    obtain ⟨variant, hmem, hvariant⟩ := (reads_union_iff hleft).mp
      (contracts.reads_of_preserve hleft hstored haccepts hmerged)
    exact (reads_union_iff hright).mpr ⟨variant, (h variant).mp hmem, hvariant⟩
  | absorbs_left hmem hfree hinside =>
    obtain ⟨before, variant, after, hsplit, hbefore, hvariant⟩ := exists_first (accepts_union_iff.mp haccepts)
    rw [preserve_union_first hsplit hbefore hvariant] at hmerged
    have hvariant_mem := List.mem_append_right before (List.mem_cons_self (a := variant) (l := after))
    rw [← hsplit] at hvariant_mem
    exact reads_of_preserve_inside ((valid_union hleft).2 variant hvariant_mem) hright (hfree variant hvariant_mem)
      (hfree _ hmem) (hinside variant hvariant_mem) hstored hreads hvariant hmerged
  | absorbs_right hmem _ _ =>
    exact (reads_union_iff hright).mpr ⟨_, hmem, contracts.reads_of_preserve hleft hstored haccepts hmerged⟩

/-- Wherever two unions are compared, they have the same variants, or none that contains another union; and wherever a
union is compared with another contract, neither its variants nor that contract contain one. -/
def aligned : Contract → Contract → Bool
  | .Object left_fields _, .Object right_fields _ =>
    left_fields.attach.all fun field =>
      match _hright : right_fields.lookup field.1.1 with
      | some other => aligned field.1.2 other
      | none => true
  | .Array left_items _ _, .Array right_items _ _ => aligned left_items right_items
  | .Union left, .Union right =>
    left.all (· ∈ right) && right.all (· ∈ left) || left.all union_free && right.all union_free
  | .Union variants, other => variants.all union_free && union_free other
  | contract, .Union variants => union_free contract && variants.all union_free
  | _, _ => true
termination_by left right => sizeOf left + sizeOf right
decreasing_by
  · obtain ⟨⟨name, contract⟩, hmem⟩ := field
    have := sizeOf_lt_of_mem_fields hmem
    have := sizeOf_lt_of_lookup _hright
    simp
    omega
  · simp
    omega

/-- Unions without inner unions coexist when they have the same variants. -/
theorem mem_iff_of_matched {left right : List Contract} (hleft : (Contract.Union left).Valid)
    (hright : (Contract.Union right).Valid) (hleft_free : left.all union_free = true)
    (hright_free : right.all union_free = true) (hlength : left.length = right.length)
    (h : ∀ variant ∈ left, ∃ other ∈ right, is_inside variant other = true ∧ is_inside other variant = true)
    (variant : Contract) : variant ∈ left ↔ variant ∈ right := by
  obtain ⟨hnodup, hleft_parts⟩ := valid_union hleft
  obtain ⟨_, hright_parts⟩ := valid_union hright
  have hsubset : left ⊆ right := by
    intro variant hmem
    obtain ⟨other, hother, hinside, hinside'⟩ := h variant hmem
    rw [is_inside_antisymm (hleft_parts variant hmem) (hright_parts other hother)
      (List.all_eq_true.mp hleft_free variant hmem) (List.all_eq_true.mp hright_free other hother) hinside hinside']
    exact hother
  exact ((hnodup.subperm hsubset).perm_of_length_le hlength.ge).mem_iff

/-- A union that is inside a contract and around it has it as a variant. -/
theorem mem_of_absorbed {variants : List Contract} (hvariants : (Contract.Union variants).Valid)
    (hcontract : contract.Valid) (hvariants_free : variants.all union_free = true) (hfree : union_free contract = true)
    (hinside : is_inside (.Union variants) contract = true) (haround : is_inside contract (.Union variants) = true) :
    contract ∈ variants ∧ ∀ variant ∈ variants, is_inside variant contract = true := by
  have hvariant : ∀ variant ∈ variants, is_inside variant contract = true := by
    intro variant hmem
    by_cases hany : contract = .Any
    · rw [hany, is_inside]
    · rw [is_inside] at hinside
      · exact List.all_eq_true.mp hinside ⟨variant, hmem⟩ (List.mem_attach _ _)
      · exact hany
  rw [is_inside] at haround
  · obtain ⟨variant, _, hother⟩ := List.any_eq_true.mp haround
    have hsame := is_inside_antisymm hcontract ((valid_union hvariants).2 variant.1 variant.2) hfree
      (List.all_eq_true.mp hvariants_free _ variant.2) hother (hvariant variant.1 variant.2)
    exact ⟨hsame ▸ variant.2, hvariant⟩
  · rintro parts rfl
    simp [union_free] at hfree

/-- What is around a contract and inside it, both without parts or unions, is without parts as well. -/
theorem is_leaf_of_inside (hleft : ∀ variants, left ≠ .Union variants) (hright : ∀ variants, right ≠ .Union variants)
    (hobjects : ∀ fields optional fields' optional', left = .Object fields optional → right ≠ .Object fields' optional')
    (harrays : ∀ items minimum maximum items' minimum' maximum', left = .Array items minimum maximum →
      right ≠ .Array items' minimum' maximum')
    (h : is_inside left right = true) (h' : is_inside right left = true) : is_leaf left := by
  cases left with
  | Any => exact .inl rfl
  | Object fields optional =>
    cases right with
    | Object fields' optional' => exact absurd rfl (hobjects _ _ _ _ rfl)
    | Union variants => exact absurd rfl (hright variants)
    | Any => simp [is_inside] at h'
    | _ => simp [is_inside] at h
  | Array items minimum maximum =>
    cases right with
    | Array items' minimum' maximum' => exact absurd rfl (harrays _ _ _ _ _ _ rfl)
    | Union variants => exact absurd rfl (hright variants)
    | Any => simp [is_inside] at h'
    | _ => simp [is_inside] at h
  | Union variants => exact absurd rfl (hleft variants)
  | _ => exact .inr rfl

/-- What the check accepts of aligned contracts coexists. -/
theorem coexists_of_may_coexist (hleft : left.Valid) (hright : right.Valid)
    (haligned : aligned left right = true) (h : may_coexist left right = true) : Coexists left right := by
  fun_induction may_coexist left right with
  | case1 left_fields left_optional right_fields right_optional ih =>
    obtain ⟨hleft_fields, _, _, hleft_parts⟩ := valid_object hleft
    obtain ⟨hright_fields, _, _, hright_parts⟩ := valid_object hright
    obtain ⟨hknown, hexclusive⟩ := Bool.and_eq_true_iff.mp h
    have hcommon (key : String) {contract other : Contract} (hcontract : left_fields.lookup key = some contract)
        (hother : right_fields.lookup key = some other) :
        (key ∈ left_optional ↔ key ∈ right_optional) ∧ may_coexist contract other = true := by
      have hfield := List.all_eq_true.mp hknown ⟨_, mem_of_lookup hcontract⟩ (List.mem_attach _ _)
      split at hfield
      · rename_i other' hother'
        rw [hother] at hother'
        cases hother'
        simpa [and_comm] using hfield
      · rename_i hnone
        rw [hnone] at hother
        cases hother
    refine .object (fun key contract other hcontract hother => ?_)
      (fun key contract other hcontract hother => (hcommon key hcontract hother).1) (fun key contract hcontract hnone => ?_)
      fun key other hother hnone => ?_
    · refine ih ⟨_, mem_of_lookup hcontract⟩ other hother (hleft_parts _ (mem_of_lookup hcontract))
        (hright_parts _ (mem_of_lookup hother)) ?_ (hcommon key hcontract hother).2
      rw [aligned] at haligned
      have hfield := List.all_eq_true.mp haligned ⟨_, mem_of_lookup hcontract⟩ (List.mem_attach _ _)
      split at hfield
      · rename_i other' hother'
        rw [hother] at hother'
        rw [Option.some.inj hother']
        exact hfield
      · rename_i hnone
        rw [hnone] at hother
        cases hother
    · have hfield := List.all_eq_true.mp hknown ⟨_, mem_of_lookup hcontract⟩ (List.mem_attach _ _)
      split at hfield
      · rename_i hother
        rw [hnone] at hother
        cases hother
      · simpa using hfield
    · have hfield := List.all_eq_true.mp hexclusive _ (mem_of_lookup hother)
      simpa [hnone] using hfield
  | case2 left_items left_minimum left_maximum right_items right_minimum right_maximum ih =>
    simp only [Bool.and_eq_true, beq_iff_eq] at h
    obtain ⟨⟨rfl, rfl⟩, hitems⟩ := h
    rw [aligned] at haligned
    exact .array (ih hleft.array hright.array haligned hitems)
  | case3 left right =>
    rw [aligned, Bool.or_eq_true, Bool.and_eq_true, Bool.and_eq_true] at haligned
    simp only [Bool.and_eq_true, beq_iff_eq, List.all_eq_true, List.any_eq_true] at h
    rcases haligned with ⟨hsubset, hsuperset⟩ | hfree
    · refine .union fun variant => ⟨fun hmem => ?_, fun hmem => ?_⟩
      · exact of_decide_eq_true (List.all_eq_true.mp hsubset variant hmem)
      · exact of_decide_eq_true (List.all_eq_true.mp hsuperset variant hmem)
    · exact .union (mem_iff_of_matched hleft hright hfree.1 hfree.2 h.1 h.2)
  | case4 left right hobjects harrays hunions =>
    obtain ⟨hinside, haround⟩ := Bool.and_eq_true_iff.mp h
    by_cases hleft_union : ∃ variants, left = .Union variants
    · obtain ⟨variants, rfl⟩ := hleft_union
      have hfree : variants.all union_free = true ∧ union_free right = true := by
        rw [aligned] at haligned
        · exact Bool.and_eq_true_iff.mp haligned
        · exact fun variants' => hunions variants variants' rfl
      obtain ⟨hmem, hvariants⟩ := mem_of_absorbed hleft hright hfree.1 hfree.2 hinside haround
      exact .absorbs_left hmem (List.all_eq_true.mp hfree.1) hvariants
    · have hleft_other : ∀ variants, left ≠ .Union variants := fun variants heq => hleft_union ⟨variants, heq⟩
      by_cases hright_union : ∃ variants, right = .Union variants
      · obtain ⟨variants, rfl⟩ := hright_union
        have hfree : union_free left = true ∧ variants.all union_free = true := by
          rw [aligned] at haligned
          · exact Bool.and_eq_true_iff.mp haligned
          · exact fun variants' => hleft_other variants'
        obtain ⟨hmem, hvariants⟩ := mem_of_absorbed hright hleft hfree.2 hfree.1 haround hinside
        exact .absorbs_right hmem (List.all_eq_true.mp hfree.2) hvariants
      · have hright_other : ∀ variants, right ≠ .Union variants := fun variants heq => hright_union ⟨variants, heq⟩
        refine .leaf ?_ ?_ fun value => ⟨accepts_of_is_inside hinside, accepts_of_is_inside haround⟩
        · exact is_leaf_of_inside hleft_other hright_other (fun _ _ _ _ hl hr => hobjects _ _ _ _ hl hr)
            (fun _ _ _ _ _ _ hl hr => harrays _ _ _ _ _ _ hl hr) hinside haround
        · exact is_leaf_of_inside hright_other hleft_other (fun _ _ _ _ hl hr => hobjects _ _ _ _ hr hl)
            (fun _ _ _ _ _ _ hl hr => harrays _ _ _ _ _ _ hr hl) haround hinside

/-- Within its bound a coexistence check computes the relation. -/
theorem contracts_can_coexist_at_answers (left right : Contract) :
    Answers .LimitExceeded (contracts_can_coexist_at left right) (may_coexist left right) := by
  have hmutual (a b : Contract) :
      Answers .LimitExceeded (do if ← contract_subset a b then contract_subset b a else pure false :
        Metered CompatibilityError Bool) (is_inside a b && is_inside b a) :=
    Answers.bind (Answers.lift (contract_subset_eq a b)) (Answers.lift (contract_subset_eq b a)).and
  fun_induction may_coexist left right with
  | case1 left_fields left_optional right_fields right_optional ih =>
    rw [contracts_can_coexist_at]
    refine Answers.tick (Answers.bind (Answers.allM fun field _ => ?_) (Answers.pure _).and)
    split
    · exact (ih field _ ‹_›).guard
    · exact Answers.pure _
  | case2 left_items left_minimum left_maximum right_items right_minimum right_maximum ih =>
    rw [contracts_can_coexist_at]
    exact Answers.tick ih.and
  | case3 left right =>
    rw [contracts_can_coexist_at]
    exact Answers.tick (Answers.allM fun variant _ => Answers.anyM fun other _ => hmutual variant other).guard
  | case4 left right hobjects harrays hunions =>
    rw [contracts_can_coexist_at]
    · exact Answers.tick (hmutual left right)
    · exact hobjects
    · exact harrays
    · exact hunions

theorem may_coexist_of_ok (h : contracts_can_coexist left right = .ok true) : may_coexist left right = true := by
  unfold contracts_can_coexist at h
  rcases contracts_can_coexist_at_answers left right 0 with hfail | ⟨after, hanswer⟩
  · rw [hfail] at h
    cases h
  · rw [hanswer] at h
    exact Except.ok.inj h

/-- The Release that writes. -/
inductive Side
  | Left
  | Right

/-- A write to one document. -/
inductive Write
  | Insert (side : Side) (value : CanonicalValue)
  | Replace (side : Side) (value : CanonicalValue)

def Write.value : Write → CanonicalValue
  | .Insert _ value | .Replace _ value => value

/-- The contract of the writing side. -/
def written_under (left right : Contract) : Side → Contract
  | .Left => left
  | .Right => right

/-- A write validates its value; a replacement is merged with the document, if there is one. -/
def write (left right : Contract) (document : Option CanonicalValue) : Write → Except ValidationError (Option CanonicalValue)
  | .Insert side value => do
    (written_under left right side).validate_value value
    .ok (some value)
  | .Replace side value =>
    match document with
    | none => .ok none
    | some stored => do .ok (some (← (written_under left right side).preserve_unknown_fields stored value))

/-- The document is a value of the source that both sides read. -/
def ReadByBoth (left right : Contract) (document : Option CanonicalValue) : Prop :=
  ∀ stored, document = some stored → Ordered stored ∧ left.Reads stored ∧ right.Reads stored

/-- A write under one contract of two that coexist leaves a document that both read. -/
theorem reads_of_write {contract other : Contract} (hcoexists : Coexists contract other) (hvalid : contract.Valid)
    (hother : other.Valid) {stored value merged : CanonicalValue} (hstored : Ordered stored) (hvalue : Ordered value)
    (hread : other.Reads stored) (h : contract.preserve_unknown_fields stored value = .ok merged) :
    Ordered merged ∧ contract.Reads merged ∧ other.Reads merged := by
  obtain ⟨haccepts, h⟩ := check_bind_eq_ok_iff.mp h
  exact ⟨ordered_of_preserve hvalid hstored hvalue haccepts h, contracts.reads_of_preserve hvalid hstored haccepts h,
    hcoexists.reads_of_preserve hvalid hother hstored hread haccepts h⟩

/-- One write keeps the document readable to both sides. -/
theorem write_keeps_readable (hcoexists : Coexists left right) (hleft : left.Valid)
    (hright : right.Valid) {document document' : Option CanonicalValue} (hdocument : ReadByBoth left right document)
    {w : Write} (hvalue : Ordered w.value) (h : write left right document w = .ok document') :
    ReadByBoth left right document' := by
  cases w with
  | Insert side value =>
    obtain ⟨haccepts, h⟩ := check_bind_eq_ok_iff.mp h
    cases h
    rintro stored heq
    cases heq
    cases side with
    | Left => exact ⟨hvalue, reads_of_accepts hleft haccepts, hcoexists.reads_of_accepts hleft hright haccepts⟩
    | Right => exact ⟨hvalue, hcoexists.symm.reads_of_accepts hright hleft haccepts, reads_of_accepts hright haccepts⟩
  | Replace side value =>
    cases document with
    | none =>
      cases h
      exact hdocument
    | some stored =>
      obtain ⟨hstored, hleft_reads, hright_reads⟩ := hdocument stored rfl
      obtain ⟨merged, hmerged, h⟩ := bind_eq_ok_iff.mp h
      cases h
      rintro result heq
      cases heq
      cases side with
      | Left => exact reads_of_write hcoexists hleft hright hstored hvalue hright_reads hmerged
      | Right =>
        obtain ⟨hordered, hreads, hreads'⟩ :=
          reads_of_write hcoexists.symm hright hleft hstored hvalue hleft_reads hmerged
        exact ⟨hordered, hreads', hreads⟩

/-- A history of writes keeps the document readable to both sides. -/
theorem writes_keep_readable (hcoexists : Coexists left right) (hleft : left.Valid)
    (hright : right.Valid) {document document' : Option CanonicalValue} (hdocument : ReadByBoth left right document)
    {writes : List Write} (hvalues : ∀ w ∈ writes, Ordered w.value)
    (h : writes.foldlM (write left right) document = .ok document') : ReadByBoth left right document' := by
  induction writes generalizing document with
  | nil => exact Except.ok.inj h ▸ hdocument
  | cons w writes ih =>
    rw [List.foldlM_cons] at h
    obtain ⟨next, hnext, h⟩ := bind_eq_ok_iff.mp h
    obtain ⟨hvalue, hvalues⟩ := List.forall_mem_cons.mp hvalues
    exact ih (write_keeps_readable hcoexists hleft hright hdocument hvalue hnext) hvalues h

/-- Two contracts that may coexist, and whose unions have the same variants or contain no other union, never make a
document unreadable to each other. -/
theorem coexistence_is_safe (left right : Definition)
    (hcoexist : contracts_can_coexist left.contract right.contract = .ok true)
    (haligned : aligned left.contract right.contract = true) {writes : List Write}
    (hvalues : ∀ w ∈ writes, Ordered w.value) {stored : CanonicalValue}
    (hrun : writes.foldlM (write left.contract right.contract) none = .ok (some stored)) :
    (∃ view, left.contract.project_value stored = .ok view) ∧ ∃ view, right.contract.project_value stored = .ok view := by
  have hcoexists := coexists_of_may_coexist left.is_valid right.is_valid haligned (may_coexist_of_ok hcoexist)
  exact (writes_keep_readable hcoexists left.is_valid right.is_valid (fun _ h => by cases h) hvalues hrun stored
    rfl).2

/-- Two variants of the left side both match the first variant of the right side, so nothing is compared with the
text on the right. -/
theorem text_unreadable_on_the_left : ∃ (left right : Definition) (writes : List Write) (stored : CanonicalValue),
      contracts_can_coexist left.contract right.contract = .ok true ∧ (∀ w ∈ writes, Ordered w.value) ∧
        writes.foldlM (write left.contract right.contract) none = .ok (some stored) ∧
          left.contract.project_value stored = .error .UnionMismatch := by
  refine ⟨⟨.Union [.Union [.Null, .Boolean], .Union [.Boolean, .Null]], by decide +kernel, by decide +kernel⟩,
    ⟨.Union [.Union [.Null, .Boolean], .String none none], by decide +kernel, by decide +kernel⟩,
    [.Insert .Right (.String "text")], .String "text", by decide +kernel, ?_, by decide +kernel, by decide +kernel⟩
  intro w hmem
  obtain rfl := List.mem_singleton.mp hmem
  exact .intro trivial nofun

/-- A null, or in another union a null or a truth value. -/
def note_contract : Contract := .Union [.Null, .Union [.Null, .Boolean]]

/-- A field that only one side knows survives a write of the other side, beside a union that has a union inside. -/
theorem tagged_note_readable : (∃ view, (Contract.Object [("note", note_contract)] []).project_value
      (.Object [("note", .Null), ("tag", .Boolean true)]) = .ok view) ∧
    ∃ view, (Contract.Object [("note", note_contract), ("tag", .Boolean)] ["tag"]).project_value
      (.Object [("note", .Null), ("tag", .Boolean true)]) = .ok view := by
  refine @coexistence_is_safe ⟨.Object [("note", note_contract)] [], by decide +kernel, by decide +kernel⟩
    ⟨.Object [("note", note_contract), ("tag", .Boolean)] ["tag"], by decide +kernel, by decide +kernel⟩ (by decide +kernel)
    (by decide +kernel) [.Insert .Right (.Object [("note", .Null), ("tag", .Boolean true)]),
      .Replace .Left (.Object [("note", .Null)])] ?_ _ (by decide +kernel)
  have hleaf {value : CanonicalValue} (hitems : value.items = []) (hnode : InKeyOrder value) : Ordered value :=
    .intro hnode fun item hitem => by rw [hitems] at hitem; cases hitem
  intro w hmem
  rcases List.mem_pair.mp hmem with rfl | rfl
  · refine .intro (show assoc_list.Ascending _ by decide +kernel) fun item hitem => ?_
    rcases List.mem_pair.mp hitem with rfl | rfl <;> exact hleaf rfl trivial
  · refine .intro (List.pairwise_singleton _ _) fun item hitem => ?_
    obtain rfl := List.mem_singleton.mp hitem
    exact hleaf rfl trivial

end runku.compatibility
