import Runku.Compatibility.Engine
import Runku.Contracts.View

namespace runku.compatibility

open assoc_list fallible metered runku.contracts runku.releases runku.value

section Bounds

variable {T : Type} [LinearOrder T] {value : T} {left_min left_max right_min right_max : Option T}

theorem validate_value_bounds_eq_ok_iff {minimum maximum : Option T} :
    validate_value_bounds value minimum maximum = .ok () ↔
      (∀ low, minimum = some low → low ≤ value) ∧ ∀ high, maximum = some high → value ≤ high := by
  cases minimum <;> cases maximum <;> simp [validate_value_bounds]

theorem validate_value_bounds_of_inside (hinside : bounds_inside left_min left_max right_min right_max = true)
    (h : validate_value_bounds value left_min left_max = .ok ()) :
    validate_value_bounds value right_min right_max = .ok () := by
  rw [validate_value_bounds_eq_ok_iff] at h ⊢
  obtain ⟨hlow, hhigh⟩ := h
  obtain ⟨hlower, hupper⟩ := Bool.and_eq_true_iff.mp hinside
  constructor
  · rintro low rfl
    cases left_min with
    | none => cases hlower
    | some left => exact (of_decide_eq_true hlower).trans (hlow left rfl)
  · rintro high rfl
    cases left_max with
    | none => cases hupper
    | some left => exact (hhigh left rfl).trans (of_decide_eq_true hupper)

theorem bounds_inside_self (minimum maximum : Option T) : bounds_inside minimum maximum minimum maximum = true := by
  cases minimum <;> cases maximum <;> simp [bounds_inside, lower_inside, upper_inside]

end Bounds

/-- A contract accepts what is accepted inside it. -/
theorem accepts_of_is_inside {subset superset : Contract} (h : is_inside subset superset = true) {value : CanonicalValue}
    (haccepts : subset.Accepts value) : superset.Accepts value := by
  fun_induction is_inside subset superset generalizing value with
  | case1 => exact accepts_any value
  | case2 variants superset _ ih =>
    obtain ⟨variant, hmem, hvariant⟩ := accepts_union_iff.mp haccepts
    exact ih ⟨variant, hmem⟩ (List.all_eq_true.mp h _ (List.mem_attach _ _)) hvariant
  | case3 subset variants _ ih =>
    obtain ⟨variant, _, hvariant⟩ := List.any_eq_true.mp h
    exact accepts_union_iff.mpr ⟨variant.1, variant.2, ih variant hvariant haccepts⟩
  | case4 | case5 | case6 => exact haccepts
  | case7 left_min left_max right_min right_max | case8 left_min left_max right_min right_max
  | case9 left_min left_max right_min right_max | case10 left_min left_max right_min right_max =>
    rw [Contract.Accepts, Contract.validate_value.eq_def] at haccepts ⊢
    cases value <;> first | cases haccepts | exact validate_value_bounds_of_inside h haccepts
  | case11 left right =>
    cases right with
    | some right =>
      rw [eq_of_beq h] at haccepts
      exact haccepts
    | none =>
      rw [Contract.Accepts, Contract.validate_value.eq_def] at haccepts ⊢
      cases value <;> first | cases haccepts | rfl
  | case12 left right =>
    rw [eq_of_beq h] at haccepts
    exact haccepts
  | case13 left_items left_min left_max right_items right_min right_max ih =>
    obtain ⟨hbounds, hitems⟩ := Bool.and_eq_true_iff.mp h
    obtain ⟨values, rfl, hlength, hall⟩ := accepts_array_iff.mp haccepts
    exact accepts_array_iff.mpr
      ⟨values, rfl, validate_value_bounds_of_inside hbounds hlength, fun item hmem => ih hitems (hall item hmem)⟩
  | case14 left_fields left_optional right_fields right_optional ih =>
    obtain ⟨values, rfl, hall, hrequired⟩ := accepts_object_iff.mp haccepts
    obtain ⟨hknown, hneeded⟩ := Bool.and_eq_true_iff.mp h
    refine accepts_object_iff.mpr ⟨values, rfl, fun field hmem => ?_, fun field hmem => ?_⟩
    · obtain ⟨contract, hcontract, hfield⟩ := hall field hmem
      have hinside := List.all_eq_true.mp hknown ⟨_, mem_of_lookup hcontract⟩ (List.mem_attach _ _)
      split at hinside
      · cases hinside
      · rename_i right hright
        exact ⟨right, hright, ih ⟨_, mem_of_lookup hcontract⟩ right hright hinside hfield⟩
    · have hfield := List.all_eq_true.mp hneeded field hmem
      simp only [Bool.and_eq_true, Bool.not_eq_true', Bool.and_eq_false_imp, Option.isNone_iff_eq_none,
        Bool.not_eq_false', List.contains_eq_mem, decide_eq_true_eq, decide_eq_false_iff_not] at hfield
      -- A field the right side requires is a required field of the left side.
      by_cases hoptional : field.1 ∈ right_optional
      · exact .inl hoptional
      · obtain ⟨contract, hcontract⟩ := Option.ne_none_iff_exists'.mp fun hnone => hoptional (hfield.1 hnone)
        exact .inr ((hrequired _ (mem_of_lookup hcontract)).resolve_left (hfield.2 hoptional))
  | case15 => cases h

theorem is_inside_union_of_mem {subset variant : Contract} {variants : List Contract}
    (hsubset : ∀ parts, subset ≠ .Union parts) (hmem : variant ∈ variants) (h : is_inside subset variant = true) :
    is_inside subset (.Union variants) = true := by
  rw [is_inside]
  · exact List.any_eq_true.mpr ⟨⟨variant, hmem⟩, List.mem_attach _ _, h⟩
  · exact hsubset

/-- What is inside a variant is inside the union. -/
theorem is_inside_union {subset variant : Contract} {variants : List Contract} (hmem : variant ∈ variants)
    (h : is_inside subset variant = true) : is_inside subset (.Union variants) = true := by
  induction subset using Contract.induction with
  | any | array | object => exact is_inside_union_of_mem (fun _ h => by cases h) hmem h
  | scalar contract hscalar => exact is_inside_union_of_mem (by rintro _ rfl; cases hscalar) hmem h
  | union parts ih =>
    rw [is_inside]
    · refine List.all_eq_true.mpr fun part _ => ih part.1 part.2 ?_
      by_cases hany : variant = .Any
      · rw [hany, is_inside]
      · rw [is_inside] at h
        · exact List.all_eq_true.mp h part (List.mem_attach _ _)
        · exact hany
    · intros
      contradiction

/-- Every valid contract is inside itself. -/
theorem is_inside_self {contract : Contract} (hvalid : contract.Valid) : is_inside contract contract = true := by
  induction contract using Contract.induction with
  | any => rw [is_inside]
  | scalar contract hscalar =>
    cases contract <;> first | (simp [is_inside, bounds_inside_self]; done) | cases hscalar
  | array items minimum maximum ih =>
    rw [is_inside, bounds_inside_self, Bool.true_and]
    exact ih hvalid.array
  | object fields optional ih =>
    obtain ⟨hfields, _, _, hparts⟩ := valid_object hvalid
    rw [is_inside, Bool.and_eq_true]
    refine ⟨List.all_eq_true.mpr ?_, List.all_eq_true.mpr ?_⟩
    · rintro ⟨field, hmem⟩ _
      have hlookup := hfields.lookup_of_mem hmem
      split
      · simp_all
      · rename_i contract hcontract
        rw [hlookup] at hcontract
        rw [← Option.some.inj hcontract]
        exact ih field hmem (hparts field hmem)
    · intro field hmem
      rw [hfields.lookup_of_mem hmem]
      cases optional.contains field.1 <;> rfl
  | union variants ih =>
    rw [is_inside]
    · exact List.all_eq_true.mpr fun variant _ =>
        is_inside_union variant.2 (ih variant.1 variant.2 ((valid_union hvalid).2 _ variant.2))
    · intros
      contradiction

/-- Within its bound a comparison computes the relation. -/
theorem contract_subset_at_answers (subset superset : Contract) :
    Answers .LimitExceeded (contract_subset_at subset superset) (is_inside subset superset) := by
  fun_induction is_inside subset superset with
  | case1 subset =>
    rw [contract_subset_at]
    cases subset <;> exact Answers.tick (Answers.pure true)
  | case2 variants superset hany ih =>
    rw [contract_subset_at]
    · exact Answers.tick (Answers.allM fun variant _ => ih variant)
    · exact hany
  | case3 subset variants hunion ih =>
    rw [contract_subset_at]
    · exact Answers.tick (Answers.anyM fun variant _ => ih variant)
    · exact hunion
  | case13 left_items left_min left_max right_items right_min right_max ih =>
    rw [contract_subset_at]
    exact Answers.tick ih.and
  | case14 left_fields left_optional right_fields right_optional ih =>
    rw [contract_subset_at]
    refine Answers.tick (Answers.bind (Answers.allM fun field _ => ?_) (Answers.pure _).and)
    split
    · exact Answers.pure false
    · exact ih field _ ‹_›
  | case15 =>
    rw [contract_subset_at] <;> first | assumption | exact Answers.tick (Answers.pure false)
  | _ =>
    rw [contract_subset_at]
    exact Answers.tick (Answers.pure _)

/-- A comparison is cut off or answers the relation. -/
theorem contract_subset_eq (subset superset : Contract) : contract_subset subset superset = .error .LimitExceeded ∨
      contract_subset subset superset = .ok (is_inside subset superset) := by
  unfold contract_subset
  rcases contract_subset_at_answers subset superset 0 with hfail | ⟨after, hanswer⟩
  · exact .inl (by rw [hfail]; rfl)
  · exact .inr (by rw [hanswer]; rfl)

theorem contract_subset_eq_ok {subset superset : Contract} {answer : Bool}
    (h : contract_subset subset superset = .ok answer) : is_inside subset superset = answer := by
  rcases contract_subset_eq subset superset with hfail | hanswer
  · rw [hfail] at h
    cases h
  · rw [hanswer] at h
    exact Except.ok.inj h

variable {diagnostics : List CompatibilityDiagnostic}

theorem push_diagnostic_ne_nil {code subject : String} : push_diagnostic diagnostics code subject ≠ .ok [] := by
  intro h
  obtain ⟨_, h⟩ := ite_error_eq_ok_iff.mp h
  simp at h

/-- No diagnostics after a check means none before it, and that it passed. -/
theorem push_unless_eq_nil {condition : Bool} {code subject : String}
    (h : push_unless condition diagnostics code subject = .ok []) : condition = true ∧ diagnostics = [] := by
  unfold push_unless at h
  split at h
  · exact ⟨‹_›, Except.ok.inj h⟩
  · exact absurd h push_diagnostic_ne_nil

/-- The candidate takes every argument that the base took and returns only what the base allowed. -/
def Serves (base candidate : ReleasePackage) (previous : FunctionManifest) : Prop :=
  ∃ next ∈ candidate.manifest.functions, next.name = previous.name ∧
    (∀ value, (resolved_contract base previous.arguments_contract_hash).Accepts value →
      (resolved_contract candidate next.arguments_contract_hash).Accepts value) ∧
    ∀ value, (resolved_contract candidate next.result_contract_hash).Accepts value →
      (resolved_contract base previous.result_contract_hash).Accepts value

variable {base candidate : ReleasePackage}

theorem compare_function_eq_nil
    {previous : FunctionManifest} (h : compare_function base candidate diagnostics previous = .ok []) :
    diagnostics = [] ∧ Serves base candidate previous := by
  unfold compare_function at h
  split at h
  · exact absurd h push_diagnostic_ne_nil
  · rename_i next hnext
    obtain ⟨metadata, hmetadata, h⟩ := bind_eq_ok_iff.mp h
    obtain ⟨arguments, harguments, h⟩ := bind_eq_ok_iff.mp h
    obtain ⟨narrowed, hnarrowed, h⟩ := bind_eq_ok_iff.mp h
    obtain ⟨result, hresult, h⟩ := bind_eq_ok_iff.mp h
    obtain ⟨rfl, rfl⟩ := push_unless_eq_nil h
    obtain ⟨rfl, rfl⟩ := push_unless_eq_nil hnarrowed
    have hname := List.find?_some hnext
    refine ⟨(push_unless_eq_nil hmetadata).2, next, ?_, of_decide_eq_true hname, ?_, ?_⟩
    · exact List.mem_reverse.mp (List.mem_of_find?_eq_some hnext)
    · exact fun value => accepts_of_is_inside (contract_subset_eq_ok harguments)
    · exact fun value => accepts_of_is_inside (contract_subset_eq_ok hresult)

/-- The loop over the functions finds nothing when each of them is served. -/
theorem compare_functions_eq_nil {functions : List FunctionManifest}
    (h : functions.foldlM (compare_function base candidate) diagnostics = .ok []) :
    diagnostics = [] ∧ ∀ previous ∈ functions, Serves base candidate previous := by
  induction functions generalizing diagnostics with
  | nil => exact ⟨Except.ok.inj h, nofun⟩
  | cons previous functions ih =>
    rw [List.foldlM_cons] at h
    obtain ⟨next, hnext, h⟩ := bind_eq_ok_iff.mp h
    obtain ⟨rfl, hrest⟩ := ih h
    obtain ⟨hnil, hserves⟩ := compare_function_eq_nil hnext
    exact ⟨hnil, List.forall_mem_cons.mpr ⟨hserves, hrest⟩⟩

theorem compatible_finish_report (h : (finish_report diagnostics).compatible = true) : diagnostics = [] := by
  have hsorted := (List.dedup_eq_nil _).mp (List.isEmpty_iff.mp h)
  exact ((List.perm_insertionSort _ diagnostics).symm.trans (List.Perm.of_eq hsorted)).eq_nil

/-- A candidate that is reported compatible serves every public function of the base. -/
theorem serves_of_compare_api {report : CompatibilityReport}
    (h : compare_api base candidate = .ok report) (hcompatible : report.compatible = true)
    {previous : FunctionManifest} (hmem : previous ∈ base.manifest.functions) (hpublic : previous.visibility = .Public) :
    Serves base candidate previous := by
  unfold compare_api at h
  obtain ⟨_, h⟩ := check_bind_eq_ok_iff.mp h
  obtain ⟨diagnostics, hdiagnostics, h⟩ := bind_eq_ok_iff.mp h
  cases h
  obtain rfl := compatible_finish_report hcompatible
  exact (compare_functions_eq_nil hdiagnostics).2 previous
    (List.mem_filter.mpr ⟨hmem, decide_eq_true hpublic⟩)

/-- A contract inside another one accepts no more values, every contract is inside itself unless the comparison is
cut off, and a compatible candidate takes the arguments of the base and returns what the base allowed. -/
theorem subset_checking_sound : (∀ a b : Definition, contract_is_subset a.contract b.contract = .ok true →
      ∀ value, a.contract.validate_value value = .ok () → b.contract.validate_value value = .ok ()) ∧
    (∀ a : Definition, contract_is_subset a.contract a.contract ≠ .error .LimitExceeded →
      contract_is_subset a.contract a.contract = .ok true) ∧
    ∀ base candidate report, compare_api base candidate = .ok report → report.compatible = true →
      ∀ previous ∈ base.manifest.functions, previous.visibility = .Public →
        ∃ next ∈ candidate.manifest.functions, next.name = previous.name ∧
          (∀ value, (resolved_contract base previous.arguments_contract_hash).validate_value value = .ok () →
            (resolved_contract candidate next.arguments_contract_hash).validate_value value = .ok ()) ∧
          ∀ value, (resolved_contract candidate next.result_contract_hash).validate_value value = .ok () →
            (resolved_contract base previous.result_contract_hash).validate_value value = .ok () := by
  refine ⟨fun a b h value haccepts => ?_, fun a hlimit => ?_, ?_⟩
  · exact accepts_of_is_inside (contract_subset_eq_ok h) haccepts
  · have hanswer := (contract_subset_eq a.contract a.contract).resolve_left hlimit
    rw [is_inside_self a.is_valid] at hanswer
    exact hanswer
  · intro base candidate report h hcompatible previous hmem hpublic
    exact serves_of_compare_api h hcompatible hmem hpublic

/-- Counts up to ten are counts. -/
theorem small_count_accepted : (Contract.Union [.Null, .Int64 none none]).validate_value (.Int64 7) = .ok () :=
  subset_checking_sound.1 ⟨.Int64 (some 0) (some 10), by decide +kernel, by decide +kernel⟩
    ⟨.Union [.Null, .Int64 none none], by decide +kernel, by decide +kernel⟩ (by decide +kernel) (.Int64 7)
    (by decide +kernel)

end runku.compatibility
