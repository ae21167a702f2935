import Runku.Contracts.Contract
import Runku.Lib.Metered
import Runku.Releases.Manifest

/-! `runku-compatibility/src/lib.rs`. The comparisons count their steps. -/

namespace runku.compatibility

open runku.contracts runku.core runku.releases metered
open runku.data (Sha256Digest)

def MAX_RELATION_STEPS : Nat := 200000

def MAX_DIAGNOSTICS : Nat := 4096

/-- The errors of a comparison. -/
inductive CompatibilityError
  | InvalidRelease
  | LimitExceeded
  deriving DecidableEq

section Bounds

variable {T : Type} [LinearOrder T]

def lower_inside : Option T → Option T → Bool
  | _, none => true
  | some left, some right => left ≥ right
  | none, some _ => false

def upper_inside : Option T → Option T → Bool
  | _, none => true
  | some left, some right => left ≤ right
  | none, some _ => false

/-- Both bounds of a range inside those of another one. -/
def bounds_inside (left_min left_max right_min right_max : Option T) : Bool :=
  lower_inside left_min right_min && upper_inside left_max right_max

end Bounds

/-- Every value the first contract accepts is accepted by the second. For unions this is conservative: each
variant is compared with one variant of the other side. -/
def contract_subset_at (subset superset : Contract) : Metered CompatibilityError Bool := do
  tick MAX_RELATION_STEPS .LimitExceeded
  match subset, superset with
  | _, .Any => pure true
  | .Union variants, superset => variants.attach.allM fun variant => contract_subset_at variant.1 superset
  | subset, .Union variants => variants.attach.anyM fun variant => contract_subset_at subset variant.1
  | .Null, .Null | .Boolean, .Boolean | .Timestamp, .Timestamp => pure true
  | .Int64 left_min left_max, .Int64 right_min right_max =>
    pure (bounds_inside (left_min.map (·.toInt)) (left_max.map (·.toInt)) (right_min.map (·.toInt))
      (right_max.map (·.toInt)))
  | .Float64 left_min left_max, .Float64 right_min right_max =>
    pure (bounds_inside (left_min.map (·.units)) (left_max.map (·.units)) (right_min.map (·.units))
      (right_max.map (·.units)))
  | .String left_min left_max, .String right_min right_max
  | .Bytes left_min left_max, .Bytes right_min right_max =>
    pure (bounds_inside (left_min.map (·.toNat)) (left_max.map (·.toNat)) (right_min.map (·.toNat))
      (right_max.map (·.toNat)))
  | .TypedId left, .TypedId right => pure (right.isNone || left == right)
  | .DocumentId left, .DocumentId right => pure (left == right)
  | .Array left_items left_min left_max, .Array right_items right_min right_max =>
    if bounds_inside (left_min.map (·.toNat)) (left_max.map (·.toNat)) (right_min.map (·.toNat))
        (right_max.map (·.toNat)) then
      contract_subset_at left_items right_items
    else pure false
  | .Object left_fields left_optional, .Object right_fields right_optional => do
    let fields_inside ← left_fields.attach.allM fun field =>
      match _hright : right_fields.lookup field.1.1 with
      | none => pure false
      | some right_contract => contract_subset_at field.1.2 right_contract
    if fields_inside then
      pure (right_fields.all fun field =>
        !((left_fields.lookup field.1).isNone && !right_optional.contains field.1) &&
          !(!right_optional.contains field.1 && left_optional.contains field.1))
    else pure false
  | _, _ => pure false
termination_by sizeOf subset + sizeOf superset
decreasing_by
  · have := List.sizeOf_lt_of_mem variant.2
    simp
    omega
  · have := List.sizeOf_lt_of_mem variant.2
    simp
    omega
  · simp
    omega
  · obtain ⟨⟨name, contract⟩, hmem⟩ := field
    have := sizeOf_lt_of_mem_fields hmem
    have := sizeOf_lt_of_lookup _hright
    simp
    omega

def contract_subset (subset superset : Contract) : Except CompatibilityError Bool := do
  return (← contract_subset_at subset superset 0).1

def contract_is_subset (subset superset : Contract) : Except CompatibilityError Bool :=
  contract_subset subset superset

/-- Two contracts may describe the same stored documents: what only one of them declares is optional, and what
both declare accepts the same values. -/
def contracts_can_coexist_at (left right : Contract) : Metered CompatibilityError Bool := do
  tick MAX_RELATION_STEPS .LimitExceeded
  match left, right with
  | .Object left_fields left_optional, .Object right_fields right_optional => do
    let fields_coexist ← left_fields.attach.allM fun field =>
      match _hright : right_fields.lookup field.1.1 with
      | some other =>
        if left_optional.contains field.1.1 != right_optional.contains field.1.1 then pure false
        else contracts_can_coexist_at field.1.2 other
      | none => pure (left_optional.contains field.1.1)
    if fields_coexist then
      pure (right_fields.all fun field =>
        (left_fields.lookup field.1).isSome || right_optional.contains field.1)
    else pure false
  | .Array left_items left_minimum left_maximum, .Array right_items right_minimum right_maximum =>
    if left_minimum == right_minimum && left_maximum == right_maximum then
      contracts_can_coexist_at left_items right_items
    else pure false
  | .Union left, .Union right =>
    if left.length != right.length then pure false
    else
      -- Each comparison of two variants has a count of its own.
      left.allM fun variant => right.anyM fun other => do
        if ← contract_subset variant other then contract_subset other variant else pure false
  | left, right => do
    if ← contract_subset left right then contract_subset right left else pure false
termination_by sizeOf left + sizeOf right
decreasing_by
  · obtain ⟨⟨name, contract⟩, hmem⟩ := field
    have := sizeOf_lt_of_mem_fields hmem
    have := sizeOf_lt_of_lookup _hright
    simp
    omega
  · simp
    omega

def contracts_can_coexist (left right : Contract) : Except CompatibilityError Bool := do
  return (← contracts_can_coexist_at left right 0).1

/-- The relation of two contracts that a comparison within its bound computes. -/
def is_inside : Contract → Contract → Bool
  | _, .Any => true
  | .Union variants, superset => variants.attach.all fun variant => is_inside variant.1 superset
  | subset, .Union variants => variants.attach.any fun variant => is_inside subset variant.1
  | .Null, .Null | .Boolean, .Boolean | .Timestamp, .Timestamp => true
  | .Int64 left_min left_max, .Int64 right_min right_max =>
    bounds_inside (left_min.map (·.toInt)) (left_max.map (·.toInt)) (right_min.map (·.toInt))
      (right_max.map (·.toInt))
  | .Float64 left_min left_max, .Float64 right_min right_max =>
    bounds_inside (left_min.map (·.units)) (left_max.map (·.units)) (right_min.map (·.units))
      (right_max.map (·.units))
  | .String left_min left_max, .String right_min right_max
  | .Bytes left_min left_max, .Bytes right_min right_max =>
    bounds_inside (left_min.map (·.toNat)) (left_max.map (·.toNat)) (right_min.map (·.toNat))
      (right_max.map (·.toNat))
  | .TypedId left, .TypedId right => right.isNone || left == right
  | .DocumentId left, .DocumentId right => left == right
  | .Array left_items left_min left_max, .Array right_items right_min right_max =>
    bounds_inside (left_min.map (·.toNat)) (left_max.map (·.toNat)) (right_min.map (·.toNat))
      (right_max.map (·.toNat)) && is_inside left_items right_items
  | .Object left_fields left_optional, .Object right_fields right_optional =>
    (left_fields.attach.all fun field =>
      match _hright : right_fields.lookup field.1.1 with
      | none => false
      | some right_contract => is_inside field.1.2 right_contract) &&
    right_fields.all fun field =>
      !((left_fields.lookup field.1).isNone && !right_optional.contains field.1) &&
        !(!right_optional.contains field.1 && left_optional.contains field.1)
  | _, _ => false
termination_by left right => sizeOf left + sizeOf right
decreasing_by
  · have := List.sizeOf_lt_of_mem variant.2
    simp
    omega
  · have := List.sizeOf_lt_of_mem variant.2
    simp
    omega
  · simp
    omega
  · obtain ⟨⟨name, contract⟩, hmem⟩ := field
    have := sizeOf_lt_of_mem_fields hmem
    have := sizeOf_lt_of_lookup _hright
    simp
    omega

/-- The relation of two contracts that a coexistence check within its bound computes. -/
def may_coexist : Contract → Contract → Bool
  | .Object left_fields left_optional, .Object right_fields right_optional =>
    (left_fields.attach.all fun field =>
      match _hright : right_fields.lookup field.1.1 with
      | some other =>
        left_optional.contains field.1.1 == right_optional.contains field.1.1 &&
          may_coexist field.1.2 other
      | none => left_optional.contains field.1.1) &&
    right_fields.all fun field => (left_fields.lookup field.1).isSome || right_optional.contains field.1
  | .Array left_items left_minimum left_maximum, .Array right_items right_minimum right_maximum =>
    left_minimum == right_minimum && left_maximum == right_maximum && may_coexist left_items right_items
  | .Union left, .Union right =>
    left.length == right.length &&
      left.all fun variant => right.any fun other => is_inside variant other && is_inside other variant
  | left, right => is_inside left right && is_inside right left
termination_by left right => sizeOf left + sizeOf right
decreasing_by
  · obtain ⟨⟨name, contract⟩, hmem⟩ := field
    have := sizeOf_lt_of_mem_fields hmem
    have := sizeOf_lt_of_lookup _hright
    simp
    omega
  · simp
    omega

/-- A Release with the contracts of its artifact. -/
structure ReleasePackage where
  manifest : ReleaseManifestV1
  contracts : List (Sha256Digest × Contract)

def ReleasePackage.contract (package : ReleasePackage) (digest : Sha256Digest) : Option Contract :=
  package.contracts.lookup digest

/-- One incompatibility of a named subject. -/
structure CompatibilityDiagnostic where
  code : String
  subject : String
  deriving DecidableEq

structure CompatibilityReport where
  compatible : Bool
  diagnostics : List CompatibilityDiagnostic
  deriving DecidableEq

def validate_pair (base candidate : ReleasePackage) : Except CompatibilityError Unit :=
  if base.manifest.project_id ≠ candidate.manifest.project_id ∨
      base.manifest.release_id = candidate.manifest.release_id then
    .error .InvalidRelease
  else .ok ()

/-- The ordered, deduplicated report. -/
def finish_report (diagnostics : List CompatibilityDiagnostic) : CompatibilityReport :=
  let diagnostics := (diagnostics.insertionSort fun a b => a.code < b.code ∨ a.code = b.code ∧ a.subject ≤ b.subject).dedup
  ⟨diagnostics.isEmpty, diagnostics⟩

def push_diagnostic (diagnostics : List CompatibilityDiagnostic) (code subject : String) :
    Except CompatibilityError (List CompatibilityDiagnostic) :=
  if diagnostics.length ≥ MAX_DIAGNOSTICS then .error .LimitExceeded
  else .ok (diagnostics ++ [⟨code, subject⟩])

/-- Adds a diagnostic unless a condition holds. -/
def push_unless (condition : Bool) (diagnostics : List CompatibilityDiagnostic) (code subject : String) :
    Except CompatibilityError (List CompatibilityDiagnostic) :=
  if condition then .ok diagnostics else push_diagnostic diagnostics code subject

/-- A contract that the artifact does not hold admits every value. -/
def resolved_contract (package : ReleasePackage) (digest : Sha256Digest) : Contract :=
  (package.contract digest).getD .Any

/-- The last function of a name, as in a map collected from the list. -/
def find_function (functions : List FunctionManifest) (name : FunctionName) : Option FunctionManifest :=
  functions.reverse.find? fun function => function.name = name

/-- Compares one public function of the base with that of the candidate. -/
def compare_function (base candidate : ReleasePackage) (diagnostics : List CompatibilityDiagnostic)
    (previous : FunctionManifest) : Except CompatibilityError (List CompatibilityDiagnostic) := do
  let subject := previous.name.as_str
  match find_function candidate.manifest.functions previous.name with
  | none => push_diagnostic diagnostics "PUBLIC_FUNCTION_REMOVED" subject
  | some next =>
    let diagnostics ← push_unless
      (previous.id = next.id ∧ previous.function_type = next.function_type ∧ previous.visibility = next.visibility ∧
        previous.auth_policy = next.auth_policy ∧ previous.runtime_class = next.runtime_class ∧
          previous.capabilities = next.capabilities)
      diagnostics "PUBLIC_FUNCTION_METADATA_CHANGED" subject
    let diagnostics ← push_unless
      (← contract_subset (resolved_contract base previous.arguments_contract_hash)
        (resolved_contract candidate next.arguments_contract_hash))
      diagnostics "FUNCTION_ARGUMENTS_NARROWED" subject
    push_unless
      (← contract_subset (resolved_contract candidate next.result_contract_hash)
        (resolved_contract base previous.result_contract_hash))
      diagnostics "FUNCTION_RESULT_WIDENED" subject

def compare_functions (base candidate : ReleasePackage) (diagnostics : List CompatibilityDiagnostic) :
    Except CompatibilityError (List CompatibilityDiagnostic) :=
  (base.manifest.functions.filter fun function => function.visibility = .Public).foldlM
    (compare_function base candidate) diagnostics

/-- `CompatibilityEngine::compare_api`: whether a candidate may replace the base for its callers. -/
def compare_api (base candidate : ReleasePackage) : Except CompatibilityError CompatibilityReport := do
  validate_pair base candidate
  return finish_report (← compare_functions base candidate [])

end runku.compatibility
