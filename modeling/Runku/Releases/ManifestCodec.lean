import Runku.Releases.Manifest

namespace runku.releases

open runku.core
open runku.value (CanonicalValue encode_stored_value)
open runku.data (Sha256Digest)
open bytes codec fallible parser

/-- Text behind its length. -/
def text_bytes (value : String) : List UInt8 := to_be_bytes 2 (as_bytes value).length ++ as_bytes value

def Capability.bytes (capability : Capability) : List UInt8 :=
  match capability with
  | .Secret name | .Variable name => capability_tag capability :: text_bytes name
  | _ => [capability_tag capability]

def FunctionManifest.bytes (function : FunctionManifest) : List UInt8 :=
  text_bytes function.id.to_string ++ text_bytes function.name.as_str ++
    [function_type_tag function.function_type, visibility_tag function.visibility,
      auth_policy_tag function.auth_policy, runtime_class_tag function.runtime_class] ++
    function.implementation_hash.toList ++ function.arguments_contract_hash.toList ++
    function.result_contract_hash.toList ++ to_be_bytes 2 function.capabilities.length ++
    function.capabilities.flatMap Capability.bytes

def CronDefinition.bytes (cron : CronDefinition) : List UInt8 :=
  text_bytes cron.name.as_str ++ text_bytes cron.schedule.as_str ++ text_bytes cron.function.as_str ++
    to_be_bytes 4 cron.args.encoding.length ++ cron.args.encoding

def ArtifactDescriptor.bytes (artifact : ArtifactDescriptor) : List UInt8 :=
  artifact_format_tag artifact.format :: artifact.digest.toList ++ to_be_bytes 8 artifact.size_bytes.toNat

/-- Everything after the magic. -/
def ReleaseManifestV1.body (manifest : ReleaseManifestV1) : List UInt8 :=
  text_bytes manifest.release_id.to_string ++ text_bytes manifest.project_id.to_string ++
    text_bytes manifest.build_id.to_string ++ to_be_bytes 8 manifest.created_at.toUInt64.toNat ++
    text_bytes manifest.runtime_version.as_str ++ manifest.artifact.bytes ++
    manifest.function_contract_hash.toList ++ manifest.schema_contract_hash.toList ++
    manifest.index_contract_hash.toList ++ to_be_bytes 2 manifest.functions.length ++
    manifest.functions.flatMap FunctionManifest.bytes ++ to_be_bytes 2 manifest.cron_definitions.length ++
    manifest.cron_definitions.flatMap CronDefinition.bytes

def Capability.Fits (capability : Capability) : Prop := (as_bytes capability.name).length ≤ MAX_SECRET_NAME_BYTES

def FunctionManifest.Fits (function : FunctionManifest) : Prop :=
  function.capabilities.length ≤ MAX_CAPABILITIES ∧ ∀ capability ∈ function.capabilities, capability.Fits

def CronDefinition.Fits (cron : CronDefinition) : Prop :=
  encode_stored_value cron.args = .ok cron.args.encoding ∧ cron.args.encoding.length ≤ MAX_CRON_ARGS_BYTES

structure ReleaseManifestV1.Fits (manifest : ReleaseManifestV1) : Prop where
  functions : 0 < manifest.functions.length ∧ manifest.functions.length ≤ MAX_FUNCTIONS
  function : ∀ function ∈ manifest.functions, function.Fits
  cron_definitions : manifest.cron_definitions.length ≤ MAX_CRON_DEFINITIONS
  cron_definition : ∀ cron ∈ manifest.cron_definitions, cron.Fits

theorem invalid_manifest_eq_ok_iff {ε α : Type} {x : Except ε α} {a : α} : invalid_manifest x = .ok a ↔ x = .ok a := by
  cases x with
  | error e => exact ⟨nofun, nofun⟩
  | ok b => simp [invalid_manifest, Except.mapError]

theorem reads_text (maximum : Nat) (hmaximum : maximum < 2 ^ 16) :
    Reads (Cursor.text maximum) (fun value => (as_bytes value).length ≤ maximum) text_bytes := by
  intro input value rest
  simp only [Cursor.text, Cursor.u16, run_bind_iff, run_lift_iff, ite_error_eq_ok_iff, reads_word _ _ _,
    reads_utf8 _ _ _]
  constructor
  · rintro ⟨length, _, ⟨_, rfl⟩, _, _, ⟨⟨hle, _⟩, rfl⟩, rfl, rfl⟩
    exact ⟨Nat.le_of_not_lt hle, by rw [text_bytes, List.append_assoc]⟩
  · rintro ⟨hle, rfl⟩
    refine ⟨_, _, ⟨lt_of_le_of_lt hle hmaximum, ?_⟩, (), _, ⟨⟨Nat.not_lt.mpr hle, trivial⟩, rfl⟩, rfl, rfl⟩
    rw [text_bytes, List.append_assoc]

variable {PREFIX : String}

theorem length_to_string_id (id : ResourceId PREFIX) :
    (as_bytes id.to_string).length = (as_bytes PREFIX).length + 26 := by
  rw [ResourceId.to_string, as_bytes_append, List.length_append, id.ulid.length_as_bytes_to_string]

theorem reads_id (hshort : (as_bytes PREFIX).length ≤ 38) :
    Reads (Cursor.id PREFIX) (fun _ => True) fun id => text_bytes id.to_string := by
  refine ((reads_text 64 (by decide)).convert (fun _ => True) ResourceId.to_string fun text id => ?_).congr (fun id => ?_) fun _ _ => rfl
  · rw [invalid_manifest_eq_ok_iff, ResourceId.from_str_eq_ok_iff, true_and]
  · rw [length_to_string_id, true_and, iff_true]
    omega

theorem length_function_name_le (name : FunctionName) : (as_bytes name.as_str).length ≤ FunctionName.MAX_BYTES := by
  have hvalid := name.valid
  unfold FunctionName.validate at hvalid
  exact Nat.le_of_not_lt (ite_error_eq_ok_iff.mp hvalid).1

theorem reads_function_name : Reads Cursor.function_name (fun _ => True) fun name => text_bytes name.as_str := by
  refine ((reads_text FunctionName.MAX_BYTES (by decide)).convert (fun _ => True) FunctionName.as_str
    fun text name => ?_).congr (fun name => ?_) fun _ _ => rfl
  · rw [invalid_manifest_eq_ok_iff, FunctionName.from_str_eq_ok_iff, true_and]
  · exact iff_of_true ⟨trivial, length_function_name_le name⟩ trivial

theorem RuntimeVersion.from_str_eq_ok_iff {value : String} {version : RuntimeVersion} :
    RuntimeVersion.from_str value = .ok version ↔ value = version.as_str := by
  unfold RuntimeVersion.from_str
  constructor
  · intro h
    split at h
    · rw [← Except.ok.inj h]
    · cases h
  · rintro rfl
    split
    · rfl
    · rename_i error herror
      cases herror.symm.trans version.valid

theorem length_runtime_version_le (version : RuntimeVersion) :
    (as_bytes version.as_str).length ≤ MAX_RUNTIME_VERSION_BYTES := by
  have hvalid := version.valid
  unfold RuntimeVersion.validate at hvalid
  split at hvalid
  · rename_i hfixed
    simp only [List.mem_cons, List.not_mem_nil, or_false] at hfixed
    rcases hfixed with h | h | h <;> rw [h] <;> decide
  · split at hvalid
    · cases hvalid
    · have hlimits := (ite_error_eq_ok_iff.mp hvalid).1
      exact Nat.le_of_not_lt fun hlt => hlimits (.inl hlt)

theorem reads_runtime_version :
    Reads Cursor.runtime_version (fun _ => True) fun version => text_bytes version.as_str := by
  refine ((reads_text MAX_RUNTIME_VERSION_BYTES (by decide)).convert (fun _ => True) RuntimeVersion.as_str
    fun text version => ?_).congr (fun version => ?_) fun _ _ => rfl
  · rw [RuntimeVersion.from_str_eq_ok_iff, true_and]
  · exact iff_of_true ⟨trivial, length_runtime_version_le version⟩ trivial

theorem reads_u64 : Reads Cursor.u64 (fun _ => True) fun value => to_be_bytes 8 value.toNat := by
  intro input value rest
  simp only [Cursor.u64, run_bind_iff, run_pure_iff, reads_word _ _ _, true_and]
  constructor
  · rintro ⟨n, _, ⟨hn, rfl⟩, rfl, rfl⟩
    rw [UInt64.toNat_ofNat_of_lt' hn]
  · rintro rfl
    exact ⟨value.toNat, rest, ⟨value.toNat_lt, rfl⟩, UInt64.ofNat_toNat.symm, rfl⟩

theorem reads_i64 : Reads Cursor.i64 (fun _ => True) fun value => to_be_bytes 8 value.toUInt64.toNat := by
  intro input value rest
  simp only [Cursor.i64, run_bind_iff, run_pure_iff, reads_u64 _ _ _, true_and]
  constructor
  · rintro ⟨word, _, rfl, rfl, rfl⟩
    rw [UInt64.toUInt64_toInt64]
  · rintro rfl
    exact ⟨value.toUInt64, rest, rfl, (Int64.toInt64_toUInt64 value).symm, rfl⟩

theorem digest_of_eq_ok_iff {taken : List UInt8} {digest : Sha256Digest} :
    digest_of taken = .ok digest ↔ taken = digest.toList := by
  unfold digest_of
  constructor
  · intro h
    split at h
    · rw [← Except.ok.inj h]
      simp [Vector.toList]
    · cases h
  · rintro rfl
    rw [dif_pos digest.length_toList]
    congr 1

theorem reads_digest : Reads Cursor.digest (fun _ => True) Vector.toList := by
  refine (reads_take.convert (fun _ => True) Vector.toList fun taken digest => ?_).congr
    (fun digest => ?_) fun _ _ => rfl
  · rw [digest_of_eq_ok_iff, true_and]
  · exact iff_of_true ⟨trivial, digest.length_toList⟩ trivial

/-- A table of tags, checked byte by byte. -/
theorem tag_iff {α : Type} {decode : UInt8 → Except ReleaseError α} {tag : α → UInt8}
    (htag : ∀ a, decode (tag a) = .ok a)
    (htable : ∀ n : Fin 256, (decode (UInt8.ofNat n)).toOption.all fun a => tag a = UInt8.ofNat n) (byte : UInt8)
    (a : α) : decode byte = .ok a ↔ byte = tag a := by
  constructor
  · intro h
    have hbyte := htable ⟨byte.toNat, byte.toNat_lt⟩
    rw [UInt8.ofNat_toNat, h] at hbyte
    simpa [Except.toOption, eq_comm] using hbyte
  · rintro rfl
    exact htag a

theorem decode_artifact_format_eq_ok_iff (byte : UInt8) (format : ArtifactFormat) :
    decode_artifact_format byte = .ok format ↔ byte = artifact_format_tag format :=
  tag_iff (by rintro (_ | _) <;> rfl) (by decide +kernel) byte format

theorem decode_function_type_eq_ok_iff (byte : UInt8) (function_type : FunctionType) :
    decode_function_type byte = .ok function_type ↔ byte = function_type_tag function_type :=
  tag_iff (by rintro (_ | _) <;> rfl) (by decide +kernel) byte function_type

theorem decode_visibility_eq_ok_iff (byte : UInt8) (visibility : FunctionVisibility) :
    decode_visibility byte = .ok visibility ↔ byte = visibility_tag visibility :=
  tag_iff (by rintro (_ | _) <;> rfl) (by decide +kernel) byte visibility

theorem decode_auth_policy_eq_ok_iff (byte : UInt8) (policy : AuthPolicy) :
    decode_auth_policy byte = .ok policy ↔ byte = auth_policy_tag policy :=
  tag_iff (by rintro (_ | _) <;> rfl) (by decide +kernel) byte policy

theorem decode_runtime_class_eq_ok_iff (byte : UInt8) (runtime_class : RuntimeClass) :
    decode_runtime_class byte = .ok runtime_class ↔ byte = runtime_class_tag runtime_class :=
  tag_iff (by rintro (_ | _) <;> rfl) (by decide +kernel) byte runtime_class

theorem reads_artifact : Reads Cursor.artifact (fun _ => True) ArtifactDescriptor.bytes := by
  intro input artifact rest
  simp only [Cursor.artifact, Cursor.byte, run_bind_iff, run_lift_iff, run_pure_iff, reads_byte _ _ _,
    reads_digest _ _ _, reads_u64 _ _ _, decode_artifact_format_eq_ok_iff, true_and]
  constructor
  · rintro ⟨_, _, rfl, format, _, ⟨rfl, rfl⟩, digest, _, rfl, size_bytes, _, rfl, rfl, rfl⟩
    simp [ArtifactDescriptor.bytes]
  · rintro rfl
    refine ⟨_, _, ?_, artifact.format, _, ⟨rfl, rfl⟩, artifact.digest, _, rfl, artifact.size_bytes, _, rfl, rfl, rfl⟩
    simp [ArtifactDescriptor.bytes]

/-- The tags of the capabilities without a name. -/
theorem decode_capability_eq_ok_iff {byte : UInt8} {capability : Capability} :
    decode_capability byte = .ok capability ↔
      byte = capability_tag capability ∧ capability_tag capability ≠ 9 ∧ capability_tag capability ≠ 12 := by
  constructor
  · intro h
    have htable : ∀ n : Fin 256, (decode_capability (UInt8.ofNat n)).toOption.all fun capability =>
        UInt8.ofNat n = capability_tag capability ∧ capability_tag capability ≠ 9 ∧
          capability_tag capability ≠ 12 := by decide +kernel
    have hbyte := htable ⟨byte.toNat, byte.toNat_lt⟩
    rw [UInt8.ofNat_toNat, h] at hbyte
    simpa [Except.toOption] using hbyte
  · rintro ⟨rfl, hsecret, hvariable⟩
    cases capability <;> first | rfl | exact absurd rfl hsecret | exact absurd rfl hvariable

theorem reads_capability : Reads Cursor.capability Capability.Fits Capability.bytes := by
  intro input capability rest
  simp only [Cursor.capability, Cursor.byte, run_bind_iff, reads_byte _ _ _, true_and, run_ite_iff, run_pure_iff,
    run_lift_iff, reads_text _ (by decide : MAX_SECRET_NAME_BYTES < 2 ^ 16) _ _ _, decode_capability_eq_ok_iff]
  constructor
  · rintro ⟨tag, _, rfl, ⟨rfl, name, _, ⟨hle, rfl⟩, rfl, rfl⟩ | ⟨-, ⟨rfl, name, _, ⟨hle, rfl⟩, rfl, rfl⟩ |
      ⟨-, ⟨rfl, hsecret, hvariable⟩, rfl⟩⟩⟩
    · exact ⟨hle, rfl⟩
    · exact ⟨hle, rfl⟩
    · cases capability <;>
        first
        | exact absurd rfl hsecret
        | exact absurd rfl hvariable
        | exact ⟨Nat.zero_le _, rfl⟩
  · rintro ⟨hfits, rfl⟩
    cases capability with
    | Secret name => exact ⟨9, _, rfl, .inl ⟨rfl, name, rest, ⟨hfits, rfl⟩, rfl, rfl⟩⟩
    | Variable name =>
      exact ⟨12, _, rfl, .inr ⟨by decide, .inl ⟨rfl, name, rest, ⟨hfits, rfl⟩, rfl, rfl⟩⟩⟩
    | _ => exact ⟨_, _, rfl, .inr ⟨by decide, .inr ⟨by decide, ⟨rfl, by decide, by decide⟩, rfl⟩⟩⟩

/-- A list behind its count. -/
theorem reads_counted {α : Type} {item : Cursor α} {valid : α → Prop} {write : α → List UInt8}
    (hitem : Reads item valid write) (refused : Nat → Prop) [DecidablePred refused]
    (hrefused : ∀ count, ¬refused count → count < 2 ^ 16) : Reads (do
      let count ← Cursor.u16
      lift (if refused count then .error .LimitExceeded else .ok ())
      many item count) (fun items => ¬refused items.length ∧ ∀ a ∈ items, valid a)
      fun items => to_be_bytes 2 items.length ++ items.flatMap write := by
  intro input items rest
  simp only [Cursor.u16, run_bind_iff, run_lift_iff, ite_error_eq_ok_iff, reads_word _ _ _, hitem.many]
  constructor
  · rintro ⟨_, _, ⟨_, rfl⟩, _, _, ⟨⟨hcount, _⟩, rfl⟩, rfl, hvalid, rfl⟩
    exact ⟨⟨hcount, hvalid⟩, by rw [List.append_assoc]⟩
  · rintro ⟨⟨hcount, hvalid⟩, rfl⟩
    refine ⟨_, _, ⟨hrefused _ hcount, ?_⟩, (), _, ⟨⟨hcount, trivial⟩, rfl⟩, rfl, hvalid, rfl⟩
    rw [List.append_assoc]

theorem reads_capabilities : Reads Cursor.capabilities
    (fun capabilities => capabilities.length ≤ MAX_CAPABILITIES ∧ ∀ capability ∈ capabilities, capability.Fits)
    fun capabilities => to_be_bytes 2 capabilities.length ++ capabilities.flatMap Capability.bytes := by
  refine (reads_counted reads_capability (· > MAX_CAPABILITIES) fun count hcount => ?_).congr
    (fun capabilities => ?_) fun _ _ => rfl
  · exact lt_of_le_of_lt (not_lt.mp hcount) (by decide)
  · exact and_congr_left' not_lt

theorem reads_function : Reads Cursor.function FunctionManifest.Fits FunctionManifest.bytes := by
  intro input function rest
  simp only [Cursor.function, Cursor.byte, run_bind_iff, run_lift_iff, run_pure_iff, reads_byte _ _ _,
    reads_id (by decide : (as_bytes "fnc_").length ≤ 38) _ _ _, reads_function_name _ _ _, reads_digest _ _ _,
    reads_capabilities _ _ _, decode_function_type_eq_ok_iff, decode_visibility_eq_ok_iff,
    decode_auth_policy_eq_ok_iff, decode_runtime_class_eq_ok_iff, true_and]
  constructor
  · rintro ⟨id, _, rfl, name, _, rfl, _, _, rfl, function_type, _, ⟨rfl, rfl⟩, _, _, rfl, visibility, _, ⟨rfl, rfl⟩,
      _, _, rfl, auth_policy, _, ⟨rfl, rfl⟩, _, _, rfl, runtime_class, _, ⟨rfl, rfl⟩, implementation_hash, _, rfl,
      arguments_hash, _, rfl, result_hash, _, rfl, capabilities, _, ⟨hfits, rfl⟩, rfl, rfl⟩
    exact ⟨hfits, by simp [FunctionManifest.bytes]⟩
  · rintro ⟨hfits, rfl⟩
    refine ⟨function.id, _, ?_, function.name, _, rfl, _, _, rfl, function.function_type, _, ⟨rfl, rfl⟩, _, _, rfl,
      function.visibility, _, ⟨rfl, rfl⟩, _, _, rfl, function.auth_policy, _, ⟨rfl, rfl⟩, _, _, rfl,
      function.runtime_class, _, ⟨rfl, rfl⟩, function.implementation_hash, _, rfl,
      function.arguments_contract_hash, _, rfl, function.result_contract_hash, _, rfl, function.capabilities, rest,
      ⟨hfits, rfl⟩, rfl, rfl⟩
    simp [FunctionManifest.bytes]

theorem reads_functions : Reads Cursor.functions
    (fun functions => (0 < functions.length ∧ functions.length ≤ MAX_FUNCTIONS) ∧
      ∀ function ∈ functions, function.Fits)
    fun functions => to_be_bytes 2 functions.length ++ functions.flatMap FunctionManifest.bytes := by
  refine (reads_counted reads_function (fun count => count = 0 ∨ count > MAX_FUNCTIONS) fun count hcount => ?_).congr
    (fun functions => and_congr_left' ?_) fun _ _ => rfl
  · simp only [MAX_FUNCTIONS] at hcount
    omega
  · rw [not_or, gt_iff_lt, not_lt, Nat.pos_iff_ne_zero]

theorem reads_schedule : Reads Cursor.schedule (fun _ => True) fun schedule => text_bytes schedule.as_str := by
  intro input schedule rest
  simp only [Cursor.schedule, run_bind_iff, run_lift_iff, ite_error_eq_ok_iff,
    reads_text _ (by decide : 512 < 2 ^ 16) _ _ _, not_not, Except.ok.injEq, true_and]
  constructor
  · rintro ⟨text, _, ⟨_, rfl⟩, schedule', _, ⟨_, rfl⟩, ⟨rfl, rfl⟩, rfl⟩
    rfl
  · rintro rfl
    exact ⟨_, _, ⟨schedule.length_text_le, rfl⟩, schedule, _, ⟨schedule.from_str_as_str, rfl⟩, ⟨rfl, rfl⟩, rfl⟩

theorem decode_args_eq_ok_iff {args_bytes : List UInt8} {args : { args : CanonicalValue // args.Sorted }} :
    decode_args args_bytes = .ok args ↔ encode_stored_value args.val = .ok args_bytes := by
  unfold decode_args
  constructor
  · intro h
    split at h
    · cases h
    · split at h
      · cases h
      · rename_i encoded hencoded
        obtain ⟨heq, h⟩ := ite_error_eq_ok_iff.mp h
        cases h
        rw [hencoded, not_not.mp heq]
  · intro h
    have hdecode := runku.value.decode_stored_value_of_encode args.property h
    split
    · rename_i hdecode'
      cases hdecode'.symm.trans hdecode
    · rename_i args' hdecode'
      cases hdecode'.symm.trans hdecode
      rw [h]
      exact if_neg (not_not.mpr rfl)

theorem length_cron_name_le (name : CronName) : (as_bytes name.as_str).length ≤ 64 := by
  have hvalid := name.valid
  unfold CronName.validate at hvalid
  split at hvalid
  · cases hvalid
  · have hlimits := (ite_error_eq_ok_iff.mp hvalid).1
    simp only [Bool.or_eq_true, decide_eq_true_eq, not_or, not_lt] at hlimits
    exact hlimits.1.1

theorem reads_cron_definition : Reads Cursor.cron_definition CronDefinition.Fits CronDefinition.bytes := by
  intro input cron rest
  simp only [Cursor.cron_definition, Cursor.u32, run_bind_iff, run_lift_iff, run_pure_iff, ite_error_eq_ok_iff,
    reads_text _ (by decide : 64 < 2 ^ 16) _ _ _, invalid_manifest_eq_ok_iff, CronName.from_str_eq_ok_iff,
    reads_schedule _ _ _, reads_function_name _ _ _, reads_word _ _ _, run_take_iff, decode_args_eq_ok_iff, true_and]
  constructor
  · rintro ⟨_, _, ⟨_, rfl⟩, name, _, ⟨rfl, rfl⟩, schedule, _, rfl, function, _, rfl, _, _, ⟨_, rfl⟩, _, _, ⟨⟨hle, _⟩, rfl⟩,
      args_bytes, _, ⟨rfl, rfl⟩, args, _, ⟨hargs, rfl⟩, rfl, rfl⟩
    obtain ⟨hlimits, rfl⟩ := runku.value.encode_stored_value_eq_ok_iff.mp hargs
    exact ⟨⟨hargs, Nat.le_of_not_lt hle⟩, by simp [CronDefinition.bytes]⟩
  · rintro ⟨⟨hargs, hle⟩, rfl⟩
    refine ⟨_, _, ⟨length_cron_name_le cron.name, ?_⟩, cron.name, _, ⟨rfl, rfl⟩, cron.schedule, _, rfl, cron.function, _,
      rfl, _, _, ⟨lt_of_le_of_lt hle (by decide), rfl⟩, (), _, ⟨⟨Nat.not_lt.mpr hle, trivial⟩, rfl⟩,
      cron.args.encoding, rest, ⟨rfl, rfl⟩, ⟨cron.args, cron.args_sorted⟩, rest, ⟨hargs, rfl⟩, rfl, rfl⟩
    simp [CronDefinition.bytes]

theorem reads_cron_definitions : Reads decode_cron_definitions
    (fun definitions => definitions.length ≤ MAX_CRON_DEFINITIONS ∧ ∀ cron ∈ definitions, cron.Fits)
    fun definitions => to_be_bytes 2 definitions.length ++ definitions.flatMap CronDefinition.bytes := by
  refine (reads_counted reads_cron_definition (· > MAX_CRON_DEFINITIONS) fun count hcount => ?_).congr
    (fun definitions => and_congr_left' not_lt) fun _ _ => rfl
  exact lt_of_le_of_lt (not_lt.mp hcount) (by decide)

/-- The decoder inverts the encoder. -/
theorem reads_manifest : Reads Cursor.manifest ReleaseManifestV1.Fits ReleaseManifestV1.body := by
  intro input manifest rest
  simp only [Cursor.manifest, run_bind_iff, run_pure_iff, reads_id (by decide : (as_bytes "rel_").length ≤ 38) _ _ _,
    reads_id (by decide : (as_bytes "prj_").length ≤ 38) _ _ _,
    reads_id (by decide : (as_bytes "bld_").length ≤ 38) _ _ _, reads_i64 _ _ _, reads_runtime_version _ _ _,
    reads_artifact _ _ _, reads_digest _ _ _, reads_functions _ _ _, reads_cron_definitions _ _ _, true_and]
  constructor
  · rintro ⟨release_id, _, rfl, project_id, _, rfl, build_id, _, rfl, created_at, _, rfl, version, _, rfl, artifact, _,
      rfl, functions_hash, _, rfl, schema_hash, _, rfl, index_hash, _, rfl, functions, _, ⟨⟨hcount, hfunction⟩, rfl⟩,
      definitions, _, ⟨⟨hcount', hcron⟩, rfl⟩, rfl, rfl⟩
    exact ⟨⟨hcount, hfunction, hcount', hcron⟩, by simp [ReleaseManifestV1.body]⟩
  · rintro ⟨hfits, rfl⟩
    refine ⟨manifest.release_id, _, ?_, manifest.project_id, _, rfl, manifest.build_id, _, rfl, manifest.created_at, _,
      rfl, manifest.runtime_version, _, rfl, manifest.artifact, _, rfl, manifest.function_contract_hash, _, rfl,
      manifest.schema_contract_hash, _, rfl, manifest.index_contract_hash, _, rfl, manifest.functions, _,
      ⟨⟨hfits.functions, hfits.function⟩, rfl⟩, manifest.cron_definitions, rest,
      ⟨⟨hfits.cron_definitions, hfits.cron_definition⟩, rfl⟩, rfl, rfl⟩
    simp [ReleaseManifestV1.body]

theorem validate_capabilities_fits {function_type : FunctionType} {previous : Option Capability}
    {capabilities : List Capability} (h : validate_capabilities function_type previous capabilities = .ok ()) :
    ∀ capability ∈ capabilities, capability.Fits := by
  induction capabilities generalizing previous with
  | nil => nofun
  | cons capability capabilities ih =>
    obtain ⟨hchecks, h⟩ := ite_error_eq_ok_iff.mp h
    refine List.forall_mem_cons.mpr ⟨?_, ih h⟩
    simp only [Bool.or_eq_true, not_or, Bool.not_eq_true', Bool.not_eq_false] at hchecks
    have hvalid := hchecks.2
    cases capability with
    | Secret name | Variable name =>
      simp only [valid_capability, Bool.and_eq_true, decide_eq_true_eq] at hvalid
      exact hvalid.1.2
    | _ => exact Nat.zero_le _

theorem validate_functions_fits {ids : List FunctionId} {previous : Option FunctionName}
    {functions : List FunctionManifest} (h : validate_functions ids previous functions = .ok ()) :
    ∀ function ∈ functions, function.Fits := by
  induction functions generalizing ids previous with
  | nil => nofun
  | cons function functions ih =>
    obtain ⟨hchecks, h⟩ := ite_error_eq_ok_iff.mp h
    obtain ⟨_, hcapabilities, h⟩ := bind_eq_ok_iff.mp h
    refine List.forall_mem_cons.mpr ⟨⟨?_, validate_capabilities_fits hcapabilities⟩, ih h⟩
    exact Nat.le_of_not_lt fun hlt => hchecks (.inr (.inr hlt))

theorem validate_cron_definitions_fits {functions : List FunctionManifest} {previous : Option CronName}
    {definitions : List CronDefinition} (h : validate_cron_definitions functions previous definitions = .ok ()) :
    ∀ cron ∈ definitions, cron.Fits := by
  induction definitions generalizing previous with
  | nil => nofun
  | cons cron definitions ih =>
    unfold validate_cron_definitions at h
    split at h
    · cases h
    · cases h
    · rename_i target args htarget hargs
      obtain ⟨hchecks, hrest⟩ := ite_error_eq_ok_iff.mp h
      obtain ⟨hlimits, rfl⟩ := runku.value.encode_stored_value_eq_ok_iff.mp hargs
      refine List.forall_mem_cons.mpr ⟨⟨hargs, ?_⟩, ih hrest⟩
      exact Nat.le_of_not_lt fun hlt => hchecks (.inr (.inr (.inr hlt)))

variable {manifest : ReleaseManifestV1}

theorem ReleaseManifestV1.fits_of_validate (h : manifest.validate = .ok ()) : manifest.Fits := by
  obtain ⟨hlimits, h⟩ := ite_error_eq_ok_iff.mp h
  obtain ⟨_, hfunctions, h⟩ := bind_eq_ok_iff.mp h
  obtain ⟨_, h⟩ := ite_error_eq_ok_iff.mp h
  obtain ⟨_, _, hcrons⟩ := bind_eq_ok_iff.mp h
  simp only [not_or, not_lt] at hlimits
  exact ⟨⟨List.length_pos_of_ne_nil hlimits.2.2.1, hlimits.2.2.2.1⟩, validate_functions_fits hfunctions,
    hlimits.2.2.2.2, validate_cron_definitions_fits hcrons⟩

theorem push_u16_eq_ok {value : Nat} (h : value < 2 ^ 16) : push_u16 value = .ok (to_be_bytes 2 value) := if_pos h

theorem push_text_eq_ok {value : String} (h : (as_bytes value).length < 2 ^ 16) :
    push_text value = .ok (text_bytes value) := by
  rw [push_text, push_u16_eq_ok h]
  simp [concat, text_bytes]

theorem push_id_eq_ok (hshort : (as_bytes PREFIX).length ≤ 38) (id : ResourceId PREFIX) :
    push_text id.to_string = .ok (text_bytes id.to_string) :=
  push_text_eq_ok (by rw [length_to_string_id]; omega)

theorem encode_capability_eq_ok {capability : Capability} (h : capability.Fits) :
    encode_capability capability = .ok capability.bytes := by
  have hname := push_text_eq_ok (lt_of_le_of_lt h (by decide))
  cases capability with
  | Secret name | Variable name =>
    rw [Capability.name] at hname
    simp [encode_capability, hname, concat, Capability.bytes]
  | _ => rfl

theorem encode_function_eq_ok {function : FunctionManifest} (h : function.Fits) :
    encode_function function = .ok function.bytes := by
  have hname := push_text_eq_ok (lt_of_le_of_lt (length_function_name_le function.name) (by decide))
  have hcapabilities := concat_map_of_ok fun capability hmem => encode_capability_eq_ok (h.2 capability hmem)
  rw [encode_function, push_id_eq_ok (by decide), hname, push_u16_eq_ok (lt_of_le_of_lt h.1 (by decide))]
  refine (concat_append_of_ok rfl hcapabilities).trans ?_
  simp [FunctionManifest.bytes]

theorem encode_cron_definition_eq_ok {cron : CronDefinition} (h : cron.Fits) :
    encode_cron_definition cron = .ok cron.bytes := by
  have hname := push_text_eq_ok (lt_of_le_of_lt (length_cron_name_le cron.name) (by decide))
  have hschedule := push_text_eq_ok (lt_of_le_of_lt cron.schedule.length_text_le (by decide))
  have hfunction := push_text_eq_ok (lt_of_le_of_lt (length_function_name_le cron.function) (by decide))
  have hlength : push_u32 cron.args.encoding.length = .ok (to_be_bytes 4 cron.args.encoding.length) :=
    if_pos (lt_of_le_of_lt h.2 (by decide))
  rw [encode_cron_definition, h.1]
  dsimp only
  rw [hname, hschedule, hfunction, hlength]
  simp [concat, CronDefinition.bytes]

/-- A valid manifest is encoded unless it is too large. -/
theorem encode_release_manifest_of_validate (hvalid : manifest.validate = .ok ()) :
    encode_release_manifest manifest = if (MAGIC ++ manifest.body).length > MANIFEST_MAX_BYTES
      then .error .LimitExceeded else .ok (MAGIC ++ manifest.body) := by
  have hfits := ReleaseManifestV1.fits_of_validate hvalid
  have hversion := push_text_eq_ok (lt_of_le_of_lt (length_runtime_version_le manifest.runtime_version) (by decide))
  have hfunctions := concat_map_of_ok fun function hmem => encode_function_eq_ok (hfits.function function hmem)
  have hcrons := concat_map_of_ok fun cron hmem => encode_cron_definition_eq_ok (hfits.cron_definition cron hmem)
  rw [encode_release_manifest, hvalid, ok_bind, push_id_eq_ok (by decide), push_id_eq_ok (by decide),
    push_id_eq_ok (by decide), hversion, push_u16_eq_ok (lt_of_le_of_lt hfits.functions.2 (by decide)),
    push_u16_eq_ok (lt_of_le_of_lt hfits.cron_definitions (by decide)),
    concat_append_of_ok (concat_append_of_ok (concat_append_of_ok rfl hfunctions) rfl) hcrons, ok_bind]
  simp only [ReleaseManifestV1.body, ArtifactDescriptor.bytes, List.append_assoc, List.cons_append, List.nil_append,
    List.append_nil]

theorem encode_release_manifest_eq_ok_iff {encoded : List UInt8} : encode_release_manifest manifest = .ok encoded ↔
      manifest.validate = .ok () ∧ encoded = MAGIC ++ manifest.body ∧ encoded.length ≤ MANIFEST_MAX_BYTES := by
  constructor
  · intro h
    obtain ⟨_, hvalid, _⟩ := bind_eq_ok_iff.mp h
    rw [encode_release_manifest_of_validate hvalid, ite_error_eq_ok_iff] at h
    obtain rfl := Except.ok.inj h.2
    exact ⟨hvalid, rfl, Nat.le_of_not_lt h.1⟩
  · rintro ⟨hvalid, rfl, hle⟩
    rw [encode_release_manifest_of_validate hvalid]
    exact if_neg (Nat.not_lt.mpr hle)

/-- The three checks before the body leave the inputs that start with the magic. -/
theorem eq_magic_append_iff {input : List UInt8} : input = MAGIC ++ input.drop MAGIC.length ↔
      ¬(input.length < MAGIC.length ∨ input.take 2 ≠ [82, 77]) ∧ ¬input.getD 2 0 ≠ MANIFEST_FORMAT_VERSION := by
  match input with
  | [] => simp [MAGIC]
  | [a] => simp [MAGIC]
  | [a, b] => simp [MAGIC]
  | a :: b :: c :: input => simp [MAGIC, MANIFEST_FORMAT_VERSION, and_assoc]

theorem decode_release_manifest_eq_ok_iff {input : List UInt8} : decode_release_manifest input = .ok manifest ↔
      manifest.validate = .ok () ∧ input = MAGIC ++ manifest.body ∧ input.length ≤ MANIFEST_MAX_BYTES := by
  rw [decode_release_manifest, ite_error_eq_ok_iff, ite_error_eq_ok_iff, ite_error_eq_ok_iff, bind_eq_ok_iff, not_lt]
  constructor
  · rintro ⟨hle, hmagic, hversion, ⟨manifest', rest⟩, hread, h⟩
    obtain ⟨hrest, h⟩ := ite_error_eq_ok_iff.mp h
    obtain ⟨_, hvalid, h⟩ := bind_eq_ok_iff.mp h
    cases h
    have hempty : rest = [] := by simpa using hrest
    obtain ⟨_, hbody⟩ := (reads_manifest _ _ _).mp hread
    rw [hempty, List.append_nil] at hbody
    exact ⟨hvalid, (eq_magic_append_iff.mpr ⟨hmagic, hversion⟩).trans (by rw [hbody]), hle⟩
  · rintro ⟨hvalid, rfl, hle⟩
    have hread := (reads_manifest manifest.body manifest []).mpr
      ⟨ReleaseManifestV1.fits_of_validate hvalid, (List.append_nil _).symm⟩
    obtain ⟨hmagic, hversion⟩ := eq_magic_append_iff.mp (by rw [List.drop_left] : MAGIC ++ manifest.body =
      MAGIC ++ (MAGIC ++ manifest.body).drop MAGIC.length)
    refine ⟨hle, hmagic, hversion, (manifest, []), by rwa [List.drop_left], ?_⟩
    simp [hvalid]

/-- Release Manifest v1 is canonical: the decoder accepts exactly the encodings of valid manifests, each as the
manifest it encodes, so that encodings and, without a collision of the hash, digests identify manifests. -/
theorem release_manifest_canonical : (∀ manifest encoded, decode_release_manifest encoded = .ok manifest ↔
      encode_release_manifest manifest = .ok encoded) ∧ (∀ manifest : ReleaseManifestV1, manifest.validate = .ok () →
      (∃ encoded, encode_release_manifest manifest = .ok encoded) ∨
        encode_release_manifest manifest = .error .LimitExceeded ∧
          MANIFEST_MAX_BYTES < (MAGIC ++ manifest.body).length) ∧
    (∀ schedule : CronSchedule, CronSchedule.from_str schedule.as_str = .ok schedule) ∧
    (∀ encoded encoded' manifest, decode_release_manifest encoded = .ok manifest →
      decode_release_manifest encoded' = .ok manifest → encoded = encoded') ∧
    ∀ (sha256 : List UInt8 → Sha256Digest) (a b : ReleaseManifestV1) (encoded encoded' : List UInt8),
      encode_release_manifest a = .ok encoded → encode_release_manifest b = .ok encoded' →
      (sha256 encoded = sha256 encoded' → encoded = encoded') → a.digest sha256 = b.digest sha256 → a = b := by
  have hcodec (manifest : ReleaseManifestV1) (encoded : List UInt8) :
      decode_release_manifest encoded = .ok manifest ↔ encode_release_manifest manifest = .ok encoded :=
    decode_release_manifest_eq_ok_iff.trans encode_release_manifest_eq_ok_iff.symm
  refine ⟨hcodec, fun manifest hvalid => ?_, CronSchedule.from_str_as_str, fun encoded encoded' manifest h h' => ?_,
    fun sha256 a b encoded encoded' ha hb hcollision hdigest => ?_⟩
  · rw [encode_release_manifest_of_validate hvalid]
    split
    · rename_i hlarge
      exact .inr ⟨rfl, hlarge⟩
    · exact .inl ⟨_, rfl⟩
  · rw [hcodec] at h h'
    exact Except.ok.inj (h.symm.trans h')
  · rw [ReleaseManifestV1.digest, ReleaseManifestV1.digest, ha, hb] at hdigest
    obtain rfl := hcollision (Except.ok.inj hdigest)
    exact Except.ok.inj (((hcodec a encoded).mpr ha).symm.trans ((hcodec b encoded).mpr hb))

/-- A Release with one function, which a Cron definition calls. -/
def cron_release (schedule : CronSchedule) : ReleaseManifestV1 where
  release_id := ⟨.from_nat 1⟩
  project_id := ⟨.from_nat 2⟩
  build_id := ⟨.from_nat 3⟩
  created_at := 0
  runtime_version := ⟨"runku-js", by decide +kernel⟩
  artifact := ⟨.SafeEsmBundleV1, Vector.replicate 32 0, 1⟩
  function_contract_hash := Vector.replicate 32 0
  schema_contract_hash := Vector.replicate 32 0
  index_contract_hash := Vector.replicate 32 0
  functions := [⟨⟨.from_nat 4⟩, ⟨"tick", by decide +kernel⟩, .Mutation, .Internal, .None, .SafeV8,
    Vector.replicate 32 0, Vector.replicate 32 0, Vector.replicate 32 0, [.DbRead, .Variable "ZONE"]⟩]
  cron_definitions := [⟨⟨"job", by decide +kernel⟩, schedule, ⟨"tick", by decide +kernel⟩, .Null,
    .intro .nil nofun⟩]

/-- A Release with a Cron definition for every quarter of an hour is read back from its encoding. -/
theorem decode_quarterly_release :
    decode_release_manifest (MAGIC ++ (cron_release (.of_text "*/15 * * * *" (by decide +kernel))).body) =
      .ok (cron_release (.of_text "*/15 * * * *" (by decide +kernel))) :=
  (release_manifest_canonical.1 _ _).mpr (by decide +kernel)

end runku.releases
