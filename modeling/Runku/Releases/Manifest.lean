import Runku.Data.Digest
import Runku.Lib.ByteReader
import Runku.Releases.Cron
import Runku.Value.StoredDecode

/-! `runku-releases/src/manifest.rs`. -/

namespace runku.releases

open runku.core
open runku.value (TimestampMicros CanonicalValue encode_stored_value decode_stored_value)
open runku.data (Sha256Digest)
open bytes codec parser

def MANIFEST_FORMAT_VERSION : UInt8 := 1
def MANIFEST_MAX_BYTES : Nat := 1024 * 1024
def ARTIFACT_MAX_BYTES : Nat := 64 * 1024 * 1024
def MAX_FUNCTIONS : Nat := 1000
def MAX_CRON_DEFINITIONS : Nat := 128
def MAX_CRON_ARGS_BYTES : Nat := 64 * 1024
def MAX_CAPABILITIES : Nat := 32
def MAX_RUNTIME_VERSION_BYTES : Nat := 32
def MAX_SECRET_NAME_BYTES : Nat := 64

/-- The bytes `RM` and the format version. -/
def MAGIC : List UInt8 := [82, 77, 1]

inductive ArtifactFormat
  | SafeEsmBundleV1
  | NodeOciDescriptorV1
  | NodeEsmBundleV1
  | HybridOciArtifactV1
  deriving DecidableEq

inductive RuntimeClass
  | SafeV8
  | FullNode
  deriving DecidableEq

inductive FunctionType
  | Query
  | Mutation
  | Action
  deriving DecidableEq

inductive FunctionVisibility
  | Public
  | Internal
  deriving DecidableEq

inductive AuthPolicy
  | None
  | Optional
  | Guest
  | User
  | Service
  deriving DecidableEq

/-- A mediated platform capability, in the order in which a function lists its capabilities. -/
inductive Capability
  | DbRead
  | DbWrite
  | AuthRead
  | FunctionQuery
  | FunctionMutation
  | FunctionAction
  | NetworkHttps
  | SchedulerCreate
  | FileRead
  | FileWrite
  | Secret (name : String)
  | Variable (name : String)
  deriving DecidableEq

/-- The position of the variant. -/
def Capability.rank : Capability → Nat
  | .DbRead => 0
  | .DbWrite => 1
  | .AuthRead => 2
  | .FunctionQuery => 3
  | .FunctionMutation => 4
  | .FunctionAction => 5
  | .NetworkHttps => 6
  | .SchedulerCreate => 7
  | .FileRead => 8
  | .FileWrite => 9
  | .Secret _ => 10
  | .Variable _ => 11

/-- The name that a capability carries. -/
def Capability.name : Capability → String
  | .Secret name | .Variable name => name
  | _ => ""

instance : LinearOrder Capability :=
  LinearOrder.lift' (fun capability => toLex (capability.rank, capability.name)) fun a b h => by
    cases a <;> cases b <;> simp_all [Capability.rank, Capability.name]

/-- What follows the first of these texts that the value starts with. -/
def strip_any (value : List Char) (starts : List String) : Option (List Char) :=
  starts.findSome? fun start => start.toList.isPrefixOf? value

/-- The check every runtime version passes. -/
def RuntimeVersion.validate (value : String) : Except ReleaseError Unit :=
  if value ∈ ["runku-js", "runku-node", "runku-hybrid"] then .ok ()
  else
    match strip_any value.toList ["platform-js-", "runku-js-", "runku-node-", "runku-hybrid-"] with
    | none => .error .InvalidManifest
    | some suffix =>
      if (as_bytes value).length > MAX_RUNTIME_VERSION_BYTES ∨ suffix = [] ∨
          (as_bytes (String.ofList suffix)).length > 5 ∨ suffix.head? = some '0' ∨ !suffix.all Char.isDigit then
        .error .InvalidManifest
      else .ok ()

/-- The platform runtime version that an artifact requires. -/
structure RuntimeVersion where
  as_str : String
  valid : RuntimeVersion.validate as_str = .ok ()
  deriving DecidableEq

def RuntimeVersion.from_str (value : String) : Except ReleaseError RuntimeVersion :=
  match h : RuntimeVersion.validate value with
  | .ok () => .ok ⟨value, h⟩
  | .error error => .error error

structure ArtifactDescriptor where
  format : ArtifactFormat
  digest : Sha256Digest
  size_bytes : UInt64
  deriving DecidableEq

structure FunctionManifest where
  id : FunctionId
  name : FunctionName
  function_type : FunctionType
  visibility : FunctionVisibility
  auth_policy : AuthPolicy
  runtime_class : RuntimeClass
  implementation_hash : Sha256Digest
  arguments_contract_hash : Sha256Digest
  result_contract_hash : Sha256Digest
  capabilities : List Capability
  deriving DecidableEq

/-- A Cron definition compiled into a manifest. -/
structure CronDefinition where
  name : CronName
  schedule : CronSchedule
  function : FunctionName
  args : CanonicalValue
  args_sorted : args.Sorted
  deriving DecidableEq

structure ReleaseManifestV1 where
  release_id : ReleaseId
  project_id : ProjectId
  build_id : BuildId
  created_at : TimestampMicros
  runtime_version : RuntimeVersion
  artifact : ArtifactDescriptor
  function_contract_hash : Sha256Digest
  schema_contract_hash : Sha256Digest
  index_contract_hash : Sha256Digest
  functions : List FunctionManifest
  cron_definitions : List CronDefinition
  deriving DecidableEq

def capability_allowed : FunctionType → Capability → Bool
  | .Query, .DbRead | .Query, .AuthRead | .Query, .FunctionQuery | .Query, .Variable _ => true
  | .Query, _ => false
  | .Mutation, .DbRead | .Mutation, .DbWrite | .Mutation, .AuthRead | .Mutation, .FunctionQuery
  | .Mutation, .FunctionMutation | .Mutation, .SchedulerCreate | .Mutation, .Variable _ => true
  | .Mutation, _ => false
  | .Action, .AuthRead | .Action, .FunctionQuery | .Action, .FunctionMutation | .Action, .FunctionAction
  | .Action, .NetworkHttps | .Action, .SchedulerCreate | .Action, .FileRead | .Action, .FileWrite
  | .Action, .Secret _ | .Action, .Variable _ => true
  | .Action, _ => false

def valid_capability : Capability → Bool
  | .Secret name | .Variable name =>
    !name.isEmpty && (as_bytes name).length ≤ MAX_SECRET_NAME_BYTES &&
      (as_bytes name).all fun byte => is_ascii_alphanumeric byte || byte ∈ [95, 45, 46]
  | _ => true

def valid_configuration_name (name : String) : Bool :=
  match as_bytes name with
  | [] => false
  | first :: rest =>
    is_ascii_uppercase first && rest.all fun byte => is_ascii_uppercase byte || is_ascii_digit byte || byte = 95

/-- The loop over the capabilities of a function, with the one before. -/
def validate_capabilities (function_type : FunctionType) :
    Option Capability → List Capability → Except ReleaseError Unit
  | _, [] => .ok ()
  | previous, capability :: capabilities =>
    if previous.any (fun previous => previous ≥ capability) || !capability_allowed function_type capability ||
        !valid_capability capability then .error .InvalidManifest
    else validate_capabilities function_type (some capability) capabilities

/-- The loop over the functions, with the identities so far and the name before. -/
def validate_functions : List FunctionId → Option FunctionName → List FunctionManifest → Except ReleaseError Unit
  | _, _, [] => .ok ()
  | ids, previous, function :: functions =>
    if function.id ∈ ids ∨ previous.any (fun previous => previous.as_str ≥ function.name.as_str) ∨
        function.capabilities.length > MAX_CAPABILITIES then .error .InvalidManifest
    else do
      validate_capabilities function.function_type none function.capabilities
      validate_functions (function.id :: ids) (some function.name) functions

/-- The loop over the Cron definitions, with the name before. -/
def validate_cron_definitions (functions : List FunctionManifest) :
    Option CronName → List CronDefinition → Except ReleaseError Unit
  | _, [] => .ok ()
  | previous, cron :: definitions =>
    match functions.find? fun function => function.name = cron.function, encode_stored_value cron.args with
    | none, _ | _, .error _ => .error .InvalidManifest
    | some target, .ok args =>
      if previous.any (fun previous => previous ≥ cron.name) ∨ target.visibility ≠ .Internal ∨
          target.function_type = .Query ∨ args.length > MAX_CRON_ARGS_BYTES then .error .InvalidManifest
      else validate_cron_definitions functions (some cron.name) definitions

def ReleaseManifestV1.capabilities (manifest : ReleaseManifestV1) : List Capability :=
  manifest.functions.flatMap FunctionManifest.capabilities

/-- The runtimes that read Variables and Secrets by their configuration names. -/
def CONFIGURATION_RUNTIMES : List String := ["runku-js", "runku-node", "runku-hybrid"]

def STORAGE_RUNTIMES : List String :=
  ["runku-js-2", "runku-node-2", "runku-hybrid-2", "runku-js-3", "runku-node-3", "runku-hybrid-3", "runku-js",
    "runku-node", "runku-hybrid"]

/-- The loop stops at the first name that is not valid; Variables need a configuration runtime. -/
def validate_configuration_runtime (manifest : ReleaseManifestV1) : Except ReleaseError Unit :=
  if manifest.runtime_version.as_str ∈ CONFIGURATION_RUNTIMES then
    if manifest.capabilities.any fun
        | .Secret name | .Variable name => !valid_configuration_name name
        | _ => false
    then .error .InvalidManifest else .ok ()
  else if manifest.capabilities.any fun
      | .Variable _ => true
      | _ => false
    then .error .InvalidManifest else .ok ()

def ReleaseManifestV1.validate (manifest : ReleaseManifestV1) : Except ReleaseError Unit :=
  if manifest.artifact.size_bytes = 0 ∨ manifest.artifact.size_bytes.toNat > ARTIFACT_MAX_BYTES ∨
      manifest.functions = [] ∨ manifest.functions.length > MAX_FUNCTIONS ∨
      manifest.cron_definitions.length > MAX_CRON_DEFINITIONS then .error .LimitExceeded
  else do
    validate_functions [] none manifest.functions
    if manifest.capabilities.any (fun capability => capability ∈ [.FileRead, .FileWrite]) ∧
        manifest.runtime_version.as_str ∉ STORAGE_RUNTIMES then .error .InvalidManifest
    else do
      validate_configuration_runtime manifest
      validate_cron_definitions manifest.functions none manifest.cron_definitions

def push_u16 (value : Nat) : Except ReleaseError (List UInt8) :=
  if value < 2 ^ 16 then .ok (to_be_bytes 2 value) else .error .LimitExceeded

def push_u32 (value : Nat) : Except ReleaseError (List UInt8) :=
  if value < 2 ^ 32 then .ok (to_be_bytes 4 value) else .error .LimitExceeded

def push_text (value : String) : Except ReleaseError (List UInt8) :=
  concat [push_u16 (as_bytes value).length, .ok (as_bytes value)]

def artifact_format_tag : ArtifactFormat → UInt8
  | .SafeEsmBundleV1 => 1
  | .NodeOciDescriptorV1 => 2
  | .NodeEsmBundleV1 => 3
  | .HybridOciArtifactV1 => 4

def function_type_tag : FunctionType → UInt8
  | .Query => 1
  | .Mutation => 2
  | .Action => 3

def visibility_tag : FunctionVisibility → UInt8
  | .Public => 1
  | .Internal => 2

def auth_policy_tag : AuthPolicy → UInt8
  | .None => 1
  | .Optional => 2
  | .Guest => 3
  | .User => 4
  | .Service => 5

def runtime_class_tag : RuntimeClass → UInt8
  | .SafeV8 => 1
  | .FullNode => 2

def capability_tag : Capability → UInt8
  | .DbRead => 1
  | .DbWrite => 2
  | .AuthRead => 3
  | .FunctionQuery => 4
  | .FunctionMutation => 5
  | .FunctionAction => 6
  | .NetworkHttps => 7
  | .SchedulerCreate => 8
  | .FileRead => 10
  | .FileWrite => 11
  | .Secret _ => 9
  | .Variable _ => 12

def encode_capability (capability : Capability) : Except ReleaseError (List UInt8) :=
  match capability with
  | .Secret name | .Variable name => concat [.ok [capability_tag capability], push_text name]
  | _ => .ok [capability_tag capability]

def encode_function (function : FunctionManifest) : Except ReleaseError (List UInt8) :=
  concat ([push_text function.id.to_string, push_text function.name.as_str,
    .ok [function_type_tag function.function_type, visibility_tag function.visibility,
      auth_policy_tag function.auth_policy, runtime_class_tag function.runtime_class],
    .ok function.implementation_hash.toList, .ok function.arguments_contract_hash.toList,
    .ok function.result_contract_hash.toList, push_u16 function.capabilities.length] ++
    function.capabilities.map encode_capability)

def encode_cron_definition (cron : CronDefinition) : Except ReleaseError (List UInt8) :=
  match encode_stored_value cron.args with
  | .error _ => .error .InvalidManifest
  | .ok args =>
    concat [push_text cron.name.as_str, push_text cron.schedule.as_str, push_text cron.function.as_str,
      push_u32 args.length, .ok args]

def encode_release_manifest (manifest : ReleaseManifestV1) : Except ReleaseError (List UInt8) := do
  manifest.validate
  let output ← concat ([.ok MAGIC, push_text manifest.release_id.to_string, push_text manifest.project_id.to_string,
    push_text manifest.build_id.to_string, .ok (to_be_bytes 8 manifest.created_at.toUInt64.toNat),
    push_text manifest.runtime_version.as_str, .ok [artifact_format_tag manifest.artifact.format],
    .ok manifest.artifact.digest.toList, .ok (to_be_bytes 8 manifest.artifact.size_bytes.toNat),
    .ok manifest.function_contract_hash.toList, .ok manifest.schema_contract_hash.toList,
    .ok manifest.index_contract_hash.toList, push_u16 manifest.functions.length] ++
    manifest.functions.map encode_function ++ [push_u16 manifest.cron_definitions.length] ++
    manifest.cron_definitions.map encode_cron_definition)
  if output.length > MANIFEST_MAX_BYTES then .error .LimitExceeded else .ok output

def ReleaseManifestV1.digest (sha256 : List UInt8 → Sha256Digest) (manifest : ReleaseManifestV1) :
    Except ReleaseError Sha256Digest := do
  let encoded ← encode_release_manifest manifest
  return sha256 encoded

/-- A reader over the rest of the input. -/
abbrev Cursor := Parser ReleaseError UInt8

def Cursor.byte : Cursor UInt8 := parser.byte .InvalidManifest

def Cursor.u16 : Cursor Nat := word .InvalidManifest 2

def Cursor.u32 : Cursor Nat := word .InvalidManifest 4

def Cursor.u64 : Cursor UInt64 := do
  let value ← word .InvalidManifest 8
  return UInt64.ofNat value

def Cursor.i64 : Cursor TimestampMicros := do
  let value ← Cursor.u64
  return value.toInt64

def Cursor.text (maximum : Nat) : Cursor String := do
  let length ← Cursor.u16
  lift (if length > maximum then .error .LimitExceeded else .ok ())
  utf8 .InvalidManifest .InvalidManifest length

/-- The 32 bytes that were taken; there are as many. -/
def digest_of (taken : List UInt8) : Except ReleaseError Sha256Digest :=
  if h : taken.length = 32 then .ok ⟨taken.toArray, by simpa using h⟩ else .error .Internal

def Cursor.digest : Cursor Sha256Digest := do
  let taken ← take .InvalidManifest 32
  lift (digest_of taken)

def decode_artifact_format (tag : UInt8) : Except ReleaseError ArtifactFormat :=
  if tag = 1 then .ok .SafeEsmBundleV1
  else if tag = 2 then .ok .NodeOciDescriptorV1
  else if tag = 3 then .ok .NodeEsmBundleV1
  else if tag = 4 then .ok .HybridOciArtifactV1
  else .error .Unsupported

def decode_function_type (tag : UInt8) : Except ReleaseError FunctionType :=
  if tag = 1 then .ok .Query
  else if tag = 2 then .ok .Mutation
  else if tag = 3 then .ok .Action
  else .error .Unsupported

def decode_visibility (tag : UInt8) : Except ReleaseError FunctionVisibility :=
  if tag = 1 then .ok .Public
  else if tag = 2 then .ok .Internal
  else .error .Unsupported

def decode_auth_policy (tag : UInt8) : Except ReleaseError AuthPolicy :=
  if tag = 1 then .ok .None
  else if tag = 2 then .ok .Optional
  else if tag = 3 then .ok .Guest
  else if tag = 4 then .ok .User
  else if tag = 5 then .ok .Service
  else .error .Unsupported

def decode_runtime_class (tag : UInt8) : Except ReleaseError RuntimeClass :=
  if tag = 1 then .ok .SafeV8
  else if tag = 2 then .ok .FullNode
  else .error .Unsupported

/-- The capabilities without a name. -/
def decode_capability (tag : UInt8) : Except ReleaseError Capability :=
  if tag = 1 then .ok .DbRead
  else if tag = 2 then .ok .DbWrite
  else if tag = 3 then .ok .AuthRead
  else if tag = 4 then .ok .FunctionQuery
  else if tag = 5 then .ok .FunctionMutation
  else if tag = 6 then .ok .FunctionAction
  else if tag = 7 then .ok .NetworkHttps
  else if tag = 8 then .ok .SchedulerCreate
  else if tag = 10 then .ok .FileRead
  else if tag = 11 then .ok .FileWrite
  else .error .Unsupported

/-- An error of another parser, as this one reports it. -/
def invalid_manifest {ε α : Type} (result : Except ε α) : Except ReleaseError α :=
  result.mapError fun _ => .InvalidManifest

def Cursor.capability : Cursor Capability := do
  let tag ← Cursor.byte
  if tag = 9 then do
    let name ← Cursor.text MAX_SECRET_NAME_BYTES
    return .Secret name
  else if tag = 12 then do
    let name ← Cursor.text MAX_SECRET_NAME_BYTES
    return .Variable name
  else lift (decode_capability tag)

def Cursor.capabilities : Cursor (List Capability) := do
  let capability_count ← Cursor.u16
  lift (if capability_count > MAX_CAPABILITIES then .error .LimitExceeded else .ok ())
  many Cursor.capability capability_count

/-- An identifier behind its length. -/
def Cursor.id (PREFIX : String) : Cursor (ResourceId PREFIX) := do
  let text ← Cursor.text 64
  lift (invalid_manifest (ResourceId.from_str text))

def Cursor.function_name : Cursor FunctionName := do
  let text ← Cursor.text FunctionName.MAX_BYTES
  lift (invalid_manifest (FunctionName.from_str text))

def Cursor.function : Cursor FunctionManifest := do
  let id ← Cursor.id "fnc_"
  let name ← Cursor.function_name
  let type_tag ← Cursor.byte
  let function_type ← lift (decode_function_type type_tag)
  let tag ← Cursor.byte
  let visibility ← lift (decode_visibility tag)
  let policy_tag ← Cursor.byte
  let auth_policy ← lift (decode_auth_policy policy_tag)
  let class_tag ← Cursor.byte
  let runtime_class ← lift (decode_runtime_class class_tag)
  let implementation_hash ← Cursor.digest
  let arguments_contract_hash ← Cursor.digest
  let result_contract_hash ← Cursor.digest
  let capabilities ← Cursor.capabilities
  return { id, name, function_type, visibility, auth_policy, runtime_class, implementation_hash,
           arguments_contract_hash, result_contract_hash, capabilities }

def Cursor.schedule : Cursor CronSchedule := do
  let schedule_text ← Cursor.text 512
  let schedule ← lift (CronSchedule.from_str schedule_text)
  lift (if schedule.as_str ≠ schedule_text then .error .InvalidManifest else .ok schedule)

/-- Stored arguments, with the order that the decoder establishes; other encodings are refused. -/
def decode_args (args_bytes : List UInt8) : Except ReleaseError { args : CanonicalValue // args.Sorted } :=
  match h : decode_stored_value args_bytes with
  | .error _ => .error .InvalidManifest
  | .ok args =>
    match encode_stored_value args with
    | .error _ => .error .InvalidManifest
    | .ok encoded =>
      if encoded ≠ args_bytes then .error .InvalidManifest
      else .ok ⟨args, (runku.value.decode_stored_value_eq_ok h).1⟩

def Cursor.cron_definition : Cursor CronDefinition := do
  let text ← Cursor.text 64
  let name ← lift (invalid_manifest (CronName.from_str text))
  let schedule ← Cursor.schedule
  let function ← Cursor.function_name
  let args_length ← Cursor.u32
  lift (if args_length > MAX_CRON_ARGS_BYTES then .error .LimitExceeded else .ok ())
  let args_bytes ← take .InvalidManifest args_length
  let args ← lift (decode_args args_bytes)
  return ⟨name, schedule, function, args.val, args.property⟩

def decode_cron_definitions : Cursor (List CronDefinition) := do
  let count ← Cursor.u16
  lift (if count > MAX_CRON_DEFINITIONS then .error .LimitExceeded else .ok ())
  many Cursor.cron_definition count

def Cursor.functions : Cursor (List FunctionManifest) := do
  let function_count ← Cursor.u16
  lift (if function_count = 0 ∨ function_count > MAX_FUNCTIONS then .error .LimitExceeded else .ok ())
  many Cursor.function function_count

def Cursor.artifact : Cursor ArtifactDescriptor := do
  let tag ← Cursor.byte
  let format ← lift (decode_artifact_format tag)
  let digest ← Cursor.digest
  let size_bytes ← Cursor.u64
  return { format, digest, size_bytes }

def Cursor.runtime_version : Cursor RuntimeVersion := do
  let text ← Cursor.text MAX_RUNTIME_VERSION_BYTES
  lift (RuntimeVersion.from_str text)

def Cursor.manifest : Cursor ReleaseManifestV1 := do
  let release_id ← Cursor.id "rel_"
  let project_id ← Cursor.id "prj_"
  let build_id ← Cursor.id "bld_"
  let created_at ← Cursor.i64
  let runtime_version ← Cursor.runtime_version
  let artifact ← Cursor.artifact
  let function_contract_hash ← Cursor.digest
  let schema_contract_hash ← Cursor.digest
  let index_contract_hash ← Cursor.digest
  let functions ← Cursor.functions
  let cron_definitions ← decode_cron_definitions
  return { release_id, project_id, build_id, created_at, runtime_version, artifact, function_contract_hash,
           schema_contract_hash, index_contract_hash, functions, cron_definitions }

def decode_release_manifest (input : List UInt8) : Except ReleaseError ReleaseManifestV1 :=
  if input.length > MANIFEST_MAX_BYTES then .error .LimitExceeded
  else if input.length < MAGIC.length ∨ input.take 2 ≠ [82, 77] then .error .InvalidManifest
  else if input.getD 2 0 ≠ MANIFEST_FORMAT_VERSION then .error .Unsupported
  else do
    let (manifest, rest) ← Cursor.manifest.run (input.drop MAGIC.length)
    if !rest.isEmpty then .error .InvalidManifest
    else do
      manifest.validate
      return manifest

end runku.releases
