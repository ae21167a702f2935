import Runku.Releases.Manifest

/-!
`runku-identity/src/gateway.rs`, with the key resolution of `runku-identity-repository/src/adapter.rs`. HMAC-SHA-256 and
SHA-256 are parameters.
-/

namespace runku.identity

open Std (ExtTreeSet)
open runku.core
open runku.value (TimestampMicros)
open runku.data (Sha256Digest)
open runku.releases (AuthPolicy FunctionVisibility)
open bytes

inductive IdentityError
  | InvalidInput
  | InvalidCredential
  | ClientInactive
  | CredentialInactive
  | InvalidPrincipal
  | ApplicationMismatch
  | InternalFunctionDenied
  | PolicyDenied
  | Corruption
  | Unavailable
  deriving DecidableEq

abbrev ApplicationClientId := ResourceId "app_"
abbrev CredentialId := ResourceId "crd_"

/-- The texts that `ApplicationScope::from_str` accepts. -/
def scope_text (value : String) : Bool :=
  value ≠ "" && (as_bytes value).length ≤ 64 &&
    !value.toList.head?.any (· ∈ [':', '.', '-']) && !value.toList.getLast?.any (· ∈ [':', '.', '-']) &&
    !decide ([':', ':'] <:+: value.toList) &&
    (as_bytes value).all fun byte =>
      is_ascii_lowercase byte || is_ascii_digit byte || byte ∈ as_bytes ":.-"

structure ApplicationScope where
  as_str : String
  is_valid : scope_text as_str = true
  deriving DecidableEq

instance : LinearOrder ApplicationScope :=
  LinearOrder.lift' ApplicationScope.as_str fun a b h => by cases a; cases b; simp_all

abbrev ScopeSet := ExtTreeSet ApplicationScope

inductive ClientKind
  | Public
  | Confidential
  deriving DecidableEq

inductive ApplicationClientStatus
  | Active
  | Disabled
  deriving DecidableEq

inductive CredentialKind
  | Publishable
  | Secret
  deriving DecidableEq

inductive CredentialStatus
  | Active
  | Revoked
  | Deleted
  deriving DecidableEq

inductive ApplicationAssurance
  | Declared
  | Verified
  deriving DecidableEq

structure ApplicationContext where
  client_id : ApplicationClientId
  credential_id : CredentialId
  credential_kind : CredentialKind
  assurance : ApplicationAssurance
  scopes : ScopeSet
  configuration_revision : UInt64

structure ParsedApplicationKey where
  credential_id : CredentialId
  kind : CredentialKind
  key : String

/-- The operator-managed pepper. -/
abbrev KeyringCrypto := Vector UInt8 32

abbrev PrincipalId := Vector UInt8 32

def BASE64_URL : List Char :=
  "ABCDEFGHIJKLMNOPQRSTUVWXYZabcdefghijklmnopqrstuvwxyz0123456789-_".toList

/-- `URL_SAFE_NO_PAD.encode`: four characters for three bytes, and no padding. -/
def url_safe_no_pad : List UInt8 → List Char
  | a :: b :: c :: rest =>
    let word := a.toNat * 65536 + b.toNat * 256 + c.toNat
    (radix.digits 64 4 word).map (BASE64_URL.getD · 'A') ++ url_safe_no_pad rest
  | [a, b] => (radix.digits 64 3 (a.toNat * 1024 + b.toNat * 4)).map (BASE64_URL.getD · 'A')
  | [a] => (radix.digits 64 2 (a.toNat * 16)).map (BASE64_URL.getD · 'A')
  | [] => []

def PrincipalId.to_string (id : PrincipalId) : String :=
  "pri_v1_" ++ String.ofList (url_safe_no_pad id.toList)

inductive PrincipalKind
  | Guest
  | User
  | Service
  | System
  deriving DecidableEq

def MAX_PROVIDER_ID_BYTES : Nat := 80
def MAX_PRINCIPAL_SCOPES : Nat := 64

def provider_text (value : String) : Bool :=
  value ≠ "" && (as_bytes value).length ≤ MAX_PROVIDER_ID_BYTES &&
    !value.toList.head?.any (· ∈ ['.', '-']) && !value.toList.getLast?.any (· ∈ ['.', '-']) &&
    (as_bytes value).all fun byte => is_ascii_lowercase byte || is_ascii_digit byte || byte ∈ as_bytes ".-"

/-- What `AuthenticatedPrincipal::new` checks. -/
def principal_valid (provider_id : String) (scopes : ScopeSet) (auth_time expires_at : Option TimestampMicros)
    (mapping_revision : UInt64) : Bool :=
  provider_text provider_id && !scopes.isEmpty && scopes.size ≤ MAX_PRINCIPAL_SCOPES && mapping_revision ≠ 0 &&
    auth_time.all (0 ≤ ·) && expires_at.all (0 ≤ ·) &&
    match auth_time, expires_at with
    | some auth, some expiry => auth < expiry
    | _, _ => true

structure AuthenticatedPrincipal where
  id : PrincipalId
  kind : PrincipalKind
  provider_id : String
  scopes : ScopeSet
  bound_application : Option ApplicationClientId
  auth_time : Option TimestampMicros
  expires_at : Option TimestampMicros
  mapping_revision : UInt64
  is_valid : principal_valid provider_id scopes auth_time expires_at mapping_revision = true

def AuthenticatedPrincipal.new (id : PrincipalId) (kind : PrincipalKind) (provider_id : String) (scopes : ScopeSet)
    (bound_application : Option ApplicationClientId) (auth_time expires_at : Option TimestampMicros)
    (mapping_revision : UInt64) : Except IdentityError AuthenticatedPrincipal :=
  if h : principal_valid provider_id scopes auth_time expires_at mapping_revision = true then
    .ok ⟨id, kind, provider_id, scopes, bound_application, auth_time, expires_at, mapping_revision, h⟩
  else .error .InvalidPrincipal

def AuthenticatedPrincipal.validate_at (principal : AuthenticatedPrincipal) (now : TimestampMicros) :
    Except IdentityError Unit :=
  if now < 0 ∨ principal.auth_time.any (now < ·) ∨ principal.expires_at.any (· ≤ now) then .error .InvalidPrincipal
  else .ok ()

inductive PrincipalContext
  | None
  | Authenticated (principal : AuthenticatedPrincipal)

def PrincipalContext.kind : PrincipalContext → Option PrincipalKind
  | .None => none
  | .Authenticated principal => some principal.kind

/-- No principal needs no evidence. -/
def PrincipalContext.validate_at (context : PrincipalContext) (now : TimestampMicros) : Except IdentityError Unit :=
  match context with
  | .None => .ok ()
  | .Authenticated principal => principal.validate_at now

inductive PrincipalEvidence
  | Absent
  | Valid (principal : AuthenticatedPrincipal)
  | Invalid

inductive AuthBoundary
  | External
  | TrustedInternal
  deriving DecidableEq

structure AuthInput where
  boundary : AuthBoundary
  application_key : Option ParsedApplicationKey
  principal : PrincipalEvidence

structure RequestIdentity where
  application : Option ApplicationContext
  principal : PrincipalContext
  effective_hash : Sha256Digest

/-- `u32::try_from(len).unwrap_or(u32::MAX)`, as its bytes. -/
def length_bytes (len : Nat) : List UInt8 := to_be_bytes 4 (if len < 2 ^ 32 then len else 2 ^ 32 - 1)

def field (bytes : List UInt8) : List UInt8 := length_bytes bytes.length ++ bytes

def ApplicationScope.field (scope : ApplicationScope) : List UInt8 := identity.field (as_bytes scope.as_str)

def scopes (scopes : ScopeSet) : List UInt8 :=
  length_bytes scopes.size ++ scopes.toList.flatMap ApplicationScope.field

def CredentialKind.byte : CredentialKind → UInt8
  | .Publishable => 1
  | .Secret => 2

def PrincipalKind.byte : PrincipalKind → UInt8
  | .Guest => 1
  | .User => 2
  | .Service => 3
  | .System => 4

def application_bytes : Option ApplicationContext → List UInt8
  | none => [0]
  | some application =>
    1 :: (field (as_bytes application.client_id.to_string) ++ (field (as_bytes application.credential_id.to_string) ++
      (application.credential_kind.byte :: (to_be_bytes 8 application.configuration_revision.toNat ++
        scopes application.scopes))))

def principal_bytes : PrincipalContext → List UInt8
  | .None => [0]
  | .Authenticated principal =>
    principal.kind.byte :: (principal.id.toList ++ (field (as_bytes principal.provider_id) ++
      (to_be_bytes 8 principal.mapping_revision.toNat ++ scopes principal.scopes)))

/-- Everything `hash_identity` feeds to the digest. -/
def identity_bytes (application : Option ApplicationContext) (principal : PrincipalContext) : List UInt8 :=
  as_bytes "runku-request-identity-v1\x00" ++ (application_bytes application ++ principal_bytes principal)

section
variable (hmac : Vector UInt8 32 → List UInt8 → Sha256Digest) (sha256 : List UInt8 → Sha256Digest)

def hash_identity (application : Option ApplicationContext) (principal : PrincipalContext) : Sha256Digest :=
  sha256 (identity_bytes application principal)

def KeyringCrypto.digest (crypto : KeyringCrypto) (key : String) : Sha256Digest :=
  hmac crypto (as_bytes "runku-application-credential-v1\x00" ++ as_bytes key)

def KeyringCrypto.verify (crypto : KeyringCrypto) (key : String) (expected : Sha256Digest) : Bool :=
  KeyringCrypto.digest hmac crypto key = expected

def KeyringCrypto.derive_principal_id (crypto : KeyringCrypto) (provider_id issuer subject : String) :
    Except IdentityError PrincipalId :=
  if provider_id = "" ∨ 80 < (as_bytes provider_id).length ∨ issuer = "" ∨ 512 < (as_bytes issuer).length ∨
      subject = "" ∨ 512 < (as_bytes subject).length then
    .error .InvalidPrincipal
  else
    .ok (hmac crypto (as_bytes "runku-principal-id-v1\x00" ++
      [provider_id, issuer, subject].flatMap fun value =>
        to_be_bytes 4 (as_bytes value).length ++ as_bytes value))

/-- The row of a credential joined with its client and its Environment. -/
structure CredentialRow where
  client_id : ApplicationClientId
  client_kind : ClientKind
  client_status : ApplicationClientStatus
  scope_ceiling : ScopeSet
  credential_kind : CredentialKind
  credential_status : CredentialStatus
  digest : Sha256Digest
  scopes : ScopeSet
  expires_at : Option TimestampMicros
  configuration_revision : Int64

/-- What the join returns for a credential of an Environment. -/
abbrev CredentialTable := EnvironmentScope → CredentialId → Except IdentityError (Option CredentialRow)

def kind_matches : ClientKind → CredentialKind → Bool
  | .Public, .Publishable | .Confidential, .Secret => true
  | _, _ => false

def CredentialKind.assurance : CredentialKind → ApplicationAssurance
  | .Publishable => .Declared
  | .Secret => .Verified

def resolve_key (table : CredentialTable) (scope : EnvironmentScope) (key : ParsedApplicationKey)
    (crypto : KeyringCrypto) (now : TimestampMicros) : Except IdentityError ApplicationContext :=
  if now < 0 then .error .InvalidInput
  else do
    match ← table scope key.credential_id with
    | none => .error .InvalidCredential
    | some row =>
      if key.kind ≠ row.credential_kind ∨ !KeyringCrypto.verify hmac crypto key.key row.digest then
        .error .InvalidCredential
      else if row.client_status ≠ .Active then .error .ClientInactive
      else if row.credential_status ≠ .Active ∨ row.expires_at.any (· ≤ now) then .error .CredentialInactive
      else if ¬(row.scopes.toList.all (row.scope_ceiling.contains ·)) ∨
          !kind_matches row.client_kind row.credential_kind then
        .error .Corruption
      else if row.configuration_revision < 0 then .error .Corruption
      else
        .ok ⟨row.client_id, key.credential_id, row.credential_kind, row.credential_kind.assurance, row.scopes,
          row.configuration_revision.toUInt64⟩

def apply_policy (policy : AuthPolicy) (principal : PrincipalContext) (boundary : AuthBoundary) :
    Except IdentityError PrincipalContext :=
  match policy with
  | .None => .ok .None
  | .Optional => .ok principal
  | .Guest =>
    if principal.kind ∈ [some .Guest, some .User, some .Service] then .ok principal else .error .PolicyDenied
  | .User => if principal.kind = some .User then .ok principal else .error .PolicyDenied
  | .Service =>
    if principal.kind = some .Service then .ok principal
    else if boundary = .TrustedInternal ∧ principal.kind = some .System then .ok principal
    else .error .PolicyDenied

def service_principal (crypto : KeyringCrypto) (application : ApplicationContext) :
    Except IdentityError AuthenticatedPrincipal := do
  let id ← KeyringCrypto.derive_principal_id hmac crypto "runku-keyring" "application-client"
    application.client_id.to_string
  AuthenticatedPrincipal.new id .Service "runku-keyring" application.scopes (some application.client_id) none none
    application.configuration_revision

abbrev ApplicationCredentialResolver :=
  EnvironmentScope → ParsedApplicationKey → KeyringCrypto → TimestampMicros →
    Except IdentityError ApplicationContext

/-- The context of the key that came with the request, if one came. -/
def resolve_application (resolver : ApplicationCredentialResolver) (crypto : KeyringCrypto) (scope : EnvironmentScope)
    (key : Option ParsedApplicationKey) (now : TimestampMicros) : Except IdentityError (Option ApplicationContext) :=
  match key with
  | some key => some <$> resolver scope key crypto now
  | none => .ok none

/-- The verified principal that came with the request, if one came. -/
def accept_evidence (boundary : AuthBoundary) (application : Option ApplicationContext) (now : TimestampMicros) :
    PrincipalEvidence → Except IdentityError (Option AuthenticatedPrincipal)
  | .Absent => .ok none
  | .Invalid => .error .InvalidPrincipal
  | .Valid principal => do
    principal.validate_at now
    if boundary = .External ∧ principal.kind = .System then .error .InvalidPrincipal
    else
      match principal.bound_application, application with
      | some expected, some application =>
        if expected ≠ application.client_id then .error .ApplicationMismatch else .ok (some principal)
      | _, _ => .ok (some principal)

/-- A secret key without other evidence stands for the service that holds it. -/
def compose_principal (crypto : KeyringCrypto) (evidence : Option AuthenticatedPrincipal)
    (application : Option ApplicationContext) : Except IdentityError PrincipalContext :=
  match evidence, application with
  | some principal, _ => .ok (.Authenticated principal)
  | none, some application =>
    if application.credential_kind = .Secret then
      .Authenticated <$> service_principal hmac crypto application
    else .ok .None
  | none, none => .ok .None

def authorize (resolver : ApplicationCredentialResolver) (crypto : KeyringCrypto) (scope : EnvironmentScope)
    (visibility : FunctionVisibility) (policy : AuthPolicy) (input : AuthInput) (now : TimestampMicros) :
    Except IdentityError RequestIdentity :=
  if visibility = .Internal ∧ input.boundary = .External then .error .InternalFunctionDenied
  else do
    let application ← resolve_application resolver crypto scope input.application_key now
    let evidence ← accept_evidence input.boundary application now input.principal
    let principal ← compose_principal hmac crypto evidence application
    let visible_principal ← apply_policy policy principal input.boundary
    return ⟨application, visible_principal, hash_identity sha256 application visible_principal⟩

/-- The identity that a nested Function of the given policy sees. -/
def RequestIdentity.derive_for_nested (identity : RequestIdentity) (policy : AuthPolicy) (now : TimestampMicros) :
    Except IdentityError RequestIdentity :=
  if now < 0 then .error .InvalidPrincipal
  else do
    identity.principal.validate_at now
    let principal ← apply_policy policy identity.principal .TrustedInternal
    return ⟨identity.application, principal, hash_identity sha256 identity.application principal⟩

end

structure WireApplicationContext where
  client_id : String
  credential_id : String
  assurance : String
  scopes : List String
  configuration_revision : String
  deriving DecidableEq

structure WirePrincipalContext where
  id : String
  kind : String
  provider_id : String
  scopes : List String
  auth_time : Option String
  expires_at : Option String
  mapping_revision : String
  deriving DecidableEq

structure WireAuthContext where
  application : Option WireApplicationContext
  principal : Option WirePrincipalContext
  deriving DecidableEq

def ApplicationAssurance.text : ApplicationAssurance → String
  | .Declared => "declared"
  | .Verified => "verified"

def PrincipalKind.text : PrincipalKind → String
  | .Guest => "guest"
  | .User => "user"
  | .Service => "service"
  | .System => "system"

def ApplicationContext.wire (application : ApplicationContext) : WireApplicationContext where
  client_id := application.client_id.to_string
  credential_id := application.credential_id.to_string
  assurance := application.assurance.text
  scopes := application.scopes.toList.map ApplicationScope.as_str
  configuration_revision := toString application.configuration_revision.toNat

def PrincipalContext.wire : PrincipalContext → Option WirePrincipalContext
  | .None => none
  | .Authenticated principal => some {
      id := PrincipalId.to_string principal.id
      kind := principal.kind.text
      provider_id := principal.provider_id
      scopes := principal.scopes.toList.map ApplicationScope.as_str
      auth_time := principal.auth_time.map fun time => toString time.toInt
      expires_at := principal.expires_at.map fun time => toString time.toInt
      mapping_revision := toString principal.mapping_revision.toNat }

/-- `runku-runtime/src/worker.rs`: the context handed to a Function with `auth:read`. -/
def wire_auth (identity : RequestIdentity) : WireAuthContext :=
  ⟨identity.application.map ApplicationContext.wire, identity.principal.wire⟩

end runku.identity
