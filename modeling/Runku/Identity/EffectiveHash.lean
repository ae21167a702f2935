import Runku.Identity.Gateway

namespace runku.identity

open Std (ExtTreeSet)
open runku.core
open runku.value (TimestampMicros)
open runku.data (Sha256Digest)
open runku.releases (AuthPolicy FunctionVisibility)
open bytes fallible

@[simp]
theorem length_length_bytes (len : Nat) : (length_bytes len).length = 4 := by
  simp [length_bytes]

/-- A field shows where it ends. -/
theorem field_append_inj {a b s t : List UInt8} (ha : a.length < 2 ^ 32) (hb : b.length < 2 ^ 32)
    (h : field a ++ s = field b ++ t) : a = b ∧ s = t := by
  rw [field, field, List.append_assoc, List.append_assoc] at h
  obtain ⟨hlength, hrest⟩ := List.append_inj h (by simp)
  rw [length_bytes, length_bytes, if_pos ha, if_pos hb] at hlength
  exact List.append_inj hrest (to_be_bytes_inj ha hb hlength)

variable {s t : List UInt8}

theorem id_field_append_inj {PREFIX : String} {a b : ResourceId PREFIX} (hshort : (as_bytes PREFIX).length ≤ 4)
    (h : field (as_bytes a.to_string) ++ s = field (as_bytes b.to_string) ++ t) : a = b ∧ s = t := by
  have hlength : ∀ id : ResourceId PREFIX, (as_bytes id.to_string).length < 2 ^ 32 := by
    intro id
    rw [ResourceId.to_string, as_bytes_append, List.length_append, Ulid.length_as_bytes_to_string]
    omega
  obtain ⟨htext, hrest⟩ := field_append_inj (hlength a) (hlength b) h
  exact ⟨ResourceId.to_string_inj (as_bytes_inj htext), hrest⟩

theorem revision_append_inj {a b : UInt64}
    (h : to_be_bytes 8 a.toNat ++ s = to_be_bytes 8 b.toNat ++ t) : a = b ∧ s = t := by
  obtain ⟨hbytes, hrest⟩ := List.append_inj h (by simp)
  exact ⟨UInt64.toNat_inj.mp (to_be_bytes_inj a.toNat_lt b.toNat_lt hbytes), hrest⟩

theorem ApplicationScope.length_le (scope : ApplicationScope) : (as_bytes scope.as_str).length ≤ 64 := by
  have hvalid := scope.is_valid
  simp only [scope_text, Bool.and_eq_true, decide_eq_true_eq] at hvalid
  exact hvalid.1.1.1.1.2

theorem ApplicationScope.field_append_inj (a b : ApplicationScope) (s t : List UInt8)
    (h : a.field ++ s = b.field ++ t) : a = b ∧ s = t := by
  have hlength : ∀ scope : ApplicationScope, (as_bytes scope.as_str).length < 2 ^ 32 :=
    fun scope => lt_of_le_of_lt scope.length_le (by decide)
  obtain ⟨htext, hrest⟩ := identity.field_append_inj (hlength a) (hlength b) h
  refine ⟨?_, hrest⟩
  have hstr := as_bytes_inj htext
  cases a
  cases b
  simp_all

/-- Scopes are short, so their fields start with a zero byte and three bytes more. -/
theorem ApplicationScope.field_eq (scope : ApplicationScope) : ∃ a b c rest, scope.field = 0 :: a :: b :: c :: rest := by
  have hhead : ∀ n < 65, to_be_bytes 4 n = [0, 0, 0, UInt8.ofNat n] := by decide
  have hlength := scope.length_le
  refine ⟨0, 0, UInt8.ofNat (as_bytes scope.as_str).length, as_bytes scope.as_str, ?_⟩
  rw [ApplicationScope.field, identity.field, length_bytes, if_pos (by omega), hhead _ (by omega)]
  rfl

theorem PrincipalKind.byte_inj {a b : PrincipalKind} (h : a.byte = b.byte) : a = b := by
  cases a <;> cases b <;> first | rfl | exact absurd h (by decide)

theorem PrincipalKind.byte_ne_zero (kind : PrincipalKind) : kind.byte ≠ 0 := by
  cases kind <;> decide

theorem CredentialKind.byte_inj {a b : CredentialKind} (h : a.byte = b.byte) : a = b := by
  cases a <;> cases b <;> first | rfl | exact absurd h (by decide)

/-- The principal's bytes do not look like one more scope of the application. -/
theorem principal_bytes_ne_field (principal : PrincipalContext) (scope : ApplicationScope) (rest : List UInt8) :
    principal_bytes principal ≠ scope.field ++ rest := by
  obtain ⟨a, b, c, tail, hfield⟩ := scope.field_eq
  rw [hfield]
  cases principal with
  | None => exact fun h => by cases h
  | Authenticated principal => exact fun h => principal.kind.byte_ne_zero (List.cons.inj h).1

/-- The count in front of the scopes is not needed to read them: it saturates, but what follows shows where they end. -/
theorem scopes_append_inj {a b : ScopeSet} (hs : ∀ (scope : ApplicationScope) u, s ≠ scope.field ++ u)
    (ht : ∀ (scope : ApplicationScope) u, t ≠ scope.field ++ u) (h : scopes a ++ s = scopes b ++ t) : a = b ∧ s = t := by
  rw [scopes, scopes, List.append_assoc, List.append_assoc] at h
  obtain ⟨_, hrest⟩ := List.append_inj h (by simp)
  obtain ⟨hlist, htail⟩ := flatMap_delimited_inj ApplicationScope.field_append_inj hs ht hrest
  exact ⟨ExtTreeSet.toList_inj.mp hlist, htail⟩

/-- The assurance that the kind of the credential gives. -/
def ApplicationContext.Assured (application : ApplicationContext) : Prop :=
  application.assurance = application.credential_kind.assurance

variable {p q : PrincipalContext}

/-- The hashed bytes determine the application. -/
theorem application_bytes_append_inj {a b : Option ApplicationContext}
    (ha : ∀ application ∈ a, application.Assured) (hb : ∀ application ∈ b, application.Assured)
    (h : application_bytes a ++ principal_bytes p = application_bytes b ++ principal_bytes q) :
    a = b ∧ principal_bytes p = principal_bytes q := by
  cases a with
  | none =>
    cases b with
    | none => exact ⟨rfl, (List.cons.inj h).2⟩
    | some b => exact absurd (List.cons.inj h).1 (by decide)
  | some a =>
    cases b with
    | none => exact absurd (List.cons.inj h).1 (by decide)
    | some b =>
      have hassured : a.Assured := ha a rfl
      have hassured' : b.Assured := hb b rfl
      rw [application_bytes, application_bytes] at h
      simp only [List.append_assoc, List.cons_append, List.cons.injEq, true_and] at h
      obtain ⟨hclient, hfields⟩ := id_field_append_inj (by decide) h
      obtain ⟨hcredential, hfields⟩ := id_field_append_inj (by decide) hfields
      obtain ⟨hkind, hfields⟩ := List.cons.inj hfields
      obtain ⟨hrevision, hfields⟩ := revision_append_inj hfields
      obtain ⟨hscopes, hprincipal⟩ :=
        scopes_append_inj (principal_bytes_ne_field p) (principal_bytes_ne_field q) hfields
      refine ⟨?_, hprincipal⟩
      have hkinds := CredentialKind.byte_inj hkind
      rw [ApplicationContext.Assured] at hassured hassured'
      cases a
      cases b
      simp_all

/-- What the hash covers of a principal. -/
def PrincipalContext.hashed : PrincipalContext → Option (PrincipalId × PrincipalKind × String × ScopeSet × UInt64)
  | .None => none
  | .Authenticated principal =>
    some (principal.id, principal.kind, principal.provider_id, principal.scopes, principal.mapping_revision)

/-- When the principal authenticated and when its evidence expires. -/
def PrincipalContext.lifetime : PrincipalContext → Option TimestampMicros × Option TimestampMicros
  | .None => (none, none)
  | .Authenticated principal => (principal.auth_time, principal.expires_at)

theorem AuthenticatedPrincipal.provider_length (principal : AuthenticatedPrincipal) :
    (as_bytes principal.provider_id).length < 2 ^ 32 := by
  have hvalid := principal.is_valid
  simp only [principal_valid, provider_text, Bool.and_eq_true, decide_eq_true_eq] at hvalid
  exact lt_of_le_of_lt hvalid.1.1.1.1.1.1.1.1.1.2 (by decide)

/-- The hashed bytes determine what is hashed of the principal. -/
theorem principal_bytes_inj (h : principal_bytes p = principal_bytes q) : p.hashed = q.hashed := by
  cases p with
  | None =>
    cases q with
    | None => rfl
    | Authenticated q => exact absurd (List.cons.inj h).1.symm q.kind.byte_ne_zero
  | Authenticated p =>
    cases q with
    | None => exact absurd (List.cons.inj h).1 p.kind.byte_ne_zero
    | Authenticated q =>
      obtain ⟨hkind, hfields⟩ := List.cons.inj h
      obtain ⟨hid, hfields⟩ := List.append_inj hfields (by simp)
      obtain ⟨hprovider, hfields⟩ := field_append_inj p.provider_length q.provider_length hfields
      obtain ⟨hrevision, hfields⟩ := revision_append_inj hfields
      have hend : ∀ (scope : ApplicationScope) (u : List UInt8), [] ≠ scope.field ++ u := by
        intro scope u
        obtain ⟨a, b, c, tail, hfield⟩ := scope.field_eq
        rw [hfield]
        exact nofun
      have hscopes : p.scopes = q.scopes := by
        rw [← List.append_nil (scopes p.scopes), ← List.append_nil (scopes q.scopes)] at hfields
        exact (scopes_append_inj hend hend hfields).1
      rw [PrincipalContext.hashed, PrincipalContext.hashed, Vector.toList_inj.mp hid, PrincipalKind.byte_inj hkind,
        as_bytes_inj hprovider, hscopes, hrevision]

theorem identity_bytes_inj {a b : Option ApplicationContext}
    (ha : ∀ application ∈ a, application.Assured) (hb : ∀ application ∈ b, application.Assured)
    (h : identity_bytes a p = identity_bytes b q) : a = b ∧ p.hashed = q.hashed := by
  obtain ⟨hsame, hprincipal⟩ := application_bytes_append_inj ha hb (List.append_cancel_left h)
  exact ⟨hsame, principal_bytes_inj hprincipal⟩

/-- A Function sees of a principal what is hashed and the two times. -/
theorem PrincipalContext.wire_eq_iff (hhashed : p.hashed = q.hashed) : p.wire = q.wire ↔ p.lifetime = q.lifetime := by
  have htime : Function.Injective fun time : TimestampMicros => toString time.toInt :=
    fun _ _ h => Int64.toInt_inj.mp (text.toString_int_inj h)
  cases p with
  | None =>
    cases q with
    | None => exact ⟨fun _ => rfl, fun _ => rfl⟩
    | Authenticated q => cases hhashed
  | Authenticated p =>
    cases q with
    | None => cases hhashed
    | Authenticated q =>
      simp only [hashed, Option.some.injEq, Prod.mk.injEq] at hhashed
      obtain ⟨hid, hkind, hprovider, hscopes, hrevision⟩ := hhashed
      simp only [wire, lifetime, Option.some.injEq, WirePrincipalContext.mk.injEq, Prod.mk.injEq, hid, hkind, hprovider,
        hscopes, hrevision, true_and, and_true]
      rw [(Option.map_injective htime).eq_iff, (Option.map_injective htime).eq_iff]

section
variable (hmac : Vector UInt8 32 → List UInt8 → Sha256Digest) (sha256 : List UInt8 → Sha256Digest)

/-- The identities of requests and of the calls nested in them, whatever the credential table holds at the time. -/
inductive Issued : RequestIdentity → Prop
  | authorized {table : CredentialTable} {crypto : KeyringCrypto} {scope : EnvironmentScope}
      {visibility : FunctionVisibility} {policy : AuthPolicy} {input : AuthInput} {now : TimestampMicros}
      {identity : RequestIdentity}
      (h : authorize hmac sha256 (resolve_key hmac table) crypto scope visibility policy input now = .ok identity) :
      Issued identity
  | nested {outer identity : RequestIdentity} {policy : AuthPolicy} {now : TimestampMicros} (houter : Issued outer)
      (h : outer.derive_for_nested sha256 policy now = .ok identity) : Issued identity

variable {hmac sha256}

theorem resolve_key_assured {table : CredentialTable} {scope : EnvironmentScope} {key : ParsedApplicationKey}
    {crypto : KeyringCrypto} {now : TimestampMicros} {application : ApplicationContext}
    (h : resolve_key hmac table scope key crypto now = .ok application) : application.Assured := by
  rw [resolve_key, ite_error_eq_ok_iff, bind_eq_ok_iff] at h
  obtain ⟨_, row, _, hrow⟩ := h
  cases row with
  | none => cases hrow
  | some row =>
    simp only [ite_error_eq_ok_iff, Except.ok.injEq] at hrow
    obtain ⟨_, _, _, _, _, rfl⟩ := hrow
    rfl

theorem resolve_application_assured {table : CredentialTable} {scope : EnvironmentScope}
    {key : Option ParsedApplicationKey} {crypto : KeyringCrypto} {now : TimestampMicros}
    {application : Option ApplicationContext}
    (h : resolve_application (resolve_key hmac table) crypto scope key now = .ok application) :
    ∀ context ∈ application, context.Assured := by
  cases key with
  | none =>
    cases h
    exact nofun
  | some key =>
    rw [resolve_application, map_eq_pure_bind, bind_eq_ok_iff] at h
    obtain ⟨context, hcontext, hsome⟩ := h
    cases hsome
    intro _ hmem
    obtain rfl := Option.mem_some.mp hmem
    exact resolve_key_assured hcontext

/-- Every issued identity carries the hash of its own application and principal. -/
theorem Issued.sound {identity : RequestIdentity} (h : Issued hmac sha256 identity) :
    identity.effective_hash = hash_identity sha256 identity.application identity.principal ∧
      ∀ application ∈ identity.application, application.Assured := by
  induction h with
  | authorized h =>
    rw [authorize, ite_error_eq_ok_iff] at h
    obtain ⟨_, h⟩ := h
    simp only [bind_eq_ok_iff, pure_eq_ok, Except.ok.injEq] at h
    obtain ⟨application, happlication, evidence, _, principal, _, visible, _, rfl⟩ := h
    exact ⟨rfl, resolve_application_assured happlication⟩
  | nested _ h ih =>
    rw [RequestIdentity.derive_for_nested, ite_error_eq_ok_iff] at h
    obtain ⟨_, h⟩ := h
    simp only [bind_eq_ok_iff, pure_eq_ok, Except.ok.injEq] at h
    obtain ⟨_, _, principal, _, rfl⟩ := h
    exact ⟨rfl, ih.2⟩

/-- Two requests or nested calls with one effective hash show their Functions the same authentication context exactly
    when their visible principals authenticated at the same time and expire at the same time. -/
theorem effective_hash_isolates_iff {a b : RequestIdentity} (ha : Issued hmac sha256 a) (hb : Issued hmac sha256 b)
    (hcollision : sha256 (identity_bytes a.application a.principal) = sha256 (identity_bytes b.application b.principal) →
      identity_bytes a.application a.principal = identity_bytes b.application b.principal)
    (hhash : a.effective_hash = b.effective_hash) :
    wire_auth a = wire_auth b ↔ a.principal.lifetime = b.principal.lifetime := by
  obtain ⟨hashed, hassured⟩ := ha.sound
  obtain ⟨hashed', hassured'⟩ := hb.sound
  rw [hashed, hashed'] at hhash
  obtain ⟨happlication, hprincipal⟩ := identity_bytes_inj hassured hassured' (hcollision hhash)
  rw [wire_auth, wire_auth, WireAuthContext.mk.injEq, happlication, PrincipalContext.wire_eq_iff hprincipal]
  exact and_iff_right rfl

end

def reads_notes : ScopeSet := ExtTreeSet.ofList [(⟨"notes:read", by decide +kernel⟩ : ApplicationScope)]

/-- A user who signed in at the given time. -/
def signed_in (auth_time : TimestampMicros)
    (h : principal_valid "accounts" reads_notes (some auth_time) none 1 = true) : AuthenticatedPrincipal :=
  ⟨Vector.replicate 32 0, .User, "accounts", reads_notes, none, some auth_time, none, 1, h⟩

def first_session : AuthenticatedPrincipal := signed_in 1 (by decide +kernel)

def second_session : AuthenticatedPrincipal := signed_in 2 (by decide +kernel)

/-- The identity of a request with this principal and without an application key. -/
def identity_of (principal : AuthenticatedPrincipal) : RequestIdentity :=
  ⟨none, .Authenticated principal, hash_identity data.checksum none (.Authenticated principal)⟩

theorem issued_identity_of {principal : AuthenticatedPrincipal} (hkind : principal.kind = .User)
    (hvalid : principal.validate_at 10 = .ok ()) :
    Issued (fun _ => data.checksum) data.checksum (identity_of principal) := by
  refine @Issued.authorized _ _ (fun _ _ => .ok none) (Vector.replicate 32 0) ⟨⟨.from_nat 0⟩, ⟨.from_nat 0⟩⟩ .Public .User
    ⟨.External, none, .Valid principal⟩ 10 _ ?_
  have hevidence : accept_evidence .External none 10 (.Valid principal) = .ok (some principal) := by
    simp only [accept_evidence, hvalid, hkind, ok_bind, reduceCtorEq, and_false, if_false]
    cases principal.bound_application <;> rfl
  simp [authorize, resolve_application, hevidence, compose_principal, apply_policy, PrincipalContext.kind, hkind,
    identity_of]

/-- One user with two sessions: one hash, and two authentication times in the Function's hands. -/
theorem sessions_share_a_hash : (Issued (fun _ => data.checksum) data.checksum (identity_of first_session) ∧
      Issued (fun _ => data.checksum) data.checksum (identity_of second_session)) ∧
      (identity_of first_session).effective_hash = (identity_of second_session).effective_hash ∧
      wire_auth (identity_of first_session) ≠ wire_auth (identity_of second_session) := by
  refine ⟨⟨issued_identity_of rfl rfl, issued_identity_of rfl rfl⟩, rfl, ?_⟩
  intro h
  have hwire : (PrincipalContext.Authenticated first_session).wire = (PrincipalContext.Authenticated second_session).wire :=
    congrArg WireAuthContext.principal h
  have hhashed : (PrincipalContext.Authenticated first_session).hashed =
      (PrincipalContext.Authenticated second_session).hashed := rfl
  have htimes := (PrincipalContext.wire_eq_iff hhashed).mp hwire
  exact absurd (congrArg Prod.fst htimes) (by decide)

/-- A token bound to an application and one that is not, of one sign-in, show the Function the same context. -/
theorem bound_token_is_isolated :
    wire_auth (identity_of first_session) =
      wire_auth (identity_of { first_session with bound_application := some ⟨.from_nat 1⟩ }) :=
  (effective_hash_isolates_iff (issued_identity_of rfl rfl) (issued_identity_of rfl rfl) (fun _ => rfl) rfl).mpr rfl

end runku.identity
