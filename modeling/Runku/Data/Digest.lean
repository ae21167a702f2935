import Mathlib.Data.UInt
import Runku.Data.Batch
import Runku.Lib.Codec

namespace runku.data

open runku.core runku.value bytes codec fallible

/-- A SHA-256 output. -/
abbrev Sha256Digest := Vector UInt8 32

/-- The sum of the bytes, a hash to run the model with. -/
def checksum (input : List UInt8) : Sha256Digest := Vector.replicate 32 input.sum

def hash_count (count : Nat) : Except StoreError (List UInt8) :=
  if count < 2 ^ 32 then .ok (to_be_bytes 4 count) else .error .LimitExceeded

/-- The bytes behind their length. -/
def hash_bytes (value : List UInt8) : Except StoreError (List UInt8) :=
  concat [hash_count value.length, .ok value]

def hash_text (value : String) : Except StoreError (List UInt8) := hash_bytes (as_bytes value)

def hash_id {PREFIX : String} (id : ResourceId PREFIX) : Except StoreError (List UInt8) :=
  hash_text id.to_string

/-- The eight bytes of a revision. -/
def hash_u64 (value : UInt64) : Except StoreError (List UInt8) := .ok (to_be_bytes 8 value.toNat)

/-- The stored encoding of a value. -/
def hash_value (value : CanonicalValue) : Except StoreError (List UInt8) :=
  encode_value value >>= hash_bytes

/-- A presence byte, followed by what is present. -/
def hash_option {α : Type} (hash : α → Except StoreError (List UInt8)) : Option α → Except StoreError (List UInt8)
  | some value => concat [.ok [1], hash value]
  | none => .ok [0]

def hash_expected : ExpectedRevision → Except StoreError (List UInt8)
  | .Absent => .ok [0]
  | .Exact value => concat [.ok [1], hash_u64 value]

/-- A list behind its count. -/
def hash_list {α : Type} (hash : α → Except StoreError (List UInt8)) (items : List α) :
    Except StoreError (List UInt8) :=
  concat (hash_count items.length :: items.map hash)

def DocumentReadAssertion.hash (assertion : DocumentReadAssertion) : Except StoreError (List UInt8) :=
  concat [hash_id assertion.table_id, hash_id assertion.document_id,
    hash_option hash_u64 assertion.observed_revision]

def DocumentMutation.hash : DocumentMutation → Except StoreError (List UInt8)
  | .Upsert table_id document_id expected value =>
    concat [.ok [0], hash_id table_id, hash_id document_id, hash_expected expected, hash_value value]
  | .Delete table_id document_id expected_revision =>
    concat [.ok [1], hash_id table_id, hash_id document_id, hash_u64 expected_revision]

def IndexMutation.hash : IndexMutation → Except StoreError (List UInt8)
  | .Put index_id key table_id document_id document_revision =>
    concat [.ok [0], hash_id index_id, hash_bytes key.as_bytes, hash_id table_id, hash_id document_id,
      hash_u64 document_revision]
  | .Delete index_id key document_id =>
    concat [.ok [1], hash_id index_id, hash_bytes key.as_bytes, hash_id document_id]

def OutboxAppend.hash (event : OutboxAppend) : Except StoreError (List UInt8) :=
  concat [hash_id event.event_id, hash_value event.payload]

def ScheduledInvocationInsert.hash (schedule : ScheduledInvocationInsert) : Except StoreError (List UInt8) :=
  concat [hash_id schedule.id, hash_text schedule.pinned_code.to_string,
    hash_text schedule.function.as_str, hash_value schedule.args,
    hash_u64 schedule.execute_at.toUInt64, hash_option hash_text schedule.idempotency_key]

/-- The optional trailer; an absent context contributes nothing. -/
def hash_intent_context : Option (List UInt8) → Except StoreError (List UInt8)
  | some context => concat [hash_text "RUNKU_COMMIT_INTENT_CONTEXT_V1", hash_bytes context]
  | none => .ok []

/-- Everything fed to the hash. -/
def CommitBatch.digest_input (batch : CommitBatch) : Except StoreError (List UInt8) :=
  concat [.ok (as_bytes "RUNKU_COMMIT_BATCH_V1"), hash_id batch.scope.project_id,
    hash_id batch.scope.environment_id, hash_list DocumentReadAssertion.hash batch.reads,
    hash_list DocumentMutation.hash batch.documents, hash_list IndexMutation.hash batch.indexes,
    hash_list OutboxAppend.hash batch.outbox, hash_list ScheduledInvocationInsert.hash batch.schedules,
    hash_intent_context batch.intent_context]

def CommitBatch.digest (sha256 : List UInt8 → Sha256Digest) (batch : CommitBatch) :
    Except StoreError Sha256Digest := do
  batch.validate
  let input ← batch.digest_input
  return sha256 input

theorem hash_count_eq_ok_iff {count : Nat} {x : List UInt8} :
    hash_count count = .ok x ↔ count < 256 ^ 4 ∧ x = to_be_bytes 4 count := by
  unfold hash_count
  split <;> rename_i h <;> constructor
  · intro hx
    exact ⟨h, (Except.ok.inj hx).symm⟩
  · rintro ⟨_, rfl⟩
    rfl
  · intro hx
    cases hx
  · intro hx
    exact absurd hx.1 h

theorem hash_count_delimits : Delimits hash_count Eq := by
  refine .of_width (n := 4) ?_ ?_
  · intro count x h
    simp [(hash_count_eq_ok_iff.mp h).2]
  · intro a b x ha hb
    obtain ⟨hlt, rfl⟩ := hash_count_eq_ok_iff.mp ha
    obtain ⟨hlt', hbytes⟩ := hash_count_eq_ok_iff.mp hb
    exact to_be_bytes_inj hlt hlt' hbytes

/-- A length prefix delimits the bytes after it. -/
theorem hash_bytes_delimits : Delimits hash_bytes Eq := by
  intro a b x y s t ha hb hxy
  obtain ⟨hlen, v, v', hv, hv', hrest⟩ := hash_count_delimits.peel ha hb hxy
  simp only [concat, fallible.ok_bind, fallible.pure_eq_ok, List.append_nil, Except.ok.injEq] at hv hv'
  subst hv hv'
  exact List.append_inj hrest hlen

theorem hash_text_delimits : Delimits hash_text Eq :=
  (hash_bytes_delimits.comap as_bytes).mono fun _ _ => as_bytes_inj

theorem hash_id_delimits {PREFIX : String} : Delimits (fun id : ResourceId PREFIX => hash_id id) Eq :=
  (hash_text_delimits.comap ResourceId.to_string).mono fun _ _ => ResourceId.to_string_inj

theorem hash_u64_delimits : Delimits hash_u64 Eq := by
  refine .of_width (n := 8) ?_ ?_
  · intro value x h
    cases h
    simp
  · intro a b x ha hb
    have hbytes := (Except.ok.inj ha).trans (Except.ok.inj hb).symm
    exact UInt64.toNat_inj.mp (to_be_bytes_inj a.toNat_lt b.toNat_lt hbytes)

theorem hash_value_delimits : Delimits hash_value fun a b => encode_value a = encode_value b := by
  intro a b x y s t ha hb hxy
  obtain ⟨u, hu, hx⟩ := fallible.bind_eq_ok_iff.mp ha
  obtain ⟨u', hu', hy⟩ := fallible.bind_eq_ok_iff.mp hb
  obtain ⟨heq, hrest⟩ := hash_bytes_delimits hx hy hxy
  exact ⟨hu.trans (heq ▸ hu'.symm), hrest⟩

/-- A one-byte tag tells two alternatives apart. -/
theorem tag_delimits {α : Type} (tag : UInt8) :
    Delimits (fun _ : α => (.ok [tag] : Except StoreError (List UInt8))) fun _ _ => True :=
  .of_width (n := 1) (fun _ _ h => by rw [← Except.ok.inj h]; rfl) fun _ _ _ _ _ => trivial

theorem hash_option_delimits {α : Type} {hash : α → Except StoreError (List UInt8)}
    (h : Delimits hash Eq) : Delimits (hash_option hash) Eq := by
  intro a b x y s t ha hb hxy
  cases a with
  | none =>
    cases b with
    | none =>
      obtain rfl := (Except.ok.inj ha).symm.trans (Except.ok.inj hb)
      exact ⟨rfl, List.append_cancel_left hxy⟩
    | some b =>
      cases ha
      obtain ⟨u, v, hu, _, rfl⟩ := concat_cons_eq_ok_iff.mp hb
      cases hu
      simp at hxy
  | some a =>
    cases b with
    | none =>
      cases hb
      obtain ⟨u, v, hu, _, rfl⟩ := concat_cons_eq_ok_iff.mp ha
      cases hu
      simp at hxy
    | some b =>
      obtain ⟨⟨_, heq, _⟩, hrest⟩ := ((tag_delimits 1).cons (h.cons .nil)) ha hb hxy
      exact ⟨congrArg some heq, hrest⟩

theorem hash_expected_delimits : Delimits hash_expected Eq := by
  intro a b x y s t ha hb hxy
  let revision : ExpectedRevision → Option UInt64
    | .Absent => none
    | .Exact revision => some revision
  have hash_eq : ∀ e, hash_expected e = hash_option hash_u64 (revision e) := by rintro (_ | _) <;> rfl
  rw [hash_eq] at ha hb
  obtain ⟨heq, hrest⟩ := hash_option_delimits hash_u64_delimits ha hb hxy
  refine ⟨?_, hrest⟩
  cases a <;> cases b <;> simp_all [revision]

theorem hash_list_delimits {α : Type} {hash : α → Except StoreError (List UInt8)}
    {same : α → α → Prop} (h : Delimits hash same) : Delimits (hash_list hash) (List.Forall₂ same) :=
  h.counted hash_count_delimits

/-- The hash of a read assertion determines it. -/
theorem DocumentReadAssertion.hash_delimits : Delimits DocumentReadAssertion.hash Eq := by
  refine ((hash_id_delimits.comap DocumentReadAssertion.table_id).cons
    ((hash_id_delimits.comap DocumentReadAssertion.document_id).cons
      (((hash_option_delimits hash_u64_delimits).comap DocumentReadAssertion.observed_revision).cons
        .nil))).mono ?_
  rintro ⟨⟩ ⟨⟩ ⟨rfl, rfl, rfl, _⟩
  rfl

/-- Two document mutations that the digest does not tell apart. -/
def DocumentMutation.SameHash : DocumentMutation → DocumentMutation → Prop
  | .Upsert table_id document_id expected value, .Upsert table_id' document_id' expected' value' =>
    table_id = table_id' ∧ document_id = document_id' ∧ expected = expected' ∧
      encode_value value = encode_value value'
  | .Delete table_id document_id expected_revision, .Delete table_id' document_id' expected_revision' =>
    table_id = table_id' ∧ document_id = document_id' ∧ expected_revision = expected_revision'
  | _, _ => False

/-- Strings that start with different tags are different. -/
theorem tag_append_ne {tag tag' : UInt8} (htag : tag ≠ tag') {ps qs : List (Except StoreError (List UInt8))}
    {x y s t : List UInt8} (hx : concat (.ok [tag] :: ps) = .ok x) (hy : concat (.ok [tag'] :: qs) = .ok y)
    (hxy : x ++ s = y ++ t) : False := by
  obtain ⟨u, v, hu, _, rfl⟩ := concat_cons_eq_ok_iff.mp hx
  obtain ⟨u', v', hu', _, rfl⟩ := concat_cons_eq_ok_iff.mp hy
  cases hu
  cases hu'
  exact htag (List.cons.inj hxy).1

theorem DocumentMutation.hash_delimits : Delimits DocumentMutation.hash DocumentMutation.SameHash := by
  -- One record encoder for each constructor, over the constructor's arguments.
  have hupsert := (@tag_delimits (TableId × DocumentId × ExpectedRevision × CanonicalValue) 0).cons
    ((hash_id_delimits.comap fun p => p.1).cons ((hash_id_delimits.comap fun p => p.2.1).cons
      ((hash_expected_delimits.comap fun p => p.2.2.1).cons
        ((hash_value_delimits.comap fun p => p.2.2.2).cons .nil))))
  have hdelete := (@tag_delimits (TableId × DocumentId × UInt64) 1).cons
    ((hash_id_delimits.comap fun p => p.1).cons ((hash_id_delimits.comap fun p => p.2.1).cons
      ((hash_u64_delimits.comap fun p => p.2.2).cons .nil)))
  intro a b x y s t ha hb hxy
  cases a with
  | Upsert table_id document_id expected value =>
    cases b with
    | Upsert table_id' document_id' expected' value' =>
      obtain ⟨⟨_, h₁, h₂, h₃, h₄, _⟩, hrest⟩ := @hupsert (table_id, document_id, expected, value)
        (table_id', document_id', expected', value') x y s t ha hb hxy
      exact ⟨⟨h₁, h₂, h₃, h₄⟩, hrest⟩
    | Delete => exact (tag_append_ne (by decide) ha hb hxy).elim
  | Delete table_id document_id expected_revision =>
    cases b with
    | Upsert => exact (tag_append_ne (by decide) ha hb hxy).elim
    | Delete table_id' document_id' expected_revision' =>
      obtain ⟨⟨_, h₁, h₂, h₃, _⟩, hrest⟩ := @hdelete (table_id, document_id, expected_revision)
        (table_id', document_id', expected_revision') x y s t ha hb hxy
      exact ⟨⟨h₁, h₂, h₃⟩, hrest⟩

theorem IndexMutation.hash_delimits : Delimits IndexMutation.hash Eq := by
  have hkey : Delimits (fun key : IndexKey => hash_bytes key.as_bytes) Eq :=
    (hash_bytes_delimits.comap IndexKey.as_bytes).mono fun _ _ => IndexKey.as_bytes_inj
  have hput := (@tag_delimits (IndexId × IndexKey × TableId × DocumentId × UInt64) 0).cons
    ((hash_id_delimits.comap fun p => p.1).cons ((hkey.comap fun p => p.2.1).cons
      ((hash_id_delimits.comap fun p => p.2.2.1).cons ((hash_id_delimits.comap fun p => p.2.2.2.1).cons
        ((hash_u64_delimits.comap fun p => p.2.2.2.2).cons .nil)))))
  have hdelete := (@tag_delimits (IndexId × IndexKey × DocumentId) 1).cons
    ((hash_id_delimits.comap fun p => p.1).cons ((hkey.comap fun p => p.2.1).cons
      ((hash_id_delimits.comap fun p => p.2.2).cons .nil)))
  intro a b x y s t ha hb hxy
  cases a with
  | Put index_id key table_id document_id revision =>
    cases b with
    | Put index_id' key' table_id' document_id' revision' =>
      obtain ⟨⟨_, h₁, h₂, h₃, h₄, h₅, _⟩, hrest⟩ := @hput (index_id, key, table_id, document_id, revision)
        (index_id', key', table_id', document_id', revision') x y s t ha hb hxy
      simp only at h₁ h₂ h₃ h₄ h₅
      exact ⟨by rw [h₁, h₂, h₃, h₄, h₅], hrest⟩
    | Delete => exact (tag_append_ne (by decide) ha hb hxy).elim
  | Delete index_id key document_id =>
    cases b with
    | Put => exact (tag_append_ne (by decide) ha hb hxy).elim
    | Delete index_id' key' document_id' =>
      obtain ⟨⟨_, h₁, h₂, h₃, _⟩, hrest⟩ := @hdelete (index_id, key, document_id)
        (index_id', key', document_id') x y s t ha hb hxy
      simp only at h₁ h₂ h₃
      exact ⟨by rw [h₁, h₂, h₃], hrest⟩

/-- Two outbox events that the digest does not tell apart. -/
def OutboxAppend.SameHash (a b : OutboxAppend) : Prop :=
  a.event_id = b.event_id ∧ encode_value a.payload = encode_value b.payload

theorem OutboxAppend.hash_delimits : Delimits OutboxAppend.hash OutboxAppend.SameHash :=
  ((hash_id_delimits.comap OutboxAppend.event_id).cons
    ((hash_value_delimits.comap OutboxAppend.payload).cons .nil)).mono fun _ _ h => ⟨h.1, h.2.1⟩

/-- Two scheduled invocations that the digest does not tell apart. -/
def ScheduledInvocationInsert.SameHash (a b : ScheduledInvocationInsert) : Prop :=
  a.id = b.id ∧ a.pinned_code = b.pinned_code ∧ a.function = b.function ∧
    encode_value a.args = encode_value b.args ∧ a.execute_at = b.execute_at ∧
    a.idempotency_key = b.idempotency_key

theorem ScheduledInvocationInsert.hash_delimits :
    Delimits ScheduledInvocationInsert.hash ScheduledInvocationInsert.SameHash := by
  have hrecord := (hash_id_delimits.comap ScheduledInvocationInsert.id).cons
    ((hash_text_delimits.comap fun p : ScheduledInvocationInsert => p.pinned_code.to_string).cons
      ((hash_text_delimits.comap fun p : ScheduledInvocationInsert => p.function.as_str).cons
        ((hash_value_delimits.comap ScheduledInvocationInsert.args).cons
          ((hash_u64_delimits.comap fun p : ScheduledInvocationInsert => p.execute_at.toUInt64).cons
            (((hash_option_delimits hash_text_delimits).comap
              ScheduledInvocationInsert.idempotency_key).cons .nil)))))
  intro a b x y s t ha hb hxy
  obtain ⟨⟨hid, hcode, hfunction, hargs, hat, hidempotency, _⟩, hrest⟩ := hrecord ha hb hxy
  have hat : a.execute_at = b.execute_at := by
    rw [← Int64.toInt64_toUInt64 a.execute_at, hat, Int64.toInt64_toUInt64]
  exact ⟨⟨hid, PinnedCode.to_string_inj hcode, FunctionName.as_str_inj hfunction, hargs,
    hat, hidempotency⟩, hrest⟩

/-- Two batches that agree on everything the digest covers. -/
structure CommitBatch.SameIntent (a b : CommitBatch) : Prop where
  scope : a.scope = b.scope
  reads : a.reads = b.reads
  documents : List.Forall₂ DocumentMutation.SameHash a.documents b.documents
  indexes : a.indexes = b.indexes
  outbox : List.Forall₂ OutboxAppend.SameHash a.outbox b.outbox
  schedules : List.Forall₂ ScheduledInvocationInsert.SameHash a.schedules b.schedules
  intent_context : a.intent_context = b.intent_context

/-- The hashed bytes determine the context. -/
theorem hash_intent_context_inj {a b : Option (List UInt8)} {x : List UInt8}
    (ha : hash_intent_context a = .ok x) (hb : hash_intent_context b = .ok x) : a = b := by
  have hnonempty : ∀ context : List UInt8, hash_intent_context (some context) ≠ .ok [] := by
    intro context h
    obtain ⟨u, v, hu, _, hnil⟩ := concat_cons_eq_ok_iff.mp h
    obtain ⟨count, rest, hcount, _, rfl⟩ := concat_cons_eq_ok_iff.mp hu
    have hlen := congrArg List.length hnil
    simp only [(hash_count_eq_ok_iff.mp hcount).2, List.length_append, length_to_be_bytes,
      List.length_nil] at hlen
    omega
  cases a with
  | none =>
    cases ha
    cases b with
    | none => rfl
    | some b => exact absurd hb (hnonempty b)
  | some a =>
    cases b with
    | none =>
      cases hb
      exact absurd ha (hnonempty a)
    | some b =>
      have htrailer := (hash_text_delimits.comap fun _ : List UInt8 => "RUNKU_COMMIT_INTENT_CONTEXT_V1").cons
        (hash_bytes_delimits.cons .nil)
      exact congrArg some (htrailer.same_of_eq ha hb).2.1

/-- Batches with the same hashed bytes have the same intent. -/
theorem CommitBatch.sameIntent_of_digest_input {a b : CommitBatch} {x : List UInt8}
    (ha : a.digest_input = .ok x) (hb : b.digest_input = .ok x) : a.SameIntent b := by
  have hmagic : Delimits (fun _ : Unit =>
      (.ok (as_bytes "RUNKU_COMMIT_BATCH_V1") : Except StoreError (List UInt8))) fun _ _ => True :=
    .of_width (n := 21) (fun _ _ h => by rw [← Except.ok.inj h]; decide) fun _ _ _ _ _ => trivial
  obtain ⟨_, v, v', ha, hb, h⟩ := @Delimits.peel _ _ _ _ _ hmagic () () _ _ x x [] [] ha hb rfl
  obtain ⟨hproject, v, v', ha, hb, h⟩ := hash_id_delimits.peel ha hb h
  obtain ⟨henvironment, v, v', ha, hb, h⟩ := hash_id_delimits.peel ha hb h
  obtain ⟨hreads, v, v', ha, hb, h⟩ :=
    (hash_list_delimits DocumentReadAssertion.hash_delimits).peel ha hb h
  obtain ⟨hdocuments, v, v', ha, hb, h⟩ := (hash_list_delimits DocumentMutation.hash_delimits).peel ha hb h
  obtain ⟨hindexes, v, v', ha, hb, h⟩ := (hash_list_delimits IndexMutation.hash_delimits).peel ha hb h
  obtain ⟨houtbox, v, v', ha, hb, h⟩ := (hash_list_delimits OutboxAppend.hash_delimits).peel ha hb h
  obtain ⟨hschedules, v, v', ha, hb, h⟩ :=
    (hash_list_delimits ScheduledInvocationInsert.hash_delimits).peel ha hb h
  obtain ⟨u, w, hu, hw, rfl⟩ := concat_cons_eq_ok_iff.mp ha
  obtain ⟨u', w', hu', hw', rfl⟩ := concat_cons_eq_ok_iff.mp hb
  cases hw
  cases hw'
  simp only [List.append_nil] at h
  exact {
    scope := by
      cases hscope : a.scope
      cases hscope' : b.scope
      simp_all
    reads := by simpa using hreads
    documents := hdocuments
    indexes := by simpa using hindexes
    outbox := houtbox
    schedules := hschedules
    intent_context := hash_intent_context_inj (h ▸ hu) hu' }

section
variable {α : Type}

theorem hash_count_failsWith (count : Nat) : FailsWith .LimitExceeded (hash_count count) := by
  unfold hash_count
  split
  · exact .ok _
  · exact .error

theorem hash_bytes_failsWith (value : List UInt8) : FailsWith .LimitExceeded (hash_bytes value) :=
  failsWith_concat ⟨hash_count_failsWith _, .ok _⟩

theorem hash_value_failsWith (value : CanonicalValue) : FailsWith .LimitExceeded (hash_value value) := by
  refine FailsWith.bind ?_ hash_bytes_failsWith
  unfold encode_value
  split
  · exact .ok _
  · exact .error

theorem hash_option_failsWith {hash : α → Except StoreError (List UInt8)}
    (h : ∀ value, FailsWith .LimitExceeded (hash value)) (value : Option α) :
    FailsWith .LimitExceeded (hash_option hash value) := by
  cases value with
  | none => exact .ok _
  | some value => exact failsWith_concat ⟨.ok _, h value⟩

theorem hash_list_failsWith {hash : α → Except StoreError (List UInt8)}
    (h : ∀ item, FailsWith .LimitExceeded (hash item)) (items : List α) :
    FailsWith .LimitExceeded (hash_list hash items) := by
  refine failsWith_concat ((List.forall_cons ..).mpr ⟨hash_count_failsWith _, ?_⟩)
  rw [List.forall_iff_forall_mem, List.forall_mem_map]
  exact fun item _ => h item

theorem DocumentReadAssertion.hash_failsWith (assertion : DocumentReadAssertion) :
    FailsWith .LimitExceeded assertion.hash := by
  exact failsWith_concat ⟨hash_bytes_failsWith _, hash_bytes_failsWith _, hash_option_failsWith (fun _ => .ok _) _⟩

theorem DocumentMutation.hash_failsWith (mutation : DocumentMutation) : FailsWith .LimitExceeded mutation.hash := by
  cases mutation with
  | Upsert table_id document_id expected value =>
    refine failsWith_concat ⟨.ok _, hash_bytes_failsWith _, hash_bytes_failsWith _, ?_, hash_value_failsWith _⟩
    cases expected with
    | Absent | Exact value => exact .ok _
  | Delete table_id document_id expected_revision =>
    exact failsWith_concat ⟨.ok _, hash_bytes_failsWith _, hash_bytes_failsWith _, .ok _⟩

theorem IndexMutation.hash_failsWith (mutation : IndexMutation) : FailsWith .LimitExceeded mutation.hash := by
  cases mutation with
  | Put index_id key table_id document_id document_revision =>
    exact failsWith_concat ⟨.ok _, hash_bytes_failsWith _, hash_bytes_failsWith _, hash_bytes_failsWith _,
      hash_bytes_failsWith _, .ok _⟩
  | Delete index_id key document_id =>
    exact failsWith_concat ⟨.ok _, hash_bytes_failsWith _, hash_bytes_failsWith _, hash_bytes_failsWith _⟩

theorem OutboxAppend.hash_failsWith (event : OutboxAppend) : FailsWith .LimitExceeded event.hash :=
  failsWith_concat ⟨hash_bytes_failsWith _, hash_value_failsWith _⟩

theorem ScheduledInvocationInsert.hash_failsWith (schedule : ScheduledInvocationInsert) :
    FailsWith .LimitExceeded schedule.hash := by
  exact failsWith_concat ⟨hash_bytes_failsWith _, hash_bytes_failsWith _, hash_bytes_failsWith _,
    hash_value_failsWith _, .ok _, hash_option_failsWith (fun _ => hash_bytes_failsWith _) _⟩

end

theorem hash_intent_context_failsWith (context : Option (List UInt8)) :
    FailsWith .LimitExceeded (hash_intent_context context) := by
  cases context with
  | none => exact .ok _
  | some context =>
    have hmarker : FailsWith .LimitExceeded (hash_text "RUNKU_COMMIT_INTENT_CONTEXT_V1") := hash_bytes_failsWith _
    exact failsWith_concat ⟨hmarker, hash_bytes_failsWith context⟩

/-- The digest of a batch that passes validation fails on sizes only. -/
theorem CommitBatch.digest_failsWith {batch : CommitBatch} (hvalid : batch.validate = .ok ())
    (sha256 : List UInt8 → Sha256Digest) : FailsWith .LimitExceeded (batch.digest sha256) := by
  rw [CommitBatch.digest, hvalid, ok_bind]
  refine FailsWith.bind (failsWith_concat ?_) fun input => FailsWith.ok (sha256 input)
  exact ⟨.ok _, hash_bytes_failsWith _, hash_bytes_failsWith _,
    hash_list_failsWith DocumentReadAssertion.hash_failsWith _, hash_list_failsWith DocumentMutation.hash_failsWith _,
    hash_list_failsWith IndexMutation.hash_failsWith _, hash_list_failsWith OutboxAppend.hash_failsWith _,
    hash_list_failsWith ScheduledInvocationInsert.hash_failsWith _, hash_intent_context_failsWith _⟩

end runku.data
