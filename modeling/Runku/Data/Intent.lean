import Runku.Data.Digest
import Runku.Value.StoredDecode

namespace runku.data

open runku.core runku.value bytes codec fallible

theorem exists_concat_eq_ok {ε β : Type} {pieces : List (Except ε (List β))}
    (h : pieces.Forall fun piece => ∃ x, piece = .ok x) : ∃ x, concat pieces = .ok x := by
  induction pieces with
  | nil => exact ⟨[], rfl⟩
  | cons piece pieces ih =>
    rw [List.forall_cons] at h
    obtain ⟨x, hx⟩ := h.1
    obtain ⟨y, hy⟩ := ih h.2
    exact ⟨x ++ y, concat_cons_of_ok hx hy⟩

theorem hash_bytes_isOk {value : List UInt8} (h : value.length < 2 ^ 32) : ∃ x, hash_bytes value = .ok x := by
  exact exists_concat_eq_ok ⟨⟨_, if_pos h⟩, value, rfl⟩

theorem hash_id_isOk {PREFIX : String} (hshort : (as_bytes PREFIX).length ≤ 16) (id : ResourceId PREFIX) :
    ∃ x, hash_id id = .ok x := by
  refine hash_bytes_isOk ?_
  rw [ResourceId.to_string, as_bytes_append, List.length_append, id.ulid.length_as_bytes_to_string]
  omega

variable {value : CanonicalValue}

theorem hash_value_isOk {encoded : List UInt8} (hencoded : encode_value value = .ok encoded)
    (h : encoded.length < 2 ^ 32) : ∃ x, hash_value value = .ok x := by
  rw [hash_value, hencoded, ok_bind]
  exact hash_bytes_isOk h

theorem hash_option_isOk {α : Type} {hash : α → Except StoreError (List UInt8)} {value : Option α}
    (h : ∀ a, value = some a → ∃ x, hash a = .ok x) : ∃ x, hash_option hash value = .ok x := by
  cases value with
  | none => exact ⟨_, rfl⟩
  | some a => exact exists_concat_eq_ok ⟨⟨_, rfl⟩, h a rfl⟩

theorem hash_list_isOk {α : Type} {hash : α → Except StoreError (List UInt8)} {items : List α}
    (hlen : items.length < 2 ^ 32) (h : ∀ item ∈ items, ∃ x, hash item = .ok x) : ∃ x, hash_list hash items = .ok x := by
  refine exists_concat_eq_ok ((List.forall_cons ..).mpr ⟨⟨_, if_pos hlen⟩, ?_⟩)
  rw [List.forall_iff_forall_mem, List.forall_mem_map]
  exact h

theorem DocumentReadAssertion.hash_isOk (assertion : DocumentReadAssertion) : ∃ x, assertion.hash = .ok x := by
  exact exists_concat_eq_ok ⟨hash_id_isOk (by decide) _, hash_id_isOk (by decide) _, hash_option_isOk fun _ _ => ⟨_, rfl⟩⟩

/-- Every size that was added is within the bound on the total. -/
theorem add_payloads_eq_ok {α : Type} {size : α → Except StoreError Nat} {items : List α} {total total' : Nat}
    (h : add_payloads size items total = .ok total') {item : α} (hitem : item ∈ items) :
    ∃ amount, size item = .ok amount ∧ amount ≤ CommitLimits.V1.payload_bytes := by
  induction items generalizing total with
  | nil => cases hitem
  | cons first items ih =>
    rw [add_payloads, bind_eq_ok_iff] at h
    obtain ⟨amount, hamount, h⟩ := h
    obtain ⟨next, hnext, h⟩ := bind_eq_ok_iff.mp h
    rcases List.mem_cons.mp hitem with rfl | hitem
    · unfold add_payload at hnext
      split at hnext
      · exact ⟨amount, hamount, by omega⟩
      · cases hnext
    · exact ih h hitem

variable {amount : Nat}

/-- The encoding of a value whose size was added. -/
theorem encode_of_size (h : List.length <$> encode_value value = .ok amount) :
    ∃ encoded, encode_value value = .ok encoded ∧ encoded.length = amount := by
  cases hencode : encode_value value with
  | error error =>
    rw [hencode] at h
    cases h
  | ok encoded =>
    rw [hencode] at h
    exact ⟨encoded, rfl, Except.ok.inj h⟩

theorem hash_value_of_size
    (h : List.length <$> encode_value value = .ok amount) (hle : amount ≤ CommitLimits.V1.payload_bytes) :
    ∃ x, hash_value value = .ok x := by
  obtain ⟨encoded, hencoded, hlen⟩ := encode_of_size h
  have hlimit : CommitLimits.V1.payload_bytes = 8388608 := rfl
  exact hash_value_isOk hencoded (by omega)

theorem DocumentMutation.hash_isOk {mutation : DocumentMutation}
    (h : mutation.payload_size = .ok amount) (hle : amount ≤ CommitLimits.V1.payload_bytes) :
    ∃ x, mutation.hash = .ok x := by
  cases mutation with
  | Upsert table_id document_id expected value =>
    refine exists_concat_eq_ok ⟨⟨_, rfl⟩, hash_id_isOk (by decide) _, hash_id_isOk (by decide) _, ?_,
      hash_value_of_size h hle⟩
    cases expected with
    | Absent | Exact revision => exact ⟨_, rfl⟩
  | Delete table_id document_id expected_revision =>
    exact exists_concat_eq_ok ⟨⟨_, rfl⟩, hash_id_isOk (by decide) _, hash_id_isOk (by decide) _, ⟨_, rfl⟩⟩

theorem IndexMutation.hash_isOk {mutation : IndexMutation}
    (h : mutation.identity.key_bytes.length ≤ CommitLimits.V1.payload_bytes) : ∃ x, mutation.hash = .ok x := by
  have hlimit : CommitLimits.V1.payload_bytes = 8388608 := rfl
  have hkey : mutation.identity.key_bytes.length < 2 ^ 32 := by omega
  cases mutation with
  | Put index_id key table_id document_id document_revision =>
    exact exists_concat_eq_ok ⟨⟨_, rfl⟩, hash_id_isOk (by decide) _, hash_bytes_isOk hkey, hash_id_isOk (by decide) _,
      hash_id_isOk (by decide) _, ⟨_, rfl⟩⟩
  | Delete index_id key document_id =>
    exact exists_concat_eq_ok ⟨⟨_, rfl⟩, hash_id_isOk (by decide) _, hash_bytes_isOk hkey, hash_id_isOk (by decide) _⟩

theorem length_pinned_code (code : PinnedCode) : (as_bytes code.to_string).length ≤ 64 := by
  have hid : ∀ {PREFIX : String} (id : ResourceId PREFIX),
      (as_bytes id.to_string).length = (as_bytes PREFIX).length + 26 := by
    intro PREFIX id
    rw [ResourceId.to_string, as_bytes_append, List.length_append, id.ulid.length_as_bytes_to_string]
  cases code with
  | Release value | DevRevision value =>
    rw [PinnedCode.to_string, as_bytes_append, List.length_append, hid]
    decide

theorem length_function_name (name : FunctionName) : (as_bytes name.as_str).length ≤ FunctionName.MAX_BYTES := by
  have hvalid := name.valid
  unfold FunctionName.validate at hvalid
  rw [ite_error_eq_ok_iff] at hvalid
  exact not_lt.mp hvalid.1

theorem ScheduledInvocationInsert.hash_isOk {schedule : ScheduledInvocationInsert}
    (h : List.length <$> encode_value schedule.args = .ok amount) (hle : amount ≤ CommitLimits.V1.payload_bytes)
    (hkey : ∀ key, schedule.idempotency_key = some key → (as_bytes key).length ≤ 128) :
    ∃ x, schedule.hash = .ok x := by
  have hcode := length_pinned_code schedule.pinned_code
  have hname : (as_bytes schedule.function.as_str).length ≤ 128 := length_function_name schedule.function
  refine exists_concat_eq_ok ⟨hash_id_isOk (by decide) _, hash_bytes_isOk (by omega), hash_bytes_isOk (by omega),
    hash_value_of_size h hle, ⟨_, rfl⟩, hash_option_isOk fun key hsome => hash_bytes_isOk ?_⟩
  have := hkey key hsome
  omega

/-- The idempotency keys of a valid batch are short. -/
theorem validate_schedules_keys {schedules : List ScheduledInvocationInsert} (h : validate_schedules schedules = .ok ())
    {schedule : ScheduledInvocationInsert} (hmem : schedule ∈ schedules) :
    ∀ key, schedule.idempotency_key = some key → (as_bytes key).length ≤ 128 := by
  refine (unique_loop_eq_ok Prod.fst (P := fun schedule : ScheduledInvocationInsert =>
    ∀ key, schedule.idempotency_key = some key → (as_bytes key).length ≤ 128) ?_ h).2.2 schedule hmem
  intro schedule inserted hok
  rw [ite_error_eq_ok_iff] at hok
  refine ⟨hok.1, fun key hkey => ?_⟩
  have hcheck := hok.2
  rw [hkey] at hcheck
  dsimp only at hcheck
  rw [ite_error_eq_ok_iff, not_or, not_or] at hcheck
  exact not_lt.mp hcheck.1.2.1

/-- A batch that passes validation is hashed. -/
theorem CommitBatch.digest_input_isOk {batch : CommitBatch} (hvalid : batch.validate = .ok ()) :
    ∃ x, batch.digest_input = .ok x := by
  have hlimits := (CommitBatch.valid_of_validate hvalid).within_limits
  simp only [CommitBatch.exceeds_limits, CommitLimits.V1, Bool.or_eq_false_iff] at hlimits
  obtain ⟨⟨⟨⟨⟨hreads, hdocuments⟩, hindexes⟩, houtbox⟩, hschedules⟩, hcontext⟩ := hlimits
  replace hreads := of_decide_eq_false hreads
  replace hdocuments := of_decide_eq_false hdocuments
  replace hindexes := of_decide_eq_false hindexes
  replace houtbox := of_decide_eq_false houtbox
  replace hschedules := of_decide_eq_false hschedules
  simp only [CommitBatch.validate, ite_error_eq_ok_iff, bind_eq_ok_iff] at hvalid
  obtain ⟨_, _, _, _, _, _, _, _, _, _, _, hkeys, total, htotal, _⟩ := hvalid
  simp only [CommitBatch.payload_bytes, bind_eq_ok_iff] at htotal
  obtain ⟨_, hdocument_sizes, _, hindex_sizes, _, houtbox_sizes, hschedule_sizes⟩ := htotal
  refine exists_concat_eq_ok ⟨⟨_, rfl⟩, hash_id_isOk (by decide) _, hash_id_isOk (by decide) _,
    hash_list_isOk (by omega) fun assertion _ => assertion.hash_isOk,
    hash_list_isOk (by omega) fun mutation hmem => ?_, hash_list_isOk (by omega) fun mutation hmem => ?_,
    hash_list_isOk (by omega) fun event hmem => ?_, hash_list_isOk (by omega) fun schedule hmem => ?_, ?_⟩
  · obtain ⟨amount, hsize, hle⟩ := add_payloads_eq_ok hdocument_sizes hmem
    exact DocumentMutation.hash_isOk hsize hle
  · obtain ⟨amount, hsize, hle⟩ := add_payloads_eq_ok hindex_sizes hmem
    exact IndexMutation.hash_isOk (Except.ok.inj hsize ▸ hle)
  · obtain ⟨amount, hsize, hle⟩ := add_payloads_eq_ok houtbox_sizes hmem
    exact exists_concat_eq_ok ⟨hash_id_isOk (by decide) _, hash_value_of_size hsize hle⟩
  · obtain ⟨amount, hsize, hle⟩ := add_payloads_eq_ok hschedule_sizes hmem
    exact ScheduledInvocationInsert.hash_isOk hsize hle (validate_schedules_keys hkeys hmem)
  · cases hintent : batch.intent_context with
    | none => exact ⟨[], rfl⟩
    | some context =>
      rw [hintent] at hcontext
      simp only [Option.any_some, Bool.or_eq_false_iff, MAX_INTENT_CONTEXT_BYTES] at hcontext
      have hlength := of_decide_eq_false hcontext.2
      have hmarker : ∃ x, hash_text "RUNKU_COMMIT_INTENT_CONTEXT_V1" = .ok x := hash_bytes_isOk (by decide)
      exact exists_concat_eq_ok ⟨hmarker, hash_bytes_isOk (by omega)⟩

def DocumentMutation.Sorted : DocumentMutation → Prop
  | .Upsert _ _ _ value => value.Sorted
  | .Delete .. => True

/-- Every value in the batch is one of the source's values, whose objects are maps. -/
structure CommitBatch.Sorted (batch : CommitBatch) : Prop where
  documents : ∀ mutation ∈ batch.documents, mutation.Sorted
  outbox : ∀ event ∈ batch.outbox, event.payload.Sorted
  schedules : ∀ schedule ∈ batch.schedules, schedule.args.Sorted

/-- The two batches agree on every field but the operation identity. -/
def CommitBatch.Agrees (a b : CommitBatch) : Prop :=
  a.scope = b.scope ∧ a.reads = b.reads ∧ a.documents = b.documents ∧ a.indexes = b.indexes ∧
    a.outbox = b.outbox ∧ a.schedules = b.schedules ∧ a.intent_context = b.intent_context

theorem encode_value_inj {a b : CanonicalValue} {encoded : List UInt8} (ha : a.Sorted) (hb : b.Sorted)
    (hencoded : encode_value a = .ok encoded) (h : encode_value a = encode_value b) : a = b := by
  have hstored : ∀ {value : CanonicalValue}, encode_value value = .ok encoded → encode_stored_value value = .ok encoded := by
    intro value hvalue
    unfold encode_value at hvalue
    split at hvalue
    · rename_i hok
      rw [hok, Except.ok.inj hvalue]
    · cases hvalue
  have hdecode := decode_stored_value_of_encode ha (hstored hencoded)
  rw [decode_stored_value_of_encode hb (hstored (h ▸ hencoded))] at hdecode
  exact (Except.ok.inj hdecode).symm

/-- Lists of items that are not told apart are equal when the single items are. -/
theorem eq_of_forall₂ {α : Type} {same : α → α → Prop} {xs ys : List α} (h : List.Forall₂ same xs ys)
    (heq : ∀ x ∈ xs, ∀ y ∈ ys, same x y → x = y) : xs = ys := by
  induction h with
  | nil => rfl
  | cons hxy _ ih =>
    rw [heq _ List.mem_cons_self _ List.mem_cons_self hxy,
      ih fun x hx y hy => heq x (List.mem_cons_of_mem _ hx) y (List.mem_cons_of_mem _ hy)]

/-- Valid batches that the digest does not tell apart agree. -/
theorem CommitBatch.SameIntent.agrees {a b : CommitBatch} (h : a.SameIntent b) (hvalid : a.validate = .ok ())
    (ha : a.Sorted) (hb : b.Sorted) : a.Agrees b := by
  simp only [CommitBatch.validate, ite_error_eq_ok_iff, bind_eq_ok_iff] at hvalid
  obtain ⟨_, _, _, _, _, _, _, _, _, _, _, _, total, htotal, _⟩ := hvalid
  simp only [CommitBatch.payload_bytes, bind_eq_ok_iff] at htotal
  obtain ⟨_, hdocument_sizes, _, _, _, houtbox_sizes, hschedule_sizes⟩ := htotal
  refine ⟨h.scope, h.reads, eq_of_forall₂ h.documents fun x hx y hy hxy => ?_, h.indexes,
    eq_of_forall₂ h.outbox fun x hx y hy hxy => ?_, eq_of_forall₂ h.schedules fun x hx y hy hxy => ?_,
    h.intent_context⟩
  · cases x with
    | Upsert table_id document_id expected value =>
      cases y with
      | Upsert table_id' document_id' expected' value' =>
        obtain ⟨rfl, rfl, rfl, hvalue⟩ := hxy
        obtain ⟨amount, hsize, _⟩ := add_payloads_eq_ok hdocument_sizes hx
        obtain ⟨encoded, hencoded, _⟩ := encode_of_size hsize
        rw [encode_value_inj (ha.documents _ hx) (hb.documents _ hy) hencoded hvalue]
      | Delete => exact hxy.elim
    | Delete table_id document_id expected_revision =>
      cases y with
      | Upsert => exact hxy.elim
      | Delete =>
        obtain ⟨rfl, rfl, rfl⟩ := hxy
        rfl
  · obtain ⟨amount, hsize, _⟩ := add_payloads_eq_ok houtbox_sizes hx
    obtain ⟨encoded, hencoded, _⟩ := encode_of_size hsize
    have hpayload := encode_value_inj (ha.outbox x hx) (hb.outbox y hy) hencoded hxy.2
    have hevent := hxy.1
    cases x
    cases y
    simp_all
  · obtain ⟨amount, hsize, _⟩ := add_payloads_eq_ok hschedule_sizes hx
    obtain ⟨encoded, hencoded, _⟩ := encode_of_size hsize
    obtain ⟨hid, hcode, hfunction, hargs, hat, hkey⟩ := hxy
    have hargs := encode_value_inj (ha.schedules x hx) (hb.schedules y hy) hencoded hargs
    cases x
    cases y
    simp_all

theorem CommitBatch.Agrees.digest_input {a b : CommitBatch} (h : a.Agrees b) : a.digest_input = b.digest_input := by
  obtain ⟨hscope, hreads, hdocuments, hindexes, houtbox, hschedules, hcontext⟩ := h
  rw [CommitBatch.digest_input, hscope, hreads, hdocuments, hindexes, houtbox, hschedules, hcontext,
    ← CommitBatch.digest_input]

/-- Two valid batches are hashed as one byte string exactly when they agree on everything but the operation. -/
theorem digest_identifies_intent {a b : CommitBatch} (ha : a.validate = .ok ()) (hb : b.validate = .ok ())
    (hasorted : a.Sorted) (hbsorted : b.Sorted) :
    (∃ x, a.digest_input = .ok x ∧ b.digest_input = .ok x) ↔ a.Agrees b := by
  constructor
  · rintro ⟨x, hax, hbx⟩
    exact (CommitBatch.sameIntent_of_digest_input hax hbx).agrees ha hasorted hbsorted
  · intro hagrees
    obtain ⟨x, hx⟩ := CommitBatch.digest_input_isOk hb
    exact ⟨x, hagrees.digest_input.trans hx, hx⟩

/-- A batch of one event with a null payload. -/
def null_event_batch (operation : Nat) (intent_context : Option (List UInt8)) : CommitBatch where
  scope := ⟨⟨Ulid.from_nat 1⟩, ⟨Ulid.from_nat 2⟩⟩
  operation_id := ⟨Ulid.from_nat operation⟩
  reads := []
  documents := []
  indexes := []
  outbox := [⟨⟨Ulid.from_nat 3⟩, .Null⟩]
  schedules := []
  intent_context := intent_context

theorem null_event_batch_sorted (operation : Nat) (intent_context : Option (List UInt8)) :
    (null_event_batch operation intent_context).Sorted where
  documents := nofun
  outbox := List.forall_mem_singleton.mpr (.intro .nil nofun)
  schedules := nofun

/-- Retries under two operations are hashed alike; with an intent context they are not. -/
theorem retries_share_the_digest :
    (∃ x, (null_event_batch 4 none).digest_input = .ok x ∧ (null_event_batch 5 none).digest_input = .ok x) ∧
      ¬∃ x, (null_event_batch 4 none).digest_input = .ok x ∧ (null_event_batch 5 (some [7])).digest_input = .ok x := by
  have hplain : ∀ operation, (null_event_batch operation none).validate = .ok () := fun _ => rfl
  have hcontext : (null_event_batch 5 (some [7])).validate = .ok () := rfl
  constructor
  · exact (digest_identifies_intent (hplain 4) (hplain 5) (null_event_batch_sorted _ _)
      (null_event_batch_sorted _ _)).mpr ⟨rfl, rfl, rfl, rfl, rfl, rfl, rfl⟩
  · rw [digest_identifies_intent (hplain 4) hcontext (null_event_batch_sorted _ _) (null_event_batch_sorted _ _)]
    rintro ⟨_, _, _, _, _, _, h⟩
    cases h

end runku.data
