import Runku.Data.Intent
import Runku.Realtime.Matching

namespace runku.realtime

open fallible runku.core runku.value runku.data runku.execution runku.execution.mutation

/-- A value without items is one of the source's values. -/
theorem sorted_of_items_nil {value : CanonicalValue} (hkeys : object_keys value = []) (hitems : value.items = []) :
    value.Sorted := by
  refine .intro ?_ fun item hitem => ?_
  · rw [hkeys]
    exact .nil
  · rw [hitems] at hitem
    cases hitem

theorem write_impact_sorted (mutation : DocumentMutation) : (write_impact mutation).Sorted := by
  refine .intro (show Ascending ["documentId", "kind", "tableId"] by unfold Ascending; decide +kernel) ?_
  simp only [write_impact, CanonicalValue.items, List.map_cons, List.map_nil, List.forall_mem_cons]
  exact ⟨sorted_of_items_nil rfl rfl, sorted_of_items_nil rfl rfl, sorted_of_items_nil rfl rfl, List.forall_mem_nil _⟩

theorem index_impact_sorted (mutation : IndexMutation) : (index_impact mutation).Sorted := by
  have hkeys : Ascending ["documentId", "indexId", "key", "kind"] := by unfold Ascending; decide +kernel
  cases mutation <;>
    · refine .intro hkeys ?_
      simp only [index_impact, CanonicalValue.items, List.map_cons, List.map_nil, List.forall_mem_cons]
      exact ⟨sorted_of_items_nil rfl rfl, sorted_of_items_nil rfl rfl, sorted_of_items_nil rfl rfl,
        sorted_of_items_nil rfl rfl, List.forall_mem_nil _⟩

/-- The keys of every object in an event are in order, as in the maps it is built from. -/
theorem document_write_set_payload_sorted (documents : List DocumentMutation) (indexes : List IndexMutation) :
    (document_write_set_payload documents indexes).Sorted := by
  have hitems {α : Type} {encode : α → CanonicalValue} (hencode : ∀ item, (encode item).Sorted) (items : List α) :
      (CanonicalValue.Array (items.map encode)).Sorted := by
    refine .intro .nil fun value hvalue => ?_
    obtain ⟨item, _, rfl⟩ := List.mem_map.mp hvalue
    exact hencode item
  refine .intro (show Ascending ["indexes", "type", "writes"] by unfold Ascending; decide +kernel) ?_
  simp only [document_write_set_payload, CanonicalValue.items, List.map_cons, List.map_nil, List.forall_mem_cons]
  exact ⟨hitems index_impact_sorted indexes, sorted_of_items_nil rfl rfl, hitems write_impact_sorted documents,
    List.forall_mem_nil _⟩

/-- Validation encodes every event of a batch. -/
theorem encode_of_validate {batch : CommitBatch} (hvalid : batch.validate = .ok ()) {event : OutboxAppend}
    (hevent : event ∈ batch.outbox) : ∃ encoded, encode_stored_value event.payload = .ok encoded := by
  simp only [CommitBatch.validate, ite_error_eq_ok_iff, bind_eq_ok_iff] at hvalid
  obtain ⟨_, _, _, _, _, _, _, _, _, _, _, _, total, htotal, _⟩ := hvalid
  simp only [CommitBatch.payload_bytes, bind_eq_ok_iff] at htotal
  obtain ⟨_, _, _, _, _, hsizes, _⟩ := htotal
  obtain ⟨amount, hsize, _⟩ := add_payloads_eq_ok hsizes hevent
  obtain ⟨encoded, hencoded, _⟩ := encode_of_size hsize
  unfold encode_value at hencoded
  split at hencoded
  · exact ⟨_, ‹_›⟩
  · cases hencoded

/-- The stored event of a valid batch decodes to the documents and the index entries of the batch, in their order. -/
theorem stored_payload_decodes {batch : CommitBatch} (hvalid : batch.validate = .ok ()) {event_id : OutboxEventId}
    (houtbox : batch.outbox = [⟨event_id, document_write_set_payload batch.documents batch.indexes⟩]) :
    ∃ encoded payload, encode_stored_value (document_write_set_payload batch.documents batch.indexes) = .ok encoded ∧
        decode_stored_value encoded = .ok payload ∧ ChangeImpact.decode payload =
            .ok ⟨batch.documents.map document_impact, batch.indexes.map index_impact_of⟩ := by
  obtain ⟨encoded, hencoded⟩ := encode_of_validate hvalid (houtbox ▸ List.mem_singleton_self _)
  exact ⟨encoded, _, hencoded, decode_stored_value_of_encode (document_write_set_payload_sorted _ _) hencoded,
    decode_document_write_set_payload (CommitBatch.valid_of_validate hvalid)⟩

/-- A batch that deletes one document and announces it. -/
def deleting_batch : CommitBatch where
  scope := ⟨⟨Ulid.from_nat 1⟩, ⟨Ulid.from_nat 2⟩⟩
  operation_id := ⟨Ulid.from_nat 3⟩
  reads := []
  documents := [.Delete ⟨Ulid.from_nat 4⟩ ⟨Ulid.from_nat 5⟩ 1]
  indexes := []
  outbox := [⟨⟨Ulid.from_nat 6⟩, document_write_set_payload [.Delete ⟨Ulid.from_nat 4⟩ ⟨Ulid.from_nat 5⟩ 1] []⟩]
  schedules := []
  intent_context := none

/-- The consumer reads the delete from the stored event. -/
theorem stored_delete_decodes : ∃ encoded payload,
      encode_stored_value (document_write_set_payload deleting_batch.documents deleting_batch.indexes) = .ok encoded ∧
        decode_stored_value encoded = .ok payload ∧
          ChangeImpact.decode payload = .ok ⟨[⟨⟨Ulid.from_nat 4⟩, ⟨Ulid.from_nat 5⟩, .Delete⟩], []⟩ :=
  @stored_payload_decodes deleting_batch (by decide +kernel) ⟨Ulid.from_nat 6⟩ rfl

end runku.realtime
