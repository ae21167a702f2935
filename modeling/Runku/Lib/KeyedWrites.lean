import Runku.Lib.OrderedMap
import Runku.Lib.Transaction

open Std (ExtTreeMap)

namespace keyed_writes

variable {σ ε ι K V : Type} [LinearOrder K]

/-- The writes of a loop: item by item, the key of the item and what it leaves there. `R s` relates an
item, the row before and the row after; `s` is the state the loop started from. -/
def Writes (R : σ → ι → Option V → Option V → Prop) (key : ι → K) (table : σ → ExtTreeMap K V) (s : σ)
    (items : List ι) (ws : List (K × Option V)) : Prop :=
  List.Forall₂ (fun item w => w.1 = key item ∧ R s item (table s)[key item]? w.2) items ws

section
variable {R : σ → ι → Option V → Option V → Prop} {key : ι → K} {table : σ → ExtTreeMap K V}

variable {s : σ} {items : List ι} {ws : List (K × Option V)}

theorem Writes.keys_eq (h : Writes R key table s items ws) : ws.map Prod.fst = items.map key := by
  induction h with
  | nil => rfl
  | cons hw _ ih => rw [List.map_cons, List.map_cons, hw.1, ih]

/-- An item of the loop has its write among the writes. -/
theorem Writes.exists_of_mem (h : Writes R key table s items ws) {item : ι} (hitem : item ∈ items) :
    ∃ after, (key item, after) ∈ ws ∧ R s item (table s)[key item]? after := by
  induction h with
  | nil => cases hitem
  | @cons other w items ws hw _ ih =>
    rcases List.mem_cons.mp hitem with rfl | hitem
    · exact ⟨w.2, by rw [← hw.1]; exact List.mem_cons_self, hw.2⟩
    · obtain ⟨after, hmem, hR⟩ := ih hitem
      exact ⟨after, List.mem_cons_of_mem _ hmem, hR⟩

/-- After independent writes every item of the loop is related to the row it found. -/
theorem Writes.getElem?_of_mem (h : Writes R key table s items ws) (hnodup : (items.map key).Nodup) {item : ι}
    (hitem : item ∈ items) : R s item (table s)[key item]? (ordered_map.writes (table s) ws)[key item]? := by
  obtain ⟨after, hmem, hR⟩ := h.exists_of_mem hitem
  rwa [ordered_map.getElem?_writes_of_mem (h.keys_eq ▸ hnodup) hmem]

/-- A key no item owns keeps its row. -/
theorem Writes.getElem?_of_notMem (h : Writes R key table s items ws) {k : K} (hk : k ∉ items.map key) :
    (ordered_map.writes (table s) ws)[k]? = (table s)[k]? :=
  ordered_map.getElem?_writes_of_notMem (h.keys_eq ▸ hk) _

/-- One write in front of a list of independent writes. -/
theorem Writes.cons {s s₁ : σ} {item : ι} {items : List ι} {after : Option V}
    {ws : List (K × Option V)} (hitem : R s item (table s)[key item]? after)
    (htable : table s₁ = ordered_map.write (table s) (key item) after)
    (hR : ∀ item before after, R s₁ item before after → R s item before after)
    (hfresh : key item ∉ items.map key) (h : Writes R key table s₁ items ws) :
    Writes R key table s (item :: items) ((key item, after) :: ws) := by
  refine List.Forall₂.cons ⟨rfl, hitem⟩ ?_
  -- Later items have other keys, so they find the rows of the first state.
  have hmem : ∀ other ∈ items, (table s₁)[key other]? = (table s)[key other]? := by
    intro other hother
    have hne : key item ≠ key other := fun heq => hfresh (heq ▸ List.mem_map_of_mem hother)
    rw [htable, ordered_map.getElem?_write, if_neg hne]
  clear hfresh
  induction h with
  | nil => exact List.Forall₂.nil
  | cons hw _ ih =>
    rw [List.forall_mem_cons] at hmem
    exact List.Forall₂.cons ⟨hw.1, hR _ _ _ (hmem.1 ▸ hw.2)⟩ (ih hmem.2)

end

/-- The loop rule: if each pass writes the row of its item and changes nothing else the relation
depends on, the whole loop is a list of independent writes. -/
theorem runs_for_each {body : ι → transaction.Body σ ε Unit} (table : σ → ExtTreeMap K V) (key : ι → K)
    (Frame : σ → σ → Prop) (R : σ → ι → Option V → Option V → Prop)
    (hrefl : ∀ s, Frame s s) (htrans : ∀ {s₁ s₂ s₃}, Frame s₁ s₂ → Frame s₂ s₃ → Frame s₁ s₃)
    (hR : ∀ {s s'}, Frame s s' → ∀ item before after, R s' item before after → R s item before after)
    (hbody : ∀ item s u s', transaction.Runs (body item) s u s' → ∃ after,
      R s item (table s)[key item]? after ∧ table s' = ordered_map.write (table s) (key item) after ∧ Frame s s')
    {items : List ι} (hnodup : (items.map key).Nodup) {s s' : σ} {u : Unit}
    (h : transaction.Runs (transaction.for_each body items) s u s') :
    ∃ ws, Writes R key table s items ws ∧ table s' = ordered_map.writes (table s) ws ∧ Frame s s' := by
  induction items generalizing s with
  | nil =>
    obtain ⟨_, rfl⟩ := h.pure
    exact ⟨[], List.Forall₂.nil, rfl, hrefl _⟩
  | cons item items ih =>
    obtain ⟨_, s₁, hitem, hitems⟩ := h.bind
    rw [List.map_cons, List.nodup_cons] at hnodup
    obtain ⟨after, hafter, htable, hframe⟩ := hbody item s _ s₁ hitem
    obtain ⟨ws, hws, htable', hframe'⟩ := ih hnodup.2 hitems
    refine ⟨(key item, after) :: ws, hws.cons hafter htable (hR hframe) hnodup.1, ?_, htrans hframe hframe'⟩
    rw [htable', htable, ordered_map.writes_cons]

end keyed_writes
