import Mathlib.Order.Interval.Finset.Nat
import Runku.Data.Digest

/-! `runku-serving/src/model.rs`. -/

namespace runku.serving

open runku.core bytes fallible
open runku.data (Sha256Digest)

def MAX_SERVING_RELEASES : Nat := 16

inductive ServingMode
  | Atomic
  | Gradual
  deriving DecidableEq

/-- The errors of building and using a policy. -/
inductive ServingPolicyError
  | InvalidInput
  | LimitExceeded
  | IncompatibleContracts
  | Corruption
  deriving DecidableEq

structure ServingContractHashes where
  schema : Sha256Digest
  indexes : Sha256Digest
  cron_declarations : Sha256Digest
  deriving DecidableEq

structure ServingRelease where
  release_id : ReleaseId
  weight_percent : UInt8
  contracts : ServingContractHashes
  deriving DecidableEq

structure ServingPolicy where
  project_id : ProjectId
  mode : ServingMode
  releases : List ServingRelease
  deriving DecidableEq

/-- `checked_add` on unsigned 16-bit integers. -/
def checked_add_u16 (total amount : Nat) : Except ServingPolicyError Nat :=
  if total + amount < 2 ^ 16 then .ok (total + amount) else .error .LimitExceeded

/-- The loop over the entries, with the weights so far and the identities seen. -/
def validate_entries (baseline : ServingContractHashes) :
    List ServingRelease → Nat → List ReleaseId → Option ReleaseId → Except ServingPolicyError Nat
  | [], total, _, _ => .ok total
  | entry :: entries, total, seen, previous =>
    if entry.weight_percent = 0 ∨ entry.weight_percent > 100 ∨ entry.release_id ∈ seen ∨
        previous.any (· ≥ entry.release_id) then
      .error .InvalidInput
    else do
      let total ← checked_add_u16 total entry.weight_percent.toNat
      if entry.contracts.indexes ≠ baseline.indexes ∨
          entry.contracts.cron_declarations ≠ baseline.cron_declarations then
        .error .IncompatibleContracts
      else validate_entries baseline entries total (entry.release_id :: seen) (some entry.release_id)

def ServingPolicy.validate (policy : ServingPolicy) : Except ServingPolicyError Unit :=
  match policy.releases with
  | [] => .error .LimitExceeded
  | first :: rest =>
    if (first :: rest).length > MAX_SERVING_RELEASES then .error .LimitExceeded
    else do
      let total ← validate_entries first.contracts (first :: rest) 0 [] none
      if total ≠ 100 ∨ policy.mode = .Atomic ∧ (first :: rest).length ≠ 1 ∨
          policy.mode = .Gradual ∧ (first :: rest).length < 2 then
        .error .InvalidInput
      else .ok ()

/-- Sorts the entries by Release and validates the policy. -/
def ServingPolicy.new (project_id : ProjectId) (mode : ServingMode) (releases : List ServingRelease) :
    Except ServingPolicyError ServingPolicy := do
  let policy : ServingPolicy := ⟨project_id, mode, releases.insertionSort fun a b => a.release_id ≤ b.release_id⟩
  policy.validate
  return policy

/-- The loop that adds up the weights until they exceed the percentile. -/
def select_entry (percentile : Nat) : List ServingRelease → Nat → Except ServingPolicyError ReleaseId
  | [], _ => .error .Corruption
  | release :: releases, upper => do
    let upper ← checked_add_u16 upper release.weight_percent.toNat
    if percentile < upper then .ok release.release_id else select_entry percentile releases upper

def ServingPolicy.select_percentile (policy : ServingPolicy) (percentile : Nat) : Except ServingPolicyError ReleaseId := do
  policy.validate
  if percentile ≥ 100 then .error .InvalidInput else select_entry percentile policy.releases 0

def mode_tag : ServingMode → UInt8
  | .Atomic => 1
  | .Gradual => 2

/-- The bytes of one entry that are hashed. -/
def ServingRelease.digest_input (entry : ServingRelease) : List UInt8 :=
  as_bytes entry.release_id.to_string ++ [0, entry.weight_percent] ++ entry.contracts.schema.toList ++
    entry.contracts.indexes.toList ++ entry.contracts.cron_declarations.toList

def ServingPolicy.digest (sha256 : List UInt8 → Sha256Digest) (policy : ServingPolicy) : Sha256Digest :=
  sha256 (as_bytes "RUNKU_SERVING_POLICY_V1\x00" ++ as_bytes policy.project_id.to_string ++ [0] ++
    [mode_tag policy.mode] ++ to_be_bytes 8 policy.releases.length ++
    policy.releases.flatMap ServingRelease.digest_input)

/-- The weights of the entries together. -/
def total_weight (releases : List ServingRelease) : Nat := (releases.map fun release => release.weight_percent.toNat).sum

/-- What a policy that passes validation guarantees. -/
structure ServingPolicy.Valid (policy : ServingPolicy) : Prop where
  ascending : policy.releases.Pairwise fun a b => a.release_id < b.release_id
  total : total_weight policy.releases = 100

theorem checked_add_u16_eq_ok {total amount sum : Nat} (h : checked_add_u16 total amount = .ok sum) :
    sum = total + amount := by
  unfold checked_add_u16 at h
  split at h
  · exact (Except.ok.inj h).symm
  · cases h

theorem validate_entries_eq_ok {baseline : ServingContractHashes} {entries : List ServingRelease} {total sum : Nat}
    {seen : List ReleaseId} {previous : Option ReleaseId}
    (h : validate_entries baseline entries total seen previous = .ok sum) :
    sum = total + total_weight entries ∧ entries.IsChain (fun a b => a.release_id < b.release_id) ∧
      ∀ last first, previous = some last → entries.head? = some first → last < first.release_id := by
  induction entries generalizing total seen previous with
  | nil =>
    cases h
    exact ⟨rfl, .nil, nofun⟩
  | cons entry entries ih =>
    rw [validate_entries, ite_error_eq_ok_iff] at h
    obtain ⟨hentry, h⟩ := h
    obtain ⟨next, hnext, h⟩ := bind_eq_ok_iff.mp h
    obtain ⟨_, h⟩ := ite_error_eq_ok_iff.mp h
    obtain ⟨hsum, hchain, hfirst⟩ := ih h
    refine ⟨?_, ?_, ?_⟩
    · rw [hsum, checked_add_u16_eq_ok hnext, total_weight, total_weight, List.map_cons, List.sum_cons, Nat.add_assoc]
    · cases entries with
      | nil => exact .singleton _
      | cons second entries => exact .cons_cons (hfirst _ _ rfl rfl) hchain
    · rintro last first rfl hhead
      cases hhead
      have hprevious : ¬(some last).any (· ≥ entry.release_id) = true := fun hany =>
        hentry (.inr (.inr (.inr hany)))
      simpa using hprevious

variable {policy : ServingPolicy}

/-- What the validation of a policy establishes. -/
theorem ServingPolicy.valid_of_validate (h : policy.validate = .ok ()) : policy.Valid := by
  unfold ServingPolicy.validate at h
  split at h
  · cases h
  · rename_i first rest hreleases
    rw [ite_error_eq_ok_iff] at h
    obtain ⟨total, htotal, h⟩ := bind_eq_ok_iff.mp h.2
    obtain ⟨hsum, hchain, _⟩ := validate_entries_eq_ok htotal
    obtain ⟨hok, _⟩ := ite_error_eq_ok_iff.mp h
    rw [← hreleases] at hchain hsum
    have htrans : Trans (fun a b : ServingRelease => a.release_id < b.release_id)
        (fun a b : ServingRelease => a.release_id < b.release_id)
        (fun a b : ServingRelease => a.release_id < b.release_id) := ⟨lt_trans⟩
    exact ⟨List.isChain_iff_pairwise.mp hchain, by omega⟩

variable {percentile upper : Nat}

theorem select_entry_mem {releases : List ServingRelease} {release_id : ReleaseId}
    (h : select_entry percentile releases upper = .ok release_id) :
    ∃ release ∈ releases, release.release_id = release_id := by
  induction releases generalizing upper with
  | nil => cases h
  | cons release releases ih =>
    obtain ⟨next, _, h⟩ := bind_eq_ok_iff.mp h
    split at h
    · exact ⟨release, .head _, Except.ok.inj h⟩
    · obtain ⟨selected, hmem, hid⟩ := ih h
      exact ⟨selected, .tail _ hmem, hid⟩

variable {release : ServingRelease}

/-- One step of the loop where the sum does not overflow. -/
theorem select_entry_cons {releases : List ServingRelease} (h : upper + release.weight_percent.toNat < 2 ^ 16) :
    select_entry percentile (release :: releases) upper =
      if percentile < upper + release.weight_percent.toNat then .ok release.release_id
      else select_entry percentile releases (upper + release.weight_percent.toNat) := by
  rw [select_entry, checked_add_u16, if_pos h]
  rfl

theorem total_weight_cons (release : ServingRelease) (releases : List ServingRelease) :
    total_weight (release :: releases) = release.weight_percent.toNat + total_weight releases := by
  rw [total_weight, List.map_cons, List.sum_cons, total_weight]

theorem total_weight_append (before after : List ServingRelease) :
    total_weight (before ++ after) = total_weight before + total_weight after := by
  rw [total_weight, List.map_append, List.sum_append, total_weight, total_weight]

/-- The loop selects a Release exactly on its interval of the cumulated weights. -/
theorem select_entry_iff {before after : List ServingRelease} (hupper : upper ≤ percentile)
    (hsum : upper + total_weight (before ++ release :: after) < 2 ^ 16)
    (hids : (before ++ release :: after).Pairwise fun a b => a.release_id ≠ b.release_id) :
    select_entry percentile (before ++ release :: after) upper = .ok release.release_id ↔
      upper + total_weight before ≤ percentile ∧
        percentile < upper + total_weight before + release.weight_percent.toNat := by
  induction before generalizing upper with
  | nil =>
    rw [List.nil_append, total_weight_cons] at hsum
    rw [List.nil_append, select_entry_cons (by omega), total_weight, List.map_nil, List.sum_nil, Nat.add_zero]
    split
    · exact iff_of_true rfl ⟨hupper, ‹_›⟩
    · refine iff_of_false (fun h => ?_) fun h => by omega
      obtain ⟨other, hmem, hid⟩ := select_entry_mem h
      exact (List.pairwise_cons.mp hids).1 other hmem hid.symm
  | cons first before ih =>
    rw [List.cons_append, total_weight_cons] at hsum
    rw [List.cons_append, select_entry_cons (by omega), total_weight_cons]
    obtain ⟨hfirst, hids⟩ := List.pairwise_cons.mp hids
    split
    · refine iff_of_false (fun h => ?_) fun h => by omega
      exact hfirst release (by simp) (Except.ok.inj h)
    · rw [ih (by omega) (by omega) hids, ← Nat.add_assoc]

/-- The loop selects some Release below the sum of the weights. -/
theorem select_entry_isOk {percentile upper : Nat} {releases : List ServingRelease}
    (hsum : upper + total_weight releases < 2 ^ 16) (hpercentile : percentile < upper + total_weight releases)
    (hupper : upper ≤ percentile) : ∃ release_id, select_entry percentile releases upper = .ok release_id := by
  induction releases generalizing upper with
  | nil => simp [total_weight] at hpercentile; omega
  | cons release releases ih =>
    rw [total_weight_cons] at hsum hpercentile
    rw [select_entry_cons (by omega)]
    split
    · exact ⟨_, rfl⟩
    · exact ih (by omega) (by omega) (by omega)

theorem ServingPolicy.select_percentile_eq {percentile : Nat}
    (h : policy.validate = .ok ()) (hpercentile : percentile < 100) :
    policy.select_percentile percentile = select_entry percentile policy.releases 0 := by
  rw [ServingPolicy.select_percentile, h]
  exact if_neg (Nat.not_le.mpr hpercentile)

theorem ServingPolicy.Valid.ids_differ (h : policy.Valid) :
    policy.releases.Pairwise fun a b => a.release_id ≠ b.release_id :=
  h.ascending.imp fun hlt => hlt.ne

theorem ServingPolicy.Valid.eq_of_id (h : policy.Valid) {a b : ServingRelease}
    (ha : a ∈ policy.releases) (hb : b ∈ policy.releases) (hid : a.release_id = b.release_id) : a = b := by
  have hsymm : Std.Symm fun a b : ServingRelease => a.release_id ≠ b.release_id := ⟨fun _ _ hne => hne.symm⟩
  by_contra hne
  exact h.ids_differ.forall ha hb hne hid

/-- A Release is selected by as many percentiles as its weight says. -/
theorem ServingPolicy.card_selected (h : policy.validate = .ok ()) (hmem : release ∈ policy.releases) :
    ((Finset.range 100).filter fun percentile =>
      policy.select_percentile percentile = .ok release.release_id).card = release.weight_percent.toNat := by
  have hvalid := ServingPolicy.valid_of_validate h
  obtain ⟨before, after, hreleases⟩ := List.append_of_mem hmem
  have htotal := hvalid.total
  have hids := hvalid.ids_differ
  rw [hreleases] at htotal hids
  have hsplit := htotal
  rw [total_weight_append, total_weight_cons] at hsplit
  have hinterval : ((Finset.range 100).filter fun percentile =>
      policy.select_percentile percentile = .ok release.release_id) =
      Finset.Ico (total_weight before) (total_weight before + release.weight_percent.toNat) := by
    ext percentile
    rw [Finset.mem_filter, Finset.mem_range, Finset.mem_Ico]
    by_cases hpercentile : percentile < 100
    · rw [ServingPolicy.select_percentile_eq h hpercentile, hreleases,
        select_entry_iff (Nat.zero_le _) (by omega) hids, Nat.zero_add]
      exact ⟨fun hselected => hselected.2, fun hinside => ⟨hpercentile, hinside⟩⟩
    · exact iff_of_false (fun hselected => hpercentile hselected.1) fun hinside => by omega
  rw [hinterval, Nat.card_Ico, Nat.add_sub_cancel_left]

/-- Every percentile selects exactly one entry of the policy. -/
theorem ServingPolicy.exists_unique_selected {percentile : Nat}
    (h : policy.validate = .ok ()) (hpercentile : percentile < 100) :
    ∃! release, release ∈ policy.releases ∧ policy.select_percentile percentile = .ok release.release_id := by
  have hvalid := ServingPolicy.valid_of_validate h
  have htotal := hvalid.total
  obtain ⟨release_id, hselected⟩ := @select_entry_isOk percentile 0 policy.releases (by omega) (by omega)
    (Nat.zero_le _)
  rw [← ServingPolicy.select_percentile_eq h hpercentile] at hselected
  rw [hselected]
  rw [ServingPolicy.select_percentile_eq h hpercentile] at hselected
  obtain ⟨release, hmem, rfl⟩ := select_entry_mem hselected
  refine ⟨release, ⟨hmem, rfl⟩, fun other hother => ?_⟩
  exact hvalid.eq_of_id hother.1 hmem (Except.ok.inj hother.2).symm

/-- Supplied in another order, the entries make the same policy. -/
theorem ServingPolicy.new_perm {project_id : ProjectId} {mode : ServingMode} {releases other : List ServingRelease}
    (hperm : releases.Perm other) (h : ServingPolicy.new project_id mode releases = .ok policy) :
    ServingPolicy.new project_id mode other = .ok policy := by
  obtain ⟨⟨⟩, hvalidate, h⟩ := bind_eq_ok_iff.mp h
  have hvalid := ServingPolicy.valid_of_validate hvalidate
  -- Only entries of one Release could trade places, and a valid policy has no two of them.
  have hsorted : (other.insertionSort fun a b => a.release_id ≤ b.release_id) =
      releases.insertionSort fun a b => a.release_id ≤ b.release_id := by
    have htotal : Std.Total fun a b : ServingRelease => a.release_id ≤ b.release_id := ⟨fun a b => le_total _ _⟩
    have htrans : IsTrans ServingRelease fun a b => a.release_id ≤ b.release_id := ⟨fun _ _ _ => le_trans⟩
    have hentries := (List.perm_insertionSort (fun a b => a.release_id ≤ b.release_id) other).trans
      (hperm.symm.trans (List.perm_insertionSort (fun a b => a.release_id ≤ b.release_id) releases).symm)
    refine hentries.eq_of_pairwise (fun a b ha hb hab hba => ?_) (List.pairwise_insertionSort _ _)
      (List.pairwise_insertionSort _ _)
    exact hvalid.eq_of_id (hentries.subset ha) hb (le_antisymm hab hba)
  rw [ServingPolicy.new, hsorted]
  exact bind_eq_ok_iff.mpr ⟨(), hvalidate, h⟩

/-- In a valid policy a Release has as many of the hundred percentiles as its weight, each percentile selects one
entry, and the order in which the entries were supplied does not matter to the policy, its selections and its digest. -/
theorem weighted_selection_exact {policy : ServingPolicy} (h : policy.validate = .ok ()) :
    (∀ release ∈ policy.releases, ((Finset.range 100).filter fun percentile =>
        policy.select_percentile percentile = .ok release.release_id).card = release.weight_percent.toNat) ∧
      (∀ percentile < 100, ∃! release,
        release ∈ policy.releases ∧ policy.select_percentile percentile = .ok release.release_id) ∧
      ∀ releases other, releases.Perm other → ServingPolicy.new policy.project_id policy.mode releases = .ok policy →
          ∃ reordered, ServingPolicy.new policy.project_id policy.mode other = .ok reordered ∧ reordered = policy ∧
            reordered.select_percentile = policy.select_percentile ∧
              ∀ sha256, reordered.digest sha256 = policy.digest sha256 := by
  refine ⟨fun release hmem => ServingPolicy.card_selected h hmem,
    fun percentile hpercentile => ServingPolicy.exists_unique_selected h hpercentile, ?_⟩
  intro releases other hperm hnew
  exact ⟨policy, ServingPolicy.new_perm hperm hnew, rfl, rfl, fun _ => rfl⟩

/-- An entry whose contracts all hash to zero. -/
def sample_release (id : Fin (2 ^ 128)) (weight_percent : UInt8) : ServingRelease :=
  ⟨⟨⟨id⟩⟩, weight_percent, ⟨.replicate 32 0, .replicate 32 0, .replicate 32 0⟩⟩

/-- A canary of thirty percent has thirty percentiles. -/
theorem canary_has_its_share : ((Finset.range 100).filter fun percentile =>
      (ServingPolicy.mk ⟨⟨0⟩⟩ .Gradual [sample_release 1 30, sample_release 2 70]).select_percentile percentile =
        .ok (sample_release 1 30).release_id).card = 30 :=
  (@weighted_selection_exact ⟨⟨⟨0⟩⟩, .Gradual, [sample_release 1 30, sample_release 2 70]⟩
    (by decide +kernel)).1 _ (.head _)

end runku.serving
