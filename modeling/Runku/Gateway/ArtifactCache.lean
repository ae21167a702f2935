import Runku.Data.Digest
import Runku.Lib.Machine
import Runku.Releases.Cron

/-!
The cache of `runku-gateway/src/service.rs`, over a `BTreeMap`, and that of `runku-node-runtime/src/remote.rs`, over a
`HashMap`. The maps are read by key only, and are the list of their entries in the order in which they were inserted.
-/

namespace runku.gateway

open runku.data runku.releases

def USIZE_MAX : Nat := 2 ^ 64 - 1

def saturating_add (a b : Nat) : Nat := min (a + b) USIZE_MAX

structure ArtifactCacheState (Artifact : Type) where
  entries : List (Sha256Digest × Artifact)
  order : List Sha256Digest
  retained_bytes : Nat
  deriving DecidableEq

variable {Artifact : Type} (len : Artifact → Nat)

namespace ArtifactCacheState

def default : ArtifactCacheState Artifact := ⟨[], [], 0⟩

/-- Whether the loop of either cache goes on. -/
def full (max_entries max_bytes size : Nat) (state : ArtifactCacheState Artifact) : Prop :=
  max_entries ≤ state.entries.length ∨ max_bytes < saturating_add state.retained_bytes size

instance (max_entries max_bytes size : Nat) (state : ArtifactCacheState Artifact) :
    Decidable (state.full max_entries max_bytes size) :=
  inferInstanceAs (Decidable (_ ∨ _))

/-- The removal of one entry. -/
def remove (state : ArtifactCacheState Artifact) (oldest : Sha256Digest) (order : List Sha256Digest) :
    ArtifactCacheState Artifact :=
  { entries := state.entries.filter fun entry => entry.1 ≠ oldest
    order
    retained_bytes := state.retained_bytes - ((state.entries.lookup oldest).map len).getD 0 }

def push (state : ArtifactCacheState Artifact) (digest : Sha256Digest) (artifact : Artifact) :
    ArtifactCacheState Artifact :=
  { entries := state.entries ++ [(digest, artifact)]
    order := state.order ++ [digest]
    retained_bytes := saturating_add state.retained_bytes (len artifact) }

/-- The sizes of the entries, added up. -/
def total (state : ArtifactCacheState Artifact) : Nat := (state.entries.map fun entry => len entry.2).sum

/-- The stored artifacts and another one are in memory together, so their sizes add up to a `usize`. -/
def Fits (state : ArtifactCacheState Artifact) (artifact : Artifact) : Prop :=
  state.total len + len artifact ≤ USIZE_MAX

instance (state : ArtifactCacheState Artifact) (artifact : Artifact) : Decidable (state.Fits len artifact) :=
  inferInstanceAs (Decidable (_ ≤ _))

/-- The counts are those of the entries, within the limits, and the queue lists them. -/
structure Exact (max_entries max_bytes : Nat) (state : ArtifactCacheState Artifact) : Prop where
  order : state.order = state.entries.map Prod.fst
  nodup : state.order.Nodup
  bytes : state.retained_bytes = state.total len
  within_bytes : state.retained_bytes ≤ max_bytes
  within_entries : state.entries.length ≤ max_entries

variable {len} {max_entries max_bytes : Nat} {state : ArtifactCacheState Artifact}

theorem Exact.default : Exact len max_entries max_bytes (default : ArtifactCacheState Artifact) :=
  ⟨rfl, .nil, rfl, Nat.zero_le _, Nat.zero_le _⟩

/-- The oldest digest is that of the first entry. -/
theorem Exact.remove {oldest : Sha256Digest} {order : List Sha256Digest}
    (h : state.Exact len max_entries max_bytes) (horder : state.order = oldest :: order) :
    (state.remove len oldest order).Exact len max_entries max_bytes := by
  obtain ⟨hqueue, hnodup, hbytes, hwithin, hlength⟩ := h
  cases hentries : state.entries with
  | nil =>
    rw [hqueue, hentries] at horder
    cases horder
  | cons first entries =>
    obtain ⟨digest, artifact⟩ := first
    rw [hentries, List.map_cons] at hqueue
    obtain ⟨rfl, rfl⟩ := List.cons.inj (horder.symm.trans hqueue)
    rw [hqueue, List.nodup_cons] at hnodup
    have hrest : (entries.filter fun entry => !decide (entry.1 = oldest)) = entries := by
      refine List.filter_eq_self.mpr fun entry hmem => ?_
      simpa using fun heq : entry.1 = oldest => hnodup.1 (List.mem_map.mpr ⟨entry, hmem, heq⟩)
    simp only [total, hentries, List.map_cons, List.sum_cons] at hbytes
    rw [hentries, List.length_cons] at hlength
    constructor <;> simp [ArtifactCacheState.remove, total, hentries, hrest, hnodup.2] <;> omega

/-- The count does not saturate, since the sizes of what is in memory add up to a `usize`. -/
theorem Exact.push {digest : Sha256Digest} {artifact : Artifact}
    (h : state.Exact len max_entries max_bytes) (hnew : digest ∉ state.order) (hfits : state.Fits len artifact)
    (hroom : ¬state.full max_entries max_bytes (len artifact)) :
    (state.push len digest artifact).Exact len max_entries max_bytes := by
  rw [full, not_or, not_le, not_lt] at hroom
  have hadd : saturating_add state.retained_bytes (len artifact) = state.retained_bytes + len artifact :=
    min_eq_left (h.bytes ▸ hfits)
  constructor
  · simp [ArtifactCacheState.push, h.order]
  · simpa [ArtifactCacheState.push, List.nodup_append] using ⟨h.nodup, fun _ hmem heq => hnew (heq ▸ hmem)⟩
  · rw [ArtifactCacheState.push, hadd, h.bytes]
    simp [total]
  · exact hroom.2
  · rw [ArtifactCacheState.push, List.length_append, List.length_singleton]
    exact hroom.1

end ArtifactCacheState

/-- The loop over the oldest digests; it fails with what it left when there is no oldest digest. -/
def evict (max_entries max_bytes size : Nat) : List Sha256Digest → ArtifactCacheState Artifact →
    Except (ArtifactCacheState Artifact) (ArtifactCacheState Artifact)
  | [], state => if state.full max_entries max_bytes size then .error state else .ok state
  | oldest :: order, state =>
    if state.full max_entries max_bytes size then evict max_entries max_bytes size order (state.remove len oldest order)
    else .ok state

/-- `ArtifactCache::load`, with the answer of the artifact store. -/
def load (maximum_bytes : Nat) (state : ArtifactCacheState Artifact) (digest : Sha256Digest)
    (answer : Except ReleaseError Artifact) : Except ReleaseError Artifact × ArtifactCacheState Artifact :=
  match state.entries.lookup digest with
  | some artifact => (.ok artifact, state)
  | none =>
    match answer with
    | .error error => (.error error, state)
    | .ok artifact =>
      if len artifact > maximum_bytes then (.ok artifact, state)
      else
        match evict len 1024 maximum_bytes (len artifact) state.order state with
        | .error state => (.error .Internal, state)
        | .ok state => (.ok artifact, state.push len digest artifact)

/-- `PreparedArtifactCache::insert`. -/
def insert (max_entries max_bytes : Nat) (state : ArtifactCacheState Artifact) (digest : Sha256Digest)
    (artifact : Artifact) : ArtifactCacheState Artifact :=
  if len artifact > max_bytes ∨ (state.entries.lookup digest).isSome then state
  else
    match evict len max_entries max_bytes (len artifact) state.order state with
    | .error state => state
    | .ok state => state.push len digest artifact

section
variable {len} {max_entries max_bytes size : Nat} {state : ArtifactCacheState Artifact}

/-- The loop ends with room for the artifact; it has removed the oldest entries. -/
theorem evict_exact (hone : 1 ≤ max_entries) (hsize : size ≤ max_bytes) (h : state.Exact len max_entries max_bytes) :
    ∃ room, evict len max_entries max_bytes size state.order state = .ok room ∧
      room.Exact len max_entries max_bytes ∧ room.order <:+ state.order ∧ room.retained_bytes ≤ state.retained_bytes ∧
      ¬room.full max_entries max_bytes size := by
  generalize horder : state.order = order
  induction order generalizing state with
  | nil =>
    have hempty : ¬state.full max_entries max_bytes size := by
      have hentries : state.entries = [] := List.map_eq_nil_iff.mp (h.order.symm.trans horder)
      have hbytes := h.bytes
      simp only [ArtifactCacheState.total, hentries, List.map_nil, List.sum_nil] at hbytes
      simp only [ArtifactCacheState.full, saturating_add, hentries, hbytes, List.length_nil]
      omega
    exact ⟨state, if_neg hempty, h, horder ▸ List.suffix_refl _, le_rfl, hempty⟩
  | cons oldest order ih =>
    by_cases hfull : state.full max_entries max_bytes size
    · obtain ⟨room, hroom, hexact, hsuffix, hbytes, hrest⟩ := ih (h.remove horder) rfl
      exact ⟨room, (if_pos hfull).trans hroom, hexact, hsuffix.trans (List.suffix_cons ..),
        hbytes.trans (Nat.sub_le ..), hrest⟩
    · exact ⟨state, if_neg hfull, h, horder ▸ List.suffix_refl _, le_rfl, hfull⟩

/-- An artifact that is not stored and fits is stored after the loop. -/
theorem ArtifactCacheState.Exact.store {digest : Sha256Digest} {artifact : Artifact} (hone : 1 ≤ max_entries)
    (h : state.Exact len max_entries max_bytes) (hnew : state.entries.lookup digest = none)
    (hsize : len artifact ≤ max_bytes) :
    ∃ room, evict len max_entries max_bytes (len artifact) state.order state = .ok room ∧
      (state.Fits len artifact → (room.push len digest artifact).Exact len max_entries max_bytes) := by
  obtain ⟨room, hroom, hexact, hsuffix, hbytes, hfull⟩ := evict_exact hone hsize h
  refine ⟨room, hroom, fun hfits => hexact.push (fun hmem => ?_) ?_ hfull⟩
  · have hstored := hsuffix.subset hmem
    rw [h.order, List.mem_map] at hstored
    obtain ⟨entry, hentry, rfl⟩ := hstored
    simpa using List.lookup_eq_none_iff.mp hnew entry hentry
  · rw [h.bytes, hexact.bytes] at hbytes
    exact (Nat.add_le_add_right hbytes _).trans hfits

/-- A load fails with an internal error only if the artifact store does. -/
theorem load_internal (h : state.Exact len 1024 max_bytes) {digest : Sha256Digest}
    {answer : Except ReleaseError Artifact} (hload : (load len max_bytes state digest answer).1 = .error .Internal) :
    answer = .error .Internal := by
  unfold load at hload
  split at hload
  · cases hload
  · rename_i hnew
    split at hload
    · exact hload
    · split at hload
      · cases hload
      · rename_i hsize
        obtain ⟨room, hroom, _⟩ := h.store (by decide) hnew (Nat.le_of_not_gt hsize)
        rw [hroom] at hload
        cases hload

/-- An artifact that the store answers with is in memory together with the entries. -/
def LoadFits (len : Artifact → Nat) (state : ArtifactCacheState Artifact)
    (call : Sha256Digest × Except ReleaseError Artifact) : Prop :=
  state.entries.lookup call.1 = none → ∀ artifact, call.2 = .ok artifact → state.Fits len artifact

/-- A load keeps the cache exact. -/
theorem load_exact {call : Sha256Digest × Except ReleaseError Artifact} (hfits : LoadFits len state call)
    (h : state.Exact len 1024 max_bytes) : (load len max_bytes state call.1 call.2).2.Exact len 1024 max_bytes := by
  unfold load
  split
  · exact h
  · rename_i hnew
    split
    · exact h
    · rename_i artifact hanswer
      split
      · exact h
      · rename_i hsize
        obtain ⟨room, hroom, hexact⟩ := h.store (by decide) hnew (Nat.le_of_not_gt hsize)
        rw [hroom]
        exact hexact (hfits hnew artifact hanswer)

/-- An insertion keeps the cache exact. -/
theorem insert_exact {digest : Sha256Digest} {artifact : Artifact} (hone : 1 ≤ max_entries)
    (hfits : state.Fits len artifact) (h : state.Exact len max_entries max_bytes) :
    (insert len max_entries max_bytes state digest artifact).Exact len max_entries max_bytes := by
  unfold insert
  split
  · exact h
  · rename_i hstored
    rw [not_or, Option.not_isSome_iff_eq_none, not_lt] at hstored
    obtain ⟨room, hroom, hexact⟩ := h.store hone hstored.2 hstored.1
    rw [hroom]
    exact hexact hfits

end

/-- After any calls, with any limits, both caches are exact and within their limits, and the loop finds room: a load
fails with an internal error only if the artifact store does. All that is asked of the artifacts is that those in memory
together have sizes that add up to a `usize`. -/
theorem artifact_caches_exact (len : Artifact → Nat) (max_bytes : Nat) :
    (∀ loads : List (Sha256Digest × Except ReleaseError Artifact),
      machine.Meets (fun state call => (load len max_bytes state call.1 call.2).2) (LoadFits len) .default loads →
      let state := machine.run (fun state call => (load len max_bytes state call.1 call.2).2) .default loads
      state.Exact len 1024 max_bytes ∧ ∀ digest answer,
        (load len max_bytes state digest answer).1 = .error .Internal → answer = .error .Internal) ∧
    ∀ max_entries, 1 ≤ max_entries → ∀ inserts : List (Sha256Digest × Artifact),
      machine.Meets (fun state call => insert len max_entries max_bytes state call.1 call.2)
        (fun state call => state.Fits len call.2) .default inserts →
      (machine.run (fun state call => insert len max_entries max_bytes state call.1 call.2) .default inserts).Exact len
        max_entries max_bytes := by
  refine ⟨fun loads hloads => ?_, fun max_entries hone inserts hinserts => ?_⟩
  · have hexact := machine.run_induction
      (fun state _ hfits (h : state.Exact len 1024 max_bytes) => load_exact hfits h) hloads .default
    exact ⟨hexact, fun digest answer => load_internal hexact⟩
  · exact machine.run_induction
      (fun state _ hfits (h : state.Exact len max_entries max_bytes) => insert_exact hone hfits h) hinserts .default

def digest_of (byte : UInt8) : Sha256Digest := Vector.replicate 32 byte

/-- Room for two: the oldest of three goes. -/
theorem third_artifact_evicts_first :
    let state := machine.run (fun state (call : Sha256Digest × Nat) => insert id 2 20 state call.1 call.2) .default
      [(digest_of 1, 4), (digest_of 2, 5), (digest_of 3, 6)]
    state.Exact id 2 20 ∧ state.order = [digest_of 2, digest_of 3] :=
  ⟨(artifact_caches_exact id 20).2 2 (by decide) _ (by decide +kernel), by decide +kernel⟩

/-- In a cache of one mebibyte that holds an artifact, a failure of the store to read another one is passed on. -/
theorem store_failure_passed_on :
    let state := (load id 1048576 .default (digest_of 1) (.ok 5)).2
    state.order = [digest_of 1] ∧ (load id 1048576 state (digest_of 2) (.error .Internal)).1 = .error .Internal := by
  decide +kernel

end runku.gateway
