import Runku.FileStorage.Service
import Runku.ObjectStorage.Model

/-! `runku-file-storage/src/lib.rs`: content-addressed objects, over a backend that answers every request. -/

namespace runku.file_storage

open runku.core
open runku.data (Sha256Digest)
open runku.object_storage (BucketId hex_bytes hex_digit)
open fallible

structure LogicalObjectPath where
  bucket_id : String
  digest_hex : String
  deriving DecidableEq

structure LogicalObjectPart where
  digest_hex : String
  size : UInt64
  deriving DecidableEq

structure ComposedLogicalObject where
  size : Nat
  sha256 : Sha256Digest

/-- The backend: the objects, the chunks in which a read returns one, and the free space of the file system, if the
objects are files. -/
structure ByteStore where
  objects : LogicalObjectPath → Option (List UInt8)
  stream : List UInt8 → List (List UInt8)
  flatten_stream : ∀ content, (stream content).flatten = content
  available_space : Option Nat

def ByteStore.put (store : ByteStore) (path : LogicalObjectPath) (content : List UInt8) : ByteStore :=
  { store with objects := fun other => if other = path then some content else store.objects other }

theorem ByteStore.objects_put (store : ByteStore) (path other : LogicalObjectPath) (content : List UInt8) :
    (store.put path content).objects other = if other = path then some content else store.objects other := rfl

def is_ulid_char (c : Char) : Bool :=
  c.isDigit || ('A' ≤ c && c ≤ 'H') || ('J' ≤ c && c ≤ 'K') || ('M' ≤ c && c ≤ 'N') || ('P' ≤ c && c ≤ 'T')
    || ('V' ≤ c && c ≤ 'Z')

def is_hex_char (c : Char) : Bool := c.isDigit || ('a' ≤ c && c ≤ 'f')

def validate_logical_object_locator (bucket_id digest_hex : String) : Except FileStorageError Unit :=
  if (bytes.as_bytes bucket_id).length ≠ 30 ∨ ¬(bucket_id.toList.take 4 = "bkt_".toList)
      ∨ ¬(bucket_id.toList.drop 4).all is_ulid_char ∨ (bytes.as_bytes digest_hex).length ≠ 64
      ∨ ¬digest_hex.toList.all is_hex_char then .error .InvalidRequest
  else .ok ()

def ByteStore.ensure_filesystem_capacity (store : ByteStore) (reservation minimum_free : Nat) :
    Except FileStorageError Unit :=
  match store.available_space with
  | none => .ok ()
  | some available =>
    if available < min (reservation + minimum_free) (2 ^ 64 - 1) then .error .LimitExceeded else .ok ()

def ByteStore.put_logical_object (sha256 : List UInt8 → Sha256Digest) (store : ByteStore) (bucket_id digest_hex : String)
    (content : List UInt8) (maximum : UInt64) : Except FileStorageError ByteStore := do
  validate_logical_object_locator bucket_id digest_hex
  if content.length ≥ 2 ^ 64 then .error .LimitExceeded else
  if content.length > maximum.toNat ∨ hex_bytes (sha256 content).toList ≠ digest_hex then .error .InvalidRequest else do
  store.ensure_filesystem_capacity content.length 0
  match store.objects ⟨bucket_id, digest_hex⟩ with
  | none => .ok (store.put ⟨bucket_id, digest_hex⟩ content)
  | some stored => if stored.length = content.length then .ok store else .error .Corruption

/-- What was read of the current part, which is what its hash and its size count, and of all parts. -/
structure Copy where
  part : List UInt8
  total : List UInt8

def copy_chunk (size maximum : Nat) (copy : Copy) (chunk : List UInt8) : Except FileStorageError Copy :=
  if copy.part.length + chunk.length ≥ 2 ^ 64 ∨ copy.total.length + chunk.length ≥ 2 ^ 64 then .error .LimitExceeded
  else if copy.part.length + chunk.length > size ∨ copy.total.length + chunk.length > maximum then .error .Corruption
  else .ok ⟨copy.part ++ chunk, copy.total ++ chunk⟩

/-- Reads an object of a known size and digest after what was read before. -/
def ByteStore.copy_content (sha256 : List UInt8 → Sha256Digest) (store : ByteStore) (content : List UInt8)
    (size maximum : Nat) (digest_hex : String) (total : List UInt8) : Except FileStorageError (List UInt8) := do
  if content.length ≠ size then .error .Corruption else do
  let copy ← (store.stream content).foldlM (copy_chunk size maximum) ⟨[], total⟩
  if copy.part.length ≠ size ∨ hex_bytes (sha256 copy.part).toList ≠ digest_hex then .error .Corruption else
  .ok copy.total

def ByteStore.copy_part (sha256 : List UInt8 → Sha256Digest) (store : ByteStore) (bucket_id : String) (maximum : Nat)
    (total : List UInt8) (part : LogicalObjectPart) : Except FileStorageError (List UInt8) :=
  match store.objects ⟨bucket_id, part.digest_hex⟩ with
  | none => .error .NotFound
  | some content => store.copy_content sha256 content part.size.toNat maximum part.digest_hex total

/-- Counts a part in before anything is read. -/
def admit_part (bucket_id : String) (maximum : Nat) (expected_total : Nat) (part : LogicalObjectPart) :
    Except FileStorageError Nat := do
  validate_logical_object_locator bucket_id part.digest_hex
  if part.size = 0 then .error .InvalidRequest
  else if expected_total + part.size.toNat ≥ 2 ^ 64 then .error .LimitExceeded
  else if expected_total + part.size.toNat > maximum then .error .LimitExceeded
  else .ok (expected_total + part.size.toNat)

/-- Copies a complete staging object to its final path, unless there is one already. -/
def ByteStore.promote_logical_staging (sha256 : List UInt8 → Sha256Digest) (store : ByteStore) (staged : List UInt8)
    (final_path : LogicalObjectPath) (expected_size : Nat) : Except FileStorageError ByteStore :=
  match store.objects final_path with
  | some stored => if stored.length ≠ expected_size then .error .Corruption else .ok store
  | none => do
    .ok (store.put final_path
      (← store.copy_content sha256 staged expected_size expected_size final_path.digest_hex []))

/-- The chunk size of the writers has no bearing on what they write, and a 64-bit machine has one for every total. -/
def ByteStore.compose_logical_object (sha256 : List UInt8 → Sha256Digest) (store : ByteStore)
    (bucket_id composition_id : String) (parts : List LogicalObjectPart) (maximum : Nat) :
    Except FileStorageError (ComposedLogicalObject × ByteStore) := do
  validate_logical_object_locator bucket_id composition_id
  if parts = [] then .error .InvalidRequest else do
  let expected_total ← parts.foldlM (admit_part bucket_id maximum) 0
  store.ensure_filesystem_capacity (min (expected_total * 2) (2 ^ 64 - 1)) 0
  let total ← parts.foldlM (store.copy_part sha256 bucket_id maximum) []
  if total.length ≠ expected_total then .error .Corruption else do
  let digest := sha256 total
  let store ← store.promote_logical_staging sha256 total ⟨bucket_id, hex_bytes digest.toList⟩ total.length
  .ok (⟨total.length, digest⟩, store)

theorem mem_hex_bytes {value : List UInt8} {c : Char} (h : c ∈ (hex_bytes value).toList) :
    is_hex_char c = true ∧ c.utf8Size = 1 := by
  have hdigits : ∀ digit : Fin 16, is_hex_char ("0123456789abcdef".toList.getD digit '0') = true ∧
      ("0123456789abcdef".toList.getD digit '0').utf8Size = 1 := by decide
  have hdigit (digit : UInt8) (hlt : digit.toNat < 16) :
      is_hex_char (hex_digit digit) = true ∧ (hex_digit digit).utf8Size = 1 := hdigits ⟨digit.toNat, hlt⟩
  rw [hex_bytes, String.toList_ofList, List.mem_flatMap] at h
  obtain ⟨byte, _, hc⟩ := h
  have hbyte := byte.toNat_lt
  rcases List.mem_pair.mp hc with rfl | rfl
  · exact hdigit _ (by rw [UInt8.toNat_div]; exact Nat.div_lt_of_lt_mul hbyte)
  · exact hdigit _ (by rw [UInt8.toNat_mod]; exact Nat.mod_lt _ (by decide))

theorem length_hex_bytes (value : List UInt8) : (bytes.as_bytes (hex_bytes value)).length = 2 * value.length := by
  rw [bytes.length_as_bytes_of_ascii fun c hc => (mem_hex_bytes hc).2]
  simp [hex_bytes, Nat.mul_comm]

/-- Identifiers and digests have the texts that locators are made of. -/
theorem locator_isOk (bucket_id : BucketId) (digest : Sha256Digest) :
    validate_logical_object_locator bucket_id.to_string (hex_bytes digest.toList) = .ok () := by
  have hchars : ∀ digit : Fin 32, is_ulid_char (Ulid.encode_digit digit) = true := by decide
  have hulid : bucket_id.ulid.to_string.toList.all is_ulid_char = true := by
    rw [Ulid.to_string, String.toList_ofList, List.all_map, List.all_eq_true]
    exact fun digit hdigit => hchars ⟨digit, radix.lt_of_mem_digits (by decide) hdigit⟩
  have hlength : (bytes.as_bytes bucket_id.to_string).length = 30 := by
    rw [ResourceId.to_string, bytes.as_bytes_append, List.length_append, bucket_id.ulid.length_as_bytes_to_string]
    decide
  have hhex : (hex_bytes digest.toList).toList.all is_hex_char = true :=
    List.all_eq_true.mpr fun c hc => (mem_hex_bytes hc).1
  rw [validate_logical_object_locator, hlength, length_hex_bytes, hhex, ResourceId.to_string, String.toList_append,
    List.take_left' (by decide), List.drop_left' (by decide), hulid]
  simp

section
variable {sha256 : List UInt8 → Sha256Digest} {store : ByteStore} {size maximum : Nat}

/-- Chunks that fit are copied, however the content is cut. -/
theorem foldlM_copy_chunk (hbound : maximum < 2 ^ 64) (chunks : List (List UInt8)) (copy : Copy)
    (hsize : copy.part.length + chunks.flatten.length ≤ size)
    (hmaximum : copy.total.length + chunks.flatten.length ≤ maximum) (hpart : size ≤ maximum) :
    chunks.foldlM (copy_chunk size maximum) copy = .ok ⟨copy.part ++ chunks.flatten, copy.total ++ chunks.flatten⟩ := by
  induction chunks generalizing copy with
  | nil => simp
  | cons chunk chunks ih =>
    rw [List.flatten_cons, List.length_append] at hsize hmaximum
    rw [List.foldlM_cons, copy_chunk, if_neg (by omega), if_neg (by omega), ok_bind, ih]
    · simp
    · rw [List.length_append]
      omega
    · rw [List.length_append]
      omega

theorem copy_content_eq {content total : List UInt8} (hbound : maximum < 2 ^ 64)
    (hmaximum : total.length + content.length ≤ maximum) :
    store.copy_content sha256 content content.length maximum (hex_bytes (sha256 content).toList) total =
      .ok (total ++ content) := by
  have hflatten := store.flatten_stream content
  rw [ByteStore.copy_content, if_neg (by simp), foldlM_copy_chunk hbound _ _ (by simp [hflatten])
    (by simpa [hflatten] using hmaximum) (by omega), ok_bind]
  simp [hflatten]

/-- A part whose bytes are stored. -/
def ByteStore.Holds (sha256 : List UInt8 → Sha256Digest) (store : ByteStore) (bucket_id : String)
    (part : LogicalObjectPart) (content : List UInt8) : Prop :=
  store.objects ⟨bucket_id, part.digest_hex⟩ = some content ∧ content.length = part.size.toNat ∧
    hex_bytes (sha256 content).toList = part.digest_hex

variable {parts : List LogicalObjectPart} {bucket_id : String} {contents : List (List UInt8)}

theorem copy_parts_eq (hbound : maximum < 2 ^ 64)
    (hparts : List.Forall₂ (store.Holds sha256 bucket_id) parts contents)
    (total : List UInt8) (hmaximum : total.length + contents.flatten.length ≤ maximum) :
    parts.foldlM (store.copy_part sha256 bucket_id maximum) total = .ok (total ++ contents.flatten) := by
  induction hparts generalizing total with
  | nil => simp
  | @cons part content parts contents hpart _ ih =>
    obtain ⟨hstored, hlength, hdigest⟩ := hpart
    rw [List.flatten_cons, List.length_append] at hmaximum
    rw [List.foldlM_cons, ByteStore.copy_part, hstored]
    dsimp only
    rw [← hlength, ← hdigest, copy_content_eq hbound (by omega), ok_bind, ih]
    · simp
    · rw [List.length_append]
      omega

/-- Parts with valid locators and a small enough total are admitted unless one of them is empty. -/
theorem admit_parts_iff (hbound : maximum < 2 ^ 64)
    (hlocators : ∀ part ∈ parts, validate_logical_object_locator bucket_id part.digest_hex = .ok ())
    (expected_total : Nat) (hmaximum : expected_total + (parts.map (·.size.toNat)).sum ≤ maximum) (admitted : Nat) :
    parts.foldlM (admit_part bucket_id maximum) expected_total = .ok admitted ↔
      (∀ part ∈ parts, part.size ≠ 0) ∧ admitted = expected_total + (parts.map (·.size.toNat)).sum := by
  induction parts generalizing expected_total with
  | nil => simp [eq_comm]
  | cons part parts ih =>
    rw [List.forall_mem_cons] at hlocators ⊢
    rw [List.map_cons, List.sum_cons] at hmaximum ⊢
    rw [List.foldlM_cons, admit_part, hlocators.1, ok_bind]
    by_cases hempty : part.size = 0
    · simp [hempty]
    · rw [if_neg hempty, if_neg (by omega), if_neg (by omega), ok_bind, ih hlocators.2 _ (by omega), Nat.add_assoc]
      simp [hempty]

theorem length_contents (hparts : List.Forall₂ (store.Holds sha256 bucket_id) parts contents) :
    contents.flatten.length = (parts.map (·.size.toNat)).sum := by
  induction hparts with
  | nil => rfl
  | cons hpart _ ih => simp [← ih, hpart.2.1]

theorem ensure_filesystem_capacity_eq_ok_iff {reservation : Nat} {u : Unit} :
    store.ensure_filesystem_capacity (min reservation (2 ^ 64 - 1)) 0 = .ok u ↔
      ∀ available ∈ store.available_space, min reservation (2 ^ 64 - 1) ≤ available := by
  unfold ByteStore.ensure_filesystem_capacity
  cases store.available_space with
  | none => simp
  | some available =>
    cases u
    simp only [Nat.add_zero, ite_error_eq_ok_iff, Option.mem_some_iff, forall_eq', and_true]
    omega

theorem promote_logical_staging_iff {bucket_id : String} {staged : List UInt8} (hbound : staged.length < 2 ^ 64) :
    (∃ store', store.promote_logical_staging sha256 staged ⟨bucket_id, hex_bytes (sha256 staged).toList⟩ staged.length =
      .ok store') ↔ ∀ stored, store.objects ⟨bucket_id, hex_bytes (sha256 staged).toList⟩ = some stored →
        stored.length = staged.length := by
  unfold ByteStore.promote_logical_staging
  split
  · rename_i stored hstored
    simp only [ite_error_eq_ok_iff, hstored, Option.some.injEq, forall_eq', exists_and_left, not_not]
    exact and_iff_left ⟨store, rfl⟩
  · rename_i hfresh
    rw [copy_content_eq hbound (by simp)]
    simp [hfresh]

/-- A composition of all the bytes of its parts ends well unless a part is empty, the file system has no room for two
copies, or an object of another size has the digest of the whole. -/
theorem compose_logical_object_iff {bucket_id : BucketId} {composition : Sha256Digest} (hne : parts ≠ [])
    (hlocators : ∀ part ∈ parts, validate_logical_object_locator bucket_id.to_string part.digest_hex = .ok ())
    (hparts : List.Forall₂ (store.Holds sha256 bucket_id.to_string) parts contents)
    (hmaximum : (parts.map (·.size.toNat)).sum = maximum) (hbound : maximum < 2 ^ 64) :
    (∃ composed, store.compose_logical_object sha256 bucket_id.to_string (hex_bytes composition.toList) parts maximum =
      .ok composed) ↔ (∀ part ∈ parts, part.size ≠ 0) ∧
        (∀ available ∈ store.available_space, min (maximum * 2) (2 ^ 64 - 1) ≤ available) ∧
        ∀ stored, store.objects ⟨bucket_id.to_string, hex_bytes (sha256 contents.flatten).toList⟩ = some stored →
          stored.length = maximum := by
  have hlength := length_contents hparts
  have hcopy := copy_parts_eq hbound hparts [] (by simp [hlength, hmaximum])
  rw [List.nil_append] at hcopy
  rw [ByteStore.compose_logical_object, locator_isOk, ok_bind, if_neg hne]
  have hpromote := @promote_logical_staging_iff sha256 store bucket_id.to_string contents.flatten (by omega)
  rw [hlength, hmaximum] at hpromote
  simp only [bind_eq_ok_iff, admit_parts_iff hbound hlocators 0 (by omega), hcopy, ensure_filesystem_capacity_eq_ok_iff]
  constructor
  · rintro ⟨composed, _, ⟨hfull, rfl⟩, _, hspace, _, htotal, h⟩
    cases htotal
    rw [Nat.zero_add, hmaximum] at hspace h
    rw [hlength, hmaximum, if_neg (not_not_intro rfl)] at h
    obtain ⟨store', hstore, _⟩ := bind_eq_ok_iff.mp h
    exact ⟨hfull, hspace, hpromote.mp ⟨store', hstore⟩⟩
  · rintro ⟨hfull, hspace, hfinal⟩
    obtain ⟨store', hstore⟩ := hpromote.mpr hfinal
    refine ⟨(⟨maximum, sha256 contents.flatten⟩, store'), maximum, ⟨hfull, by omega⟩, (), hspace, _, rfl, ?_⟩
    rw [hlength, hmaximum, if_neg (not_not_intro rfl), hstore]
    rfl

end

end runku.file_storage
