import Runku.FileStorage.LogicalObjects
import Runku.ObjectStorageRepository.Steps

/-! `runku-local/src/s3.rs`: the requests that store a part and complete an upload. -/

namespace runku.s3

open runku.object_storage runku.object_storage_repository runku.file_storage
open runku.value (TimestampMicros)
open runku.data (Sha256Digest)
open fallible transaction

/-- How a request can end that does not reach a composition. -/
inductive S3Response
  | InvalidArgument
  | NoSuchUpload
  | MalformedXML
  | InvalidPart
  | EntityTooSmall
  | EntityTooLarge
  | Completed (version_id : ObjectVersionId)
  | Storage (error : ObjectStorageError)
  | File (error : FileStorageError)
  deriving DecidableEq

/-- What the requests of a bucket share. -/
structure Storage where
  tables : StorageTables
  bytes : ByteStore

def put_multipart_part (sha256 : List UInt8 → Sha256Digest) (max_object_bytes : UInt64)
    (read write : object_storage_repository.World) (key : UploadKey) (object_key : String) (part_number : UInt16)
    (body : List UInt8) (now : TimestampMicros) (storage : Storage) : Except S3Response Unit × Storage :=
  if ¬(1 ≤ part_number ∧ part_number ≤ 10000) then (.error .InvalidArgument, storage) else
  match (read.transact (get_multipart_upload key) storage.tables).1 with
  | .error error => (.error (.Storage error), storage)
  | .ok none => (.error .NoSuchUpload, storage)
  | .ok (some upload) =>
    if upload.key ≠ object_key ∨ upload.state ≠ .Active then (.error .NoSuchUpload, storage) else
    let digest := sha256 body
    match storage.bytes.put_logical_object sha256 key.bucket_id.to_string (hex_bytes digest.toList) body
        max_object_bytes with
    | .error error => (.error (.File error), storage)
    | .ok bytes =>
      let written := write.transact (object_storage_repository.put_multipart_part key
        ⟨part_number, UInt64.ofNat body.length, digest, object_etag digest, now⟩) storage.tables
      (written.1.mapError .Storage, ⟨written.2, bytes⟩)

/-- The text before the first occurrence of another and the text after it. -/
def split_at (needle : List Char) : List Char → Option (List Char × List Char)
  | [] => if needle = [] then some ([], []) else none
  | c :: text =>
    match needle.isPrefixOf? (c :: text) with
    | some after => some ([], after)
    | none => (split_at needle text).map fun (before, after) => (c :: before, after)

theorem length_split_at {needle text before after : List Char} (h : split_at needle text = some (before, after)) :
    after.length + needle.length ≤ text.length := by
  induction text generalizing before with
  | nil =>
    unfold split_at at h
    split at h <;> simp_all
  | cons c text ih =>
    unfold split_at at h
    split at h
    · rename_i rest hrest
      cases h
      have := congrArg List.length (List.isPrefixOf?_eq_some_iff_append_eq.mp hrest)
      simp at this ⊢
      omega
    · obtain ⟨⟨_, _⟩, hsplit, heq⟩ := Option.map_eq_some_iff.mp h
      obtain ⟨_, rfl⟩ := Prod.mk.inj heq
      have := ih hsplit
      simp
      omega

def xml_text (value : List Char) (tag : String) : Option (List Char) := do
  let (_, value) ← split_at ("<" ++ tag ++ ">").toList value
  let (text, _) ← split_at ("</" ++ tag ++ ">").toList value
  if text = [] ∨ text.any (fun c => c = '<' || c = '>' || c = '&') then none else some text

/-- `u16::from_str`. -/
def parse_u16 (text : List Char) : Option UInt16 :=
  let digits := match text with
    | '+' :: digits => digits
    | digits => digits
  if digits = [] ∨ ¬digits.all Char.isDigit then none else
  let value := digits.foldl (fun value c => value * 10 + (c.toNat - 48)) 0
  if value < 2 ^ 16 then some (UInt16.ofNat value) else none

/-- The loop of `complete_part_list`, after a part with the number `previous`. -/
def part_list (text : List Char) (previous : Option UInt16) : Option (List (UInt16 × String)) :=
  match _hstart : split_at "<Part>".toList text with
  | none => some []
  | some (_, rest) =>
    match _hend : split_at "</Part>".toList rest with
    | none => none
    | some (part, rest) => do
      let number ← (xml_text part "PartNumber").bind parse_u16
      let etag ← xml_text part "ETag"
      if ¬(1 ≤ number ∧ number ≤ 10000) ∨ etag.head? ≠ some '"' ∨ etag.getLast? ≠ some '"'
          ∨ (bytes.as_bytes (String.ofList etag)).length > 130 ∨ previous.any (· ≥ number) then none
      else (part_list rest (some number)).map fun parts => (number, String.ofList etag) :: parts
termination_by text.length
decreasing_by
  have hstart := length_split_at _hstart
  have hend := length_split_at _hend
  simp at hstart hend
  omega

def complete_part_list (body : String) : Option (List (UInt16 × String)) := do
  if (split_at "<CompleteMultipartUpload".toList body.toList).isNone
      ∨ (split_at "</CompleteMultipartUpload>".toList body.toList).isNone then none else
  let parts ← part_list body.toList none
  if parts = [] ∨ parts.length > 10000 then none else some parts

def find_part (available : List MultipartPart) (requested : UInt16 × String) : Except S3Response MultipartPart :=
  match available.find? fun part => part.number = requested.1 with
  | none => .error .InvalidPart
  | some part => if part.etag ≠ requested.2 then .error .InvalidPart else .ok part

def composition_part (part : MultipartPart) : LogicalObjectPart := ⟨hex_bytes part.sha256.toList, part.size⟩

/-- The first loop of a completion, over the parts it names. -/
def check_parts (available : List MultipartPart) : List (UInt16 × String) → Except S3Response Unit
  | [] => .ok ()
  | requested :: rest => do
    let part ← find_part available requested
    if rest ≠ [] ∧ part.size < 5 * 1024 * 1024 then .error .EntityTooSmall else check_parts available rest

/-- The second loop, with the size so far. -/
def add_parts (available : List MultipartPart) (quota max_object_bytes : UInt64) (total_size : Nat) :
    List (UInt16 × String) → Except S3Response (Nat × List LogicalObjectPart)
  | [] => .ok (total_size, [])
  | requested :: rest => do
    let part ← find_part available requested
    let value := total_size + part.size.toNat
    if value < 2 ^ 64 ∧ value ≤ quota.toNat ∧ value ≤ max_object_bytes.toNat then do
      let (total_size, parts) ← add_parts available quota max_object_bytes value rest
      .ok (total_size, composition_part part :: parts)
    else .error .EntityTooLarge

/-- A completion up to its composition: what it composes once the upload is claimed. Each of its requests meets the
tables as they are by then. -/
def complete_multipart_upload (sha256 : List UInt8 → Sha256Digest) (quota max_object_bytes : UInt64) (key : UploadKey)
    (object_key body : String) (found listed claimed : object_storage_repository.World × StorageTables) :
    Except S3Response (Nat × List LogicalObjectPart) :=
  match (found.1.transact (get_multipart_upload key) found.2).1 with
  | .error error => .error (.Storage error)
  | .ok none => .error .NoSuchUpload
  | .ok (some upload) =>
    if upload.key ≠ object_key then .error .NoSuchUpload else
    match upload.completed_version_id, complete_part_list body with
    | some version_id, _ => .error (.Completed version_id)
    | none, none => .error .MalformedXML
    | none, some requested =>
      match (listed.1.transact (list_multipart_parts key) listed.2).1 with
      | .error error => .error (.Storage error)
      | .ok available => do
        check_parts available requested
        let composition ← add_parts available quota max_object_bytes 0 requested
        match (claimed.1.transact (claim_multipart_completion key (sha256 (bytes.as_bytes body))) claimed.2).1 with
        | .error error => .error (.Storage error)
        | .ok () => .ok composition

/-- What can happen to the storage between two requests of a completion: another part is stored, other transactions
leave or remove parts, an object is stored under the digest of its content, the file system has more or less room. -/
inductive Step (sha256 : List UInt8 → Sha256Digest) (max_object_bytes : UInt64) (storage : Storage) : Storage → Prop
  | put_part (read write : object_storage_repository.World) (key : UploadKey) (object_key : String)
    (part_number : UInt16) (body : List UInt8) (now : TimestampMicros) :
    Step sha256 max_object_bytes storage
      (put_multipart_part sha256 max_object_bytes read write key object_key part_number body now storage).2
  | transaction (tables : StorageTables)
    (hparts : ∀ (key : PartKey) part, tables.parts[key]? = some part → storage.tables.parts[key]? = some part) :
    Step sha256 max_object_bytes storage { storage with tables }
  | object (path : LogicalObjectPath) (content : List UInt8) (hfresh : storage.bytes.objects path = none)
    (hdigest : hex_bytes (sha256 content).toList = path.digest_hex) :
    Step sha256 max_object_bytes storage { storage with bytes := storage.bytes.put path content }
  | space (available_space : Option Nat) :
    Step sha256 max_object_bytes storage { storage with bytes := { storage.bytes with available_space } }

/-- The storage after any number of steps. -/
def Later (sha256 : List UInt8 → Sha256Digest) (max_object_bytes : UInt64) : Storage → Storage → Prop :=
  Relation.ReflTransGen (Step sha256 max_object_bytes)

/-- Every object has the digest it is stored under. -/
def Addressed (sha256 : List UInt8 → Sha256Digest) (store : ByteStore) : Prop :=
  ∀ path content, store.objects path = some content → hex_bytes (sha256 content).toList = path.digest_hex

/-- Every part has its bytes. -/
structure Sound (sha256 : List UInt8 → Sha256Digest) (storage : Storage) : Prop where
  objects : Addressed sha256 storage.bytes
  parts : ∀ (key : PartKey) part, storage.tables.parts[key]? = some part →
    ∃ content, storage.bytes.objects ⟨key.bucket_id.to_string, hex_bytes part.sha256.toList⟩ = some content ∧
      content.length = part.size.toNat

/-- What is stored stays stored. -/
def Keeps (before after : ByteStore) : Prop :=
  ∀ path content, before.objects path = some content → after.objects path = some content

section
variable {sha256 : List UInt8 → Sha256Digest} {max_object_bytes : UInt64} {storage storage' : Storage}

theorem Addressed.put {store : ByteStore} (h : Addressed sha256 store) {path : LogicalObjectPath} {content : List UInt8}
    (hdigest : hex_bytes (sha256 content).toList = path.digest_hex) : Addressed sha256 (store.put path content) := by
  intro other stored hstored
  rw [ByteStore.objects_put] at hstored
  split at hstored
  · rename_i hpath
    rw [← Option.some.inj hstored, hpath, hdigest]
  · exact h other stored hstored

/-- Under other paths nothing changes. -/
theorem objects_put_of_ne {store : ByteStore} {path other : LogicalObjectPath} {content : List UInt8}
    (h : other ≠ path) : (store.put path content).objects other = store.objects other :=
  (ByteStore.objects_put ..).trans (if_neg h)

/-- Storing under a new path keeps what is stored. -/
theorem keeps_put {store : ByteStore} {path : LogicalObjectPath} {content : List UInt8}
    (hfresh : store.objects path = none) : Keeps store (store.put path content) := by
  intro other stored hstored
  rw [objects_put_of_ne, hstored]
  rintro rfl
  simp [hfresh] at hstored

/-- An object that is stored keeps the others. -/
theorem put_logical_object_spec {store store' : ByteStore} {bucket_id : String} {content : List UInt8}
    {maximum : UInt64} (haddressed : Addressed sha256 store)
    (h : store.put_logical_object sha256 bucket_id (hex_bytes (sha256 content).toList) content maximum = .ok store') :
    Keeps store store' ∧ Addressed sha256 store' ∧ content.length < 2 ^ 64 ∧
      ∃ stored, store'.objects ⟨bucket_id, hex_bytes (sha256 content).toList⟩ = some stored ∧
        stored.length = content.length := by
  rw [ByteStore.put_logical_object, bind_eq_ok_iff] at h
  obtain ⟨_, _, h⟩ := h
  obtain ⟨hlength, h⟩ := ite_error_eq_ok_iff.mp h
  obtain ⟨_, h⟩ := ite_error_eq_ok_iff.mp h
  obtain ⟨_, _, h⟩ := bind_eq_ok_iff.mp h
  split at h
  · rename_i hfresh
    cases h
    exact ⟨keeps_put hfresh, haddressed.put rfl, by omega, content, if_pos rfl, rfl⟩
  · rename_i stored hstored
    split at h
    · rename_i hsame
      cases h
      exact ⟨fun _ _ h => h, haddressed, by omega, stored, hstored, hsame⟩
    · cases h

/-- An object that is not there and fits is stored. -/
theorem put_logical_object_stores {store : ByteStore} {bucket_id : BucketId} {content : List UInt8} {maximum : UInt64}
    (hlength : content.length ≤ maximum.toNat) (hspace : store.available_space = none)
    (hfresh : store.objects ⟨bucket_id.to_string, hex_bytes (sha256 content).toList⟩ = none) :
    store.put_logical_object sha256 bucket_id.to_string (hex_bytes (sha256 content).toList) content maximum =
      .ok (store.put ⟨bucket_id.to_string, hex_bytes (sha256 content).toList⟩ content) := by
  have hlt := maximum.toNat_lt
  rw [ByteStore.put_logical_object, locator_isOk, ok_bind, if_neg (by omega), if_neg (by simpa using hlength),
    ByteStore.ensure_filesystem_capacity, hspace]
  dsimp only
  rw [ok_bind, hfresh]

/-- A part that is accepted is stored with its bytes. -/
theorem put_multipart_part_stores {read write : object_storage_repository.World} {key : UploadKey} {object_key : String}
    {part_number : UInt16} {body : List UInt8} {now : TimestampMicros} {upload : MultipartUpload} {bytes : ByteStore}
    (hnumber : 1 ≤ part_number ∧ part_number ≤ 10000)
    (hfound : (read.transact (get_multipart_upload key) storage.tables).1 = .ok (some upload))
    (hupload : upload.key = object_key ∧ upload.state = .Active)
    (hput : storage.bytes.put_logical_object sha256 key.bucket_id.to_string (hex_bytes (sha256 body).toList) body
      max_object_bytes = .ok bytes) :
    (put_multipart_part sha256 max_object_bytes read write key object_key part_number body now storage).2 =
      ⟨(write.transact (object_storage_repository.put_multipart_part key
        ⟨part_number, UInt64.ofNat body.length, sha256 body, object_etag (sha256 body), now⟩) storage.tables).2, bytes⟩ := by
  rw [put_multipart_part, if_neg (not_not.mpr hnumber), hfound]
  dsimp only
  rw [if_neg (by simp [hupload.1, hupload.2]), hput]

/-- A request that stores a part stores its bytes first. -/
theorem put_multipart_part_sound (read write : object_storage_repository.World) (key : UploadKey) (object_key : String)
    (part_number : UInt16) (body : List UInt8) (now : TimestampMicros) (h : Sound sha256 storage) :
    let after := (put_multipart_part sha256 max_object_bytes read write key object_key part_number body now storage).2
    Sound sha256 after ∧ Keeps storage.bytes after.bytes := by
  have hsame : Sound sha256 storage ∧ Keeps storage.bytes storage.bytes := ⟨h, fun _ _ h => h⟩
  unfold put_multipart_part
  split
  · exact hsame
  split
  · exact hsame
  · exact hsame
  split
  · exact hsame
  dsimp only
  split
  · exact hsame
  rename_i bytes hput
  obtain ⟨hkeeps, haddressed, hlength, stored, hstored, hsize⟩ := put_logical_object_spec h.objects hput
  have htoNat : (UInt64.ofNat body.length).toNat = body.length := by
    rw [UInt64.toNat_ofNat', Nat.mod_eq_of_lt hlength]
  -- Whatever the transaction reports, the tables are as before or have the part, whose bytes are stored by now.
  have hsound (tables : StorageTables) (htables : tables = storage.tables ∨ ∃ u, Runs
      (object_storage_repository.put_multipart_part key ⟨part_number, UInt64.ofNat body.length, sha256 body,
        object_etag (sha256 body), now⟩) storage.tables u tables) : Sound sha256 ⟨tables, bytes⟩ := by
    refine ⟨haddressed, fun other part hpart => ?_⟩
    rcases htables with rfl | ⟨u, hruns⟩
    · obtain ⟨content, hcontent, hlength⟩ := h.parts other part hpart
      exact ⟨content, hkeeps _ _ hcontent, hlength⟩
    · obtain ⟨_, _, rfl⟩ := put_multipart_part_runs hruns
      rw [StorageTables.put_part, ordered_map.getElem?_insert] at hpart
      split at hpart
      · rename_i hkey
        cases hpart
        exact ⟨stored, hkey ▸ hstored, hsize.trans htoNat.symm⟩
      · obtain ⟨content, hcontent, hlength⟩ := h.parts other part hpart
        exact ⟨content, hkeeps _ _ hcontent, hlength⟩
  exact ⟨hsound _ (transact_state _ write.faults write.outcome storage.tables), hkeeps⟩

theorem step_sound (h : Sound sha256 storage) (hstep : Step sha256 max_object_bytes storage storage') :
    Sound sha256 storage' ∧ Keeps storage.bytes storage'.bytes := by
  cases hstep with
  | put_part => exact put_multipart_part_sound _ _ _ _ _ _ _ h
  | transaction tables hparts =>
    exact ⟨⟨h.objects, fun key part hpart => h.parts key part (hparts key part hpart)⟩, fun _ _ h => h⟩
  | object path content hfresh hdigest =>
    refine ⟨⟨h.objects.put hdigest, fun key part hpart => ?_⟩, keeps_put hfresh⟩
    obtain ⟨content, hcontent, hlength⟩ := h.parts key part hpart
    exact ⟨content, keeps_put hfresh _ _ hcontent, hlength⟩
  | space => exact ⟨⟨h.objects, h.parts⟩, fun _ _ h => h⟩

theorem later_sound (h : Sound sha256 storage) (hlater : Later sha256 max_object_bytes storage storage') :
    Sound sha256 storage' ∧ Keeps storage.bytes storage'.bytes := by
  induction hlater with
  | refl => exact ⟨h, fun _ _ h => h⟩
  | tail _ hstep ih =>
    obtain ⟨hsound, hkeeps⟩ := step_sound ih.1 hstep
    exact ⟨hsound, fun path content hcontent => hkeeps path content (ih.2 path content hcontent)⟩

variable {available : List MultipartPart}

theorem find_part_mem {requested : UInt16 × String} {part : MultipartPart}
    (h : find_part available requested = .ok part) : part ∈ available := by
  unfold find_part at h
  split at h
  · cases h
  · rename_i hfound
    obtain ⟨_, h⟩ := ite_error_eq_ok_iff.mp h
    exact Except.ok.inj h ▸ List.mem_of_find?_eq_some hfound

/-- A composition has the parts that a completion names and their total size. -/
theorem add_parts_spec {quota : UInt64} {requested : List (UInt16 × String)}
    {total_size total : Nat} {parts : List LogicalObjectPart}
    (h : add_parts available quota max_object_bytes total_size requested = .ok (total, parts)) :
    ∃ selected, List.Forall₂ (fun requested part => find_part available requested = .ok part) requested selected ∧
      (∀ part ∈ selected, part ∈ available) ∧ parts = selected.map composition_part ∧
        total = total_size + (parts.map (·.size.toNat)).sum ∧ (requested ≠ [] → total < 2 ^ 64) := by
  induction requested generalizing total_size total parts with
  | nil =>
    cases h
    exact ⟨[], .nil, nofun, rfl, rfl, fun h => absurd rfl h⟩
  | cons first rest ih =>
    rw [add_parts, bind_eq_ok_iff] at h
    obtain ⟨part, hpart, h⟩ := h
    dsimp only at h
    split at h
    · rename_i hvalue
      obtain ⟨⟨total', parts'⟩, hrest, h⟩ := bind_eq_ok_iff.mp h
      cases h
      obtain ⟨selected, hselected, hmem, rfl, rfl, hbound⟩ := ih hrest
      refine ⟨part :: selected, .cons hpart hselected, List.forall_mem_cons.mpr ⟨find_part_mem hpart, hmem⟩, rfl, ?_,
        fun _ => ?_⟩
      · simp [composition_part, Nat.add_assoc]
      · cases hselected with
        | nil => simpa using hvalue.1
        | cons => exact hbound (List.cons_ne_nil _ _)
    · cases h

/-- Only the last part may be small. -/
theorem check_parts_spec {requested : List (UInt16 × String)} {u : Unit}
    (h : check_parts available requested = .ok u) {selected : List MultipartPart}
    (hselected : List.Forall₂ (fun requested part => find_part available requested = .ok part) requested selected) :
    ∀ part ∈ selected.dropLast, part.size ≠ 0 := by
  induction hselected with
  | nil => simp
  | @cons first part rest selected hpart hrest ih =>
    rw [check_parts, hpart, ok_bind] at h
    obtain ⟨hsize, h⟩ := ite_error_eq_ok_iff.mp h
    cases hrest with
    | nil => simp
    | cons =>
      rw [List.dropLast_cons_of_ne_nil (List.cons_ne_nil _ _), List.forall_mem_cons]
      refine ⟨fun hzero => hsize ⟨List.cons_ne_nil _ _, ?_⟩, ih h⟩
      rw [hzero]
      decide

/-- Listed parts are stored ones. -/
theorem list_multipart_parts_mem {key : UploadKey} {tables tables' : StorageTables}
    (h : Runs (list_multipart_parts key) tables available tables') {part : MultipartPart} (hpart : part ∈ available) :
    ∃ part_key : PartKey, part_key.bucket_id = key.bucket_id ∧ tables.parts[part_key]? = some part := by
  rw [list_multipart_parts] at h
  obtain ⟨upload, tables₁, hupload, hrest⟩ := h.bind
  obtain rfl : tables₁ = tables := (Runs.fetch_bind hupload).lift.2
  obtain ⟨_, _, hrows⟩ := hrest.lift_bind
  have hlisted := mapM_eq_ok hrows.fetch_bind.lift.1
  obtain ⟨index, hindex, rfl⟩ := List.mem_iff_getElem.mp hpart
  have hrow := (List.forall₂_iff_get.mp hlisted).2 index (hlisted.length_eq ▸ hindex) hindex
  have hmem := List.get_mem (tables₁.parts_of key) ⟨index, hlisted.length_eq ▸ hindex⟩
  cases hvalid : ((tables₁.parts_of key).get ⟨index, hlisted.length_eq ▸ hindex⟩).validate with
  | error => rw [hvalid] at hrow; cases hrow
  | ok =>
    rw [hvalid] at hrow
    rw [show (tables₁.parts_of key).get ⟨index, _⟩ = available[index] from Except.ok.inj hrow] at hmem
    obtain ⟨⟨part_key, _⟩, hstored, heq⟩ := List.mem_map.mp hmem
    rw [List.mem_filter, Std.ExtTreeMap.mem_toList_iff_getElem?_eq_some, Bool.and_eq_true, decide_eq_true_eq] at hstored
    exact ⟨part_key, hstored.2.1, heq ▸ hstored.1⟩

/-- What a completion reaches its composition with. -/
theorem complete_multipart_upload_spec {quota : UInt64} {key : UploadKey} {object_key body : String}
    {found listed claimed : object_storage_repository.World × StorageTables} {total : Nat}
    {parts : List LogicalObjectPart}
    (h : complete_multipart_upload sha256 quota max_object_bytes key object_key body found listed claimed =
      .ok (total, parts)) : ∃ selected : List MultipartPart, selected ≠ [] ∧
      (∀ part ∈ selected, ∃ part_key : PartKey, part_key.bucket_id = key.bucket_id ∧
        listed.2.parts[part_key]? = some part) ∧
      (∀ part ∈ selected.dropLast, part.size ≠ 0) ∧ parts = selected.map composition_part ∧
      total = (parts.map (·.size.toNat)).sum ∧ total < 2 ^ 64 := by
  unfold complete_multipart_upload at h
  split at h
  · cases h
  · cases h
  obtain ⟨_, h⟩ := ite_error_eq_ok_iff.mp h
  split at h
  · cases h
  · cases h
  rename_i requested _ hrequested
  split at h
  · cases h
  rename_i available havailable
  obtain ⟨_, hchecked, h⟩ := bind_eq_ok_iff.mp h
  obtain ⟨composition, hcomposition, h⟩ := bind_eq_ok_iff.mp h
  split at h
  · cases h
  cases h
  obtain ⟨selected, hselected, hmem, hparts, htotal, hbound⟩ := add_parts_spec hcomposition
  have hne : requested ≠ [] := by
    rintro rfl
    simp [complete_part_list, Option.bind_eq_some_iff] at hrequested
  have hlisted := runs_of_transact_eq_ok (Prod.ext havailable rfl)
  refine ⟨selected, ?_, fun part hpart => list_multipart_parts_mem hlisted (hmem part hpart),
    check_parts_spec hchecked hselected, hparts, by rw [htotal, Nat.zero_add], hbound hne⟩
  rintro rfl
  cases hselected
  exact hne rfl

/-- From an empty storage on, a completion that claimed its upload is composed exactly if its last part is not empty,
there is room for two copies of the whole, and no object of another size has the digest of the whole. -/
theorem claimed_completion_composes_iff {start listed later : Storage} (hempty : start.tables.parts = ∅)
    (hnone : ∀ path, start.bytes.objects path = none) (hlisted : Later sha256 max_object_bytes start listed)
    (hlater : Later sha256 max_object_bytes listed later) {quota : UInt64} {key : UploadKey} {object_key body : String}
    {found claimed : object_storage_repository.World × StorageTables} {world : object_storage_repository.World}
    {total : Nat} {parts : List LogicalObjectPart}
    (hclaimed : complete_multipart_upload sha256 quota max_object_bytes key object_key body found (world, listed.tables)
      claimed = .ok (total, parts)) : (∃ composed, later.bytes.compose_logical_object sha256 key.bucket_id.to_string
      (hex_bytes (sha256 (bytes.as_bytes body)).toList) parts total = .ok composed) ↔
      (∀ part ∈ parts.getLast?, part.size ≠ 0) ∧
        (∀ available ∈ later.bytes.available_space, min (total * 2) (2 ^ 64 - 1) ≤ available) ∧
        ∀ contents stored, List.Forall₂ (later.bytes.Holds sha256 key.bucket_id.to_string) parts contents →
          later.bytes.objects ⟨key.bucket_id.to_string, hex_bytes (sha256 contents.flatten).toList⟩ = some stored →
            stored.length = total := by
  have hstart : Sound sha256 start := ⟨fun path content h => by simp [hnone] at h, fun key part h => by simp [hempty] at h⟩
  obtain ⟨hsound, _⟩ := later_sound hstart hlisted
  obtain ⟨hlatersound, hkeeps⟩ := later_sound hsound hlater
  obtain ⟨selected, hne, hselected, hfull, rfl, rfl, hbound⟩ := complete_multipart_upload_spec hclaimed
  let content (part : LogicalObjectPart) : List UInt8 :=
    (later.bytes.objects ⟨key.bucket_id.to_string, part.digest_hex⟩).getD []
  have hholds : List.Forall₂ (later.bytes.Holds sha256 key.bucket_id.to_string) (selected.map composition_part)
      ((selected.map composition_part).map content) := by
    rw [List.forall₂_map_right_iff, List.forall₂_same, List.forall_mem_map]
    intro part hpart
    obtain ⟨part_key, hbucket, hstored⟩ := hselected part hpart
    obtain ⟨stored, hobject, hlength⟩ := hsound.parts part_key part hstored
    rw [hbucket] at hobject
    have hobject := hkeeps _ _ hobject
    have hcontent : content (composition_part part) = stored := by simp [content, composition_part, hobject]
    rw [hcontent]
    exact ⟨hobject, hlength, hlatersound.objects _ _ hobject⟩
  have hlocators (part : LogicalObjectPart) (hpart : part ∈ selected.map composition_part) :
      validate_logical_object_locator key.bucket_id.to_string part.digest_hex = .ok () := by
    obtain ⟨part, _, rfl⟩ := List.mem_map.mp hpart
    exact locator_isOk key.bucket_id part.sha256
  rw [compose_logical_object_iff (by simpa using hne) hlocators hholds rfl hbound]
  refine and_congr ?_ (and_congr_right' ⟨fun h contents stored hcontents => ?_, fun h stored => h _ stored hholds⟩)
  · obtain ⟨init, last, rfl⟩ := (List.eq_nil_or_concat selected).resolve_left hne
    rw [List.concat_eq_append, List.dropLast_concat] at hfull
    simpa [or_imp, forall_and, composition_part] using fun _ => hfull
  · have hunique : Relator.RightUnique (later.bytes.Holds sha256 key.bucket_id.to_string) :=
      fun _ _ _ hleft hright => Option.some.inj (hleft.1.symm.trans hright.1)
    rw [List.right_unique_forall₂' hunique hcontents hholds]
    exact h stored

end

def note_upload : UploadKey := ⟨⟨.from_nat 1⟩, ⟨.from_nat 2⟩⟩

def calm : object_storage_repository.World := ⟨[], .Committed⟩

theorem operator_valid : ObjectStorageActor.valid "operator" = true := by decide +kernel

/-- An upload without parts. -/
def note_storage : Storage where
  tables := StorageTables.empty.put_upload note_upload
    ⟨⟨"note", "text/plain", ∅, ⟨"operator", operator_valid⟩, .Active, 0, none, none⟩, none⟩
  bytes := ⟨fun _ => none, fun content => [content], by simp, none⟩

/-- Its first part is stored. -/
def stored_note (content : List UInt8) : Storage :=
  (put_multipart_part runku.data.checksum 9 calm calm note_upload "note" 1 content 0 note_storage).2

def complete_note (content : List UInt8) : String :=
  "<CompleteMultipartUpload><Part><PartNumber>1</PartNumber><ETag>" ++ object_etag (runku.data.checksum content) ++
    "</ETag></Part></CompleteMultipartUpload>"

/-- The only part is empty: the completion claims the upload, and no composition ever ends it. -/
theorem empty_part_strands_upload : ∃ (start listed : Storage) (key : UploadKey) (body : String) (total : Nat)
    (parts : List LogicalObjectPart), start.tables.parts = ∅ ∧ (∀ path, start.bytes.objects path = none) ∧
      Later runku.data.checksum 9 start listed ∧
      complete_multipart_upload runku.data.checksum 9 9 key "note" body (calm, listed.tables) (calm, listed.tables)
        (calm, listed.tables) = .ok (total, parts) ∧
      listed.bytes.compose_logical_object runku.data.checksum key.bucket_id.to_string
        (hex_bytes (runku.data.checksum (bytes.as_bytes body)).toList) parts total = .error .InvalidRequest := by
  refine ⟨note_storage, stored_note [], note_upload, complete_note [], 0,
    [⟨hex_bytes (runku.data.checksum []).toList, 0⟩], rfl, fun _ => rfl, .single (.put_part ..), by decide +kernel, ?_⟩
  rw [ByteStore.compose_logical_object, locator_isOk, ok_bind, if_neg (List.cons_ne_nil _ _), List.foldlM_cons,
    admit_part, locator_isOk]
  rfl

/-- A digest to run the model with, which only counts. -/
def length_digest (content : List UInt8) : Sha256Digest := Vector.replicate 32 (UInt8.ofNat (content.length % 251))

/-- The tables after a part of that size and digest is stored. -/
def with_part (part_number : UInt16) (size : UInt64) (byte : UInt8) (tables : StorageTables) : StorageTables :=
  (calm.transact (object_storage_repository.put_multipart_part note_upload
    ⟨part_number, size, Vector.replicate 32 byte, object_etag (Vector.replicate 32 byte), 0⟩) tables).2

/-- A first part of five mebibytes and a second one of two bytes. -/
def two_parts : StorageTables := with_part 2 2 2 (with_part 1 5242880 243 note_storage.tables)

def path_of (byte : UInt8) : LogicalObjectPath :=
  ⟨note_upload.bucket_id.to_string, hex_bytes (Vector.replicate 32 byte).toList⟩

def complete_two_parts : String :=
  "<CompleteMultipartUpload><Part><PartNumber>1</PartNumber><ETag>" ++ object_etag (Vector.replicate 32 243) ++
    "</ETag></Part><Part><PartNumber>2</PartNumber><ETag>" ++ object_etag (Vector.replicate 32 2) ++
    "</ETag></Part></CompleteMultipartUpload>"

/-- Two parts are stored, and composed by a completion that names both. -/
theorem stored_parts_compose : ∃ (listed : Storage) (parts : List LogicalObjectPart),
    Later length_digest 6000000 note_storage listed ∧ parts.map LogicalObjectPart.size = [5242880, 2] ∧
    complete_multipart_upload length_digest 6000000 6000000 note_upload "note" complete_two_parts (calm, listed.tables)
      (calm, listed.tables) (calm, listed.tables) = .ok (5242882, parts) ∧
    ∃ composed, listed.bytes.compose_logical_object length_digest note_upload.bucket_id.to_string
      (hex_bytes (length_digest (bytes.as_bytes complete_two_parts)).toList) parts 5242882 = .ok composed := by
  obtain ⟨large, hlarge⟩ : ∃ large : List UInt8, large.length = 5242880 := ⟨List.replicate _ 0, List.length_replicate⟩
  have hdigest : length_digest large = Vector.replicate 32 243 := by
    rw [length_digest, hlarge]
    rfl
  let upload : MultipartUpload := ⟨"note", "text/plain", ∅, ⟨"operator", operator_valid⟩, .Active, 0, none, none⟩
  let first : Storage := ⟨with_part 1 5242880 243 note_storage.tables, note_storage.bytes.put (path_of 243) large⟩
  let listed : Storage := ⟨two_parts, first.bytes.put (path_of 2) [2, 3]⟩
  have hfirst :
      (put_multipart_part length_digest 6000000 calm calm note_upload "note" 1 large 0 note_storage).2 = first := by
    rw [@put_multipart_part_stores length_digest 6000000 note_storage calm calm note_upload "note" 1 large 0 upload _
      (by decide) (by decide +kernel) ⟨rfl, rfl⟩ (put_logical_object_stores (by rw [hlarge]; decide) rfl rfl),
      hdigest, hlarge]
    rfl
  have hupload : (calm.transact (get_multipart_upload note_upload) (with_part 1 5242880 243 note_storage.tables)).1 =
      .ok (some upload) := by
    decide +kernel
  have hfresh : first.bytes.objects (path_of 2) = none :=
    objects_put_of_ne (by decide +kernel)
  have hsecond :
      (put_multipart_part length_digest 6000000 calm calm note_upload "note" 2 [2, 3] 0 first).2 = listed := by
    rw [@put_multipart_part_stores length_digest 6000000 first calm calm note_upload "note" 2 [2, 3] 0 upload _
      (by decide) hupload ⟨rfl, rfl⟩ (put_logical_object_stores (by decide) rfl hfresh)]
    rfl
  have hlisted : Later length_digest 6000000 note_storage listed := by
    rw [← hsecond, ← hfirst]
    exact .tail (.single (.put_part calm calm note_upload "note" 1 large 0))
      (.put_part calm calm note_upload "note" 2 [2, 3] 0)
  have hclaimed : complete_multipart_upload length_digest 6000000 6000000 note_upload "note" complete_two_parts
      (calm, two_parts) (calm, two_parts) (calm, two_parts) =
        .ok (5242882, [⟨(path_of 243).digest_hex, 5242880⟩, ⟨(path_of 2).digest_hex, 2⟩]) := by
    decide +kernel
  refine ⟨listed, _, hlisted, rfl, hclaimed, ?_⟩
  refine (@claimed_completion_composes_iff length_digest 6000000 note_storage listed listed rfl (fun _ => rfl) hlisted
    .refl 6000000 note_upload "note" complete_two_parts (calm, two_parts) (calm, two_parts) calm _ _ hclaimed).mpr
      ⟨by simp, by simp [listed, first, ByteStore.put, note_storage], ?_⟩
  -- the digest of the whole is that of neither part
  rintro contents stored (_ | ⟨⟨_, hone, _⟩, _ | ⟨⟨_, htwo, _⟩, _ | _⟩⟩) hstored
  rename_i one _ _ two _ _
  have hwhole : length_digest [one, two].flatten = Vector.replicate 32 245 := by
    rw [length_digest, List.flatten_cons, List.flatten_cons, List.flatten_nil, List.append_nil, List.length_append,
      hone, htwo]
    rfl
  rw [hwhole] at hstored
  have hone : listed.bytes.objects (path_of 245) = first.bytes.objects (path_of 245) :=
    objects_put_of_ne (by decide +kernel)
  have hnone : first.bytes.objects (path_of 245) = none :=
    objects_put_of_ne (by decide +kernel)
  cases (hone.trans hnone).symm.trans hstored

end runku.s3
