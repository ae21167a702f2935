import Runku.Data.Digest

/-! `runku-local/src/publish.rs`. -/

namespace runku.local_publish

open runku.core bytes
open runku.data (Sha256Digest)

def MAX_ACTOR_BYTES : Nat := 64

/-- `runku-development/src/model.rs`: the check of an actor label. -/
def validate_actor (value : String) : Bool :=
  match as_bytes value with
  | [] => false
  | first :: rest =>
    (as_bytes value).length ≤ MAX_ACTOR_BYTES && (is_ascii_lowercase first || is_ascii_digit first) &&
      rest.all fun byte =>
        is_ascii_lowercase byte || is_ascii_digit byte || byte = 45 || byte = 95 || byte = 46

/-- The label of whoever publishes. -/
structure DevelopmentActor where
  as_str : String
  valid : validate_actor as_str = true
  deriving DecidableEq

structure LocalProjectState where
  project_id : ProjectId
  environment_id : EnvironmentId
  deriving DecidableEq

/-- What a publish is identified by. -/
structure Publish where
  workspace_ref : WorkspaceRef
  actor : DevelopmentActor
  expected_head : Option DevRevisionId
  manifest_digest : Sha256Digest
  deriving DecidableEq

/-- A presence byte and, when a head is expected, its text. -/
def head_input : Option DevRevisionId → List UInt8
  | some head => 1 :: as_bytes head.to_string
  | none => [0]

/-- Everything fed to the hash of an operation identity. -/
def operation_input (state : LocalProjectState) (publish : Publish) : List UInt8 :=
  as_bytes "RUNKU_LOCAL_PUBLISH_OPERATION_V1\x00" ++ as_bytes state.project_id.to_string ++
    as_bytes state.environment_id.to_string ++ as_bytes publish.workspace_ref.as_str ++
    as_bytes publish.actor.as_str ++ head_input publish.expected_head ++ publish.manifest_digest.toList

/-- The first sixteen bytes of a digest. -/
def ulid_from_digest (digest : Sha256Digest) : Ulid := Ulid.from_nat (from_be_bytes (digest.toList.take 16))

def deterministic_operation_id (sha256 : List UInt8 → Sha256Digest) (state : LocalProjectState) (publish : Publish) :
    OperationId :=
  ⟨ulid_from_digest (sha256 (operation_input state publish))⟩

/-- Bytes with a property end where the first byte without it stands. -/
theorem append_inj_of_all {p : UInt8 → Bool} {x y s t : List UInt8} (hx : x.all p = true) (hy : y.all p = true)
    (hs : s.head?.any p = false) (ht : t.head?.any p = false) (h : x ++ s = y ++ t) : x = y ∧ s = t := by
  have hend : ∀ {x s : List UInt8}, x.all p = true → s.head?.any p = false → (x ++ s).takeWhile p = x := by
    intro x s hx hs
    rw [List.takeWhile_append_of_pos (List.all_eq_true.mp hx)]
    cases s with
    | nil => simp
    | cons b s =>
      have hb : p b = false := by simpa using hs
      rw [List.takeWhile_cons_of_neg (by simp [hb]), List.append_nil]
  have hxy : x = y := by
    rw [← hend hx hs, h, hend hy ht]
  subst hxy
  exact ⟨rfl, List.append_cancel_left h⟩

/-- The bytes of names: none of them marks a head. -/
def is_name_byte (byte : UInt8) : Bool := 1 < byte

theorem is_name_byte_of_label {byte : UInt8} (h : (is_ascii_lowercase byte || is_ascii_digit byte) = true) :
    is_name_byte byte = true := by
  simp only [is_ascii_lowercase, is_ascii_digit, Bool.or_eq_true, Bool.and_eq_true, decide_eq_true_eq,
    UInt8.le_iff_toNat_le] at h
  rw [is_name_byte, decide_eq_true_eq, UInt8.lt_iff_toNat_lt]
  change 1 < byte.toNat
  have hlower : (97 : UInt8).toNat = 97 := rfl
  have hdigit : (48 : UInt8).toNat = 48 := rfl
  omega

theorem workspace_bytes (workspace : WorkspaceRef) : (as_bytes workspace.as_str).all is_name_byte = true := by
  have hvalid := workspace.valid
  unfold validate_hierarchical_name at hvalid
  simp only [fallible.ite_error_eq_ok_iff, Bool.not_eq_true, Bool.not_eq_false'] at hvalid
  rw [List.all_eq_true]
  intro byte hbyte
  have := List.all_eq_true.mp hvalid.2.2.2.1 byte hbyte
  simp only [Bool.or_assoc (is_ascii_lowercase byte || is_ascii_digit byte)] at this
  rcases Bool.or_eq_true _ _ |>.mp this with hlabel | hother
  · exact is_name_byte_of_label hlabel
  · simp only [Bool.or_eq_true, decide_eq_true_eq] at hother
    rcases hother with rfl | rfl <;> rfl

theorem actor_bytes (actor : DevelopmentActor) : (as_bytes actor.as_str).all is_name_byte = true := by
  have hvalid := actor.valid
  unfold validate_actor at hvalid
  rw [List.all_eq_true]
  intro byte hbyte
  cases hbytes : as_bytes actor.as_str with
  | nil =>
    rw [hbytes] at hbyte
    cases hbyte
  | cons first rest =>
    rw [hbytes] at hvalid hbyte
    simp only [Bool.and_eq_true, List.all_eq_true] at hvalid
    rcases List.mem_cons.mp hbyte with rfl | hrest
    · exact is_name_byte_of_label hvalid.1.2
    · have := hvalid.2 byte hrest
      simp only [Bool.or_assoc (is_ascii_lowercase byte || is_ascii_digit byte)] at this
      rcases Bool.or_eq_true _ _ |>.mp this with hlabel | hother
      · exact is_name_byte_of_label hlabel
      · simp only [Bool.or_eq_true, decide_eq_true_eq] at hother
        rcases hother with (rfl | rfl) | rfl <;> rfl

/-- The head and the digest are read off the end of the bytes. -/
theorem head_input_inj {head head' : Option DevRevisionId} {digest digest' : Sha256Digest}
    (h : head_input head ++ digest.toList = head_input head' ++ digest'.toList) :
    head = head' ∧ digest = digest' := by
  have hlen : (head_input head).length = (head_input head').length := by
    have := congrArg List.length h
    simp only [List.length_append, Vector.length_toList] at this
    omega
  obtain ⟨hhead, hdigest⟩ := List.append_inj h hlen
  refine ⟨?_, Vector.toList_inj.mp hdigest⟩
  cases head with
  | none =>
    cases head' with
    | none => rfl
    | some head' => simp [head_input] at hhead
  | some head =>
    cases head' with
    | none => simp [head_input] at hhead
    | some head' => rw [ResourceId.to_string_inj (as_bytes_inj (List.cons.inj hhead).2)]

/-- The hashed bytes tell the head, the manifest, and the names without the place where one ends. -/
theorem operation_input_eq_iff {state : LocalProjectState} {x y : Publish} :
    operation_input state x = operation_input state y ↔
      x.workspace_ref.as_str ++ x.actor.as_str = y.workspace_ref.as_str ++ y.actor.as_str ∧
        x.expected_head = y.expected_head ∧ x.manifest_digest = y.manifest_digest := by
  constructor
  · intro h
    simp only [operation_input, List.append_assoc, List.append_cancel_left_eq] at h
    simp only [← List.append_assoc] at h
    rw [List.append_assoc, List.append_assoc (as_bytes y.workspace_ref.as_str ++ _)] at h
    have hhead : ∀ (head : Option DevRevisionId) (digest : List UInt8),
        (head_input head ++ digest).head?.any is_name_byte = false := by
      rintro (_ | head) digest <;> rfl
    obtain ⟨hnames, hrest⟩ := append_inj_of_all (p := is_name_byte)
      (by rw [List.all_append, workspace_bytes, actor_bytes]; rfl)
      (by rw [List.all_append, workspace_bytes, actor_bytes]; rfl) (hhead _ _) (hhead _ _) h
    rw [← as_bytes_append, ← as_bytes_append] at hnames
    exact ⟨as_bytes_inj hnames, head_input_inj hrest⟩
  · rintro ⟨hnames, hhead, hdigest⟩
    have hnames := congrArg as_bytes hnames
    rw [as_bytes_append, as_bytes_append] at hnames
    rw [operation_input, operation_input, hhead, hdigest, List.append_assoc _ (as_bytes x.workspace_ref.as_str),
      hnames, ← List.append_assoc _ (as_bytes y.workspace_ref.as_str)]

/-- Some text ends the Workspace of one publish and starts the actor of the other. -/
def Shifts (x y : Publish) : Prop :=
  ∃ shared : String, shared ≠ "" ∧ y.workspace_ref.as_str = x.workspace_ref.as_str ++ shared ∧
    x.actor.as_str = shared ++ y.actor.as_str

/-- Two publishes of one package over one head whose names only differ in where the Workspace ends. -/
def Ambiguous (x y : Publish) : Prop :=
  x.expected_head = y.expected_head ∧ x.manifest_digest = y.manifest_digest ∧ (Shifts x y ∨ Shifts y x)

/-- A text that moves between the names is empty or a shift. -/
theorem eq_or_shifts {x y : Publish} {shared : List Char}
    (hworkspace : y.workspace_ref.as_str.toList = x.workspace_ref.as_str.toList ++ shared)
    (hactor : x.actor.as_str.toList = shared ++ y.actor.as_str.toList) :
    (x.workspace_ref = y.workspace_ref ∧ x.actor = y.actor) ∨ Shifts x y := by
  by_cases hempty : shared = []
  · rw [hempty, List.append_nil] at hworkspace
    rw [hempty, List.nil_append] at hactor
    have hworkspace := String.toList_injective hworkspace
    have hactor := String.toList_injective hactor
    obtain ⟨⟨_, _⟩, ⟨_, _⟩, _, _⟩ := x
    obtain ⟨⟨_, _⟩, ⟨_, _⟩, _, _⟩ := y
    cases hworkspace
    cases hactor
    exact .inl ⟨rfl, rfl⟩
  · refine .inr ⟨String.ofList shared, fun h => hempty ?_, ?_, ?_⟩
    · rw [← @String.toList_ofList shared, h]
      rfl
    · apply String.toList_injective
      rw [hworkspace, String.toList_append, String.toList_ofList]
    · apply String.toList_injective
      rw [hactor, String.toList_append, String.toList_ofList]

/-- Names that join to one text are equal, or some text moves between them. -/
theorem shifts_of_append_eq {x y : Publish}
    (h : x.workspace_ref.as_str ++ x.actor.as_str = y.workspace_ref.as_str ++ y.actor.as_str) :
    (x.workspace_ref = y.workspace_ref ∧ x.actor = y.actor) ∨ Shifts x y ∨ Shifts y x := by
  have hlist := congrArg String.toList h
  rw [String.toList_append, String.toList_append, List.append_eq_append_iff] at hlist
  rcases hlist with ⟨shared, hworkspace, hactor⟩ | ⟨shared, hworkspace, hactor⟩
  · rcases eq_or_shifts hworkspace hactor with heq | hshifts
    · exact .inl heq
    · exact .inr (.inl hshifts)
  · rcases eq_or_shifts hworkspace hactor with heq | hshifts
    · exact .inl ⟨heq.1.symm, heq.2.symm⟩
    · exact .inr (.inr hshifts)

theorem Shifts.append_eq {x y : Publish} (h : Shifts x y) :
    x.workspace_ref.as_str ++ x.actor.as_str = y.workspace_ref.as_str ++ y.actor.as_str := by
  obtain ⟨shared, _, hworkspace, hactor⟩ := h
  rw [hworkspace, hactor, String.append_assoc]

theorem Shifts.ne {x y : Publish} (h : Shifts x y) : x ≠ y := by
  rintro rfl
  obtain ⟨shared, hne, hworkspace, _⟩ := h
  have hlen := congrArg String.length hworkspace
  rw [String.length_append] at hlen
  exact hne (String.length_eq_zero_iff.mp (by omega))

/-- Hashed bytes identify the publish, and with them its operation identity unless the hash collides on the two,
exactly for publishes that are not ambiguous. -/
theorem publish_identified_iff (sha256 : List UInt8 → Sha256Digest) (state : LocalProjectState) (x y : Publish)
    (hcollision : ulid_from_digest (sha256 (operation_input state x)) =
      ulid_from_digest (sha256 (operation_input state y)) → operation_input state x = operation_input state y) :
    ((operation_input state x = operation_input state y → x = y) ∧
      (deterministic_operation_id sha256 state x = deterministic_operation_id sha256 state y → x = y)) ↔
      ¬Ambiguous x y := by
  constructor
  · rintro ⟨hinput, _⟩ ⟨hhead, hdigest, hshifts⟩
    rcases hshifts with hshifts | hshifts
    · exact hshifts.ne (hinput (operation_input_eq_iff.mpr ⟨hshifts.append_eq, hhead, hdigest⟩))
    · exact hshifts.ne (hinput (operation_input_eq_iff.mpr ⟨hshifts.append_eq.symm, hhead, hdigest⟩)).symm
  · intro hplain
    have hinput : operation_input state x = operation_input state y → x = y := by
      intro h
      obtain ⟨hnames, hhead, hdigest⟩ := operation_input_eq_iff.mp h
      rcases shifts_of_append_eq hnames with ⟨hworkspace, hactor⟩ | hshifts
      · cases x
        cases y
        simp_all
      · exact absurd ⟨hhead, hdigest, hshifts⟩ hplain
    exact ⟨hinput, fun h => hinput (hcollision (congrArg ResourceId.ulid h))⟩

/-- A publish of the package with an all-zero digest to an empty Workspace. -/
def first_publish (workspace actor : String)
    (hworkspace : validate_hierarchical_name workspace MAX_WORKSPACE_REF_BYTES = .ok ())
    (hactor : validate_actor actor = true) : Publish :=
  ⟨⟨workspace, hworkspace⟩, ⟨actor, hactor⟩, none, Vector.replicate 32 0⟩

/-- Two actors publish the same package to two Workspaces under one operation identity, whatever the hash. -/
theorem publishes_share_an_operation : ∃ x y : Publish, x ≠ y ∧
    ∀ (sha256 : List UInt8 → Sha256Digest) (state : LocalProjectState),
      operation_input state x = operation_input state y ∧
        deterministic_operation_id sha256 state x = deterministic_operation_id sha256 state y := by
  refine ⟨first_publish "dev/ana" "bob" (by decide +kernel) (by decide +kernel),
    first_publish "dev/an" "abob" (by decide +kernel) (by decide +kernel), by decide +kernel, fun sha256 state => ?_⟩
  have hinput : operation_input state (first_publish "dev/ana" "bob" (by decide +kernel) (by decide +kernel)) =
      operation_input state (first_publish "dev/an" "abob" (by decide +kernel) (by decide +kernel)) :=
    operation_input_eq_iff.mpr ⟨by decide +kernel, rfl, rfl⟩
  exact ⟨hinput, by rw [deterministic_operation_id, hinput, ← deterministic_operation_id]⟩

/-- Publishes of one actor to two Workspaces whose names have one length are told apart. -/
theorem sibling_publishes_differ :
    let state : LocalProjectState := ⟨⟨Ulid.from_nat 1⟩, ⟨Ulid.from_nat 2⟩⟩
    let x := first_publish "dev/ana" "bob" (by decide +kernel) (by decide +kernel)
    let y := first_publish "dev/ben" "bob" (by decide +kernel) (by decide +kernel)
    deterministic_operation_id runku.data.checksum state x = deterministic_operation_id runku.data.checksum state y →
      x = y := by
  intro state x y
  refine ((publish_identified_iff runku.data.checksum state x y ?_).mpr ?_).2
  · have hne : ulid_from_digest (runku.data.checksum (operation_input state x)) ≠
        ulid_from_digest (runku.data.checksum (operation_input state y)) := by decide +kernel
    exact fun h => absurd h hne
  · rintro ⟨_, _, ⟨shared, hne, hworkspace, _⟩ | ⟨shared, hne, hworkspace, _⟩⟩ <;>
    · have hlen := congrArg String.length hworkspace
      rw [String.length_append] at hlen
      have hsame : x.workspace_ref.as_str.length = y.workspace_ref.as_str.length := by decide +kernel
      exact hne (String.length_eq_zero_iff.mp (by omega))

end runku.local_publish
