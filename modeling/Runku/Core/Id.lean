import Mathlib.Data.Fintype.Basic
import Runku.Lib.Bytes
import Runku.Lib.OrderedMap

/-! `runku-core/src/id.rs`. -/

namespace runku.core

/-- A ULID: 48 bits of milliseconds followed by 80 random bits. -/
structure Ulid where
  val : Fin (2 ^ 128)
  deriving DecidableEq

instance : LinearOrder Ulid :=
  LinearOrder.lift' Ulid.val fun a b h => by cases a; cases b; simp_all

/-- The number `n`, reduced to 128 bits. -/
def Ulid.from_nat (n : Nat) : Ulid := ⟨Fin.ofNat _ n⟩

/-- The millisecond timestamp in the 48 high bits. -/
def Ulid.timestamp_ms (u : Ulid) : Nat := u.val.val / 2 ^ 80

/-- Crockford's base-32 alphabet, in digit order. -/
def Ulid.ALPHABET : List Char := "0123456789ABCDEFGHJKMNPQRSTVWXYZ".toList

/-- The character of a base-32 digit. -/
def Ulid.encode_digit (d : Nat) : Char := Ulid.ALPHABET.getD d '0'

/-- The value of a base-32 character; lower case is read as upper case. -/
def Ulid.decode_digit (c : Char) : Option Nat := Ulid.ALPHABET.idxOf? c.toUpper

/-- The 26 base-32 digits of a ULID. -/
def Ulid.to_string (u : Ulid) : String :=
  String.ofList ((radix.digits 32 26 u.val.val).map Ulid.encode_digit)

/-- Reads 26 base-32 digits, keeping the low 128 bits. -/
def Ulid.from_string (text : String) : Option Ulid :=
  if text.toList.length ≠ 26 then none
  else (text.toList.mapM Ulid.decode_digit).map fun ds => Ulid.from_nat (radix.value 32 ds)

theorem Ulid.decode_digit_encode_digit {d : Nat} (hd : d < 32) :
    Ulid.decode_digit (Ulid.encode_digit d) = some d := by
  have h : ∀ d : Fin 32, Ulid.decode_digit (Ulid.encode_digit d) = some d.val := by decide
  exact h ⟨d, hd⟩

theorem Ulid.encode_digit_lt_iff {d e : Nat} (hd : d < 32) (he : e < 32) :
    Ulid.encode_digit d < Ulid.encode_digit e ↔ d < e := by
  have h : ∀ d e : Fin 32, Ulid.encode_digit d < Ulid.encode_digit e ↔ d.val < e.val := by decide
  exact h ⟨d, hd⟩ ⟨e, he⟩

private theorem mapM_decode_digit {ds : List Nat} (hds : ∀ d ∈ ds, d < 32) :
    (ds.map Ulid.encode_digit).mapM Ulid.decode_digit = some ds := by
  induction ds with
  | nil => rfl
  | cons d ds ih =>
    rw [List.forall_mem_cons] at hds
    simp [List.mapM_cons, Ulid.decode_digit_encode_digit hds.1, ih hds.2]

/-- Twenty-six base-32 digits hold 130 bits, so every ULID fits. -/
private theorem Ulid.val_lt (u : Ulid) : u.val.val < 32 ^ 26 :=
  u.val.isLt.trans (by decide)

@[simp]
theorem Ulid.from_string_to_string (u : Ulid) : Ulid.from_string u.to_string = some u := by
  have hlt : ∀ d ∈ radix.digits 32 26 u.val.val, d < 32 :=
    fun d hd => radix.lt_of_mem_digits (by decide) hd
  simp [Ulid.from_string, Ulid.to_string, mapM_decode_digit hlt, radix.value_digits u.val_lt,
    Ulid.from_nat]

/-- The text of a ULID is 26 ASCII characters. -/
theorem Ulid.length_as_bytes_to_string (u : Ulid) : (bytes.as_bytes u.to_string).length = 26 := by
  have hascii : ∀ d : Fin 32, (Ulid.encode_digit d).utf8Size = 1 := by decide
  rw [bytes.length_as_bytes_of_ascii]
  · simp [Ulid.to_string]
  · intro c hc
    rw [Ulid.to_string, String.toList_ofList, List.mem_map] at hc
    obtain ⟨d, hd, rfl⟩ := hc
    exact hascii ⟨d, radix.lt_of_mem_digits (by decide) hd⟩

private theorem map_encode_digit_lt_iff {ds es : List Nat} (hlen : ds.length = es.length)
    (hds : ∀ d ∈ ds, d < 32) (hes : ∀ e ∈ es, e < 32) :
    ds.map Ulid.encode_digit < es.map Ulid.encode_digit ↔ ds < es := by
  induction ds generalizing es with
  | nil =>
    obtain rfl := List.eq_nil_of_length_eq_zero hlen.symm
    simp
  | cons d ds ih =>
    obtain ⟨e, es, rfl⟩ := List.exists_cons_of_length_eq_add_one hlen.symm
    rw [List.forall_mem_cons] at hds hes
    have hinj : Ulid.encode_digit d = Ulid.encode_digit e ↔ d = e := by
      refine ⟨fun h => ?_, congrArg _⟩
      have := congrArg Ulid.decode_digit h
      rwa [Ulid.decode_digit_encode_digit hds.1, Ulid.decode_digit_encode_digit hes.1,
        Option.some.injEq] at this
    simp only [List.map_cons, List.cons_lt_cons_iff, hinj, Ulid.encode_digit_lt_iff hds.1 hes.1,
      ih (by simpa using hlen) hds.2 hes.2]

/-- Text order is ULID order, so a query may sort and compare identifiers as text. -/
theorem Ulid.to_string_lt_to_string_iff (a b : Ulid) : a.to_string < b.to_string ↔ a < b := by
  have hlt : ∀ u : Ulid, ∀ d ∈ radix.digits 32 26 u.val.val, d < 32 :=
    fun u d hd => radix.lt_of_mem_digits (by decide) hd
  rw [String.lt_iff_toList_lt, Ulid.to_string, Ulid.to_string, String.toList_ofList,
    String.toList_ofList, map_encode_digit_lt_iff (by simp) (hlt a) (hlt b),
    radix.digits_lt_digits_iff a.val_lt b.val_lt]
  exact Iff.rfl

inductive ParseResourceIdError
  | UnexpectedPrefix (expected : String)
  | InvalidUlid
  deriving DecidableEq

/-- A typed identifier: the types differ by the text their values start with. -/
structure ResourceId (PREFIX : String) where
  ulid : Ulid
  deriving DecidableEq

instance {PREFIX : String} : LinearOrder (ResourceId PREFIX) :=
  LinearOrder.lift' ResourceId.ulid fun a b h => by cases a; cases b; simp_all

-- Named, so that the definitions of all modules share one proof.
instance {PREFIX : String} : Std.TransCmp (compare (α := ResourceId PREFIX)) := inferInstance

instance {PREFIX : String} : Std.LawfulEqCmp (compare (α := ResourceId PREFIX)) := inferInstance

instance {PREFIX : String} : LawfulBEq (ResourceId PREFIX) := inferInstance

/-- The canonical text of an identifier. -/
def ResourceId.to_string {PREFIX : String} (id : ResourceId PREFIX) : String :=
  PREFIX ++ id.ulid.to_string

/-- Accepts exactly the canonical text. -/
def ResourceId.from_str {PREFIX : String} (value : String) : Except ParseResourceIdError (ResourceId PREFIX) :=
  match PREFIX.toList.isPrefixOf? value.toList with
  | none => .error (.UnexpectedPrefix PREFIX)
  | some payload =>
    match Ulid.from_string (String.ofList payload) with
    | none => .error .InvalidUlid
    | some ulid =>
      if ulid.to_string ≠ String.ofList payload then .error .InvalidUlid else .ok ⟨ulid⟩

/-- Parsing accepts the canonical text of an identifier and nothing else. -/
theorem ResourceId.from_str_eq_ok_iff {PREFIX : String} (value : String) (id : ResourceId PREFIX) :
    ResourceId.from_str value = .ok id ↔ value = id.to_string := by
  constructor
  · intro h
    unfold ResourceId.from_str at h
    split at h
    · cases h
    · rename_i payload hpayload
      rw [List.isPrefixOf?_eq_some_iff_append_eq] at hpayload
      split at h
      · cases h
      · rename_i ulid _
        split at h
        · cases h
        · rename_i hcanonical
          cases h
          rw [not_not] at hcanonical
          apply String.toList_injective
          rw [ResourceId.to_string, String.toList_append, hcanonical, String.toList_ofList, hpayload]
  · rintro rfl
    have hpayload : PREFIX.toList.isPrefixOf? id.to_string.toList = some id.ulid.to_string.toList := by
      rw [List.isPrefixOf?_eq_some_iff_append_eq, ResourceId.to_string, String.toList_append]
    simp [ResourceId.from_str, hpayload]

@[simp]
theorem ResourceId.from_str_to_string {PREFIX : String} (id : ResourceId PREFIX) :
    ResourceId.from_str id.to_string = .ok id :=
  (ResourceId.from_str_eq_ok_iff _ _).mpr rfl

theorem ResourceId.to_string_inj {PREFIX : String} {a b : ResourceId PREFIX}
    (h : a.to_string = b.to_string) : a = b := by
  have hab := congrArg (@ResourceId.from_str PREFIX) h
  rwa [ResourceId.from_str_to_string, ResourceId.from_str_to_string, Except.ok.injEq] at hab

private theorem append_lt_append_left_iff (cs ds es : List Char) : cs ++ ds < cs ++ es ↔ ds < es := by
  induction cs with
  | nil => rfl
  | cons c cs ih => simp [ih]

/-- Identifiers of one type sort the same by text and by ULID. -/
theorem ResourceId.to_string_lt_to_string_iff {PREFIX : String} (a b : ResourceId PREFIX) :
    a.to_string < b.to_string ↔ a < b := by
  rw [ResourceId.to_string, ResourceId.to_string, String.lt_iff_toList_lt, String.toList_append,
    String.toList_append, append_lt_append_left_iff, ← String.lt_iff_toList_lt,
    Ulid.to_string_lt_to_string_iff]
  exact Iff.rfl

abbrev ProjectId := ResourceId "prj_"
abbrev EnvironmentId := ResourceId "env_"
abbrev ReleaseId := ResourceId "rel_"
abbrev BuildId := ResourceId "bld_"
abbrev FunctionId := ResourceId "fnc_"
abbrev DevRevisionId := ResourceId "drv_"
abbrev InvocationId := ResourceId "inv_"
abbrev TableId := ResourceId "tbl_"
abbrev DocumentId := ResourceId "doc_"
abbrev IndexId := ResourceId "idx_"
abbrev OutboxEventId := ResourceId "evt_"
abbrev ScheduledInvocationId := ResourceId "sch_"
abbrev SubscriptionId := ResourceId "sub_"
abbrev OperationId := ResourceId "opn_"
abbrev WorkerId := ResourceId "wrk_"

/-- `runku-core/src/scope.rs`: the tenant boundary of application data. -/
structure EnvironmentScope where
  project_id : ProjectId
  environment_id : EnvironmentId
  deriving DecidableEq

end runku.core
