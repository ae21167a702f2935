import Runku.Core.Id

/-! `runku-core/src/function.rs` and `runku-core/src/target.rs`. -/

namespace runku.core

open bytes

inductive ParseFunctionNameError
  | Empty
  | TooLong
  | InvalidCharacter
  deriving DecidableEq

def FunctionName.MAX_BYTES : Nat := 128

/-- The check every function name passes. -/
def FunctionName.validate (value : String) : Except ParseFunctionNameError Unit :=
  if (as_bytes value).length > FunctionName.MAX_BYTES then .error .TooLong
  else
    match as_bytes value with
    | [] => .error .Empty
    | first :: rest =>
      if is_ascii_alphabetic first &&
          rest.all fun byte => is_ascii_alphanumeric byte || byte ∈ [95, 45, 46, 47] then .ok ()
      else .error .InvalidCharacter

/-- A stable logical function name. -/
structure FunctionName where
  as_str : String
  valid : FunctionName.validate as_str = .ok ()
  deriving DecidableEq

def FunctionName.from_str (value : String) : Except ParseFunctionNameError FunctionName :=
  match h : FunctionName.validate value with
  | .ok () => .ok ⟨value, h⟩
  | .error error => .error error

theorem FunctionName.from_str_eq_ok_iff {value : String} {name : FunctionName} :
    FunctionName.from_str value = .ok name ↔ value = name.as_str := by
  unfold FunctionName.from_str
  constructor
  · intro h
    split at h
    · rw [← Except.ok.inj h]
    · cases h
  · rintro rfl
    split
    · rfl
    · rename_i error herror
      cases herror.symm.trans name.valid

theorem FunctionName.as_str_inj {a b : FunctionName} (h : a.as_str = b.as_str) : a = b := by
  cases a
  cases b
  simp_all

inductive NameError
  | Empty
  | TooLong
  | InvalidCharacter
  | EmptySegment
  deriving DecidableEq

def MAX_WORKSPACE_REF_BYTES : Nat := 100

def MAX_CHANNEL_NAME_BYTES : Nat := 63

def validate_flat_name (value : String) (max_bytes : Nat) : Except NameError Unit :=
  if (as_bytes value).isEmpty then .error .Empty
  else if (as_bytes value).length > max_bytes then .error .TooLong
  else if !(as_bytes value).all fun byte => is_ascii_lowercase byte || is_ascii_digit byte || byte = 45 then
    .error .InvalidCharacter
  else .ok ()

/-- Whether two slashes meet. -/
def contains_double_slash : List UInt8 → Bool
  | 47 :: 47 :: _ => true
  | _ :: rest => contains_double_slash rest
  | [] => false

def validate_hierarchical_name (value : String) (max_bytes : Nat) : Except NameError Unit :=
  if (as_bytes value).isEmpty then .error .Empty
  else if (as_bytes value).length > max_bytes then .error .TooLong
  else if (as_bytes value).head? = some 47 ∨ (as_bytes value).getLast? = some 47 ∨
      contains_double_slash (as_bytes value) then
    .error .EmptySegment
  else if !(as_bytes value).all fun byte =>
      is_ascii_lowercase byte || is_ascii_digit byte || byte = 45 || byte = 47 then
    .error .InvalidCharacter
  else .ok ()

/-- The name of a moving traffic Channel. -/
structure ChannelName where
  as_str : String
  valid : validate_flat_name as_str MAX_CHANNEL_NAME_BYTES = .ok ()
  deriving DecidableEq

instance : LinearOrder ChannelName :=
  LinearOrder.lift' ChannelName.as_str fun a b h => by cases a; cases b; simp_all

/-- The name of a Development Workspace. -/
structure WorkspaceRef where
  as_str : String
  valid : validate_hierarchical_name as_str MAX_WORKSPACE_REF_BYTES = .ok ()
  deriving DecidableEq

/-- The immutable code an invocation is pinned to. -/
inductive PinnedCode
  | Release (value : ReleaseId)
  | DevRevision (value : DevRevisionId)
  deriving DecidableEq

def PinnedCode.to_string : PinnedCode → String
  | .Release value => "release:" ++ value.to_string
  | .DevRevision value => "dev_revision:" ++ value.to_string

theorem PinnedCode.to_string_inj {a b : PinnedCode} (h : a.to_string = b.to_string) : a = b := by
  cases a <;> cases b <;> simp only [PinnedCode.to_string] at h
  · rw [ResourceId.to_string_inj (String.append_right_inj _ |>.mp h)]
  · simp [String.ext_iff] at h
  · simp [String.ext_iff] at h
  · rw [ResourceId.to_string_inj (String.append_right_inj _ |>.mp h)]

end runku.core
