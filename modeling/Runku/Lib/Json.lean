import Runku.Lib.Bytes
import Runku.Lib.Parser

namespace json

open bytes

/-- The lower-case hexadecimal digit of a number below 16. -/
def hex_digit (n : Nat) : UInt8 := if n < 10 then UInt8.ofNat (48 + n) else UInt8.ofNat (87 + n)

/-- A byte of a string as it stands between the quotes. -/
def escape (byte : UInt8) : List UInt8 :=
  if byte = 0x22 then [0x5c, 0x22]
  else if byte = 0x5c then [0x5c, 0x5c]
  else if byte = 0x08 then [0x5c, 98]
  else if byte = 0x09 then [0x5c, 116]
  else if byte = 0x0a then [0x5c, 110]
  else if byte = 0x0c then [0x5c, 102]
  else if byte = 0x0d then [0x5c, 114]
  else if byte < 0x20 then [0x5c, 117, 48, 48, hex_digit (byte.toNat / 16), hex_digit (byte.toNat % 16)]
  else [byte]

def string (text : String) : List UInt8 := 0x22 :: (as_bytes text).flatMap escape ++ [0x22]

/-- Texts separated by commas. -/
def separated : List (List UInt8) → List UInt8
  | [] => []
  | [text] => text
  | text :: texts => text ++ 0x2c :: separated texts

def array (items : List (List UInt8)) : List UInt8 := 0x5b :: separated items ++ [0x5d]

def object (members : List (String × List UInt8)) : List UInt8 :=
  0x7b :: separated (members.map fun member => string member.1 ++ 0x3a :: member.2) ++ [0x7d]

theorem escape_ne_nil (byte : UInt8) : escape byte ≠ [] := by
  unfold escape
  repeat' split
  all_goals exact List.cons_ne_nil _ _

/-- A text is shorter than its string. -/
theorem length_lt_length_string (text : String) : (as_bytes text).length < (string text).length := by
  have hescape : ∀ byte, 1 ≤ (escape byte).length := fun byte => List.length_pos_of_ne_nil (escape_ne_nil byte)
  have hle := @parser.length_mul_le_length_flatMap _ _ _ _ (as_bytes text) hescape
  simp only [string, List.cons_append, List.length_cons, List.length_append]
  omega

/-- A member of an object is no longer than the object. -/
theorem length_le_length_object {members : List (String × List UInt8)} {member : String × List UInt8}
    (hmember : member ∈ members) : member.2.length ≤ (object members).length := by
  have hseparated : ∀ texts : List (List UInt8), ∀ text ∈ texts, text.length ≤ (separated texts).length := by
    intro texts
    induction texts with
    | nil => exact nofun
    | cons first texts ih =>
      intro text htext
      cases texts with
      | nil => rw [List.mem_singleton.mp htext, separated]
      | cons second texts =>
        simp only [separated, List.length_append, List.length_cons]
        rcases List.mem_cons.mp htext with rfl | htext
        · omega
        · have hle := ih text htext
          omega
  have hle := hseparated _ _ (List.mem_map_of_mem (f := fun member => string member.1 ++ 0x3a :: member.2) hmember)
  rw [List.length_append, List.length_cons] at hle
  simp only [object, List.cons_append, List.length_cons, List.length_append]
  omega

end json
