import Runku.Lib.Bytes
import Runku.Lib.Parser

namespace parser

open bytes

variable {ε : Type} {e : ε} {α β γ : Type}

def byte (e : ε) : Parser ε UInt8 UInt8 := do
  let taken ← take e 1
  return taken.headD 0

/-- A big-endian number of `width` bytes. -/
def word (e : ε) (width : Nat) : Parser ε UInt8 Nat := do
  let taken ← take e width
  return from_be_bytes taken

/-- Text of a known number of bytes, or `invalid` if it is not UTF-8. -/
def utf8 (e invalid : ε) (length : Nat) : Parser ε UInt8 String := do
  let taken ← take e length
  lift ((from_utf8 taken).elim (.error invalid) .ok)

theorem reads_byte : Reads (byte e) (fun _ => True) fun value => [value] := by
  intro input value rest
  simp only [byte, run_bind_iff, run_take_iff, run_pure_iff, true_and]
  constructor
  · rintro ⟨taken, _, ⟨htaken, rfl⟩, rfl, rfl⟩
    obtain ⟨value, rfl⟩ := List.length_eq_one_iff.mp htaken
    rfl
  · rintro rfl
    exact ⟨[value], rest, ⟨rfl, rfl⟩, rfl, rfl⟩

theorem reads_word {width : Nat} : Reads (word e width) (· < 256 ^ width) (to_be_bytes width) := by
  intro input n rest
  simp only [word, run_bind_iff, run_take_iff, run_pure_iff]
  constructor
  · rintro ⟨taken, _, ⟨rfl, rfl⟩, rfl, rfl⟩
    exact ⟨from_be_bytes_lt taken, by rw [to_be_bytes_from_be_bytes]⟩
  · rintro ⟨hn, rfl⟩
    exact ⟨_, rest, ⟨length_to_be_bytes width n, rfl⟩, (from_be_bytes_to_be_bytes hn).symm, rfl⟩

theorem reads_take {n : Nat} : Reads (take e n : Parser ε β (List β)) (fun value => value.length = n) id :=
  fun _ _ _ => run_take_iff

theorem reads_utf8 {invalid : ε} {length : Nat} :
    Reads (utf8 e invalid length) (fun value => (as_bytes value).length = length) as_bytes := by
  intro input value rest
  simp only [utf8, run_bind_iff, run_take_iff, run_lift_iff]
  constructor
  · rintro ⟨taken, _, ⟨htaken, rfl⟩, htext, rfl⟩
    cases hutf8 : from_utf8 taken with
    | none =>
      rw [hutf8] at htext
      cases htext
    | some text =>
      rw [hutf8] at htext
      cases htext
      rw [as_bytes_of_from_utf8 hutf8]
      exact ⟨htaken, rfl⟩
  · rintro ⟨hlen, rfl⟩
    exact ⟨_, rest, ⟨hlen, rfl⟩, by rw [from_utf8_as_bytes]; rfl, rfl⟩

/-- What is read is converted, by a conversion that accepts exactly what `print` gives. -/
theorem Reads.convert {p : Parser ε β α} {valid : α → Prop} {write : α → List β} (h : Reads p valid write)
    {parse : α → Except ε γ} (accepted : γ → Prop) (print : γ → α)
    (hparse : ∀ a c, parse a = .ok c ↔ accepted c ∧ a = print c) :
    Reads (do let a ← p; lift (parse a)) (fun c => accepted c ∧ valid (print c)) fun c => write (print c) := by
  intro input c rest
  simp only [run_bind_iff, run_lift_iff, h _ _ _, hparse]
  constructor
  · rintro ⟨a, _, ⟨hvalid, rfl⟩, ⟨haccepted, rfl⟩, rfl⟩
    exact ⟨⟨haccepted, hvalid⟩, rfl⟩
  · rintro ⟨⟨haccepted, hvalid⟩, rfl⟩
    exact ⟨_, rest, ⟨hvalid, rfl⟩, ⟨haccepted, rfl⟩, rfl⟩

theorem Reads.congr {p : Parser ε β α} {valid valid' : α → Prop} {write write' : α → List β}
    (h : Reads p valid write) (hvalid : ∀ a, valid a ↔ valid' a) (hwrite : ∀ a, valid' a → write a = write' a) :
    Reads p valid' write' := by
  intro input a rest
  rw [h input a rest, hvalid a]
  exact and_congr_right fun ha => by rw [hwrite a ha]

end parser
