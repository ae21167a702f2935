import Runku.Lib.Fallible

namespace codec

universe u v w

variable {ε : Type u} {α γ : Type w} {β : Type v}

/-- Concatenates the pieces, or fails as the first failing piece does. -/
def concat : List (Except ε (List β)) → Except ε (List β)
  | [] => .ok []
  | piece :: pieces => do
    let head ← piece
    let tail ← concat pieces
    return head ++ tail

theorem concat_cons_eq_ok_iff {piece : Except ε (List β)} {pieces : List (Except ε (List β))} {x : List β} :
    concat (piece :: pieces) = .ok x ↔ ∃ u v, piece = .ok u ∧ concat pieces = .ok v ∧ x = u ++ v := by
  simp only [concat, fallible.bind_eq_ok_iff, fallible.pure_eq_ok, Except.ok.injEq]
  constructor
  · rintro ⟨u, hu, v, hv, rfl⟩
    exact ⟨u, v, hu, hv, rfl⟩
  · rintro ⟨u, v, hu, hv, rfl⟩
    exact ⟨u, hu, v, hv, rfl⟩

theorem concat_cons_of_ok {piece : Except ε (List β)} {pieces : List (Except ε (List β))} {x y : List β}
    (hpiece : piece = .ok x) (hpieces : concat pieces = .ok y) : concat (piece :: pieces) = .ok (x ++ y) :=
  concat_cons_eq_ok_iff.mpr ⟨x, y, hpiece, hpieces, rfl⟩

theorem concat_append_of_ok {pieces pieces' : List (Except ε (List β))} {x y : List β} (h : concat pieces = .ok x)
    (h' : concat pieces' = .ok y) : concat (pieces ++ pieces') = .ok (x ++ y) := by
  induction pieces generalizing x with
  | nil =>
    cases h
    exact h'
  | cons piece pieces ih =>
    obtain ⟨u, v, hu, hv, rfl⟩ := concat_cons_eq_ok_iff.mp h
    rw [List.cons_append, List.append_assoc]
    exact concat_cons_of_ok hu (ih hv)

variable {enc : α → Except ε (List β)}

/-- The pieces of a list of items that are all encoded. -/
theorem concat_map_of_ok {write : α → List β} {items : List α}
    (h : ∀ a ∈ items, enc a = .ok (write a)) : concat (items.map enc) = .ok (items.flatMap write) := by
  induction items with
  | nil => rfl
  | cons a items ih =>
    rw [List.forall_mem_cons] at h
    exact concat_cons_of_ok h.1 (ih h.2)

/-- `enc` determines its input up to `same`, and its own end, in every string it starts. -/
def Delimits (enc : α → Except ε (List β)) (same : α → α → Prop) : Prop :=
  ∀ ⦃a b x y s t⦄, enc a = .ok x → enc b = .ok y → x ++ s = y ++ t → same a b ∧ s = t

variable {same : α → α → Prop}

/-- Encodings of one width delimit whatever they determine. -/
theorem Delimits.of_width {n : Nat} (hwidth : ∀ a x, enc a = .ok x → x.length = n)
    (hsame : ∀ a b x, enc a = .ok x → enc b = .ok x → same a b) : Delimits enc same := by
  intro a b x y s t ha hb h
  obtain ⟨rfl, rfl⟩ := List.append_inj h ((hwidth a x ha).trans (hwidth b y hb).symm)
  exact ⟨hsame a b x ha hb, rfl⟩

/-- An encoder applied to a part of a record delimits that part. -/
theorem Delimits.comap (h : Delimits enc same)
    (f : γ → α) : Delimits (fun c => enc (f c)) (fun c d => same (f c) (f d)) :=
  fun _ _ _ _ _ _ ha hb hxy => h ha hb hxy

theorem Delimits.mono {same same' : α → α → Prop}
    (h : Delimits enc same) (himp : ∀ a b, same a b → same' a b) : Delimits enc same' := by
  intro a b x y s t ha hb hxy
  exact (h ha hb hxy).imp_left (himp a b)

theorem Delimits.nil : Delimits (fun _ : α => (concat [] : Except ε (List β))) fun _ _ => True := by
  intro a b x y s t ha hb hxy
  cases ha
  cases hb
  exact ⟨trivial, hxy⟩

/-- Reads one delimited piece off two equal strings. -/
theorem Delimits.peel {enc : α → Except ε (List β)} {same : α → α → Prop} (h : Delimits enc same)
    {a b : α} {ps qs : List (Except ε (List β))} {x y s t : List β}
    (ha : concat (enc a :: ps) = .ok x) (hb : concat (enc b :: qs) = .ok y) (hxy : x ++ s = y ++ t) :
    same a b ∧ ∃ v v', concat ps = .ok v ∧ concat qs = .ok v' ∧ v ++ s = v' ++ t := by
  obtain ⟨u, v, hu, hv, rfl⟩ := concat_cons_eq_ok_iff.mp ha
  obtain ⟨u', v', hu', hv', rfl⟩ := concat_cons_eq_ok_iff.mp hb
  rw [List.append_assoc, List.append_assoc] at hxy
  obtain ⟨hsame, hrest⟩ := h hu hu' hxy
  exact ⟨hsame, v, v', hv, hv', hrest⟩

/-- A record is delimited piece by piece. -/
theorem Delimits.cons {enc : α → Except ε (List β)} {pieces : α → List (Except ε (List β))}
    {same same' : α → α → Prop} (henc : Delimits enc same) (hpieces : Delimits (fun a => concat (pieces a)) same') :
    Delimits (fun a => concat (enc a :: pieces a)) fun a b => same a b ∧ same' a b := by
  intro a b x y s t ha hb hxy
  obtain ⟨hsame, v, v', hv, hv', hrest⟩ := henc.peel ha hb hxy
  obtain ⟨hsame', htail⟩ := hpieces hv hv' hrest
  exact ⟨⟨hsame, hsame'⟩, htail⟩

/-- Lists of one length are delimited element by element. -/
theorem Delimits.map (h : Delimits enc same) {as bs : List α} (hlen : as.length = bs.length) {x y s t : List β}
    (ha : concat (as.map enc) = .ok x) (hb : concat (bs.map enc) = .ok y) (hxy : x ++ s = y ++ t) :
    List.Forall₂ same as bs ∧ s = t := by
  induction as generalizing bs x y with
  | nil =>
    obtain rfl := List.eq_nil_of_length_eq_zero hlen.symm
    cases ha
    cases hb
    exact ⟨.nil, hxy⟩
  | cons a as ih =>
    obtain ⟨b, bs, rfl⟩ := List.exists_cons_of_length_eq_add_one hlen.symm
    obtain ⟨hsame, v, v', hv, hv', hrest⟩ := h.peel ha hb hxy
    obtain ⟨hall, htail⟩ := ih (by simpa using hlen) hv hv' hrest
    exact ⟨.cons hsame hall, htail⟩

/-- A list behind its count is delimited. -/
theorem Delimits.counted (h : Delimits enc same) {count : Nat → Except ε (List β)} (hcount : Delimits count Eq) :
    Delimits (fun as => concat (count as.length :: as.map enc)) (List.Forall₂ same) := by
  intro as bs x y s t ha hb hxy
  obtain ⟨hlen, v, v', hv, hv', hrest⟩ := hcount.peel ha hb hxy
  exact h.map hlen hv hv' hrest

/-- Two strings from a delimiting encoder are equal only for inputs it does not tell apart. -/
theorem Delimits.same_of_eq (h : Delimits enc same) {a b : α} {x : List β} (ha : enc a = .ok x) (hb : enc b = .ok x) :
    same a b :=
  (@h a b x x [] [] ha hb rfl).1

/-- Pieces with one common error have no other error together. -/
theorem failsWith_concat {e : ε} {pieces : List (Except ε (List β))}
    (h : pieces.Forall (fallible.FailsWith e)) : fallible.FailsWith e (concat pieces) := by
  induction pieces with
  | nil => exact .ok _
  | cons piece pieces ih =>
    rw [List.forall_cons] at h
    exact h.1.bind fun _ => (ih h.2).bind fun _ => .ok _

end codec
