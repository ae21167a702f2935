import Runku.ObjectStorageRepository.Consistency

/-! `runku-object-storage-repository/src/adapter.rs`: `list_objects`. -/

namespace runku.object_storage_repository

open Std (ExtTreeMap)
open runku.object_storage fallible

/-- Whether a text matches a pattern of `LIKE` with the escape character `\`. -/
def like : List Char → List Char → Bool
  | [], text => text.isEmpty
  | '%' :: pattern, [] => like pattern []
  | '%' :: pattern, c :: text => like pattern (c :: text) || like ('%' :: pattern) text
  | '\\' :: c :: pattern, text => text.head? = some c && like pattern text.tail
  | '_' :: pattern, text => !text.isEmpty && like pattern text.tail
  | c :: pattern, text => text.head? = some c && like pattern text.tail
termination_by pattern text => pattern.length + text.length

def replace (c : Char) (text value : List Char) : List Char := value.flatMap fun other => if other = c then text else [other]

def escape_like (value : List Char) : List Char :=
  replace '_' ['\\', '_'] (replace '%' ['\\', '%'] (replace '\\' ['\\', '\\'] value))

/-- The texts that start with a value. -/
def starts_with_pattern (value : List Char) : List Char := escape_like value ++ ['%']

theorem like_percent (text : List Char) : like ['%'] text = true := by
  induction text with
  | nil => simp [like]
  | cons c text ih => simp [like, ih]

theorem escape_like_cons (c : Char) (value : List Char) :
    escape_like (c :: value) = (if c = '\\' ∨ c = '%' ∨ c = '_' then ['\\', c] else [c]) ++ escape_like value := by
  by_cases hslash : c = '\\'
  · simp [escape_like, replace, hslash]
  by_cases hpercent : c = '%'
  · simp [escape_like, replace, hpercent]
  by_cases hunderscore : c = '_'
  · simp [escape_like, replace, hunderscore]
  · simp [escape_like, replace, hslash, hpercent, hunderscore]

/-- An escaped value stands for itself. -/
theorem like_starts_with_iff (value text : List Char) : like (starts_with_pattern value) text = true ↔ value <+: text := by
  induction value generalizing text with
  | nil => simp [starts_with_pattern, escape_like, replace, like_percent]
  | cons c value ih =>
    have hstep : like (starts_with_pattern (c :: value)) text =
        (text.head? = some c && like (starts_with_pattern value) text.tail) := by
      rw [starts_with_pattern, escape_like_cons]
      split
      · simp [like, starts_with_pattern]
      · rename_i hplain
        simp only [not_or] at hplain
        rw [List.singleton_append, List.cons_append, ← starts_with_pattern, like] <;> simp_all
    rw [hstep, Bool.and_eq_true, ih, decide_eq_true_eq]
    cases text with
    | nil => simp
    | cons d text => simp [List.cons_prefix_cons, eq_comm]

/-- The rows of the current objects of a bucket, in key order. Text order is the order of the UTF-8 bytes. -/
def StorageTables.current_objects (tables : StorageTables) (bucket_id : BucketId) : List ObjectMetadata :=
  (tables.objects.toList.filter fun row => row.1.bucket_id = bucket_id).map Prod.snd

/-- A request for a page; `start` is the text that its keys start with. -/
structure ObjectPageRequest where
  start : String
  delimiter : Option Char
  after : Option String
  limit : Nat

def ObjectPageRequest.validate (request : ObjectPageRequest) : Except ObjectStorageError Unit :=
  if len request.start > 1024 ∨ starts_with_slash request.start ∨ has_control request.start
      ∨ request.delimiter.any (· ≠ '/') ∨ request.limit = 0 ∨ request.limit > MAX_PAGE_SIZE
      ∨ request.after.any (fun key => !(validate_object_key key).isOk) then .error .InvalidInput
  else .ok ()

structure ObjectPage where
  objects : List ObjectMetadata
  common_prefixes : List String
  next : Option String

/-- One entry of a page, with the cursor after it. -/
structure Visible where
  object : Option ObjectMetadata
  folder : Option String
  cursor : String

/-- The first object that matches a pattern after a cursor. -/
def first_object (rows : List ObjectMetadata) (pattern : List Char) (after : Option String) : Option ObjectMetadata :=
  rows.find? fun object => like pattern object.key.toList && after.all (· < object.key)

/-- The greatest key that matches a pattern. -/
def max_key (rows : List ObjectMetadata) (pattern : List Char) : Option String :=
  (rows.filter fun object => like pattern object.key.toList).getLast?.map ObjectMetadata.key

/-- The loop of a page that has room for so many more entries. -/
def list_visible (rows : List ObjectMetadata) (request : ObjectPageRequest) :
    Nat → Option String → Except ObjectStorageError (List Visible)
  | 0, _ => .ok []
  | room + 1, cursor =>
    match first_object rows (starts_with_pattern request.start.toList) cursor with
    | none => .ok []
    | some object => do
      object.validate
      match request.start.toList.isPrefixOf? object.key.toList with
      | none => .error .Corruption
      | some suffix =>
        if request.delimiter = some '/' ∧ '/' ∈ suffix then do
          let folder := request.start.toList ++ suffix.takeWhile (· ≠ '/') ++ ['/']
          match max_key rows (starts_with_pattern folder) with
          | none => .error .Corruption
          | some cursor => do
            .ok (⟨none, some (String.ofList folder), cursor⟩ :: (← list_visible rows request room (some cursor)))
        else do
          .ok (⟨some object, none, object.key⟩ :: (← list_visible rows request room (some object.key)))

/-- The page of a bucket that has these rows. -/
def list_rows (rows : List ObjectMetadata) (request : ObjectPageRequest) : Except ObjectStorageError ObjectPage := do
  let visible ← list_visible rows request (request.limit + 1) request.after
  let more := decide (visible.length > request.limit)
  let visible := if more then visible.dropLast else visible
  .ok {
    objects := visible.filterMap Visible.object
    common_prefixes := visible.filterMap Visible.folder
    next := if more then visible.getLast?.map Visible.cursor else none }

def load_bucket (tables : StorageTables) (bucket_id : BucketId) : Except ObjectStorageError (Option Bucket) :=
  decode Bucket.validate tables.buckets[bucket_id]?

def list_objects (tables : StorageTables) (bucket_id : BucketId) (request : ObjectPageRequest) :
    Except ObjectStorageError ObjectPage := do
  request.validate
  if (← load_bucket tables bucket_id).isNone then .error .NotFound
  else list_rows (tables.current_objects bucket_id) request

/-- The pages of a listing after a cursor, each with the cursor of the one before, up to one without a cursor. -/
inductive Pages (tables : StorageTables) (bucket_id : BucketId) (request : ObjectPageRequest) :
    Option String → List ObjectPage → Prop
  | last {after : Option String} {page : ObjectPage}
    (hpage : list_objects tables bucket_id { request with after } = .ok page) (hnext : page.next = none) :
    Pages tables bucket_id request after [page]
  | more {after : Option String} {page : ObjectPage} {next : String} {pages : List ObjectPage}
    (hpage : list_objects tables bucket_id { request with after } = .ok page) (hnext : page.next = some next)
    (hpages : Pages tables bucket_id request (some next) pages) :
    Pages tables bucket_id request after (page :: pages)

/-- Rows in key order that decode. -/
structure CurrentObjects where
  rows : List ObjectMetadata
  ascending : rows.Pairwise fun a b => a.key < b.key
  valid : ∀ object ∈ rows, object.validate = .ok ()

/-- The rows of consistent tables are such rows. -/
def CurrentObjects.of_tables {tables : StorageTables} (h : tables.Consistent) (bucket_id : BucketId) :
    CurrentObjects where
  rows := tables.current_objects bucket_id
  ascending := by
    refine List.pairwise_map.mpr (List.Pairwise.imp_of_mem (fun {a b} ha hb hlt => ?_)
      ((ordered_map.pairwise_toList tables.objects).filter _))
    obtain ⟨ha, habucket⟩ := List.mem_filter.mp ha
    obtain ⟨hb, hbbucket⟩ := List.mem_filter.mp hb
    obtain ⟨hakey, _⟩ := h.current _ _ (ExtTreeMap.mem_toList_iff_getElem?_eq_some.mp ha)
    obtain ⟨hbkey, _⟩ := h.current _ _ (ExtTreeMap.mem_toList_iff_getElem?_eq_some.mp hb)
    have hlt := Prod.Lex.toLex_lt_toLex.mp hlt
    rw [of_decide_eq_true habucket, of_decide_eq_true hbbucket, ← hakey, ← hbkey] at hlt
    exact (hlt.resolve_left (lt_irrefl _)).2
  valid object hobject := by
    obtain ⟨row, hrow, rfl⟩ := List.mem_map.mp hobject
    have hrow := ExtTreeMap.mem_toList_iff_getElem?_eq_some.mp (List.mem_filter.mp hrow).1
    exact h.valid _ _ (h.current _ _ hrow).2

/-- Texts between two that start with a text start with it. -/
theorem prefix_between {start a b c : List Char} (ha : start <+: a) (hc : start <+: c) (hab : ¬b < a) (hbc : ¬c < b) :
    start <+: b := by
  induction start generalizing a b c with
  | nil => exact List.nil_prefix
  | cons x start ih =>
    obtain ⟨a, rfl⟩ := ha
    obtain ⟨c, rfl⟩ := hc
    rw [List.cons_append] at hab hbc
    cases b with
    | nil => exact absurd (List.nil_lt_cons _ _) hab
    | cons y b =>
      simp only [List.cons_lt_cons_iff, not_or, not_and, not_lt] at hab hbc
      obtain rfl := le_antisymm hab.1 hbc.1
      exact List.cons_prefix_cons.mpr ⟨rfl, ih (List.prefix_append _ _) (List.prefix_append _ _)
        (not_lt.mpr (hab.2 rfl)) (not_lt.mpr (hbc.2 rfl))⟩

/-- A text is above all texts that start with a smaller one, unless it starts with that one. -/
theorem append_lt_of_not_start {p q : List Char} (hlt : p < q) (h : ¬p <+: q) (x y : List Char) : p ++ x < q ++ y := by
  induction p generalizing q with
  | nil => exact absurd List.nil_prefix h
  | cons a p ih =>
    cases q with
    | nil => exact absurd hlt (List.not_lt_nil _)
    | cons b q =>
      rw [List.cons_append, List.cons_append, List.cons_lt_cons_iff]
      rcases List.cons_lt_cons_iff.mp hlt with hfirst | ⟨rfl, hrest⟩
      · exact .inl hfirst
      · exact .inr ⟨rfl, ih hrest fun hstarts => h (List.cons_prefix_cons.mpr ⟨rfl, hstarts⟩)⟩

theorem takeWhile_slash {before : List Char} (h : '/' ∉ before) (rest : List Char) :
    (before ++ '/' :: rest).takeWhile (· ≠ '/') = before := by
  rw [List.takeWhile_append_of_pos]
  · simp
  · intro c hc
    simpa using fun heq : c = '/' => h (heq ▸ hc)

/-- The folder that a key is listed under. -/
def folder (request : ObjectPageRequest) (key : String) : Option String :=
  match request.start.toList.isPrefixOf? key.toList with
  | none => none
  | some suffix =>
    if request.delimiter = some '/' ∧ '/' ∈ suffix then
      some (String.ofList (request.start.toList ++ suffix.takeWhile (· ≠ '/') ++ ['/']))
    else none

/-- A key is in a folder: the text up to and including the first delimiter after what was asked for. -/
def InFolder (request : ObjectPageRequest) (key name : String) : Prop :=
  request.delimiter = some '/' ∧ name.toList <+: key.toList ∧
    ∃ before, '/' ∉ before ∧ name.toList = request.start.toList ++ before ++ ['/']

section
variable {objects : CurrentObjects} {request : ObjectPageRequest} {key name : String} {object : ObjectMetadata}

/-- The folder of a key, if it lies in one. -/
theorem folder_eq_some_iff : folder request key = some name ↔ InFolder request key name := by
  unfold folder InFolder
  constructor
  · intro h
    split at h
    · cases h
    rename_i suffix hsuffix
    split at h
    · rename_i hslash
      cases h
      rw [String.toList_ofList, ← List.isPrefixOf?_eq_some_iff_append_eq.mp hsuffix]
      obtain ⟨before, rest, hsplit, hbefore⟩ := List.eq_append_cons_of_mem hslash.2
      rw [hsplit, takeWhile_slash hbefore]
      exact ⟨hslash.1, ⟨rest, by simp⟩, before, hbefore, rfl⟩
    · cases h
  · rintro ⟨hdelimiter, ⟨rest, hrest⟩, before, hbefore, hname⟩
    have hkey : request.start.toList ++ (before ++ '/' :: rest) = key.toList := by
      rw [← hrest, hname]
      simp
    rw [List.isPrefixOf?_eq_some_iff_append_eq.mpr hkey]
    dsimp only
    rw [if_pos ⟨hdelimiter, by simp⟩, takeWhile_slash hbefore, ← hname, String.ofList_toList]

/-- Of the keys that start with the name of a folder, all are in it. -/
theorem InFolder.of_start {other : String} (h : InFolder request key name) (hother : name.toList <+: other.toList) :
    InFolder request other name :=
  ⟨h.1, hother, h.2.2⟩

/-- Folders have the order of their keys. -/
theorem InFolder.lt {other name' : String} (h : InFolder request key name) (hother : InFolder request other name')
    (hne : name ≠ name') (hlt : key < other) : name < name' := by
  obtain ⟨_, ⟨x, hx⟩, before, hbefore, hname⟩ := h
  obtain ⟨_, ⟨y, hy⟩, before', hbefore', hname'⟩ := hother
  refine lt_of_not_ge fun hge => ?_
  have hname_lt : name'.toList < name.toList := String.lt_iff_toList_lt.mp (lt_of_le_of_ne hge (Ne.symm hne))
  refine lt_asymm (String.lt_iff_toList_lt.mp hlt) ?_
  rw [← hx, ← hy]
  refine append_lt_of_not_start hname_lt (fun ⟨rest, hrest⟩ => hne ?_) y x
  rw [hname, hname', List.append_assoc, List.append_assoc, List.append_assoc] at hrest
  have hbefores := congrArg (List.takeWhile (· ≠ '/')) (List.append_cancel_left hrest)
  rw [List.singleton_append, takeWhile_slash hbefore', takeWhile_slash hbefore] at hbefores
  rw [← String.toList_inj, hname, hname', hbefores]

/-- The key is among those asked for. -/
def Listed (request : ObjectPageRequest) (key : String) : Prop := request.start.toList <+: key.toList

instance : Decidable (Listed request key) := inferInstanceAs (Decidable (_ <+: _))

theorem InFolder.listed (h : InFolder request key name) : Listed request key := by
  obtain ⟨_, hkey, before, _, hname⟩ := h
  refine List.IsPrefix.trans ?_ hkey
  rw [hname, List.append_assoc]
  exact List.prefix_append _ _

/-- The objects that end an entry: those that are in no folder, and the last one of each folder. -/
def CurrentObjects.ends (objects : CurrentObjects) (request : ObjectPageRequest) : List ObjectMetadata :=
  objects.rows.filter fun object => Listed request object.key ∧ ∀ other ∈ objects.rows,
    folder request other.key = none ∨ folder request other.key ≠ folder request object.key ∨ other.key ≤ object.key

/-- The ends of the entries after a cursor. -/
def CurrentObjects.remaining (objects : CurrentObjects) (request : ObjectPageRequest) (after : Option String) :
    List ObjectMetadata :=
  (objects.ends request).filter fun object => after.all (· < object.key)

/-- The entry that an object ends. -/
def entry (request : ObjectPageRequest) (object : ObjectMetadata) : Visible :=
  match folder request object.key with
  | none => ⟨some object, none, object.key⟩
  | some name => ⟨none, some name, object.key⟩

theorem mem_ends_iff : object ∈ objects.ends request ↔ object ∈ objects.rows ∧ Listed request object.key ∧
    ∀ other ∈ objects.rows, ∀ name, InFolder request object.key name → InFolder request other.key name →
      other.key ≤ object.key := by
  rw [CurrentObjects.ends, List.mem_filter, decide_eq_true_eq]
  refine and_congr_right' (and_congr_right' (forall₂_congr fun other _ => ?_))
  simp only [← folder_eq_some_iff]
  cases folder request other.key with
  | none => simp
  | some name => simp only [reduceCtorEq, false_or, ← imp_iff_not_or]; grind

variable {after : Option String}

theorem mem_remaining_iff :
    object ∈ objects.remaining request after ↔ object ∈ objects.ends request ∧ ∀ cursor ∈ after, cursor < object.key := by
  rw [CurrentObjects.remaining, List.mem_filter]
  cases after <;> simp

/-- In an ascending list, what is above an item comes after it. -/
theorem filter_above {rows : List ObjectMetadata} (hrows : rows.Pairwise fun a b => a.key < b.key) {n : Nat}
    (h : rows[n]? = some object) : rows.filter (object.key < ·.key) = rows.drop (n + 1) := by
  induction rows generalizing n with
  | nil => cases h
  | cons row rows ih =>
    obtain ⟨hfirst, hrows⟩ := List.pairwise_cons.mp hrows
    cases n with
    | zero =>
      cases h
      rw [List.filter_cons_of_neg (by simp), List.filter_eq_self.mpr (by simpa using hfirst)]
      rfl
    | succ n =>
      have hlt := hfirst object (List.mem_of_getElem? h)
      rw [List.filter_cons_of_neg (by simpa only [decide_eq_true_eq, not_lt] using hlt.le), ih hrows h]
      rfl

theorem remaining_ascending (after : Option String) :
    (objects.remaining request after).Pairwise fun a b => a.key < b.key :=
  (objects.ascending.filter _).filter _

theorem remaining_drop {n : Nat} (h : (objects.remaining request after)[n]? = some object) :
    (objects.remaining request after).drop (n + 1) = objects.remaining request (some object.key) := by
  obtain ⟨_, hafter⟩ := mem_remaining_iff.mp (List.mem_of_getElem? h)
  rw [← filter_above (remaining_ascending after) h, CurrentObjects.remaining, CurrentObjects.remaining, List.filter_filter]
  refine List.filter_congr fun other _ => ?_
  cases after with
  | none => simp
  | some cursor =>
    simp only [Option.all_some, Bool.and_eq_left_iff_imp, decide_eq_true_eq]
    exact (hafter cursor rfl).trans

/-- The least object that remains is the first one. -/
theorem remaining_eq_cons (hmem : object ∈ objects.remaining request after)
    (hleast : ∀ other ∈ objects.remaining request after, object.key ≤ other.key) :
    objects.remaining request after = object :: objects.remaining request (some object.key) := by
  have hascending : (objects.remaining request after).Pairwise _ := remaining_ascending after
  cases hremaining : objects.remaining request after with
  | nil => rw [hremaining] at hmem; cases hmem
  | cons first rest =>
    rw [hremaining] at hmem hleast hascending
    obtain rfl : object = first := by
      refine (List.mem_cons.mp hmem).resolve_right fun hrest => ?_
      exact absurd ((List.pairwise_cons.mp hascending).1 object hrest) (not_lt.mpr (hleast first List.mem_cons_self))
    rw [← remaining_drop (n := 0) (by rw [hremaining]; rfl), hremaining]
    rfl

/-- A folder is left by its greatest key. -/
theorem exists_folder_end (hmem : object ∈ objects.rows) (hname : InFolder request object.key name) :
    ∃ last ∈ objects.ends request, max_key objects.rows (starts_with_pattern name.toList) = some last.key ∧
      InFolder request last.key name ∧ object.key ≤ last.key := by
  have hmatches : object ∈ objects.rows.filter fun object => like (starts_with_pattern name.toList) object.key.toList :=
    List.mem_filter.mpr ⟨hmem, (like_starts_with_iff _ _).mpr hname.2.1⟩
  obtain ⟨init, last, heq⟩ := (List.eq_nil_or_concat _).resolve_left (List.ne_nil_of_mem hmatches)
  have hlast : last ∈ objects.rows.filter fun object => like (starts_with_pattern name.toList) object.key.toList := by
    simp [heq]
  have hgreatest (other : ObjectMetadata) (hother : other ∈ objects.rows) (hfolder : InFolder request other.key name) :
      other.key ≤ last.key := by
    have hascending := objects.ascending.filter fun object => like (starts_with_pattern name.toList) object.key.toList
    have hmatches : other ∈ objects.rows.filter fun object => like (starts_with_pattern name.toList) object.key.toList :=
      List.mem_filter.mpr ⟨hother, (like_starts_with_iff _ _).mpr hfolder.2.1⟩
    rw [heq, List.concat_eq_append] at hascending hmatches
    rcases List.mem_append.mp hmatches with hinit | hlast
    · exact ((List.pairwise_append.mp hascending).2.2 other hinit last List.mem_cons_self).le
    · exact (List.mem_singleton.mp hlast ▸ le_rfl)
  obtain ⟨hrow, hstarts⟩ := List.mem_filter.mp hlast
  have hfolder := hname.of_start ((like_starts_with_iff _ _).mp hstarts)
  refine ⟨last, mem_ends_iff.mpr ⟨hrow, hfolder.listed, fun other hother name' hlast' hother' => ?_⟩, ?_, hfolder,
    hgreatest object hmem hname⟩
  · cases (folder_eq_some_iff.mpr hfolder).symm.trans (folder_eq_some_iff.mpr hlast')
    exact hgreatest other hother hother'
  · simp [max_key, heq]

/-- The first object after a cursor is the least one. -/
theorem first_eq_some {start : List Char}
    (h : first_object objects.rows (starts_with_pattern start) after = some object) :
    object ∈ objects.rows ∧ start <+: object.key.toList ∧ (∀ cursor ∈ after, cursor < object.key) ∧
      ∀ other ∈ objects.rows, start <+: other.key.toList → (∀ cursor ∈ after, cursor < other.key) →
        object.key ≤ other.key := by
  have hafter (key : String) : after.all (· < key) = true ↔ ∀ cursor ∈ after, cursor < key := by cases after <;> simp
  obtain ⟨hobject, before, rest, hrows, hbefore⟩ := List.find?_eq_some_iff_append.mp h
  rw [Bool.and_eq_true, like_starts_with_iff, hafter] at hobject
  refine ⟨by simp [hrows], hobject.1, hobject.2, fun other hother hstart hcursor => ?_⟩
  have hascending := objects.ascending
  rw [hrows] at hascending hother
  rcases List.mem_append.mp hother with hmem | hmem
  · have hpasses := hbefore other hmem
    rw [(like_starts_with_iff _ _).mpr hstart, (hafter _).mpr hcursor] at hpasses
    cases hpasses
  · rcases List.mem_cons.mp hmem with rfl | hmem
    · exact le_rfl
    · exact ((List.pairwise_cons.mp (List.pairwise_append.mp hascending).2.1).1 other hmem).le

/-- Nothing remains where no object is found. -/
theorem remaining_of_first_eq_none
    (h : first_object objects.rows (starts_with_pattern request.start.toList) after = none) : objects.remaining request after = [] := by
  refine List.eq_nil_iff_forall_not_mem.mpr fun object hobject => ?_
  obtain ⟨hends, hafter⟩ := mem_remaining_iff.mp hobject
  obtain ⟨hrow, hlisted, _⟩ := mem_ends_iff.mp hends
  refine List.find?_eq_none.mp h object hrow ?_
  rw [Bool.and_eq_true, like_starts_with_iff]
  exact ⟨hlisted, by cases after <;> simp_all⟩

/-- The entry of the first object after a cursor is the first one that remains. -/
theorem remaining_of_first
    (h : first_object objects.rows (starts_with_pattern request.start.toList) after = some object) :
    folder request object.key = none ∧
        objects.remaining request after = object :: objects.remaining request (some object.key) ∨
      ∃ name last, folder request object.key = some name ∧ folder request last.key = some name ∧
        max_key objects.rows (starts_with_pattern name.toList) = some last.key ∧
        objects.remaining request after = last :: objects.remaining request (some last.key) := by
  obtain ⟨hrow, hlisted, hafter, hleast⟩ := first_eq_some h
  have hleast (other : ObjectMetadata) (hother : other ∈ objects.remaining request after) : object.key ≤ other.key := by
    obtain ⟨hends, hcursor⟩ := mem_remaining_iff.mp hother
    obtain ⟨hrow, hlisted, _⟩ := mem_ends_iff.mp hends
    exact hleast other hrow hlisted hcursor
  cases hfolder : folder request object.key with
  | none =>
    refine .inl ⟨rfl, remaining_eq_cons (mem_remaining_iff.mpr ⟨mem_ends_iff.mpr ⟨hrow, hlisted, ?_⟩, hafter⟩) hleast⟩
    intro other _ name hname
    rw [folder_eq_some_iff.mpr hname] at hfolder
    cases hfolder
  | some name =>
    have hname := folder_eq_some_iff.mp hfolder
    obtain ⟨last, hends, hmax, hlast, hle⟩ := exists_folder_end hrow hname
    refine .inr ⟨name, last, rfl, folder_eq_some_iff.mpr hlast, hmax, remaining_eq_cons (mem_remaining_iff.mpr
      ⟨hends, fun cursor hcursor => (hafter cursor hcursor).trans_le hle⟩) fun other hother => ?_⟩
    -- Between two keys of a folder there are only keys of the folder, and none of them ends it before its last.
    refine le_of_not_gt fun hlt => ?_
    obtain ⟨hother_ends, _⟩ := mem_remaining_iff.mp hother
    have hbetween := prefix_between hname.2.1 hlast.2.1
      (fun h => absurd (String.lt_iff_toList_lt.mpr h) (not_lt.mpr (hleast other hother)))
      (fun h => absurd (String.lt_iff_toList_lt.mpr h) (lt_asymm hlt))
    exact absurd hlt (not_lt.mpr ((mem_ends_iff.mp hother_ends).2.2 last (mem_ends_iff.mp hends).1 name
      (hname.of_start hbetween) hlast))

/-- The loop of a page finds the next entries. -/
theorem list_visible_eq (room : Nat) (after : Option String) :
    list_visible objects.rows request room after = .ok (((objects.remaining request after).take room).map (entry request)) := by
  induction room generalizing after with
  | zero => rfl
  | succ room ih =>
    rw [list_visible]
    cases hfirst : first_object objects.rows (starts_with_pattern request.start.toList) after with
    | none => simp [remaining_of_first_eq_none hfirst]
    | some object =>
      dsimp only
      obtain ⟨hrow, ⟨suffix, hsuffix⟩, _⟩ := first_eq_some hfirst
      have hstrip := List.isPrefixOf?_eq_some_iff_append_eq.mpr hsuffix
      have hfolder_eq : folder request object.key = if request.delimiter = some '/' ∧ '/' ∈ suffix then
          some (String.ofList (request.start.toList ++ suffix.takeWhile (· ≠ '/') ++ ['/'])) else none := by
        rw [folder, hstrip]
      rw [objects.valid object hrow, ok_bind, hstrip]
      dsimp only
      rcases remaining_of_first hfirst with ⟨hfolder, hremaining⟩ | ⟨name, last, hfolder, hlast, hmax, hremaining⟩
      · split at hfolder_eq
        · rw [hfolder_eq] at hfolder; cases hfolder
        · rename_i hplain
          rw [if_neg hplain, ih, hremaining]
          simp [entry, hfolder]
      · split at hfolder_eq
        · rename_i hslash
          cases hfolder.symm.trans hfolder_eq
          rw [String.toList_ofList] at hmax
          rw [if_pos hslash, hmax]
          dsimp only
          rw [ih, hremaining]
          simp [entry, hlast]
        · rw [hfolder_eq] at hfolder; cases hfolder

/-- The request for the next page is valid too. -/
theorem validate_after (hrequest : request.validate = .ok ())
    (hafter : ∀ cursor ∈ after, validate_object_key cursor = .ok ()) :
    ({ request with after } : ObjectPageRequest).validate = .ok () := by
  unfold ObjectPageRequest.validate at hrequest ⊢
  obtain ⟨hvalid, _⟩ := ite_error_eq_ok_iff.mp hrequest
  simp only [not_or] at hvalid
  obtain ⟨hstart, hslash, hcontrol, hdelimiter, hzero, hlimit, _⟩ := hvalid
  rw [if_neg]
  rintro (h | h | h | h | h | h | h)
  · exact hstart h
  · exact hslash h
  · exact hcontrol h
  · exact hdelimiter h
  · exact hzero h
  · exact hlimit h
  · cases after with
    | none => cases h
    | some cursor => simp [hafter cursor rfl, Except.isOk, Except.toBool] at h

/-- A page of the entries that end with some objects: a cursor stands on it exactly if it has no room for all. -/
def page_of (request : ObjectPageRequest) (rows : List ObjectMetadata) : ObjectPage where
  objects := ((rows.take request.limit).map (entry request)).filterMap Visible.object
  common_prefixes := ((rows.take request.limit).map (entry request)).filterMap Visible.folder
  next := if rows.length > request.limit then (rows.take request.limit).getLast?.map ObjectMetadata.key else none

/-- A page has what remains, up to its limit. -/
theorem list_rows_eq (after : Option String) :
    list_rows objects.rows { request with after } = .ok (page_of request (objects.remaining request after)) := by
  have hcursor (object : ObjectMetadata) : (entry request object).cursor = object.key := by unfold entry; split <;> rfl
  have hvisible : list_visible objects.rows { request with after } (request.limit + 1) after =
      .ok (((objects.remaining request after).take (request.limit + 1)).map (entry request)) := list_visible_eq _ _
  rw [list_rows]
  dsimp only
  rw [hvisible, ok_bind, List.length_map, List.length_take, page_of]
  by_cases hmore : (objects.remaining request after).length > request.limit
  · have hlength : min (request.limit + 1) (objects.remaining request after).length = request.limit + 1 := by
      omega
    have htaken : (((objects.remaining request after).take (request.limit + 1)).map (entry request)).dropLast =
        ((objects.remaining request after).take request.limit).map (entry request) := by
      rw [List.dropLast_eq_take, List.length_map, List.length_take, hlength, ← List.map_take, List.take_take]
      simp
    rw [if_pos hmore, hlength, decide_eq_true (Nat.lt_succ_self _), if_pos rfl, if_pos rfl, htaken, List.getLast?_map, Option.map_map]
    simp [Function.comp_def, hcursor]
  · rw [if_neg hmore, decide_eq_false (by omega)]
    rw [List.take_of_length_le (show _ ≤ request.limit + 1 by omega),
      List.take_of_length_le (show _ ≤ request.limit by omega)]
    rfl

/-- The pages list what is left, by induction on it. -/
theorem pages_of_remaining {tables : StorageTables} {bucket_id : BucketId} {bucket : Bucket}
    (hrows : objects.rows = tables.current_objects bucket_id) (hfound : load_bucket tables bucket_id = .ok (some bucket))
    (hvalid : request.validate = .ok ()) (after : Option String)
    (hafter : ∀ cursor ∈ after, validate_object_key cursor = .ok ()) :
    ∃ pages, Pages tables bucket_id request after pages ∧ pages.flatMap ObjectPage.objects =
        ((objects.remaining request after).map (entry request)).filterMap Visible.object ∧
      pages.flatMap ObjectPage.common_prefixes =
        ((objects.remaining request after).map (entry request)).filterMap Visible.folder := by
  have hlimit : request.limit ≠ 0 := by
    obtain ⟨hvalid, _⟩ := ite_error_eq_ok_iff.mp hvalid
    simp only [not_or] at hvalid
    exact hvalid.2.2.2.2.1
  -- Each page takes at least one of the entries that remain.
  induction hcount : (objects.remaining request after).length using Nat.strong_induction_on generalizing after with
  | _ count ih =>
    have hpage : list_objects tables bucket_id { request with after } =
        .ok (page_of request (objects.remaining request after)) := by
      rw [list_objects, validate_after hvalid hafter, ok_bind, hfound, ok_bind, ← hrows]
      exact list_rows_eq after
    by_cases hmore : (objects.remaining request after).length > request.limit
    · obtain ⟨last, hlast⟩ : ∃ last, (objects.remaining request after)[request.limit - 1]? = some last :=
        ⟨_, List.getElem?_eq_getElem (by omega)⟩
      have hdrop := remaining_drop hlast
      rw [Nat.sub_add_cancel (by omega)] at hdrop
      have hnext : ((objects.remaining request after).take request.limit).getLast?.map ObjectMetadata.key =
          some last.key := by
        rw [List.getLast?_take, if_neg hlimit, hlast]
        rfl
      have hkey : validate_object_key last.key = .ok () := by
        have hends := (mem_remaining_iff.mp (List.mem_of_getElem? hlast)).1
        obtain ⟨_, hkey, _⟩ := bind_eq_ok_iff.mp (objects.valid last (mem_ends_iff.mp hends).1)
        exact hkey
      obtain ⟨pages, hpages, hobjects, hfolders⟩ := ih _ (by rw [← hcount, ← hdrop, List.length_drop]; omega)
        (some last.key) (fun cursor hcursor => Option.some.inj hcursor ▸ hkey) rfl
      refine ⟨_ :: pages, .more hpage ((if_pos hmore).trans hnext) hpages, ?_, ?_⟩
      · conv_rhs =>
          rw [← List.take_append_drop request.limit (objects.remaining request after), List.map_append,
            List.filterMap_append]
        rw [List.flatMap_cons, hobjects, ← hdrop, page_of]
      · conv_rhs =>
          rw [← List.take_append_drop request.limit (objects.remaining request after), List.map_append,
            List.filterMap_append]
        rw [List.flatMap_cons, hfolders, ← hdrop, page_of]
    · refine ⟨[_], .last hpage (if_neg hmore), ?_, ?_⟩
      · rw [List.flatMap_singleton]
        exact congrArg (fun rows => (List.map (entry request) rows).filterMap Visible.object)
          (List.take_of_length_le (by omega))
      · rw [List.flatMap_singleton]
        exact congrArg (fun rows => (List.map (entry request) rows).filterMap Visible.folder)
          (List.take_of_length_le (by omega))

theorem entry_folder (object : ObjectMetadata) : (entry request object).folder = folder request object.key := by
  unfold entry
  split <;> simp_all

theorem folder_eq_none_iff (hlisted : Listed request key) : folder request key = none ↔
    (request.delimiter = some '/' → '/' ∉ key.toList.drop request.start.toList.length) := by
  obtain ⟨suffix, hsuffix⟩ := hlisted
  rw [folder, List.isPrefixOf?_eq_some_iff_append_eq.mpr hsuffix, ← hsuffix, List.drop_left]
  simp

/-- An object that is asked for is an entry of its own unless it is in a folder. -/
theorem ends_objects (objects : CurrentObjects) (request : ObjectPageRequest) :
    (objects.ends request).filterMap (Visible.object ∘ entry request) = objects.rows.filter fun object =>
      Listed request object.key ∧
        (request.delimiter = some '/' → '/' ∉ object.key.toList.drop request.start.toList.length) := by
  rw [CurrentObjects.ends, List.filterMap_filter, ← List.filterMap_eq_filter]
  refine List.filterMap_congr fun object _ => ?_
  by_cases hlisted : Listed request object.key
  · cases hfolder : folder request object.key with
    | none =>
      rw [if_pos (decide_eq_true ⟨hlisted, fun _ _ => or_iff_not_imp_left.mpr .inl⟩), Option.guard,
        if_pos (decide_eq_true ⟨hlisted, (folder_eq_none_iff hlisted).mp hfolder⟩)]
      simp [entry, hfolder]
    | some name =>
      have hfolded : ¬(Listed request object.key ∧
          (request.delimiter = some '/' → '/' ∉ object.key.toList.drop request.start.toList.length)) := by
        rw [← folder_eq_none_iff hlisted, hfolder]
        nofun
      rw [Option.guard, decide_eq_false hfolded, Function.comp_apply, entry, hfolder]
      simp
  · simp [hlisted, Option.guard]

/-- Following the cursors from the first page on ends, and lists in ascending order every object that is asked for and in
no folder, and every folder once. -/
theorem listing_exact {tables : StorageTables} (hconsistent : tables.Consistent) {bucket_id : BucketId}
    {bucket : Bucket} (hfound : load_bucket tables bucket_id = .ok (some bucket)) (request : ObjectPageRequest)
    (hvalid : request.validate = .ok ()) (hfirst : request.after = none) :
    ∃ pages, Pages tables bucket_id request request.after pages ∧
      pages.flatMap ObjectPage.objects = ((tables.current_objects bucket_id).filter fun object =>
        Listed request object.key ∧ (request.delimiter = some '/' → '/' ∉ object.key.toList.drop request.start.toList.length)) ∧
      (pages.flatMap ObjectPage.common_prefixes).Pairwise (· < ·) ∧
      ∀ name, name ∈ pages.flatMap ObjectPage.common_prefixes ↔
        ∃ object ∈ tables.current_objects bucket_id, InFolder request object.key name := by
  let objects := CurrentObjects.of_tables hconsistent bucket_id
  obtain ⟨pages, hpages, hobjects, hfolders⟩ := @pages_of_remaining objects request _ _ _ rfl hfound hvalid request.after
    (by simp [hfirst])
  have hends : objects.remaining request request.after = objects.ends request := by
    simp [CurrentObjects.remaining, hfirst]
  rw [hends, List.filterMap_map] at hobjects hfolders
  rw [show Visible.folder ∘ entry request = fun object => folder request object.key from funext entry_folder] at hfolders
  refine ⟨pages, hpages, hobjects.trans (ends_objects objects request), hfolders ▸ ?_, fun name => hfolders ▸ ?_⟩
  · rw [List.pairwise_filterMap]
    refine List.Pairwise.imp_of_mem (fun {a b} ha hb hlt name hname name' hname' => ?_) (objects.ascending.filter _)
    rw [folder_eq_some_iff] at hname hname'
    refine hname.lt hname' ?_ hlt
    rintro rfl
    exact absurd hlt (not_lt.mpr ((mem_ends_iff.mp ha).2.2 b (mem_ends_iff.mp hb).1 name hname hname'))
  · rw [List.mem_filterMap]
    constructor
    · rintro ⟨object, hobject, hname⟩
      exact ⟨object, (mem_ends_iff.mp hobject).1, folder_eq_some_iff.mp hname⟩
    · rintro ⟨object, hobject, hname⟩
      obtain ⟨last, hlast, _, hfolder, _⟩ := @exists_folder_end objects _ _ _ hobject hname
      exact ⟨last, hlast, folder_eq_some_iff.mpr hfolder⟩

end

/-- A bucket with a folder of two objects between two objects. -/
def folder_calls : List (World × Call) :=
  [creating, putting 1 1 "a" 1, putting 2 2 "b/c" 1, putting 3 3 "b/d" 1, putting 4 4 "e%" 1]

theorem folder_is_listed_once :
    let tables := history runku.data.checksum one_scope folder_calls
    ∃ pages, Pages tables one_bucket ⟨"", some '/', none, 2⟩ none pages ∧
      (pages.flatMap ObjectPage.objects).map ObjectMetadata.key = ["a", "e%"] ∧
      "b/" ∈ pages.flatMap ObjectPage.common_prefixes := by
  intro tables
  have hfound : load_bucket tables one_bucket = .ok (some ⟨ten_bytes, 1, .Active, 0, 0⟩) := by decide +kernel
  obtain ⟨pages, hpages, hobjects, _, hfolders⟩ := listing_exact (history_consistent folder_calls) hfound
    ⟨"", some '/', none, 2⟩ (by decide +kernel) rfl
  refine ⟨pages, hpages, ?_, (hfolders "b/").mpr ?_⟩
  · rw [hobjects]
    decide +kernel
  · have hmem : (tables.current_objects one_bucket).any (fun object =>
        decide (folder ⟨"", some '/', none, 2⟩ object.key = some "b/")) = true := by decide +kernel
    obtain ⟨object, hobject, hname⟩ := List.any_eq_true.mp hmem
    exact ⟨object, hobject, folder_eq_some_iff.mp (of_decide_eq_true hname)⟩

end runku.object_storage_repository
