import Runku.EnvironmentConfiguration.ExactlyOnce

namespace runku.environment_configuration

open Std (ExtTreeMap)
open runku.core
open runku.data (Sha256Digest)
open fallible

/-- The tables, and the revisions read by the snapshots that have yet to read the entries. -/
structure System where
  tables : Tables
  pending : ExtTreeMap Nat Nat

def System.initial : System := ⟨.empty, ∅⟩

/-- A write transaction, or one of the two statements of a snapshot. -/
inductive Action
  | Write (command : Command)
  | LoadRevision (reader : Nat)
  | FetchEntries (reader : Nat)

section
variable (sha256 : List UInt8 → Sha256Digest) (cipher : Aes256Gcm) (key : Vector UInt8 32) (scope : EnvironmentScope)

def System.step (s : System) : Action → System
  | .Write command => { s with tables := environment_configuration.step sha256 cipher key scope s.tables command }
  | .LoadRevision reader => { s with pending := s.pending.insert reader (load_revision s.tables) }
  | .FetchEntries reader => { s with pending := s.pending.erase reader }

/-- The snapshot that the second statement completes. -/
def System.returned (s : System) : Action → Option ConfigurationSnapshot
  | .FetchEntries reader =>
    match s.pending[reader]?, snapshot_entries scope s.tables with
    | some revision, .ok entries => some ⟨revision, entries⟩
    | _, _ => none
  | _ => none

def run (actions : List Action) : System := machine.run (System.step sha256 cipher key scope) .initial actions

/-- The snapshots returned in a run. -/
def snapshots (actions : List Action) : List ConfigurationSnapshot :=
  machine.yields (System.step sha256 cipher key scope) (System.returned scope) .initial actions

/-- No command takes effect while a snapshot is between its two statements. -/
def Quiet (s : System) : Action → Prop
  | .Write command => s.pending.isEmpty = true ∨ taken sha256 cipher key scope s.tables command = none
  | _ => True

variable {sha256 cipher key scope}

/-- A step that does not change the revision does not change the tables. -/
theorem Represents.step_revision {log : List Applied} {t : Tables} (h : Represents sha256 cipher key scope log t)
    (command : Command) : environment_configuration.step sha256 cipher key scope t command = t ∨
      taken sha256 cipher key scope t command ≠ none ∧
        load_revision (environment_configuration.step sha256 cipher key scope t command) = load_revision t + 1 := by
  have hstep := h.step command
  cases htaken : taken sha256 cipher key scope t command with
  | none =>
    left
    by_cases hnew : command.New t
    · obtain ⟨_, _, _, hsome, _⟩ | ⟨_, hsame, _⟩ := h.step_new hnew
      · rw [htaken] at hsome
        cases hsome
      · exact hsame
    · exact (h.step_known hnew).1
  | some one =>
    rw [htaken] at hstep
    refine .inr ⟨nofun, ?_⟩
    rw [hstep.revision, h.revision, List.length_append, Option.toList_some, List.length_singleton]

theorem run_represents (actions : List Action) :
    ∃ log, Represents sha256 cipher key scope log (run sha256 cipher key scope actions).tables := by
  induction actions using List.reverseRecOn with
  | nil => exact ⟨[], represents_empty⟩
  | append_singleton actions action ih =>
    obtain ⟨log, hlog⟩ := ih
    rw [run, machine.run_append]
    cases action with
    | Write command => exact ⟨_, hlog.step command⟩
    | LoadRevision | FetchEntries => exact ⟨log, hlog⟩

/-- Revisions only grow, and tables of one revision are the same. -/
theorem run_append_tables (actions more : List Action) :
    let before := (run sha256 cipher key scope actions).tables
    let after := (run sha256 cipher key scope (actions ++ more)).tables
    load_revision before ≤ load_revision after ∧ (load_revision before = load_revision after → before = after) := by
  intro before after
  induction more using List.reverseRecOn with
  | nil =>
    have hsame : before = after := by simp only [before, after, List.append_nil]
    rw [← hsame]
    exact ⟨le_rfl, fun _ => rfl⟩
  | append_singleton more action ih =>
    obtain ⟨log, hlog⟩ := @run_represents sha256 cipher key scope (actions ++ more)
    obtain ⟨hle, hsame⟩ := ih
    simp only [after]
    rw [← List.append_assoc, run, machine.run_append]
    cases action with
    | Write command =>
      obtain hstep | ⟨_, hnext⟩ := hlog.step_revision command
      · exact ⟨hle.trans_eq (congrArg load_revision hstep.symm), fun h =>
          (hsame (h.trans (congrArg load_revision hstep))).trans hstep.symm⟩
      · refine ⟨(hle.trans (Nat.le_succ _)).trans_eq hnext.symm, fun h => ?_⟩
        have hcontra := h.trans hnext
        exact absurd hcontra (by omega)
    | LoadRevision | FetchEntries => exact ⟨hle, hsame⟩

/-- Tables of one revision are the same, whichever comes first. -/
theorem tables_eq_of_revision {actions before before' : List Action} (h : before <+: actions) (h' : before' <+: actions)
    (hrevision : load_revision (run sha256 cipher key scope before).tables =
      load_revision (run sha256 cipher key scope before').tables) :
    (run sha256 cipher key scope before).tables = (run sha256 cipher key scope before').tables := by
  obtain ⟨more, rfl⟩ | ⟨more, rfl⟩ := List.prefix_or_prefix_of_prefix h h'
  · exact (run_append_tables before more).2 hrevision
  · exact ((run_append_tables before' more).2 hrevision.symm).symm

/-- In a quiet run a pending revision is the current one. -/
theorem pending_current {actions : List Action}
    (hquiet : machine.Meets (System.step sha256 cipher key scope) (Quiet sha256 cipher key scope) .initial actions)
    {reader revision : Nat} (h : (run sha256 cipher key scope actions).pending[reader]? = some revision) :
    load_revision (run sha256 cipher key scope actions).tables = revision := by
  induction actions using List.reverseRecOn generalizing reader with
  | nil => cases h
  | append_singleton actions action ih =>
    obtain ⟨hbefore, hlast, _⟩ := machine.meets_append.mp hquiet
    obtain ⟨log, hlog⟩ := @run_represents sha256 cipher key scope actions
    rw [run, machine.run_append] at h ⊢
    cases action with
    | Write command =>
      have hcurrent := ih hbefore h
      obtain hstep | ⟨htaken, _⟩ := hlog.step_revision command
      · exact (congrArg load_revision hstep).trans hcurrent
      · obtain hempty | hnone := hlast
        · rw [ExtTreeMap.isEmpty_iff] at hempty
          change (machine.run (System.step sha256 cipher key scope) System.initial actions).pending[reader]? = _ at h
          rw [hempty] at h
          cases h
        · exact absurd hnone htaken
    | LoadRevision other =>
      obtain ⟨_, hsame⟩ | hold := ordered_map.getElem?_of_insert h
      · exact hsame
      · exact ih hbefore hold
    | FetchEntries other => exact ih hbefore (ordered_map.getElem?_of_erase h)

/-- A snapshot is returned by the second statement of a reader, after part of the run. -/
theorem returned_of_mem_snapshots {actions : List Action} {snapshot : ConfigurationSnapshot}
    (h : snapshot ∈ snapshots sha256 cipher key scope actions) : ∃ before, before <+: actions ∧ ∃ reader : Nat,
      (run sha256 cipher key scope before).pending[reader]? = some snapshot.configuration_revision ∧
        snapshot_entries scope (run sha256 cipher key scope before).tables = .ok snapshot.entries := by
  induction actions using List.reverseRecOn with
  | nil => cases h
  | append_singleton actions action ih =>
    rw [snapshots, machine.yields_concat, List.mem_append, Option.mem_toList] at h
    obtain h | h := h
    · obtain ⟨before, hbefore, hreader⟩ := ih h
      exact ⟨before, hbefore.trans (List.prefix_append _ _), hreader⟩
    · refine ⟨actions, List.prefix_append _ _, ?_⟩
      cases action with
      | Write => cases h
      | LoadRevision => cases h
      | FetchEntries reader =>
        rw [System.returned] at h
        split at h
        · rename_i revision entries hpending hentries
          cases h
          exact ⟨reader, hpending, hentries⟩
        · cases h

/-- No entry is newer than the revision of its tables. -/
theorem Represents.revision_le {log : List Applied} {t : Tables} (h : Represents sha256 cipher key scope log t)
    {entries : List ConfigurationEntry} (hentries : snapshot_entries scope t = .ok entries) {entry : ConfigurationEntry}
    (hentry : entry ∈ entries) : entry.revision ≤ load_revision t := by
  rw [snapshot_entries, ite_error_eq_ok_iff] at hentries
  obtain ⟨⟨name, row⟩, hmem, hdecode⟩ := exists_of_mem_mapM hentries.2 hentry
  have hrow := ExtTreeMap.mem_toList_iff_getElem?_eq_some.mp hmem
  simp only [decode_entry, ite_error_eq_ok_iff, Except.ok.injEq] at hdecode
  obtain ⟨_, _, _, rfl⟩ := hdecode
  rw [h.entries, Option.bind_eq_some_iff] at hrow
  obtain ⟨⟨command, result⟩, hlast, hstored⟩ := hrow
  obtain ⟨j, hj⟩ := List.getElem?_of_mem (mem_of_last_on hlast).1
  have hresulted := h.resulted j _ hj
  have hbound := (List.getElem?_eq_some_iff.mp hj).1
  rw [h.revision]
  cases command with
  | Delete => cases hstored
  | Set _ _ _ _ kind =>
    obtain ⟨_, created_at, _, _, rfl⟩ := hresulted
    cases hstored
    cases kind <;> exact hbound

/-- In every run in which no command takes effect between the two statements of a snapshot, every snapshot shows exactly
    the entries of its revision: they are those of the tables at every moment with that revision, none is newer, and a
    command that expects the revision takes effect only while they are still the entries. -/
theorem snapshots_show_their_revision (actions : List Action)
    (hquiet : machine.Meets (System.step sha256 cipher key scope) (Quiet sha256 cipher key scope) .initial actions)
    (snapshot : ConfigurationSnapshot) (hsnapshot : snapshot ∈ snapshots sha256 cipher key scope actions) :
    (∃ before, before <+: actions ∧
      load_revision (run sha256 cipher key scope before).tables = snapshot.configuration_revision) ∧
    (∀ before, before <+: actions →
      load_revision (run sha256 cipher key scope before).tables = snapshot.configuration_revision →
      snapshot_entries scope (run sha256 cipher key scope before).tables = .ok snapshot.entries) ∧
    (∀ entry ∈ snapshot.entries, entry.revision ≤ snapshot.configuration_revision) ∧
    ∀ before, before <+: actions → ∀ command : Command,
      command.expected_revision.toNat = snapshot.configuration_revision →
      taken sha256 cipher key scope (run sha256 cipher key scope before).tables command ≠ none →
      snapshot_entries scope (run sha256 cipher key scope before).tables = .ok snapshot.entries := by
  obtain ⟨shown, hshown, reader, hpending, hentries⟩ := returned_of_mem_snapshots hsnapshot
  have hquiet' : machine.Meets (System.step sha256 cipher key scope) (Quiet sha256 cipher key scope) .initial shown := by
    obtain ⟨more, rfl⟩ := hshown
    exact (machine.meets_append.mp hquiet).1
  have hrevision := pending_current hquiet' hpending
  have hsame : ∀ before, before <+: actions →
      load_revision (run sha256 cipher key scope before).tables = snapshot.configuration_revision →
      snapshot_entries scope (run sha256 cipher key scope before).tables = .ok snapshot.entries := by
    intro before hbefore h
    rw [tables_eq_of_revision hbefore hshown (h.trans hrevision.symm)]
    exact hentries
  refine ⟨⟨shown, hshown, hrevision⟩, hsame, ?_, ?_⟩
  · intro entry hentry
    obtain ⟨log, hlog⟩ := @run_represents sha256 cipher key scope shown
    exact (hlog.revision_le hentries hentry).trans_eq hrevision
  · intro before hbefore command hexpected htaken
    obtain ⟨log, hlog⟩ := @run_represents sha256 cipher key scope before
    refine hsame before hbefore ?_
    by_cases hnew : command.New (run sha256 cipher key scope before).tables
    · obtain ⟨hcurrent, _⟩ | ⟨_, _, hnone, _⟩ := hlog.step_new hnew
      · exact hcurrent.trans hexpected
      · exact absurd hnone htaken
    · exact absurd (hlog.step_known hnew).2.1 htaken

end

def flag_snapshots (actions : List Action) : List ConfigurationSnapshot :=
  snapshots data.checksum plain_cipher (Vector.replicate 32 0) some_scope actions

/-- The revision is read before the first command and the entries after it: the snapshot of revision 0 holds an entry of
    revision 1. -/
theorem torn_snapshot : flag_snapshots [.LoadRevision 0, .Write (set_flag 1 0 .Variable "on" 5), .FetchEntries 0] =
      [⟨0, [⟨some_scope, flag, .Variable, some "on", 1, 5, 5⟩]⟩] := by
  decide +kernel

/-- Read after the command, the snapshot shows its revision. -/
theorem quiet_snapshot :
    let actions := [.Write (set_flag 1 0 .Variable "on" 5), .LoadRevision 0, .FetchEntries 0]
    ⟨1, [⟨some_scope, flag, .Variable, some "on", 1, 5, 5⟩]⟩ ∈ flag_snapshots actions ∧
      snapshot_entries some_scope
        (run data.checksum plain_cipher (Vector.replicate 32 0) some_scope actions).tables =
        .ok [⟨some_scope, flag, .Variable, some "on", 1, 5, 5⟩] := by
  intro actions
  have hmem : ⟨1, [⟨some_scope, flag, .Variable, some "on", 1, 5, 5⟩]⟩ ∈ flag_snapshots actions := by decide +kernel
  refine ⟨hmem, ?_⟩
  refine (snapshots_show_their_revision actions ?_ _ hmem).2.1 actions List.prefix_rfl ?_
  · exact ⟨.inl rfl, trivial, trivial, trivial⟩
  · decide +kernel

end runku.environment_configuration
