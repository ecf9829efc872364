import Mcpace.Sources.Import

/-!
Contract: what an import that returns an error leaves behind.

An import that fails before its first write changes nothing. One that fails in a write has already
replaced the targets before it, and the target itself when only its permissions could not be set.
-/

namespace Mcpace.Sources

open Library Json List Checks
open OrderedMap hiding insert

/-- A write to the target puts another text there. -/
def Changes (host : ImportHost) (disk : SettingsDisk) (target : String × JsonValue) : Prop :=
  disk.node (disk.locate target.1) ≠ .regular (fileText host target.2)

variable {host : ImportHost} {disk : SettingsDisk} {targets before after : List (String × JsonValue)}
  {target : String × JsonValue} {options : McpServerImportOptions}

/-! ### The writes -/

theorem writeTargets_ok_iff : (writeTargets host disk targets).2 = .ok () ↔
    ∀ target ∈ targets, (host.steps target.1).Succeeds target.1 := by
  induction targets generalizing disk with
  | nil => simp [writeTargets]
  | cons target rest ih =>
    rw [writeTargets, forall_mem_cons]
    rcases (host.steps target.1).writePrivateTextAtomic_cases disk target.1 (fileText host target.2)
      with ⟨succeeds, written⟩ | ⟨fails, error, written⟩
    · rw [written, and_iff_right succeeds]
      exact ih
    · rw [written]
      exact ⟨nofun, fun both => absurd both.1 fails⟩

theorem node_writeTargets_of_other {path : String}
    (other : ∀ target ∈ targets, disk.locate target.1 ≠ path) :
    (writeTargets host disk targets).1.node path = disk.node path := by
  induction targets generalizing disk with
  | nil => rfl
  | cons target rest ih =>
    obtain ⟨first, later⟩ := forall_mem_cons.mp other
    have replaced : (disk.replace target.1 (fileText host target.2)).node path = disk.node path :=
      Function.update_of_ne first.symm ..
    rw [writeTargets]
    rcases (host.steps target.1).writePrivateTextAtomic_cases disk target.1 (fileText host target.2)
      with ⟨-, written⟩ | ⟨-, error, written⟩
    · rw [written]
      exact (@ih (disk.replace target.1 (fileText host target.2)) later).trans replaced
    · rw [written]
      dsimp only
      split
      · exact replaced
      · rfl

/-- A target holds its text once the writes before it have succeeded and it was replaced. -/
theorem node_writeTargets_of_replaces
    (earlier : ∀ each ∈ before, (host.steps each.1).Succeeds each.1)
    (replaces : (host.steps target.1).Replaces target.1)
    (distinct : ∀ later ∈ after, disk.locate later.1 ≠ disk.locate target.1) :
    (writeTargets host disk (before ++ target :: after)).1.node (disk.locate target.1) =
      .regular (fileText host target.2) := by
  induction before generalizing disk with
  | nil =>
    have replaced : (disk.replace target.1 (fileText host target.2)).node (disk.locate target.1) =
        .regular (fileText host target.2) := Function.update_self ..
    rw [nil_append, writeTargets]
    rcases (host.steps target.1).writePrivateTextAtomic_cases disk target.1 (fileText host target.2)
      with ⟨-, written⟩ | ⟨-, error, written⟩
    · rw [written]
      exact (@node_writeTargets_of_other host (disk.replace target.1 (fileText host target.2)) _ _
        distinct).trans replaced
    · rw [written, if_pos replaces]
      exact replaced
  | cons first rest ih =>
    obtain ⟨succeeds, others⟩ := forall_mem_cons.mp earlier
    rw [cons_append, writeTargets]
    rcases (host.steps first.1).writePrivateTextAtomic_cases disk first.1 (fileText host first.2)
      with ⟨-, written⟩ | ⟨fails, -⟩
    · rw [written]
      exact @ih (disk.replace first.1 (fileText host first.2)) others distinct
    · exact absurd succeeds fails

/-- Nothing changes when every target that is replaced holds its text already. -/
theorem node_writeTargets_of_same (same : ∀ before target after,
    targets = before ++ target :: after → (∀ each ∈ before, (host.steps each.1).Succeeds each.1) →
      (host.steps target.1).Replaces target.1 → ¬Changes host disk target) :
    (writeTargets host disk targets).1.node = disk.node := by
  induction targets generalizing disk with
  | nil => rfl
  | cons target rest ih =>
    have replaced : (host.steps target.1).Replaces target.1 →
        (disk.replace target.1 (fileText host target.2)).node = disk.node := fun replaces =>
      Function.update_eq_self_iff.mpr (not_not.mp (same [] target rest rfl nofun replaces)).symm
    rw [writeTargets]
    rcases (host.steps target.1).writePrivateTextAtomic_cases disk target.1 (fileText host target.2)
      with ⟨succeeds, written⟩ | ⟨-, error, written⟩
    · have kept := replaced succeeds.1
      rw [written]
      refine (@ih (disk.replace target.1 (fileText host target.2)) ?_).trans kept
      intro before each after split earlier replaces
      rw [Changes, kept]
      exact same (target :: before) each after (by rw [split, cons_append])
        (forall_mem_cons.mpr ⟨succeeds, earlier⟩) replaces
    · rw [written]
      dsimp only
      split
      · exact replaced ‹_›
      · rfl

/-! ### The targets -/

/-- The one file of the request, or the file of a server. -/
def IsTarget (tree : SettingsTree) (options : McpServerImportOptions) (path : String) : Prop :=
  ∃ name, path = (options.settingsPath.map tree.resolveUnderRoot).getD (tree.defaultFragmentPath name)

variable {tree : SettingsTree}

theorem isTarget_of_planServer {sourcePath : String} {state next : PlanState}
    {server : String × JsonValue}
    (known : ∀ entry ∈ state.planEntries, IsTarget tree options entry.targetPath)
    (planned : planServer host tree options sourcePath state server = .ok next) :
    ∀ entry ∈ next.planEntries, IsTarget tree options entry.targetPath := by
  rw [planServer] at planned
  dsimp only at planned
  split_ifs at planned
  · cases planned
    exact known
  · split at planned
    · cases planned
    · split at planned
      · cases planned
        exact known
      · cases planned
        intro entry member
        rcases mem_append.mp member with old | new
        · exact known entry old
        · rw [mem_singleton.mp new]
          exact ⟨_, rfl⟩

/-- The documents in the order of their paths, all of them targets. -/
def Planned (tree : SettingsTree) (options : McpServerImportOptions)
    (targets : List (String × JsonValue)) : Prop :=
  Sorted targets ∧ ∀ target ∈ targets, IsTarget tree options target.1

theorem Planned.insert {path : String} (planned : Planned tree options targets)
    (isTarget : IsTarget tree options path) (document : JsonValue) :
    Planned tree options (OrderedMap.insert path document targets) :=
  ⟨sorted_insert planned.1, forall_mem_insert isTarget planned.2⟩

theorem planned_of_prepareImport {result : McpServerImportResult}
    (prepared : prepareImport host tree options = .ok (targets, result)) :
    Planned tree options targets := by
  rw [prepareImport] at prepared
  dsimp only at prepared
  obtain ⟨sourceValue, -, prepared⟩ := bind_eq_ok.mp prepared
  split at prepared
  · cases prepared
  · obtain ⟨-, prepared⟩ := require_bind_eq_ok.mp prepared
    obtain ⟨plan, isPlan, prepared⟩ := bind_eq_ok.mp prepared
    have known : ∀ entry ∈ plan.planEntries, IsTarget tree options entry.targetPath :=
      foldlM_invariant (fun state => ∀ entry ∈ state.planEntries,
        IsTarget tree options entry.targetPath)
        (fun _ _ _ _ held planned => isTarget_of_planServer held planned) nofun isPlan
    obtain ⟨-, prepared⟩ := require_bind_eq_ok.mp prepared
    obtain ⟨⟨⟩, -, prepared⟩ := bind_eq_ok.mp prepared
    obtain ⟨⟨⟩, -, prepared⟩ := bind_eq_ok.mp prepared
    obtain ⟨documents, read, prepared⟩ := bind_eq_ok.mp prepared
    have planned : Planned tree options documents := by
      refine foldlM_invariant (Planned tree options) ?_ ⟨sorted_nil, nofun⟩ read
      intro entry member state next held stepped
      split_ifs at stepped
      · cases stepped
        exact held
      · obtain ⟨value, -, ended⟩ := bind_eq_ok.mp stepped
        cases ended
        exact held.insert (known entry member) value
    obtain ⟨inspected, -, prepared⟩ := bind_eq_ok.mp prepared
    obtain ⟨-, prepared⟩ := require_bind_eq_ok.mp prepared
    split_ifs at prepared
    · cases prepared
      exact ⟨sorted_nil, nofun⟩
    · obtain ⟨updated, updates, ended⟩ := bind_eq_ok.mp prepared
      cases ended
      refine foldlM_invariant (Planned tree options) ?_ planned updates
      intro entry member state next held stepped
      obtain ⟨old, -, stepped⟩ := bind_eq_ok.mp stepped
      obtain ⟨new, -, ended⟩ := bind_eq_ok.mp stepped
      cases ended
      exact held.insert (known entry member) new

/-- Different targets are different files. -/
theorem Planned.distinct (planned : Planned (disk.tree host.parse) options targets) :
    targets.Pairwise (fun left right => disk.locate right.1 ≠ disk.locate left.1) := by
  refine planned.1.imp_of_mem ?_
  intro left right isLeft isRight less same
  obtain ⟨leftName, atLeft⟩ := planned.2 left isLeft
  obtain ⟨rightName, atRight⟩ := planned.2 right isRight
  cases given : options.settingsPath with
  | some path =>
    rw [given, Option.map_some, Option.getD_some] at atLeft atRight
    exact less.ne (atLeft.trans atRight.symm)
  | none =>
    rw [given, Option.map_none, Option.getD_none] at atLeft atRight
    rw [atLeft, atRight] at same less
    by_cases equal : normalizeServerName leftName = normalizeServerName rightName
    · simp [SettingsTree.defaultFragmentPath, equal] at less
    · exact disk.fragments rightName leftName (Ne.symm equal) same

/-- A call that returns an error leaves every settings file as it was. -/
def AllOrNothing (host : ImportHost) (disk : SettingsDisk) (options : McpServerImportOptions) :
    Prop :=
  ∀ error, (importMcpServerEntries host disk options).2 = .error error →
    ∀ path, (importMcpServerEntries host disk options).1.node path = disk.node path

/-- An import is all or nothing exactly when no file holds another text by the time a write fails:
for each target with a new text, all writes succeed, or one before it fails, or its own fails before
the rename. -/
theorem import_allOrNothing_iff (host : ImportHost) (disk : SettingsDisk)
    (options : McpServerImportOptions) : AllOrNothing host disk options ↔
      ∀ targets result, prepareImport host (disk.tree host.parse) options = .ok (targets, result) →
        ∀ before target after, targets = before ++ target :: after → Changes host disk target →
          (∀ each ∈ targets, (host.steps each.1).Succeeds each.1) ∨
            (∃ earlier ∈ before, ¬(host.steps earlier.1).Succeeds earlier.1) ∨
            ¬(host.steps target.1).Replaces target.1 := by
  rw [AllOrNothing, importMcpServerEntries]
  cases prepared : prepareImport host (disk.tree host.parse) options with
  | error reason => exact ⟨fun _ _ _ => nofun, fun _ _ _ _ => rfl⟩
  | ok plan =>
    obtain ⟨targets, result⟩ := plan
    have distinct := (planned_of_prepareImport prepared).distinct
    have errs := @writeTargets_ok_iff host disk targets
    have reached := @node_writeTargets_of_replaces host disk
    have same := @node_writeTargets_of_same host disk targets
    dsimp only
    cases outcome : writeTargets host disk targets with
    | mk written returned =>
      rw [outcome] at errs same
      cases returned with
      | ok done =>
        refine ⟨?_, fun _ _ => nofun⟩
        rintro - _ _ ⟨rfl, rfl⟩ before target after - -
        exact .inl (errs.mp rfl)
      | error reason =>
        constructor
        · rintro unchanged _ _ ⟨rfl, rfl⟩ before target after split changes
          by_contra bad
          push Not at bad
          obtain ⟨-, earlier, replaces⟩ := bad
          rw [split, pairwise_append, pairwise_cons] at distinct
          have holds := reached earlier replaces distinct.2.1.1
          rw [← split, outcome] at holds
          exact changes ((unchanged reason rfl _).symm.trans holds)
        · intro harmless _ _
          refine congrFun (same ?_)
          intro before target after split earlier replaces changes
          rcases harmless targets result rfl before target after split changes with
            all | ⟨each, member, fails⟩ | early
          · cases errs.mpr all
          · exact fails (earlier each member)
          · exact early replaces

/-! ### Two servers, two files -/

/-- A disk with an import source and no settings files. -/
def freshDisk : SettingsDisk where
  rootPath := "/r"
  candidates := []
  listed := fun _ => false
  locate := id
  node := fun path => if path = "/r/i" then .regular "servers" else .missing
  warnings := []
  nodup := nodup_nil
  located := nofun
  fragments := by simp

/-- A host on which the write to one path fails at the rename. -/
def failingHost (failing : String) : ImportHost where
  parse := fun _ => .ok (.object [("mcpServers", .object
    [("a", .object [("command", .string "x")]), ("b", .object [("command", .string "x")])])])
  toPrettyString := fun _ => "{}"
  configuredMcpUrl := "http://127.0.0.1:1/mcp"
  namespaceLock := none
  settingsLock := fun _ => none
  steps := fun path =>
    if path = failing then { WriteSteps.plain with replaceFile := some "denied" }
    else WriteSteps.plain

def twoServers : McpServerImportOptions where
  sourcePath := "/r/i"
  settingsPath := none
  dryRun := false
  force := false
  disabled := false

/-- The second of two writes fails, and the first file stays written. -/
theorem import_partial :
    ¬AllOrNothing (failingHost "/r/mcp_settings.d/b.json") freshDisk twoServers := by
  intro allOrNothing
  have returned : (importMcpServerEntries (failingHost "/r/mcp_settings.d/b.json") freshDisk
      twoServers).2.toOption.isNone = true := by decide
  have written : (importMcpServerEntries (failingHost "/r/mcp_settings.d/b.json") freshDisk
      twoServers).1.node "/r/mcp_settings.d/a.json" = .regular "{}\n" := by decide
  cases outcome : (importMcpServerEntries (failingHost "/r/mcp_settings.d/b.json") freshDisk
      twoServers).2 with
  | ok result =>
    rw [outcome] at returned
    cases returned
  | error error =>
    have same := allOrNothing error outcome "/r/mcp_settings.d/a.json"
    rw [written] at same
    revert same
    decide

end Mcpace.Sources
