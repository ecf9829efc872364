import Mcpace.Sources.Edit

/-!
Owns settings files by their text, and the atomic write of `src/runtimepaths.rs`:
`write_text_atomic_with_mode`, step by step, with every step at which the host can stop it.

The new text is written beside the target and renamed over it. The permissions are set after the
rename, so a write that fails there has already replaced its target.

Does not own: temporary files, which are no settings files, and the synchronization of the
directory, whose failure is ignored.
-/

namespace Mcpace.Sources

open Library Json

/-! ### Files by their text -/

/-- What stands at a path; a regular file may refuse to be read. -/
inductive DiskNode where
  | missing
  | symlink
  | notRegular
  | uninspectable (reason : String)
  | unreadable (reason : String)
  | regular (contents : String)
deriving DecidableEq

/-- `read_json_file`, with what looking at the path has found. -/
def DiskNode.read (parse : String → Except String JsonValue) (path : String) :
    DiskNode → SettingsFile
  | .missing => .missing
  | .symlink => .symlink
  | .notRegular => .notRegular
  | .uninspectable reason => .uninspectable reason
  | .unreadable reason => .unreadable ("failed to read " ++ path ++ ": " ++ reason)
  | .regular contents =>
    if contents.utf8ByteSize > maxJsonFileBytes then
      .unreadable ("failed to read " ++ path ++ ": JSON file exceeds the " ++
        toString maxJsonFileBytes ++ "-byte safety limit")
    else
      match parse contents with
      | .ok value => .parsed value
      | .error reason => .unreadable ("failed to parse " ++ path ++ ": " ++ reason)

/-- A settings tree by the texts of its files. The files of two servers are two files. -/
structure SettingsDisk where
  rootPath : String
  candidates : List String
  listed : String → Bool
  locate : String → String
  node : String → DiskNode
  warnings : List String
  nodup : candidates.Nodup
  located : ∀ path ∈ candidates, locate path = path
  fragments : ∀ left right, normalizeServerName left ≠ normalizeServerName right →
    locate (rootPath ++ "/mcp_settings.d/" ++ normalizeServerName left ++ ".json") ≠
      locate (rootPath ++ "/mcp_settings.d/" ++ normalizeServerName right ++ ".json")

/-- The tree that reading the files gives. -/
def SettingsDisk.tree (parse : String → Except String JsonValue) (disk : SettingsDisk) :
    SettingsTree where
  rootPath := disk.rootPath
  candidates := disk.candidates
  listed := disk.listed
  locate := disk.locate
  file := fun path => (disk.node path).read parse path
  warnings := disk.warnings
  nodup := disk.nodup
  located := disk.located

/-- The disk with a regular file in place of what a path leads to. -/
def SettingsDisk.replace (disk : SettingsDisk) (path contents : String) : SettingsDisk :=
  { disk with node := Function.update disk.node (disk.locate path) (.regular contents) }

/-! ### The atomic write -/

inductive RuntimePathError where
  | io (operation path reason : String)
  | temporaryFileExhausted (target : String) (lastError : Option String)
  | atomicReplaceFailed (tempPath target reason : String)

def RuntimePathError.display : RuntimePathError → String
  | .io operation path reason => "failed to " ++ operation ++ " " ++ path ++ ": " ++ reason
  | .temporaryFileExhausted target lastError =>
    "failed to create a unique temporary file next to " ++ target ++
      (lastError.map (": " ++ ·)).getD ""
  | .atomicReplaceFailed tempPath target reason =>
    "failed to move " ++ tempPath ++ " to " ++ target ++ ": " ++ reason

inductive TemporaryOpen where
  | opened
  | alreadyExists (reason : String)
  | failed (reason : String)

/-- What the host answers to the steps of one write: a reason where a step fails. -/
structure WriteSteps where
  parent : String
  createDirectory : Option String
  tempPath : Nat → String
  openTemporary : Nat → TemporaryOpen
  writeAll : Option String
  syncAll : Option String
  replaceFile : Option String
  setPermissions : Option String

def WriteSteps.plain : WriteSteps where
  parent := ""
  createDirectory := none
  tempPath := fun _ => ""
  openTemporary := fun _ => .opened
  writeAll := none
  syncAll := none
  replaceFile := none
  setPermissions := none

namespace WriteSteps

/-- A step that fails becomes an error. -/
def step (failure : Option String) (error : String → RuntimePathError) :
    Except RuntimePathError Unit :=
  match failure with
  | some reason => .error (error reason)
  | none => .ok ()

/-- Everything up to the rename, from the attempt number `attempt` on, `attempts` at most. -/
def prepare (steps : WriteSteps) (path : String) :
    (attempts attempt : Nat) → Option String → Except RuntimePathError Unit
  | 0, _, lastError => .error (.temporaryFileExhausted path lastError)
  | attempts + 1, attempt, _ =>
    let tempPath := steps.tempPath attempt
    match steps.openTemporary attempt with
    | .alreadyExists reason => prepare steps path attempts (attempt + 1) (some reason)
    | .failed reason => .error (.io "create temporary file" tempPath reason)
    | .opened => do
        step steps.writeAll (.io "write" tempPath)
        step steps.syncAll (.io "fsync" tempPath)
        step steps.replaceFile (.atomicReplaceFailed tempPath path)

/-- Everything that must succeed before the target is replaced. -/
def replacing (steps : WriteSteps) (path : String) : Except RuntimePathError Unit := do
  step steps.createDirectory (.io "create" steps.parent)
  prepare steps path 100 0 none

/-- `write_private_text_atomic`. -/
def writePrivateTextAtomic (steps : WriteSteps) (disk : SettingsDisk) (path contents : String) :
    SettingsDisk × Except RuntimePathError Unit :=
  match steps.replacing path with
  | .error error => (disk, .error error)
  | .ok () =>
    (disk.replace path contents, step steps.setPermissions (.io "set permissions on" path))

def Replaces (steps : WriteSteps) (path : String) : Prop := steps.replacing path = .ok ()

instance (steps : WriteSteps) (path : String) : Decidable (steps.Replaces path) :=
  match found : steps.replacing path with
  | .ok () => isTrue found
  | .error _ => isFalse (fun replaces => by rw [Replaces, found] at replaces; cases replaces)

def Succeeds (steps : WriteSteps) (path : String) : Prop :=
  steps.Replaces path ∧ steps.setPermissions = none

instance (steps : WriteSteps) (path : String) : Decidable (steps.Succeeds path) :=
  inferInstanceAs (Decidable (_ ∧ _))

/-- The three outcomes of a write: done, replaced and failed, failed. -/
theorem writePrivateTextAtomic_cases (steps : WriteSteps) (disk : SettingsDisk)
    (path contents : String) :
    (steps.Succeeds path ∧
        steps.writePrivateTextAtomic disk path contents = (disk.replace path contents, .ok ())) ∨
      (¬steps.Succeeds path ∧ ∃ error, steps.writePrivateTextAtomic disk path contents =
        (if steps.Replaces path then disk.replace path contents else disk, .error error)) := by
  by_cases replaces : steps.Replaces path
  · cases permissions : steps.setPermissions with
    | none =>
      refine .inl ⟨⟨replaces, permissions⟩, ?_⟩
      rw [writePrivateTextAtomic, show steps.replacing path = .ok () from replaces, permissions]
      rfl
    | some reason =>
      refine .inr ⟨?_, .io "set permissions on" path reason, ?_⟩
      · rintro ⟨-, fine⟩
        rw [permissions] at fine
        cases fine
      · rw [writePrivateTextAtomic, show steps.replacing path = .ok () from replaces,
          permissions, if_pos replaces]
        rfl
  · cases outcome : steps.replacing path with
    | ok done => exact absurd outcome replaces
    | error error =>
      refine .inr ⟨fun succeeds => replaces succeeds.1, error, ?_⟩
      rw [writePrivateTextAtomic, outcome, if_neg replaces]

end WriteSteps

end Mcpace.Sources
