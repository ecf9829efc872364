import Mcpace.Sources.Edit

/-!
Contract: when an edit of the settings files takes effect in the registry.

The commands edit the first key of the target file that stands for the server, while the
registry takes the last one over all sources. The two agree when the file is read as a source,
holds one such key and no later source holds another.

Does not own: the commands and the reader, which it relates.
-/

namespace Mcpace.Sources

open Library Json OrderedMap Checks List Option JsonValue Text SettingsTree

/-! ### Declarations of a tree -/

namespace SettingsTree

def sourceAt (tree : SettingsTree) (path : String) : SettingsSource := ⟨path, tree.file path⟩

def entriesAt (tree : SettingsTree) (normalizedName path : String) : JsonMap :=
  entriesNamed normalizedName (tree.sourceAt path).servers

def declarationsAt (tree : SettingsTree) (normalizedName path : String) : List Declaration :=
  (tree.sourceAt path).declarations normalizedName

def earlier (tree : SettingsTree) (path : String) : List String :=
  tree.candidates.takeWhile (· ≠ path)

def later (tree : SettingsTree) (path : String) : List String :=
  (tree.candidates.dropWhile (· ≠ path)).tail

/-- What the reader meets after the first entry for the server in the file. -/
def afterFirst (tree : SettingsTree) (normalizedName path : String) : List Declaration :=
  (tree.entriesAt normalizedName path).tail.map (declare path) ++
    (tree.later path).flatMap (tree.declarationsAt normalizedName)

/-- What the reader meets in all other files. -/
def elsewhere (tree : SettingsTree) (normalizedName path : String) : List Declaration :=
  (tree.candidates.filter (· ≠ path)).flatMap (tree.declarationsAt normalizedName)

/-- The root object that an edit of the file starts from. -/
def editedRoot (tree : SettingsTree) (path : String) : JsonMap :=
  match tree.file path with
  | .parsed (.object root) => root
  | _ => [("mcpServers", .object [])]

/-- The document to be written: the servers in place of those of the file. -/
def documentWith (tree : SettingsTree) (path : String) (servers : JsonMap) : JsonValue :=
  let root := tree.editedRoot path
  withServers root (if (get "mcpServers" root).isSome ∨ (get "servers" root).isNone then
    "mcpServers" else "servers") servers

/-- The file is a source, and with the given servers in it no longer than what can be read. -/
def Reads (host : Host) (tree : SettingsTree) (path : String) (servers : JsonMap) : Prop :=
  path ∈ tree.candidates ∧ host.printedBytes (tree.documentWith path servers) ≤ maxJsonFileBytes

/-- No source but the one at the path has the server. -/
def Sole (tree : SettingsTree) (normalizedName path : String) : Prop :=
  ∀ other ∈ tree.candidates, other ≠ path → tree.entriesAt normalizedName other = []

def Ordered (tree : SettingsTree) : Prop :=
  ∀ path, Sorted (tree.sourceAt path).servers

variable {tree : SettingsTree} {normalizedName path : String}

/-- A source is met once, between the earlier and the later ones. -/
theorem candidates_split (candidate : path ∈ tree.candidates) :
    tree.candidates = tree.earlier path ++ path :: tree.later path ∧
      ∀ other ∈ tree.earlier path ++ tree.later path, other ≠ path := by
  obtain ⟨before, behind, split, absent⟩ := eq_append_cons_of_mem candidate
  have apart : ∀ other ∈ before, decide (other ≠ path) = true :=
    fun other member => decide_eq_true (fun same => absent (same ▸ member))
  have distinct := tree.nodup
  rw [split, nodup_middle, nodup_cons] at distinct
  rw [earlier, later, split, takeWhile_append_of_pos apart, dropWhile_append_of_pos apart]
  simp only [takeWhile_cons, dropWhile_cons, ne_eq, not_true_eq_false, decide_false,
    Bool.false_eq_true, if_false, append_nil, tail_cons, true_and]
  exact fun other member same => distinct.1 (same ▸ member)

theorem declarationsAt_eq_nil (unparsed : ∀ value, tree.file path ≠ .parsed value) :
    tree.declarationsAt normalizedName path = [] := by
  rw [declarationsAt, SettingsSource.declarations, SettingsSource.servers, sourceAt]
  cases found : tree.file path with
  | parsed value => exact absurd found (unparsed value)
  | _ => rfl

/-- Dropping what has no part in it changes no concatenation. -/
theorem flatMap_filter_of_nil {α β : Type} {part : α → List β} {keep : α → Bool} {items : List α}
    (none : ∀ item ∈ items, ¬ keep item → part item = []) :
    (items.filter keep).flatMap part = items.flatMap part := by
  induction items with
  | nil => rfl
  | cons item rest ih =>
    have others := ih (forall_mem_cons.mp none).2
    rw [filter_cons, flatMap_cons, ← others]
    by_cases kept : keep item
    · rw [if_pos kept, flatMap_cons]
    · rw [if_neg kept, none item mem_cons_self kept, nil_append]

theorem flatMap_sources : tree.sources.flatMap (SettingsSource.declarations normalizedName) =
      tree.candidates.flatMap (tree.declarationsAt normalizedName) := by
  rw [sources, flatMap_map]
  apply flatMap_filter_of_nil
  intro path _ absent
  apply declarationsAt_eq_nil
  intro value parsed
  rw [parsed] at absent
  simp [SettingsFile.isRegular] at absent

/-- The registry of a tree reports the last declaration over its candidates. -/
theorem reported_registry (named : normalizedName ≠ "") :
    tree.registry.reported normalizedName =
      (tree.candidates.flatMap (tree.declarationsAt normalizedName)).getLast? := by
  rw [registry, McpServerRegistry.reported_load named, flatMap_sources]

theorem any_names_iff {servers : JsonMap} : (OrderedMap.keys servers).any (Names normalizedName ·) ↔
      entriesNamed normalizedName servers ≠ [] := by
  rw [OrderedMap.keys, List.any_map, List.any_eq_true, entriesNamed, Ne, filter_eq_nil_iff]
  simp

theorem mem_sourcePathsForNormalizedServer :
    path ∈ tree.sourcePathsForNormalizedServer normalizedName ↔
      path ∈ tree.candidates ∧ tree.entriesAt normalizedName path ≠ [] := by
  rw [sourcePathsForNormalizedServer, mem_sortedUnique, List.mem_map]
  constructor
  · rintro ⟨source, member, rfl⟩
    obtain ⟨listed, names⟩ := mem_filter.mp member
    obtain ⟨path, candidate, rfl⟩ := List.mem_map.mp listed
    exact ⟨mem_of_mem_filter candidate, any_names_iff.mp names⟩
  · intro ⟨candidate, names⟩
    refine ⟨tree.sourceAt path, mem_filter.mpr ⟨?_, any_names_iff.mpr names⟩, rfl⟩
    have regular : (tree.file path).isRegular = true := by
      by_contra irregular
      have none := @declarationsAt_eq_nil tree normalizedName path
        (fun _ parsed => irregular (by rw [parsed]; rfl))
      exact names (map_eq_nil_iff.mp none)
    refine List.mem_map.mpr ⟨path, mem_filter.mpr ⟨candidate, ?_⟩, rfl⟩
    rw [regular, Bool.or_true]

variable {target : String}

/-- The file a command finds by itself is a source, and the only one with the server. -/
theorem sole_of_editedPath {displayName : String}
    (found : tree.editedPath displayName normalizedName none = .ok target) :
    target ∈ tree.candidates ∧ tree.Sole normalizedName target := by
  have listed : tree.sourcePathsForNormalizedServer normalizedName = [target] := by
    rw [editedPath, findSourcePathForServer] at found
    cases paths : tree.sourcePathsForNormalizedServer normalizedName with
    | nil =>
      rw [paths] at found
      cases found
    | cons path rest =>
      cases rest with
      | nil =>
        rw [paths] at found
        cases found
        rfl
      | cons second rest =>
        rw [paths] at found
        cases found
  constructor
  · apply (mem_sourcePathsForNormalizedServer.mp _).1
    · exact normalizedName
    · rw [listed]
      exact mem_singleton_self target
  · intro other candidate different
    by_contra names
    have member := mem_sourcePathsForNormalizedServer.mpr ⟨candidate, names⟩
    rw [listed] at member
    exact different (mem_singleton.mp member)

/-- No other source has the server when a new entry is not refused. -/
theorem sole_of_rejectCrossSourceShadowing
    (accepted : tree.rejectCrossSourceShadowing normalizedName target = .ok ()) :
    tree.Sole normalizedName (tree.locate target) := by
  intro other candidate different
  by_contra names
  have member := mem_sourcePathsForNormalizedServer.mpr ⟨candidate, names⟩
  have none := filter_eq_nil_iff.mp (require_eq_ok.mp accepted) other member
  rw [tree.located other candidate] at none
  exact none (decide_eq_true different)

end SettingsTree

/-! ### One file is edited -/

/-- The file at `path` had the servers object `servers`, and the document with `edited` in its
place was written to it. -/
structure Edited (host : Host) (tree after : SettingsTree) (path : String)
    (servers edited : JsonMap) : Prop where
  servers_eq : (tree.sourceAt path).servers = servers
  object : mcpServersObject (tree.documentWith path edited) = some edited
  written : after = tree.put path (host.readBack path (tree.documentWith path edited))

variable {root servers : JsonMap} {absent : Except String (String × JsonMap)}

theorem selectServers_eq_ok {targetPath key : String}
    (default : ∀ pair, absent = .ok pair → pair = ("mcpServers", []))
    (selected : selectServers root targetPath absent = .ok (key, servers)) :
    (mcpServersObject (.object root)).getD [] = servers ∧
      (if (get "mcpServers" root).isSome ∨ (get "servers" root).isNone then
        "mcpServers" else "servers") = key ∧
      ∀ edited, mcpServersObject (withServers root key edited) = some edited := by
  have chosen : ∀ name, serversObject root name targetPath = .ok (key, servers) →
      key = name ∧ get name root = some (.object servers) := by
    intro name
    rw [serversObject]
    cases found : get name root with
    | none => intro impossible; cases impossible
    | some value =>
      cases value with
      | object entries =>
        intro same
        cases same
        exact ⟨rfl, rfl⟩
      | _ => intro impossible; cases impossible
  rw [selectServers] at selected
  simp only [mcpServersObject, objectAtPath, valueAtPath_singleton,
    get_object, withServers, get_insert]
  cases first : get "mcpServers" root with
  | some value =>
    rw [first, isSome_some, if_pos rfl] at selected
    obtain ⟨rfl, present⟩ := chosen "mcpServers" selected
    rw [first] at present
    cases present
    simp [asObject]
  | none =>
    rw [first, isSome_none, if_neg (by decide)] at selected
    cases second : get "servers" root with
    | some value =>
      rw [second, isSome_some, if_pos rfl] at selected
      obtain ⟨rfl, present⟩ := chosen "servers" selected
      rw [second] at present
      cases present
      simp [asObject]
    | none =>
      rw [second, isSome_none, if_neg (by decide)] at selected
      cases default _ selected
      simp [asObject]

variable {message : String}

theorem asRoot_eq_ok {value : JsonValue} (object : asRoot message value = .ok root) :
    value = .object root := by
  cases value with
  | object entries =>
    cases object
    rfl
  | _ => cases object

variable {tree : SettingsTree} {path : String} {document : JsonValue} {host : Host}
  {after : SettingsTree}

theorem Host.commit_eq_ok (committed : host.commit false tree path document = .ok after) :
    after = tree.put (tree.locate path) (host.readBack (tree.locate path) document) := by
  rw [commit, if_neg (by decide), write] at committed
  cases failure : host.writeFailure path with
  | some reason =>
    rw [failure] at committed
    cases committed
  | none =>
    rw [failure] at committed
    cases committed
    rfl

/-- What is known of the names once they are checked. -/
theorem checkedName_eq_ok {command name : String} {names : String × String}
    (checked : checkedName command name = .ok names) :
    names = (trim name, normalizeServerName name) ∧ normalizeServerName name ≠ "" := by
  rw [checkedName, require_bind_eq_ok, require_bind_eq_ok, normalizeServerName_trim] at checked
  obtain ⟨_, named, same⟩ := checked
  cases same
  exact ⟨rfl, named⟩

/-- The steps all three commands end with: a root object is read, its servers object is edited
and the document is written. -/
theorem edited_of_commit {key : String} {edited : JsonMap} {missing : Except String JsonValue}
    (empty : ∀ value, missing = .ok value → value = .object [("mcpServers", .object [])])
    (read : tree.readNode path missing = .ok document)
    (object : asRoot message document = .ok root)
    (default : ∀ pair, absent = .ok pair → pair = ("mcpServers", []))
    (selected : selectServers root path absent = .ok (key, servers))
    (committed : host.commit false tree path (withServers root key edited) = .ok after) :
    Edited host tree after (tree.locate path) servers edited := by
  obtain ⟨before, isKey, afterwards⟩ := selectServers_eq_ok default selected
  have whole := asRoot_eq_ok object
  -- the document that was read is the one of the file, or the empty one
  have found : tree.editedRoot (tree.locate path) = root ∧
      (tree.sourceAt (tree.locate path)).servers = servers := by
    rw [readNode, node] at read
    rw [editedRoot, SettingsSource.servers, sourceAt]
    cases file : tree.file (tree.locate path) with
    | missing =>
      rw [file] at read
      rw [whole] at read
      cases empty _ read
      exact ⟨rfl, before⟩
    | parsed value =>
      rw [file] at read
      cases read
      rw [whole]
      exact ⟨rfl, before⟩
    | _ =>
      rw [file] at read
      cases read
  have same : tree.documentWith (tree.locate path) edited = withServers root key edited := by
    rw [documentWith, found.1, isKey]
  refine ⟨found.2, ?_, ?_⟩
  · rw [same]
    exact afterwards edited
  · rw [same]
    exact Host.commit_eq_ok committed

/-- The servers with the one turned on or off. -/
def toggledServers (normalizedName : String) (enabled : Bool) (servers : JsonMap) : JsonMap :=
  match firstEntry normalizedName servers with
  | some (key, .object server) =>
    OrderedMap.insert key (.object (toggled enabled server)) servers
  | _ => servers

def remainingServers (normalizedName : String) (servers : JsonMap) : JsonMap :=
  match firstEntry normalizedName servers with
  | some (key, _) => remove key servers
  | none => servers

/-- The file of `server add`. -/
def addedPath (tree : SettingsTree) (options : McpServerWriteOptions) : String :=
  (options.settingsPath.map tree.resolveUnderRoot).getD
    (tree.defaultFragmentPath (normalizeServerName options.name))

section Commands

variable {host : Host} {tree after : SettingsTree}

theorem setMcpServerEnabled_eq_ok {options : McpServerToggleOptions}
    {result : McpServerToggleResult} (wet : options.dryRun = false)
    (ran : setMcpServerEnabled host tree options = .ok (result, after)) :
    normalizeServerName options.name ≠ "" ∧
      ∃ path servers key server, tree.editedPath (trim options.name)
          (normalizeServerName options.name) options.settingsPath = .ok path ∧
        firstEntry (normalizeServerName options.name) servers = some (key, .object server) ∧
        Edited host tree after (tree.locate path) servers
          (toggledServers (normalizeServerName options.name) options.enabled servers) := by
  simp only [setMcpServerEnabled, bind_eq_ok] at ran
  obtain ⟨names, checked, -, -, path, found, -, -, document, read, root, object, pair, selected,
    ran⟩ := ran
  obtain ⟨rfl, named⟩ := checkedName_eq_ok checked
  obtain ⟨objectKey, servers⟩ := pair
  split at ran
  · cases ran
  · rename_i key value first
    simp only [wet, bind_eq_ok] at ran
    obtain ⟨server, valueObject, written, committed, same⟩ := ran
    cases same
    rw [asRoot_eq_ok valueObject] at first
    refine ⟨named, path, servers, key, server, found, first, ?_⟩
    rw [toggledServers, first]
    exact edited_of_commit (fun _ impossible => by cases impossible) read object
      (fun _ impossible => by cases impossible) selected committed

theorem removeMcpServerEntry_eq_ok {options : McpServerRemoveOptions}
    {result : McpServerRemoveResult} (wet : options.dryRun = false)
    (ran : removeMcpServerEntry host tree options = .ok (result, after)) :
    normalizeServerName options.name ≠ "" ∧
      ∃ path servers key value, tree.editedPath (trim options.name)
          (normalizeServerName options.name) options.settingsPath = .ok path ∧
        firstEntry (normalizeServerName options.name) servers = some (key, value) ∧
        Edited host tree after (tree.locate path) servers
          (remainingServers (normalizeServerName options.name) servers) := by
  simp only [removeMcpServerEntry, bind_eq_ok] at ran
  obtain ⟨names, checked, -, -, path, found, -, -, document, read, root, object, pair, selected,
    ran⟩ := ran
  obtain ⟨rfl, named⟩ := checkedName_eq_ok checked
  obtain ⟨objectKey, servers⟩ := pair
  split at ran
  · cases ran
  · rename_i key value first
    simp only [wet, bind_eq_ok] at ran
    obtain ⟨written, committed, same⟩ := ran
    cases same
    refine ⟨named, path, servers, key, value, found, first, ?_⟩
    rw [remainingServers, first]
    exact edited_of_commit (fun _ impossible => by cases impossible) read object
      (fun _ impossible => by cases impossible) selected committed

theorem writeMcpServerEntry_eq_ok {options : McpServerWriteOptions}
    {result : McpServerWriteResult} (wet : options.dryRun = false)
    (ran : writeMcpServerEntry host tree options = .ok (result, after)) :
    normalizeServerName options.name ≠ "" ∧
      tree.rejectCrossSourceShadowing (normalizeServerName options.name)
        (addedPath tree options) = .ok () ∧
      ∃ serverType env headers servers, checkedEntry host options = .ok (serverType, env, headers) ∧
        Edited host tree after (tree.locate (addedPath tree options)) servers
          (putEntry (trim options.name) (normalizeServerName options.name)
            (buildServerEntry serverType options env headers) servers) := by
  simp only [writeMcpServerEntry, bind_eq_ok] at ran
  obtain ⟨names, checked, parts, entryChecked, -, -, ⟨⟩, accepted, -, -, document, read, root,
    object, pair, selected, -, -, written, committed, same⟩ := ran
  obtain ⟨rfl, named⟩ := checkedName_eq_ok checked
  obtain ⟨objectKey, servers⟩ := pair
  obtain ⟨serverType, env, headers⟩ := parts
  rw [wet] at committed
  cases same
  refine ⟨named, accepted, serverType, env, headers, servers, entryChecked, ?_⟩
  exact edited_of_commit (fun _ same => by cases same; rfl) read object
    (fun _ same => by cases same; rfl) selected committed

end Commands

/-! ### What the reader meets afterwards -/

section Afterwards

variable {host : Host} {tree after : SettingsTree} {normalizedName path : String}
  {servers edited : JsonMap}

theorem entriesNamed_reloadEntries (renumber : String → Option String) (servers : JsonMap) :
    entriesNamed normalizedName (reloadEntries renumber servers) =
      reloadEntries renumber (entriesNamed normalizedName servers) := by
  induction servers with
  | nil => rfl
  | cons entry rest ih =>
    rw [entriesNamed] at ih
    rw [reloadEntries, entriesNamed, entriesNamed, filter_cons, filter_cons, ih]
    by_cases names : Names normalizedName entry.1
    · rw [if_pos (decide_eq_true names), if_pos (decide_eq_true names), reloadEntries, entriesNamed]
    · rw [if_neg (by simp [names]), if_neg (by simp [names]), entriesNamed]

theorem mcpServersObject_reload (renumber : String → Option String) (document : JsonValue) :
    mcpServersObject (document.reload renumber) =
      (mcpServersObject document).map (reloadEntries renumber) := by
  have objectReload : ∀ value : JsonValue, (value.reload renumber).asObject =
      value.asObject.map (reloadEntries renumber) := by
    intro value
    cases value with
    | number text =>
      rw [reload, reloadNumber]
      split <;> rfl
    | _ => rfl
  have member : ∀ key, (document.reload renumber).objectAtPath [key] =
      (document.objectAtPath [key]).map (reloadEntries renumber) := by
    intro key
    rw [objectAtPath, objectAtPath, valueAtPath_reload]
    cases document.valueAtPath [key] with
    | none => rfl
    | some value => exact objectReload value
  rw [mcpServersObject, mcpServersObject, member, member, map_or]

namespace Edited

variable (edit : Edited host tree after path servers edited)

include edit

theorem declarationsAt_of_ne {other : String} (different : other ≠ path) :
    after.declarationsAt normalizedName other = tree.declarationsAt normalizedName other := by
  obtain ⟨-, -, rfl⟩ := edit
  rw [declarationsAt, declarationsAt, sourceAt, sourceAt, file_put_of_ne different]

theorem candidates_eq : after.candidates = tree.candidates := by
  obtain ⟨-, -, rfl⟩ := edit
  rfl

/-- A file that can be read back has the edited servers. -/
theorem declarationsAt_self (reads : tree.Reads host path edited) :
    after.declarationsAt normalizedName path =
      (reloadEntries host.renumber (entriesNamed normalizedName edited)).map
        (declare path) := by
  obtain ⟨-, object, rfl⟩ := edit
  rw [declarationsAt, SettingsSource.declarations, SettingsSource.servers,
    sourceAt, file_put_self, Host.readBack, if_neg (Nat.not_lt.mpr reads.2)]
  simp only [mcpServersObject_reload, object, map_some, getD_some, entriesNamed_reloadEntries]

theorem declarationsAt_unread (candidate : path ∈ tree.candidates)
    (unread : ¬ tree.Reads host path edited) : after.declarationsAt normalizedName path = [] := by
  obtain ⟨-, -, rfl⟩ := edit
  apply declarationsAt_eq_nil
  intro value parsed
  rw [file_put_self, Host.readBack,
    if_pos (Nat.lt_of_not_le (fun fits => unread ⟨candidate, fits⟩))] at parsed
  cases parsed

/-- When the file is not read, the others decide. -/
theorem reported_of_unread (named : normalizedName ≠ "")
    (unread : ¬ tree.Reads host path edited) :
    after.registry.reported normalizedName = (tree.elsewhere normalizedName path).getLast? := by
  have others : tree.elsewhere normalizedName path =
      (tree.candidates.filter (· ≠ path)).flatMap (after.declarationsAt normalizedName) :=
    flatMap_congr (fun other member =>
      (edit.declarationsAt_of_ne (of_decide_eq_true (mem_filter.mp member).2)).symm)
  rw [reported_registry named, others, edit.candidates_eq, flatMap_filter_of_nil]
  intro candidate member own
  have same : candidate = path := by simpa using own
  rw [same] at member ⊢
  exact edit.declarationsAt_unread member unread

/-- When the file is read, a later source decides, else the last entry of the file, else an
earlier source. -/
theorem reported_of_reads (named : normalizedName ≠ "") (reads : tree.Reads host path edited) :
    after.registry.reported normalizedName =
      (((tree.later path).flatMap (tree.declarationsAt normalizedName)).getLast?.or
        ((reloadEntries host.renumber (entriesNamed normalizedName edited)).map
          (declare path)).getLast?).or
      ((tree.earlier path).flatMap (tree.declarationsAt normalizedName)).getLast? := by
  obtain ⟨split, apart⟩ := candidates_split reads.1
  have earlierSame : (tree.earlier path).flatMap (after.declarationsAt normalizedName) =
      (tree.earlier path).flatMap (tree.declarationsAt normalizedName) :=
    flatMap_congr (fun other member =>
      edit.declarationsAt_of_ne (apart other (mem_append_left _ member)))
  have laterSame : (tree.later path).flatMap (after.declarationsAt normalizedName) =
      (tree.later path).flatMap (tree.declarationsAt normalizedName) :=
    flatMap_congr (fun other member =>
      edit.declarationsAt_of_ne (apart other (mem_append_right _ member)))
  rw [reported_registry named, edit.candidates_eq, split, flatMap_append,
    flatMap_cons, earlierSame, laterSame, edit.declarationsAt_self reads,
    List.getLast?_append, List.getLast?_append]

end Edited

end Afterwards

/-! ### The entries of the edited file -/

section Entries

variable {normalizedName key : String} {value : JsonValue} {servers : JsonMap}

theorem entriesNamed_of_firstEntry (first : firstEntry normalizedName servers = some (key, value)) :
    entriesNamed normalizedName servers =
      (key, value) :: (entriesNamed normalizedName servers).tail := by
  rw [firstEntry, ← List.head?_filter] at first
  exact (List.cons_head?_tail first).symm

theorem names_of_firstEntry (first : firstEntry normalizedName servers = some (key, value)) :
    Names normalizedName key := by
  rw [firstEntry] at first
  have found := List.find?_some first
  exact of_decide_eq_true found

theorem entriesNamed_insert_first (sorted : Sorted servers)
    (first : firstEntry normalizedName servers = some (key, value)) (edited : JsonValue) :
    entriesNamed normalizedName (OrderedMap.insert key edited servers) =
      (key, edited) :: (entriesNamed normalizedName servers).tail := by
  rw [entriesNamed_insert sorted (names_of_firstEntry first)]
  nth_rewrite 1 [entriesNamed_of_firstEntry first]
  rw [OrderedMap.insert, if_neg (lt_irrefl key), if_pos rfl]

theorem remove_cons_of_sorted {rest : JsonMap} (sorted : Sorted ((key, value) :: rest)) :
    remove key ((key, value) :: rest) = rest := by
  have above := (pairwise_cons.mp sorted).1
  rw [remove, filter_cons, if_neg (by simp), filter_eq_self]
  intro entry member
  exact decide_eq_true (above entry member).ne'

theorem entriesNamed_remove_first (sorted : Sorted servers)
    (first : firstEntry normalizedName servers = some (key, value)) :
    entriesNamed normalizedName (remove key servers) =
      (entriesNamed normalizedName servers).tail := by
  have commuted : entriesNamed normalizedName (remove key servers) =
      remove key (entriesNamed normalizedName servers) := by
    rw [entriesNamed, remove, remove, entriesNamed, List.filter_filter, List.filter_filter]
    exact filter_congr (fun entry _ => Bool.and_comm ..)
  have listed := entriesNamed_of_firstEntry first
  have kept := @sorted_entriesNamed normalizedName servers sorted
  rw [commuted]
  rw [listed] at kept
  nth_rewrite 1 [listed]
  exact remove_cons_of_sorted kept

/-- The last entry after a new one is put in the place of the first. -/
theorem getLast?_entriesNamed_putEntry {displayName : String} (entry : JsonValue)
    (sorted : Sorted servers) (names : Names normalizedName displayName) :
    (entriesNamed normalizedName (putEntry displayName normalizedName entry servers)).getLast? =
      some (((entriesNamed normalizedName servers).tail.getLast?.filter
        (fun last => displayName < last.1)).getD (displayName, entry)) := by
  rw [putEntry]
  cases first : firstEntry normalizedName servers with
  | none =>
    have empty : entriesNamed normalizedName servers = [] := by
      rw [firstEntry, ← List.head?_filter, List.head?_eq_none_iff] at first
      exact first
    rw [entriesNamed_insert sorted names, empty]
    rfl
  | some existing =>
    obtain ⟨key, value⟩ := existing
    dsimp only
    by_cases other : key ≠ displayName
    · rw [if_pos other, entriesNamed_insert (sorted_remove sorted) names,
        entriesNamed_remove_first sorted first]
      exact OrderedMap.getLast?_insert _ _ (sorted_entriesNamed sorted).tail
    · have same : key = displayName := not_not.mp other
      rw [same] at first
      have kept := @sorted_entriesNamed normalizedName servers sorted
      rw [entriesNamed_of_firstEntry first] at kept
      have above := (pairwise_cons.mp kept).1
      rw [if_neg other, entriesNamed_insert_first sorted first, List.getLast?_cons]
      cases last : (entriesNamed normalizedName servers).tail.getLast? with
      | none => rfl
      | some found =>
        have greater : displayName < found.1 := above found (List.mem_of_getLast? last)
        simp [Option.filter, greater]

end Entries

/-! ### Effects -/

theorem asBool_reload (renumber : String → Option String) (value : JsonValue) :
    (value.reload renumber).asBool = value.asBool := by
  cases value with
  | number text =>
    rw [reload, reloadNumber]
    split <;> rfl
  | _ => rfl

/-- Writing a value and reading it back keeps its flags. -/
theorem sourceEnabled_reload (renumber : String → Option String) (value : JsonValue) :
    sourceEnabled (value.reload renumber) = sourceEnabled value := by
  have flag : ∀ key, ((value.reload renumber).get key).bind asBool =
      (value.get key).bind asBool := by
    intro key
    rw [get_reload]
    cases value.get key with
    | none => rfl
    | some member => exact asBool_reload renumber member
  rw [sourceEnabled, sourceEnabled, flag, flag]

theorem sourceEnabled_toggled (enabled : Bool) (server : JsonMap) :
    sourceEnabled (.object (toggled enabled server)) = enabled := by
  rw [sourceEnabled, get_object, get_object, toggled]
  cases enabled with
  | true =>
    simp only [if_true, get_remove_self]
    rw [get_remove_of_ne (by decide), get_insert_self]
    rfl
  | false =>
    simp only [Bool.false_eq_true, if_false, get_insert_self]
    rfl

theorem exists_registered_iff {registry : McpServerRegistry} {normalizedName : String}
    {good : JsonValue → Prop} :
    (∃ entry, get normalizedName registry.servers = some entry ∧ good entry.value) ↔
      ∃ declaration, registry.reported normalizedName = some declaration ∧
        good declaration.value := by
  rw [McpServerRegistry.reported]
  cases get normalizedName registry.servers with
  | none => simp
  | some entry => simp [McpServerEntry.declaration]

theorem getLast?_map_declare_reload (renumber : String → Option String) (path : String)
    (entries : JsonMap) :
    ((reloadEntries renumber entries).map (declare path)).getLast? =
      entries.getLast?.map (fun entry => declare path (entry.1, entry.2.reload renumber)) := by
  rw [reloadEntries_eq_map, List.map_map, List.getLast?_map]
  rfl

/-- What the reader meets after the edited entry, if anything, already is in the requested state;
or, if the edited file is not read, what it meets elsewhere is. -/
def ToggleReaches (host : Host) (tree : SettingsTree) (normalizedName path : String)
    (enabled : Bool) : Prop :=
  let edited := toggledServers normalizedName enabled (tree.sourceAt path).servers
  (tree.Reads host path edited ∧ ∀ declaration,
    (tree.afterFirst normalizedName path).getLast? = some declaration →
      sourceEnabled declaration.value = enabled) ∨
  (¬ tree.Reads host path edited ∧ ∃ declaration,
    (tree.elsewhere normalizedName path).getLast? = some declaration ∧
      sourceEnabled declaration.value = enabled)

/-- The removed entry was the only one of its file, or the file can no longer be read. -/
def RemovalReaches (host : Host) (tree : SettingsTree) (normalizedName path : String) : Prop :=
  tree.Reads host path (remainingServers normalizedName (tree.sourceAt path).servers) →
    (tree.entriesAt normalizedName path).tail = []

/-- The file is read, and no entry of it behind the new one, other than the replaced one,
differs from it. -/
def WriteReaches (host : Host) (tree : SettingsTree)
    (normalizedName path displayName : String) (entry : JsonValue) : Prop :=
  tree.Reads host path
      (putEntry displayName normalizedName entry (tree.sourceAt path).servers) ∧
    ∀ last, (tree.entriesAt normalizedName path).tail.getLast? = some last →
      last.1 ≤ displayName ∨ last.2.reload host.renumber = entry

section Effects

variable {host : Host} {tree after : SettingsTree}

theorem enabled_iff (ordered : tree.Ordered) {options : McpServerToggleOptions}
    {result : McpServerToggleResult} (wet : options.dryRun = false)
    (ran : setMcpServerEnabled host tree options = .ok (result, after)) :
    ∃ path, tree.editedPath (trim options.name) (normalizeServerName options.name)
        options.settingsPath = .ok path ∧
      ((∃ entry, get (normalizeServerName options.name) after.registry.servers =
          some entry ∧ sourceEnabled entry.value = options.enabled) ↔
        ToggleReaches host tree (normalizeServerName options.name) (tree.locate path)
          options.enabled) := by
  obtain ⟨named, path, servers, key, server, found, first, edit⟩ :=
    setMcpServerEnabled_eq_ok wet ran
  have sorted : Sorted servers := edit.servers_eq ▸ ordered _
  refine ⟨path, found, (@exists_registered_iff after.registry _
    (fun value => sourceEnabled value = options.enabled)).trans ?_⟩
  rw [ToggleReaches, edit.servers_eq]
  by_cases reads : tree.Reads host (tree.locate path)
      (toggledServers (normalizeServerName options.name) options.enabled servers)
  · simp only [reads, true_and, not_true_eq_false, false_and, or_false]
    rw [edit.reported_of_reads named reads, getLast?_map_declare_reload, toggledServers, first]
    dsimp only
    rw [entriesNamed_insert_first sorted first, afterFirst, entriesAt,
      edit.servers_eq, List.getLast?_append, List.getLast?_map, List.getLast?_cons]
    cases ((tree.later (tree.locate path)).flatMap
        (tree.declarationsAt (normalizeServerName options.name))).getLast? with
    | some declaration => simp
    | none =>
      cases (entriesNamed (normalizeServerName options.name) servers).tail.getLast? with
      | some last => simp [declare, sourceEnabled_reload]
      | none => simp [declare, sourceEnabled_reload, sourceEnabled_toggled]
  · simp only [reads, false_and, not_false_eq_true, true_and, false_or]
    rw [edit.reported_of_unread named reads]

theorem flatMap_declarationsAt_eq_nil {normalizedName : String} {paths : List String}
    (none : ∀ path ∈ paths, tree.entriesAt normalizedName path = []) :
    paths.flatMap (tree.declarationsAt normalizedName) = [] := by
  rw [flatMap_eq_nil_iff]
  intro path member
  exact map_eq_nil_iff.mpr (none path member)

namespace SettingsTree.Sole

variable {normalizedName path : String}

theorem elsewhere_eq_nil (sole : tree.Sole normalizedName path) :
    tree.elsewhere normalizedName path = [] := by
  apply flatMap_declarationsAt_eq_nil
  intro other member
  obtain ⟨candidate, different⟩ := mem_filter.mp member
  exact sole other candidate (of_decide_eq_true different)

theorem others_eq_nil (sole : tree.Sole normalizedName path) (candidate : path ∈ tree.candidates) :
    (tree.earlier path).flatMap (tree.declarationsAt normalizedName) = [] ∧
      (tree.later path).flatMap (tree.declarationsAt normalizedName) = [] := by
  obtain ⟨split, apart⟩ := candidates_split candidate
  rw [← append_eq_nil_iff, ← flatMap_append]
  apply flatMap_declarationsAt_eq_nil
  intro other member
  refine sole other ?_ (apart other member)
  rw [split, mem_append, mem_cons]
  exact (mem_append.mp member).imp_right Or.inr

end SettingsTree.Sole

theorem removed_iff (ordered : tree.Ordered) {options : McpServerRemoveOptions}
    {result : McpServerRemoveResult} (wet : options.dryRun = false)
    (searched : options.settingsPath = none)
    (ran : removeMcpServerEntry host tree options = .ok (result, after)) :
    ∃ path, tree.editedPath (trim options.name) (normalizeServerName options.name) none =
        .ok path ∧
      (get (normalizeServerName options.name) after.registry.servers = none ↔
        RemovalReaches host tree (normalizeServerName options.name) (tree.locate path)) := by
  obtain ⟨named, path, servers, key, value, found, first, edit⟩ :=
    removeMcpServerEntry_eq_ok wet ran
  have sorted : Sorted servers := edit.servers_eq ▸ ordered _
  rw [searched] at found
  refine ⟨path, found, ?_⟩
  obtain ⟨candidate, sole⟩ := sole_of_editedPath found
  have located := tree.located _ candidate
  rw [← located] at candidate sole
  have absent : get (normalizeServerName options.name) after.registry.servers = none ↔
      after.registry.reported (normalizeServerName options.name) = none := by
    rw [McpServerRegistry.reported, map_eq_none_iff]
  rw [absent, RemovalReaches, edit.servers_eq]
  by_cases reads : tree.Reads host (tree.locate path)
      (remainingServers (normalizeServerName options.name) servers)
  · obtain ⟨earlier, later⟩ := sole.others_eq_nil candidate
    simp only [reads, true_imp_iff]
    rw [edit.reported_of_reads named reads, earlier, later, getLast?_map_declare_reload,
      remainingServers, first]
    dsimp only
    rw [entriesNamed_remove_first sorted first, entriesAt, edit.servers_eq]
    simp
  · rw [edit.reported_of_unread named reads, sole.elsewhere_eq_nil]
    simp [reads]

theorem written_iff (ordered : tree.Ordered) {options : McpServerWriteOptions}
    {result : McpServerWriteResult} (wet : options.dryRun = false)
    (ran : writeMcpServerEntry host tree options = .ok (result, after)) {entry : JsonValue}
    (requested : requestedEntry host options = .ok entry) :
    (∃ registered, get (normalizeServerName options.name) after.registry.servers =
        some registered ∧ registered.value = entry) ↔
      WriteReaches host tree (normalizeServerName options.name)
        (tree.locate (addedPath tree options)) (trim options.name) entry := by
  obtain ⟨named, accepted, serverType, env, headers, servers, checked, edit⟩ :=
    writeMcpServerEntry_eq_ok wet ran
  have sorted : Sorted servers := edit.servers_eq ▸ ordered _
  have sole := sole_of_rejectCrossSourceShadowing accepted
  have built : buildServerEntry serverType options env headers = entry := by
    rw [requestedEntry, checked] at requested
    exact Except.ok.inj requested
  have kept : entry.reload host.renumber = entry :=
    built ▸ readsBack_buildServerEntry serverType options env headers
  have names : Names (normalizeServerName options.name) (trim options.name) :=
    normalizeServerName_trim options.name
  refine (@exists_registered_iff after.registry _ (fun value => value = entry)).trans ?_
  rw [built] at edit
  rw [WriteReaches, edit.servers_eq]
  by_cases reads : tree.Reads host (tree.locate (addedPath tree options))
      (putEntry (trim options.name) (normalizeServerName options.name) entry servers)
  · obtain ⟨earlier, later⟩ := sole.others_eq_nil reads.1
    rw [edit.reported_of_reads named reads, earlier, later, getLast?_map_declare_reload,
      getLast?_entriesNamed_putEntry _ sorted names, entriesAt, edit.servers_eq]
    cases (entriesNamed (normalizeServerName options.name) servers).tail.getLast? with
    | none => simp [declare, kept, reads]
    | some last =>
      by_cases behind : trim options.name < last.1
      · simp [declare, reads, behind, not_le.mpr behind, Option.filter]
      · simp [declare, reads, behind, not_lt.mp behind, Option.filter, kept]
  · rw [edit.reported_of_unread named reads, sole.elsewhere_eq_nil]
    simp [reads]

/-- When the edits take effect in the registry: turning a server on or off, removing it from the
source it was found in, and writing an entry for it. -/
theorem edits_takeEffect_iff (host : Host) (tree after : SettingsTree) (ordered : tree.Ordered) :
    (∀ options result, options.dryRun = false →
        setMcpServerEnabled host tree options = .ok (result, after) →
        ∃ path, tree.editedPath (trim options.name) (normalizeServerName options.name)
            options.settingsPath = .ok path ∧
          ((∃ entry, get (normalizeServerName options.name) after.registry.servers =
              some entry ∧ sourceEnabled entry.value = options.enabled) ↔
            ToggleReaches host tree (normalizeServerName options.name) (tree.locate path)
              options.enabled)) ∧
      (∀ options result, options.dryRun = false → options.settingsPath = none →
        removeMcpServerEntry host tree options = .ok (result, after) →
        ∃ path, tree.editedPath (trim options.name) (normalizeServerName options.name) none =
            .ok path ∧
          (get (normalizeServerName options.name) after.registry.servers = none ↔
            RemovalReaches host tree (normalizeServerName options.name) (tree.locate path))) ∧
      ∀ options result entry, options.dryRun = false →
        writeMcpServerEntry host tree options = .ok (result, after) →
        requestedEntry host options = .ok entry →
        ((∃ registered, get (normalizeServerName options.name)
            after.registry.servers = some registered ∧ registered.value = entry) ↔
          WriteReaches host tree (normalizeServerName options.name)
            (tree.locate (addedPath tree options)) (trim options.name) entry) :=
  ⟨fun _ _ wet ran => enabled_iff ordered wet ran,
    fun _ _ wet searched ran => removed_iff ordered wet searched ran,
    fun _ _ _ wet ran requested => written_iff ordered wet ran requested⟩

end Effects

/-! ### Two keys for one server -/

/-- A tree whose only source is the settings file of the root, with the given servers. -/
def singleFile (servers : JsonMap) : SettingsTree where
  rootPath := "/mcp"
  candidates := ["/mcp/mcp_settings.json"]
  listed := fun _ => false
  locate := id
  file := fun path =>
    if path = "/mcp/mcp_settings.json" then .parsed (.object [("mcpServers", .object servers)])
    else .missing
  warnings := []
  nodup := nodup_singleton _
  located := fun _ _ => rfl

theorem ordered_singleFile (sorted : Sorted servers) : (singleFile servers).Ordered := by
  intro path
  by_cases root : path = "/mcp/mcp_settings.json"
  · have listed : ((singleFile servers).sourceAt path).servers = servers := by
      simp [sourceAt, SettingsSource.servers, singleFile, root, mcpServersObject,
        objectAtPath, valueAtPath_singleton, get_cons,
        asObject]
    rw [listed]
    exact sorted
  · have none : ((singleFile servers).sourceAt path).servers = [] := by
      simp [sourceAt, SettingsSource.servers, singleFile, root]
    rw [none]
    exact sorted_nil

def commandEntry (command : String) : JsonValue := .object [("command", .string command)]

def oneKey : JsonMap := [("foo", commandEntry "a")]

def twoKeys : JsonMap := [("Foo", commandEntry "a"), ("foo", commandEntry "b")]

def addFoo : McpServerWriteOptions where
  name := "Foo"
  serverType := none
  command := some "c"
  args := []
  url := none
  env := []
  headers := []
  settingsPath := some "mcp_settings.json"
  enabled := true
  dryRun := false
  force := true
  profileHints := []

/-- The only key of a server is turned off. -/
theorem edits_takeEffect_oneKey :
    ∃ result after, setMcpServerEnabled plainHost (singleFile oneKey) ⟨"foo", none, false, false⟩ =
        .ok (result, after) ∧
      (∃ entry, get "foo" after.registry.servers = some entry ∧
        sourceEnabled entry.value = false) ∧
      ToggleReaches plainHost (singleFile oneKey) "foo" "/mcp/mcp_settings.json" false := by
  have observed : ((setMcpServerEnabled plainHost (singleFile oneKey)
      ⟨"foo", none, false, false⟩).toOption.map (fun outcome =>
        (outcome.2.registry.reported "foo").map (fun found => sourceEnabled found.value))) =
      some (some false) := by decide
  obtain ⟨⟨result, after⟩, ran, reported⟩ := exists_ok_of_map observed
  obtain ⟨declaration, found, off⟩ := map_eq_some_iff.mp reported
  have registered := (@exists_registered_iff after.registry "foo"
    (fun value => sourceEnabled value = false)).mpr ⟨declaration, found, off⟩
  have ordered : (singleFile oneKey).Ordered := ordered_singleFile (pairwise_singleton _ _)
  have name : normalizeServerName "foo" = "foo" := by decide
  obtain ⟨path, edited, effect⟩ :=
    (edits_takeEffect_iff plainHost (singleFile oneKey) after ordered).1
      ⟨"foo", none, false, false⟩ result rfl ran
  have isFile : (singleFile oneKey).editedPath "foo" "foo" none =
      .ok "/mcp/mcp_settings.json" := by decide
  rw [name, show trim "foo" = "foo" by decide, isFile, Except.ok.injEq] at edited
  rw [name, ← edited] at effect
  exact ⟨result, after, ran, registered, effect.mp registered⟩

/-- With two keys for one server, the first is edited and the second is reported: the server
stays on, stays listed, and keeps its old entry. -/
theorem edits_takeEffect_twoKeys :
    (∃ result after, setMcpServerEnabled plainHost (singleFile twoKeys)
        ⟨"foo", none, false, false⟩ = .ok (result, after) ∧
      (after.registry.reported "foo").map (fun found => sourceEnabled found.value) =
        some true) ∧
    (∃ result after, removeMcpServerEntry plainHost (singleFile twoKeys) ⟨"foo", none, false⟩ =
        .ok (result, after) ∧
      (after.registry.reported "foo").map Declaration.value = some (commandEntry "b")) ∧
    ∃ result after, writeMcpServerEntry plainHost (singleFile twoKeys) addFoo =
        .ok (result, after) ∧
      (after.registry.reported "foo").map Declaration.value = some (commandEntry "b") ∧
      requestedEntry plainHost addFoo ≠ .ok (commandEntry "b") := by
  refine ⟨?_, ?_, ?_⟩
  · have observed : ((setMcpServerEnabled plainHost (singleFile twoKeys)
        ⟨"foo", none, false, false⟩).toOption.map (fun outcome =>
          (outcome.2.registry.reported "foo").map (fun found => sourceEnabled found.value))) =
        some (some true) := by decide +kernel
    obtain ⟨⟨result, after⟩, ran, reported⟩ := exists_ok_of_map observed
    exact ⟨result, after, ran, reported⟩
  · have observed : ((removeMcpServerEntry plainHost (singleFile twoKeys)
        ⟨"foo", none, false⟩).toOption.map (fun outcome =>
          (outcome.2.registry.reported "foo").map Declaration.value)) =
        some (some (commandEntry "b")) := by decide +kernel
    obtain ⟨⟨result, after⟩, ran, reported⟩ := exists_ok_of_map observed
    exact ⟨result, after, ran, reported⟩
  · have observed : ((writeMcpServerEntry plainHost (singleFile twoKeys) addFoo).toOption.map
        (fun outcome => (outcome.2.registry.reported "foo").map Declaration.value)) =
        some (some (commandEntry "b")) := by decide +kernel
    obtain ⟨⟨result, after⟩, ran, reported⟩ := exists_ok_of_map observed
    refine ⟨result, after, ran, reported, ?_⟩
    intro same
    have entry : (requestedEntry plainHost addFoo).toOption.map (fun entry =>
        decide (entry = commandEntry "b")) = some false := by decide +kernel
    rw [same] at entry
    cases entry

end Mcpace.Sources
