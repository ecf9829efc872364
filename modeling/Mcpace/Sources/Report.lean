import Mcpace.Sources.Merge

/-!
Owns the source report of `load_mcp_source_report`: the registry together with a status for every
settings source, and the law that its registry is the one `load_mcp_server_registry` builds.

The report walks and merges the sources in a loop of its own, which also counts the servers of each.

Does not own: which paths are sources, and the JSON text of the report.
-/

namespace Mcpace.Sources

open Library Json List Option

/-- A source together with where its path was configured. -/
structure SourcePath extends SettingsSource where
  origin : String

structure McpSourceStatus where
  path : String
  origin : String
  doesExist : Bool
  serverCount : Nat
deriving DecidableEq

structure McpSourceReport where
  registry : McpServerRegistry
  sourceStatuses : List McpSourceStatus

namespace McpSourceReport

/-- The registry after a source, and the status of the source. -/
def record (report : McpSourceReport) (source : SourcePath) (registry : McpServerRegistry)
    (doesExist : Bool) (serverCount : Nat) : McpSourceReport :=
  ⟨registry, report.sourceStatuses ++ [⟨source.path, source.origin, doesExist, serverCount⟩]⟩

/-- The body of the loop over the sources. -/
def mergeSource (report : McpSourceReport) (source : SourcePath) : McpSourceReport :=
  let quoted := "MCP settings source '" ++ source.path ++ "'"
  let skip (warning : String) (doesExist : Bool) :=
    report.record source (report.registry.warn warning) doesExist 0
  match source.file with
  | .missing => skip (quoted ++ " does not exist; skipping") false
  | .symlink => skip (quoted ++ " is a symlink; skipping") true
  | .notRegular => skip (quoted ++ " is not a regular file; skipping") true
  | .uninspectable reason =>
    skip ("failed to inspect " ++ quoted ++ ": " ++ reason ++ "; skipping") true
  | .unreadable error => skip ("failed to read " ++ quoted ++ ": " ++ error ++ "; skipping") true
  | .parsed value =>
    let registry := { report.registry with sources := report.registry.sources ++ [source.path] }
    match mcpServersObject value with
    | some servers =>
      report.record source
        (servers.foldl (McpServerRegistry.insertServer source.path) registry) true
        servers.length
    | none =>
      report.record source
        (registry.warn (quoted ++ " has no mcpServers or servers object; skipping")) true 0

/-- `load_mcp_source_report`; `warnings` is what finding the sources has reported. -/
def load (warnings : List String) (sources : List SourcePath) : McpSourceReport :=
  let report := sources.foldl mergeSource ⟨⟨[], [], warnings⟩, []⟩
  { registry := { report.registry with
      sources := Text.sortedUnique report.registry.sources
      warnings := Text.sortedUnique report.registry.warnings }
    sourceStatuses := report.sourceStatuses.mergeSort (fun left right => left.path ≤ right.path) }

/-! ### The registry of the report -/

theorem registry_mergeSource (report : McpSourceReport) (source : SourcePath) :
    (report.mergeSource source).registry = report.registry.mergeSource source.toSettingsSource := by
  rw [mergeSource, McpServerRegistry.mergeSource]
  cases source.file with
  | parsed value =>
    dsimp only
    cases mcpServersObject value with
    | none => rfl
    | some servers => rfl
  | _ => rfl

theorem registry_foldl (sources : List SourcePath) (report : McpSourceReport) :
    (sources.foldl mergeSource report).registry =
      (sources.map SourcePath.toSettingsSource).foldl McpServerRegistry.mergeSource
        report.registry := by
  induction sources generalizing report with
  | nil => rfl
  | cons source rest ih =>
    rw [foldl_cons, ih, registry_mergeSource, map_cons, foldl_cons]

theorem registry_load (warnings : List String) (sources : List SourcePath) :
    (load warnings sources).registry =
      McpServerRegistry.load warnings (sources.map SourcePath.toSettingsSource) := by
  rw [load, McpServerRegistry.load]
  dsimp only
  rw [registry_foldl]

end McpSourceReport

/-! ### The merge law -/

/-- The last value that a row of lists gives is the last one of the last list with any. -/
theorem getLast?_flatMap_eq_some {α β : Type*} {values : α → List β} {sources : List α}
    {value : β} : (sources.flatMap values).getLast? = some value ↔
      ∃ before source after, sources = before ++ source :: after ∧
        (∀ later ∈ after, values later = []) ∧ (values source).getLast? = some value := by
  constructor
  · induction sources with
    | nil => exact nofun
    | cons first rest ih =>
      intro last
      rw [flatMap_cons, List.getLast?_append] at last
      cases found : (rest.flatMap values).getLast? with
      | some other =>
        rw [found, some_or] at last
        obtain ⟨before, source, after, split, silent, isLast⟩ :=
          ih (found.trans last)
        exact ⟨first :: before, source, after, by rw [split, cons_append], silent, isLast⟩
      | none =>
        rw [found, none_or] at last
        have silent := flatMap_eq_nil_iff.mp (List.getLast?_eq_none_iff.mp found)
        exact ⟨[], first, rest, rfl, silent, last⟩
  · rintro ⟨before, source, after, rfl, silent, isLast⟩
    have nothing : after.flatMap values = [] := flatMap_eq_nil_iff.mpr silent
    rw [flatMap_append, flatMap_cons, nothing, append_nil, List.getLast?_append, isLast, some_or]

/-- An entry is what is reported under its name. -/
theorem McpServerEntry.eq_of_declaration {left right : McpServerEntry}
    (same : left.declaration = right.declaration) : left = right := by
  obtain ⟨leftName, leftNormalized, leftValue, leftSource, leftIs, leftNamed⟩ := left
  obtain ⟨rightName, rightNormalized, rightValue, rightSource, rightIs, rightNamed⟩ := right
  simp only [McpServerEntry.declaration, Declaration.mk.injEq] at same
  obtain ⟨rfl, rfl, rfl⟩ := same
  subst leftIs rightIs
  rfl

variable {normalizedName : String} {source : SettingsSource}

theorem SettingsSource.declarations_eq_nil :
    source.declarations normalizedName = [] ↔ entriesNamed normalizedName source.servers = [] :=
  map_eq_nil_iff

theorem SettingsSource.getLast?_declarations {entry : McpServerEntry} :
    (source.declarations normalizedName).getLast? = some entry.declaration ↔
      (entriesNamed normalizedName source.servers).getLast? = some (entry.name, entry.value) ∧
        entry.source = source.path := by
  rw [SettingsSource.declarations, List.getLast?_map, map_eq_some_iff]
  constructor
  · rintro ⟨⟨name, value⟩, found, same⟩
    simp only [declare, McpServerEntry.declaration, Declaration.mk.injEq] at same
    obtain ⟨samePath, rfl, rfl⟩ := same
    exact ⟨found, samePath.symm⟩
  · rintro ⟨found, samePath⟩
    refine ⟨_, found, ?_⟩
    rw [declare, McpServerEntry.declaration, samePath]

namespace McpServerRegistry

theorem get_load_empty (warnings : List String) (sources : List SettingsSource) :
    OrderedMap.get "" (load warnings sources).servers = none := by
  cases found : OrderedMap.get "" (load warnings sources).servers with
  | none => rfl
  | some entry =>
    have keyed := (load_wellFormed warnings sources).keyed (OrderedMap.mem_of_get found)
    exact absurd keyed.symm entry.named

/-- Under a name stands the entry of the last source that declares it, and within the source the
last such key; the registry of the report is the same. -/
theorem get_load_iff (warnings : List String) (sources : List SourcePath) :
    (McpSourceReport.load warnings sources).registry =
        load warnings (sources.map SourcePath.toSettingsSource) ∧
      ∀ (normalizedName : String) (entry : McpServerEntry), OrderedMap.get normalizedName
            (load warnings (sources.map SourcePath.toSettingsSource)).servers = some entry ↔
          normalizedName ≠ "" ∧ ∃ before source after, sources = before ++ source :: after ∧
            (∀ later ∈ after, entriesNamed normalizedName later.servers = []) ∧
            (entriesNamed normalizedName source.servers).getLast? = some (entry.name, entry.value) ∧
            entry.source = source.path := by
  refine ⟨McpSourceReport.registry_load warnings sources, ?_⟩
  intro normalizedName entry
  by_cases named : normalizedName = ""
  · rw [named, get_load_empty]
    simp
  · have law := reported_load named warnings (sources.map SourcePath.toSettingsSource)
    rw [flatMap_map] at law
    have declared : OrderedMap.get normalizedName
        (load warnings (sources.map SourcePath.toSettingsSource)).servers = some entry ↔
          (sources.flatMap (fun source => source.declarations normalizedName)).getLast? =
            some entry.declaration := by
      rw [← law, reported, map_eq_some_iff]
      constructor
      · exact fun found => ⟨entry, found, rfl⟩
      · rintro ⟨other, found, same⟩
        rw [found, McpServerEntry.eq_of_declaration same]
    rw [declared, getLast?_flatMap_eq_some]
    simp only [SettingsSource.declarations_eq_nil, SettingsSource.getLast?_declarations, ne_eq,
      named, not_false_eq_true, true_and]

/-- A key that normalizes to nothing is skipped, whatever source declares it. -/
theorem get_load_unnamed : normalizeServerName "-" = "" ∧
    entriesNamed "" (SettingsSource.servers
      ⟨"a", .parsed (.object [("mcpServers", .object [("-", .null)])])⟩) = [("-", .null)] ∧
    OrderedMap.get "" (load []
      [⟨"a", .parsed (.object [("mcpServers", .object [("-", .null)])])⟩]).servers = none := by
  decide

end McpServerRegistry

end Mcpace.Sources
