import Mcpace.Sources.Registry

/-!
Contract: the registry reports, for every server name, the last declaration of it.

A declaration is a key of some source's servers object that normalizes to the name. Sources
follow each other in reading order, keys within a source in key order.
-/

namespace Mcpace.Sources

open Library Json OrderedMap List

/-- The key stands for the server. -/
def Names (normalizedName key : String) : Prop := normalizeServerName key = normalizedName

instance (normalizedName key : String) : Decidable (Names normalizedName key) :=
  inferInstanceAs (Decidable (_ = _))

structure Declaration where
  source : String
  name : String
  value : JsonValue
deriving DecidableEq

def McpServerEntry.declaration (entry : McpServerEntry) : Declaration :=
  ⟨entry.source, entry.name, entry.value⟩

def SettingsSource.servers (source : SettingsSource) : JsonMap :=
  match source.file with
  | .parsed value => (mcpServersObject value).getD []
  | _ => []

def entriesNamed (normalizedName : String) (servers : JsonMap) : JsonMap :=
  servers.filter (fun entry => Names normalizedName entry.1)

section EntriesNamed

variable {normalizedName key : String} {value : JsonValue} {servers : JsonMap}

theorem sorted_entriesNamed (sorted : Sorted servers) :
    Sorted (entriesNamed normalizedName servers) :=
  sorted_filter sorted

theorem entriesNamed_insert (sorted : Sorted servers) (names : Names normalizedName key) :
    entriesNamed normalizedName (OrderedMap.insert key value servers) =
      OrderedMap.insert key value (entriesNamed normalizedName servers) :=
  @filter_insert _ _ _ (fun name => decide (Names normalizedName name)) key
    (decide_eq_true names) value servers sorted

theorem entriesNamed_insert_of_not (other : ¬Names normalizedName key) :
    entriesNamed normalizedName (OrderedMap.insert key value servers) =
      entriesNamed normalizedName servers :=
  @filter_insert_of_not _ _ _ (fun name => decide (Names normalizedName name)) key
    (decide_eq_false other) value servers

end EntriesNamed

def declare (path : String) (entry : String × JsonValue) : Declaration :=
  ⟨path, entry.1, entry.2⟩

def SettingsSource.declarations (normalizedName : String) (source : SettingsSource) :
    List Declaration :=
  (entriesNamed normalizedName source.servers).map (declare source.path)

namespace McpServerRegistry

/-- What the registry reports under a normalized name. -/
def reported (registry : McpServerRegistry) (normalizedName : String) : Option Declaration :=
  (OrderedMap.get normalizedName registry.servers).map McpServerEntry.declaration

variable {normalizedName : String} (named : normalizedName ≠ "")

include named

theorem reported_insertServer (path : String) (registry : McpServerRegistry)
    (server : String × JsonValue) :
    (registry.insertServer path server).reported normalizedName =
      if Names normalizedName server.1 then some (declare path server)
      else registry.reported normalizedName := by
  rw [insertServer]
  by_cases unnamed : normalizeServerName server.1 = ""
  · have other : ¬ Names normalizedName server.1 := fun same => named (same.symm.trans unnamed)
    rw [dif_pos unnamed, if_neg other]
    rfl
  · rw [dif_neg unnamed]
    -- the warning about an overridden entry does not touch the servers
    have inserted : ∀ warned : McpServerRegistry,
        warned.servers = OrderedMap.insert (normalizeServerName server.1)
          ⟨server.1, normalizeServerName server.1, server.2, path, rfl, unnamed⟩
          registry.servers →
        warned.reported normalizedName =
          if Names normalizedName server.1 then some (declare path server)
          else registry.reported normalizedName := by
      intro warned same
      rw [reported, same, get_insert]
      by_cases names : Names normalizedName server.1
      · rw [if_pos names, if_pos (Eq.symm names)]
        rfl
      · rw [if_neg names, if_neg (fun equal => names equal.symm), reported]
    dsimp only
    split
    · exact inserted _ rfl
    · exact inserted _ rfl

theorem reported_foldl_insertServer (path : String) (servers : JsonMap)
    (registry : McpServerRegistry) :
    (servers.foldl (insertServer path) registry).reported normalizedName =
      (((entriesNamed normalizedName servers).map (declare path)).getLast?).or
        (registry.reported normalizedName) := by
  induction servers generalizing registry with
  | nil => rfl
  | cons server rest ih =>
    rw [foldl_cons, ih, reported_insertServer named, entriesNamed, entriesNamed, filter_cons]
    by_cases names : Names normalizedName server.1
    · rw [if_pos names, if_pos (decide_eq_true names), map_cons, List.getLast?_cons]
      cases ((rest.filter (fun entry => Names normalizedName entry.1)).map
        (declare path)).getLast? with
      | none => rfl
      | some last => rfl
    · rw [if_neg names, if_neg (by simp [names])]

theorem reported_mergeSource (registry : McpServerRegistry) (source : SettingsSource) :
    (registry.mergeSource source).reported normalizedName =
      ((source.declarations normalizedName).getLast?).or
        (registry.reported normalizedName) := by
  rw [mergeSource, SettingsSource.declarations, SettingsSource.servers]
  cases source.file with
  | parsed value =>
    dsimp only
    cases mcpServersObject value with
    | none => rfl
    | some servers => exact reported_foldl_insertServer named source.path servers _
  | _ => rfl

/-- The merge law. -/
theorem reported_load (warnings : List String) (sources : List SettingsSource) :
    (load warnings sources).reported normalizedName =
      (sources.flatMap (SettingsSource.declarations normalizedName)).getLast? := by
  have merged : ∀ registry : McpServerRegistry,
      (sources.foldl mergeSource registry).reported normalizedName =
        (sources.flatMap (SettingsSource.declarations normalizedName)).getLast?.or
          (registry.reported normalizedName) := by
    induction sources with
    | nil => exact fun _ => rfl
    | cons source rest ih =>
      intro registry
      rw [foldl_cons, ih, reported_mergeSource named, flatMap_cons,
        List.getLast?_append, Option.or_assoc]
  have start := merged ⟨[], [], warnings⟩
  rw [show (⟨[], [], warnings⟩ : McpServerRegistry).reported normalizedName = none from rfl,
    Option.or_none] at start
  exact start

end McpServerRegistry

end Mcpace.Sources
