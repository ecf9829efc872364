import Mcpace.Library.Delimiters
import Mcpace.Library.Text
import Mcpace.Library.Utf8

/-!
Owns the editing of TOML and YAML client configurations: `src/config_edit.rs` and the text removals
of `src/config_edit/removal.rs`.

The source appends slices of the old text and new text to a buffer. A `Plan` lists those appends in
order, and the new contents are what they assemble to. Texts are lists of characters and offsets
count characters; a slice whose start lies behind its end panics.

Does not own: the JSON editor, reading and writing of the file, and the warnings about commands.
-/

namespace Mcpace.ConfigEdit

open Library Delimiters Text

inductive ConfigEditError where
  | jsonParse (path message : String)
  | jsonTopLevelObject (path : String)
  | jsonServersObject (path key : String)
  | managedBlockMissingEnd (path adapter : String)
  | overwideManagedBlock (path adapter : String)
deriving DecidableEq, Repr

def ConfigEditError.message : ConfigEditError → String
  | .jsonParse path message =>
    "failed to parse JSON client config '" ++ path ++ "': " ++ message
  | .jsonTopLevelObject path => "JSON client config '" ++ path ++ "' must be a top-level object"
  | .jsonServersObject path key =>
    "JSON client config '" ++ path ++ "' has a non-object " ++ key ++ " field"
  | .managedBlockMissingEnd path adapter =>
    "Client config '" ++ path ++
      "' contains an MCPace begin marker without a matching end marker for '" ++ adapter ++ "'"
  | .overwideManagedBlock path adapter =>
    "Client config '" ++ path ++ "' contains an over-wide MCPace managed block for '" ++ adapter ++
      "' with unrelated TOML tables and no recoverable MCPace table"

inductive Failure where
  | error (error : ConfigEditError)
  | panic
deriving DecidableEq, Repr

structure ClientConfigUpdate where
  contents : String
  replacedExistingBlock : Bool
deriving DecidableEq, Repr

/-! ### Plans -/

/-- What is appended to the new contents: a slice of the old text, or new text. -/
inductive Part where
  | kept (start stop : Nat)
  | added (text : List Char)
deriving DecidableEq, Repr

structure Plan where
  parts : List Part
  replacedExistingBlock : Bool
deriving DecidableEq, Repr

def slice (existing : List Char) (start stop : Nat) : List Char := (existing.take stop).drop start

def Part.render (existing : List Char) : Part → List Char
  | .kept start stop => slice existing start stop
  | .added text => text

def Plan.contents (plan : Plan) (existing : List Char) : List Char :=
  plan.parts.flatMap (Part.render existing)

def Plan.update (plan : Plan) (existing : List Char) : ClientConfigUpdate :=
  ⟨String.ofList (plan.contents existing), plan.replacedExistingBlock⟩

def replacing (existing : List Char) (start stop : Nat) (text : List Char) : Plan :=
  ⟨[.kept 0 start, .added text, .kept stop existing.length], true⟩

def unchanged (existing : List Char) : Plan := ⟨[.kept 0 existing.length], false⟩

/-! ### Lines and markers -/

def find (needle text : List Char) : Option Nat :=
  (cut needle text).map (fun parts => parts.1.length)

def endsWith (text tail : List Char) : Bool := tail.isSuffixOf text

def detectNewline (existing : List Char) : List Char :=
  if (find ['\r', '\n'] existing).isSome then ['\r', '\n'] else ['\n']

def lineStart (existing : List Char) (index : Nat) : Nat :=
  ((existing.take index).rdropWhile (· ≠ '\n')).length

/-- The source's cases for a line end at `index` are cases of the search for the next one. -/
def lineEndAfter (existing : List Char) (index : Nat) : Nat :=
  let rest := existing.drop index
  if '\n' ∈ rest then index + rest.idxOf '\n' + 1 else existing.length

def beginMarker (adapterKeyName : List Char) : List Char :=
  "# BEGIN MCPACE MANAGED BLOCK: ".toList ++ adapterKeyName

def endMarker (adapterKeyName : List Char) : List Char :=
  "# END MCPACE MANAGED BLOCK: ".toList ++ adapterKeyName

/-- What stands before appended text: line ends that make the text end in an empty line. -/
def padding (existing : List Char) : List Char :=
  let newline := detectNewline existing
  if existing = [] then []
  else
    let first := if endsWith existing ['\n'] then [] else newline
    let second := if endsWith (existing ++ first) (newline ++ newline) then [] else newline
    first ++ second

/-! ### TOML -/

/-- Inside which quotes a character stands. -/
inductive Quote where
  | plain
  | basic (escaped : Bool)
  | literal
deriving DecidableEq, Repr

def Quote.next : Quote → Char → Quote
  | .basic true, _ => .basic false
  | .basic false, char =>
    if char = '\\' then .basic true
    else if char = '"' then .plain
    else .basic false
  | .literal, char => if char = '\'' then .plain else .literal
  | .plain, char =>
    if char = '"' then .basic false
    else if char = '\'' then .literal
    else .plain

/-- What stands before the first comment, if there is one. -/
def beforeComment : Quote → List Char → Option (List Char)
  | _, [] => none
  | quote, char :: rest =>
    if quote = .plain ∧ char = '#' then some []
    else (beforeComment (quote.next char) rest).map (List.cons char)

def trimTomlLine (line : List Char) : List Char :=
  let trimmed := trimChars line
  match beforeComment .plain trimmed with
  | some front => front.rdropWhile isWhitespace
  | none => trimmed

def looksLikeTomlTableHeader (trimmedLine : List Char) : Bool :=
  trimmedLine.head? = some '[' && trimmedLine.getLast? = some ']'

def isBareTomlKey (value : List Char) : Bool :=
  value ≠ [] && value.all (fun char =>
    isAsciiAlphanumeric char || char = '-' || char = '_')

def escapeChar (char : Char) : List Char :=
  if char = '\\' then ['\\', '\\']
  else if char = '"' then ['\\', '"']
  else if char = '\n' then ['\\', 'n']
  else if char = '\r' then ['\\', 'r']
  else if char = '\t' then ['\\', 't']
  else [char]

def tomlBasicString (value : List Char) : List Char :=
  '"' :: value.flatMap escapeChar ++ ['"']

def formatTomlTableKey (value : List Char) : List Char :=
  if isBareTomlKey value then value else tomlBasicString value

def tableHeader (key : List Char) : List Char := "[mcp_servers.".toList ++ key ++ [']']

def tableHeaderCandidates (adapterKeyName : List Char) : List (List Char) :=
  (if isBareTomlKey adapterKeyName then [tableHeader adapterKeyName] else []) ++
    [tableHeader (tomlBasicString adapterKeyName)]

def buildTomlMcpServerBlock (adapterKeyName serverUrl newline : List Char) : List Char :=
  newline.intercalate [ beginMarker adapterKeyName,
    "# This block is managed by `mcpace advanced client install`.".toList,
    tableHeader (formatTomlTableKey adapterKeyName),
    "url = ".toList ++ tomlBasicString serverUrl,
    "enabled = true".toList,
    "startup_timeout_sec = 20".toList,
    endMarker adapterKeyName,
    []]

/-- A header of another table in the range. -/
def rangeHasForeignTomlHeader (existing : List Char) (rangeStart rangeEnd : Nat)
    (adapterKeyName : List Char) : Except Failure Bool :=
  if rangeStart ≤ rangeEnd then
    .ok ((splitInclusive '\n' (slice existing rangeStart rangeEnd)).any (fun line =>
      looksLikeTomlTableHeader (trimTomlLine line) &&
        !(tableHeaderCandidates adapterKeyName).contains (trimTomlLine line)))
  else .error .panic

/-- The loop over the lines of a range: the table from its header to the next one. -/
def tableLoop (candidates : List (List Char)) (rangeEnd : Nat) :
    List (List Char) → Nat → Option Nat → Option (Nat × Nat)
  | [], _, start => start.map (fun start => (start, rangeEnd))
  | line :: lines, offset, none =>
    tableLoop candidates rangeEnd lines (offset + line.length)
      (if candidates.contains (trimTomlLine line) then some offset else none)
  | line :: lines, offset, some start =>
    if looksLikeTomlTableHeader (trimTomlLine line) then some (start, offset)
    else tableLoop candidates rangeEnd lines (offset + line.length) (some start)

def locateTomlMcpServersTableBlockInRange (existing adapterKeyName : List Char)
    (rangeStart rangeEnd : Nat) : Option (Nat × Nat) :=
  tableLoop (tableHeaderCandidates adapterKeyName) rangeEnd
    (splitInclusive '\n' (slice existing rangeStart rangeEnd)) rangeStart none

def locateTomlMcpServersTableBlock (existing adapterKeyName : List Char) : Option (Nat × Nat) :=
  locateTomlMcpServersTableBlockInRange existing adapterKeyName 0 existing.length

inductive TomlManagedBlockSpan where
  | exact (start stop : Nat)
  | recoverOverwide (beginLineStart beginLineEnd tableStart tableEnd endLineStart endLineEnd : Nat)
      (preserveBetweenBeginAndTable : Bool)
deriving DecidableEq, Repr

/-- Offsets of the markers: the begin marker, and the first end marker behind its start. -/
def locateMarkers (existing adapterKeyName : List Char) (configPath : String) :
    Except Failure (Option (Nat × Nat)) :=
  match find (beginMarker adapterKeyName) existing with
  | none => .ok none
  | some markerStart =>
    match find (endMarker adapterKeyName) (existing.drop markerStart) with
    | none => .error (.error (.managedBlockMissingEnd configPath (String.ofList adapterKeyName)))
    | some relativeEnd => .ok (some (markerStart, markerStart + relativeEnd))

def tomlSpan (existing adapterKeyName : List Char) (configPath : String)
    (markerStart endMarkerStart : Nat) : Except Failure TomlManagedBlockSpan := do
  let afterBegin := markerStart + (beginMarker adapterKeyName).length
  let beginLineStart := lineStart existing markerStart
  let beginLineEnd := lineEndAfter existing afterBegin
  let endLineStart := lineStart existing endMarkerStart
  let endLineEnd := lineEndAfter existing (endMarkerStart + (endMarker adapterKeyName).length)
  let foreign ← rangeHasForeignTomlHeader existing afterBegin endMarkerStart adapterKeyName
  if foreign then
    match locateTomlMcpServersTableBlockInRange existing adapterKeyName afterBegin
        endMarkerStart with
    | none => .error (.error (.overwideManagedBlock configPath (String.ofList adapterKeyName)))
    | some (tableStart, tableEnd) => do
        let preserve ← rangeHasForeignTomlHeader existing beginLineEnd tableStart adapterKeyName
        .ok (.recoverOverwide beginLineStart beginLineEnd tableStart tableEnd endLineStart
          endLineEnd preserve)
  else .ok (.exact beginLineStart endLineEnd)

def locateTomlManagedBlock (existing adapterKeyName : List Char) (configPath : String) :
    Except Failure (Option TomlManagedBlockSpan) := do
  let markers ← locateMarkers existing adapterKeyName configPath
  match markers with
  | none => .ok none
  | some (markerStart, endMarkerStart) => do
      let span ← tomlSpan existing adapterKeyName configPath markerStart endMarkerStart
      .ok (some span)

def applyTomlManagedBlockUpdate (existing managedBlock : List Char) :
    TomlManagedBlockSpan → Except Failure Plan
  | .exact start stop => .ok (replacing existing start stop managedBlock)
  | .recoverOverwide beginLineStart beginLineEnd tableStart tableEnd endLineStart endLineEnd
      preserve =>
      if tableEnd ≤ endLineStart then
        .ok ⟨.kept 0 beginLineStart ::
          ((if preserve then [.kept beginLineEnd tableStart] else []) ++
            [.added managedBlock, .kept tableEnd endLineStart,
              .kept endLineEnd existing.length]), true⟩
      else .error .panic

/-- The appends of `apply_toml_mcp_server_block`. -/
def planToml (existing adapterKeyName managedBlock : List Char) (configPath : String) :
    Except Failure Plan := do
  let span ← locateTomlManagedBlock existing adapterKeyName configPath
  match span with
  | some span => applyTomlManagedBlockUpdate existing managedBlock span
  | none =>
    match locateTomlMcpServersTableBlock existing adapterKeyName with
    | some (start, stop) => .ok (replacing existing start stop managedBlock)
    | none =>
      .ok ⟨[.kept 0 existing.length, .added (padding existing), .added managedBlock], false⟩

/-- The appends of `remove_toml_mcp_server_block`. -/
def planTomlRemoval (existing adapterKeyName : List Char) (configPath : String) :
    Except Failure Plan := do
  let span ← locateTomlManagedBlock existing adapterKeyName configPath
  match span with
  | some span => applyTomlManagedBlockUpdate existing [] span
  | none => .ok (unchanged existing)

/-! ### YAML -/

def trimYamlKeyQuotes (value : List Char) : List Char :=
  let strip := fun (quote : Char) =>
    if value.head? = some quote ∧ value.tail.getLast? = some quote then
      some value.tail.dropLast
    else none
  ((strip '"').orElse (fun _ => strip '\'')).getD value

/-- Indentation in bytes and key of a line of a mapping. -/
def readYamlMappingKey (line : List Char) : Option (Nat × List Char) :=
  let withoutNewline := line.rdropWhile (fun char => char = '\r' || char = '\n')
  let content := withoutNewline.dropWhile isWhitespace
  let indent := (Utf8.encode (withoutNewline.takeWhile isWhitespace)).length
  if trimChars withoutNewline = [] then none
  else if content.head? = some '#' ∨ content.head? = some '-' then none
  else if ':' ∈ content then
    let key := trimChars (content.takeWhile (· ≠ ':'))
    if key = [] then none else some (indent, trimYamlKeyQuotes key)
  else none

def buildYamlMcpServersEntryBlock (adapterKeyName serverUrl newline : List Char) : List Char :=
  newline.intercalate [ "  ".toList ++ beginMarker adapterKeyName,
    "  ".toList ++ adapterKeyName ++ [':'],
    "    url: ".toList ++ tomlBasicString serverUrl,
    "    enabled: true".toList,
    "    timeout: 120".toList,
    "    connect_timeout: 60".toList,
    "  ".toList ++ endMarker adapterKeyName,
    []]

/-- The loop over the lines of the file; `found` is where the section and its body start. -/
def sectionLoop (key : List Char) :
    List (List Char) → Nat → Option (Nat × Nat) → Option (Nat × Nat × Nat)
  | [], offset, found => found.map (fun found => (found.1, found.2, offset))
  | line :: lines, offset, none =>
    sectionLoop key lines (offset + line.length)
      (if readYamlMappingKey line = some (0, key) then some (offset, offset + line.length)
      else none)
  | line :: lines, offset, some found =>
    if (readYamlMappingKey line).map Prod.fst = some 0 then some (found.1, found.2, offset)
    else sectionLoop key lines (offset + line.length) (some found)

def locateYamlTopLevelSection (existing key : List Char) : Option (Nat × Nat × Nat) :=
  sectionLoop key (splitInclusive '\n' existing) 0 none

/-- The loop over the lines of the section; `found` is where the entry starts and its
indentation. -/
def entryLoop (key : List Char) (sectionEnd : Nat) :
    List (List Char) → Nat → Option (Nat × Nat) → Option (Nat × Nat)
  | [], _, found => found.map (fun found => (found.1, sectionEnd))
  | line :: lines, offset, none =>
    entryLoop key sectionEnd lines (offset + line.length)
      (match readYamlMappingKey line with
      | some (indent, lineKey) =>
        if 0 < indent ∧ lineKey = key then some (offset, indent) else none
      | none => none)
  | line :: lines, offset, some found =>
    if (readYamlMappingKey line).map Prod.fst = some found.2 then some (found.1, offset)
    else entryLoop key sectionEnd lines (offset + line.length) (some found)

def locateYamlSectionEntry (existing : List Char) (sectionBodyStart sectionEnd : Nat)
    (adapterKeyName : List Char) : Option (Nat × Nat) :=
  entryLoop adapterKeyName sectionEnd
    (splitInclusive '\n' (slice existing sectionBodyStart sectionEnd)) sectionBodyStart none

/-- Behind the end marker, with a line end that follows it. -/
def behindMarker (existing : List Char) (index : Nat) : Nat :=
  if ['\r', '\n'].isPrefixOf (existing.drop index) then index + 2
  else if ['\n'].isPrefixOf (existing.drop index) then index + 1
  else index

def locateManagedBlock (existing adapterKeyName : List Char) (configPath : String) :
    Except Failure (Option (Nat × Nat)) := do
  let markers ← locateMarkers existing adapterKeyName configPath
  .ok (markers.map (fun markers =>
    (lineStart existing markers.1,
      behindMarker existing (markers.2 + (endMarker adapterKeyName).length))))

def mcpServersKey : List Char := "mcp_servers".toList

/-- The appends of `apply_yaml_mcp_server_entry`. -/
def planYaml (existing adapterKeyName serverUrl : List Char) (configPath : String) :
    Except Failure Plan := do
  let newline := detectNewline existing
  let entryBlock := buildYamlMcpServersEntryBlock adapterKeyName serverUrl newline
  let managed ← locateManagedBlock existing adapterKeyName configPath
  match managed with
  | some (start, stop) => .ok (replacing existing start stop entryBlock)
  | none =>
    match locateYamlTopLevelSection existing mcpServersKey with
    | some (sectionStart, sectionBodyStart, sectionEnd) =>
      match locateYamlSectionEntry existing sectionBodyStart sectionEnd adapterKeyName with
      | some (entryStart, entryEnd) => .ok (replacing existing entryStart entryEnd entryBlock)
      | none =>
        let lineEnd :=
          if sectionStart < sectionEnd ∧ ¬endsWith (existing.take sectionEnd) ['\n'] = true
          then newline else []
        .ok ⟨[.kept 0 sectionEnd, .added lineEnd, .added entryBlock,
          .kept sectionEnd existing.length], false⟩
    | none =>
      .ok ⟨[.kept 0 existing.length, .added (padding existing),
        .added (mcpServersKey ++ [':'] ++ newline), .added entryBlock], false⟩

/-- The appends of `remove_yaml_mcp_server_entry`. -/
def planYamlRemoval (existing adapterKeyName : List Char) (configPath : String) :
    Except Failure Plan := do
  let managed ← locateManagedBlock existing adapterKeyName configPath
  match managed with
  | some (start, stop) => .ok (replacing existing start stop [])
  | none => .ok (unchanged existing)

/-! ### Operations -/

def applyTomlMcpServerBlock (existing adapterKeyName managedBlock configPath : String) :
    Except Failure ClientConfigUpdate :=
  (planToml existing.toList adapterKeyName.toList managedBlock.toList configPath).map
    (fun plan => plan.update existing.toList)

def removeTomlMcpServerBlock (existing adapterKeyName configPath : String) :
    Except Failure ClientConfigUpdate :=
  (planTomlRemoval existing.toList adapterKeyName.toList configPath).map
    (fun plan => plan.update existing.toList)

def applyYamlMcpServerEntry (existing adapterKeyName serverUrl configPath : String) :
    Except Failure ClientConfigUpdate :=
  (planYaml existing.toList adapterKeyName.toList serverUrl.toList configPath).map
    (fun plan => plan.update existing.toList)

def removeYamlMcpServerEntry (existing adapterKeyName configPath : String) :
    Except Failure ClientConfigUpdate :=
  (planYamlRemoval existing.toList adapterKeyName.toList configPath).map
    (fun plan => plan.update existing.toList)

end Mcpace.ConfigEdit
