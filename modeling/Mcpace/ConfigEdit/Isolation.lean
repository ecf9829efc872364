import Mcpace.ConfigEdit.Model
import Mcpace.Library.Checks

/-!
Owns what an edit for one adapter leaves alone: the ranges of the text that are the adapter's, and
that exactly what lies apart from them is copied as it stands.

The ranges are told by the text (`Operation.Owns`): by the first place of a marker, which may stand
inside the marker of a longer key, and by the lines of an unmarked table or entry, which run on to
the next header or key line and so over the comment that opens another adapter's block.
-/

namespace Mcpace.ConfigEdit

open Library Checks Delimiters List String

/-! ### Offsets -/

section Offsets

variable {existing needle key : List Char} {index start stop : Nat}

theorem find_le (found : find needle existing = some index) :
    index + needle.length ≤ existing.length := by
  rw [find, Option.map_eq_some_iff] at found
  obtain ⟨⟨front, back⟩, cutHere, rfl⟩ := found
  have shape := congrArg List.length (eq_append_of_cut cutHere)
  simp only [List.length_append] at shape ⊢
  omega

theorem lineStart_le (existing : List Char) (index : Nat) : lineStart existing index ≤ index := by
  have shorter := (List.rdropWhile_prefix (· ≠ '\n') (existing.take index)).length_le
  rw [length_take] at shorter
  unfold lineStart
  omega

theorem le_lineEndAfter (inside : index ≤ existing.length) :
    index ≤ lineEndAfter existing index ∧ lineEndAfter existing index ≤ existing.length := by
  unfold lineEndAfter
  dsimp only
  split_ifs with present
  · have place := idxOf_lt_length_of_mem present
    rw [length_drop] at place
    omega
  · omega

theorem le_behindMarker (inside : index ≤ existing.length) :
    index ≤ behindMarker existing index ∧ behindMarker existing index ≤ existing.length := by
  unfold behindMarker
  split_ifs with two one
  · have short := (List.isPrefixOf_iff_prefix.mp two).length_le
    simp only [length_cons, length_nil, length_drop] at short
    omega
  · have short := (List.isPrefixOf_iff_prefix.mp one).length_le
    simp only [length_cons, length_nil, length_drop] at short
    omega
  · omega

theorem length_slice (ordered : start ≤ stop) (inside : stop ≤ existing.length) :
    start + (slice existing start stop).length = stop := by
  rw [slice, length_drop, length_take]
  omega

end Offsets

/-! ### Lines -/

def linesOf (text : List Char) : List (List Char) := splitInclusive '\n' text

/-- The line spells the header of the adapter's table in one of the two ways the editor knows. -/
abbrev NamesTable (key line : List Char) : Prop := trimTomlLine line ∈ tableHeaderCandidates key

abbrev IsHeader (line : List Char) : Prop := looksLikeTomlTableHeader (trimTomlLine line) = true

abbrev IsSection (line : List Char) : Prop := readYamlMappingKey line = some (0, mcpServersKey)

def NamesEntry (key line : List Char) : Prop :=
  ∃ indent, 0 < indent ∧ readYamlMappingKey line = some (indent, key)

/-- The line reads as a key at the indentation. -/
abbrev KeyAt (indent : Option Nat) (line : List Char) : Prop :=
  (readYamlMappingKey line).map Prod.fst = indent

/-- A table: from the first line that names it up to the next header. -/
abbrev TableLines (key : List Char) := Segment (NamesTable key) (fun _ => IsHeader)

/-- The section `mcp_servers`: from its line up to the next key of the top level. -/
abbrev SectionLines := Segment IsSection (fun _ => KeyAt (some 0))

/-- An entry: from the first line that reads as its key, at any depth, up to the next key at the
same indentation. -/
abbrev EntryLines (key : List Char) :=
  Segment (NamesEntry key) (fun head => KeyAt ((readYamlMappingKey head).map Prod.fst))

section Lines

variable {existing key : List Char} {lines front body rest : List (List Char)} {head : List Char}
  {offset last rangeStart rangeEnd sectionBodyStart sectionEnd : Nat}

theorem flatten_linesOf (text : List Char) : (linesOf text).flatten = text :=
  flatten_splitInclusive '\n' text

/-- The lines of a text between two of its line ends are lines of their own. -/
theorem linesOf_slice {middle back : List (List Char)}
    (shape : linesOf existing = front ++ (middle ++ back)) :
    linesOf (slice existing front.flatten.length (front ++ middle).flatten.length) = middle := by
  have split := isSplit_splitInclusive '\n' existing
  have text := flatten_linesOf existing
  rw [linesOf] at shape text
  rw [shape] at split text
  have taken : slice existing front.flatten.length (front ++ middle).flatten.length =
      middle.flatten := by
    rw [← text, slice, flatten_append, flatten_append, flatten_append, List.length_append,
      drop_take, Nat.add_sub_cancel_left, drop_left, take_left]
  rw [taken, linesOf, splitInclusive_flatten split.of_append.2.of_append.1]

theorem tableLoop_segment (segment : TableLines key lines front head body rest)
    (fits : offset + lines.flatten.length = last) :
    tableLoop (tableHeaderCandidates key) last lines offset none =
      some (offset + front.flatten.length, offset + (front ++ head :: body).flatten.length) := by
  refine loop_segment (fun lines offset found => tableLoop (tableHeaderCandidates key) last lines
    offset found) (fun _ offset => offset) (fun start stop => some (start, stop)) ?_ ?_ ?_ ?_ ?_
    segment fits
  · intro line rest offset other
    rw [tableLoop, if_neg (by simpa [NamesTable] using other)]
  · intro line rest offset names
    rw [tableLoop, if_pos (by simpa [NamesTable] using names)]
  · intro _ line rest offset place _ other
    rw [tableLoop, if_neg other]
  · intro _ line rest offset place _ header
    rw [tableLoop, if_pos header]
  · intro _ place
    rfl

theorem sectionLoop_segment (segment : SectionLines lines front head body rest) :
    sectionLoop mcpServersKey lines offset none = some (offset + front.flatten.length,
      offset + front.flatten.length + head.length,
      offset + (front ++ head :: body).flatten.length) := by
  refine loop_segment (fun lines offset found => sectionLoop mcpServersKey lines offset found)
    (fun line offset => (offset, offset + line.length))
    (fun found stop => some (found.1, found.2, stop)) ?_ ?_ ?_ ?_ ?_ segment rfl
  · intro line rest offset other
    rw [sectionLoop, if_neg other]
  · intro line rest offset names
    rw [sectionLoop, if_pos names]
  · intro _ line rest offset place _ other
    rw [sectionLoop, if_neg other]
  · intro _ line rest offset place _ top
    rw [sectionLoop, if_pos top]
  · intro _ place
    rfl

theorem entryLoop_segment (segment : EntryLines key lines front head body rest)
    (fits : offset + lines.flatten.length = last) :
    entryLoop key last lines offset none =
      some (offset + front.flatten.length, offset + (front ++ head :: body).flatten.length) := by
  have indented {line : List Char} (names : NamesEntry key line) :
      (readYamlMappingKey line).map Prod.fst =
        some (((readYamlMappingKey line).map Prod.fst).getD 0) := by
    obtain ⟨indent, -, read⟩ := names
    rw [read]
    rfl
  refine loop_segment (fun lines offset found => entryLoop key last lines offset found)
    (fun line offset => (offset, ((readYamlMappingKey line).map Prod.fst).getD 0))
    (fun found stop => some (found.1, stop)) ?_ ?_ ?_ ?_ ?_ segment fits
  · intro line rest offset other
    rw [entryLoop]
    cases read : readYamlMappingKey line with
    | none => rfl
    | some place =>
      dsimp only
      rw [if_neg]
      rintro ⟨deep, rfl⟩
      exact other ⟨place.1, deep, read⟩
  · intro line rest offset names
    obtain ⟨indent, deep, read⟩ := names
    rw [entryLoop, read]
    dsimp only
    rw [if_pos ⟨deep, rfl⟩]
    rfl
  · intro head line rest offset place names other
    rw [KeyAt, indented names] at other
    rw [entryLoop, if_neg other]
  · intro head line rest offset place names same
    rw [KeyAt, indented names] at same
    rw [entryLoop, if_pos same]
  · intro _ place
    rfl

theorem tableLoop_skip (other : ∀ line ∈ lines, ¬NamesTable key line) :
    tableLoop (tableHeaderCandidates key) last (lines ++ rest) offset none =
      tableLoop (tableHeaderCandidates key) last rest (offset + lines.flatten.length) none :=
  loop_skip (fun lines offset => tableLoop (tableHeaderCandidates key) last lines offset none)
    (fun _ _ _ other => by rw [tableLoop, if_neg (by simpa [NamesTable] using other)]) other

theorem sectionLoop_skip (other : ∀ line ∈ lines, ¬IsSection line) :
    sectionLoop mcpServersKey (lines ++ rest) offset none =
      sectionLoop mcpServersKey rest (offset + lines.flatten.length) none :=
  loop_skip (fun lines offset => sectionLoop mcpServersKey lines offset none)
    (fun _ _ _ other => by rw [sectionLoop, if_neg other]) other

theorem entryLoop_skip (other : ∀ line ∈ lines, ¬NamesEntry key line) :
    entryLoop key last (lines ++ rest) offset none =
      entryLoop key last rest (offset + lines.flatten.length) none := by
  apply loop_skip (fun lines offset => entryLoop key last lines offset none) ?_ other
  intro line rest offset other
  rw [entryLoop]
  cases read : readYamlMappingKey line with
  | none => rfl
  | some place =>
    dsimp only
    rw [if_neg]
    rintro ⟨deep, rfl⟩
    exact other ⟨place.1, deep, read⟩

/-- The table in a range, or no line there that names it. -/
theorem locateTable_cases (ordered : rangeStart ≤ rangeEnd) (inside : rangeEnd ≤ existing.length) :
    (locateTomlMcpServersTableBlockInRange existing key rangeStart rangeEnd = none ∧
      ∀ line ∈ linesOf (slice existing rangeStart rangeEnd), ¬NamesTable key line) ∨
    ∃ front head body rest,
      TableLines key (linesOf (slice existing rangeStart rangeEnd)) front head body rest ∧
      locateTomlMcpServersTableBlockInRange existing key rangeStart rangeEnd =
        some (rangeStart + front.flatten.length,
          rangeStart + (front ++ head :: body).flatten.length) := by
  rcases exists_segment (NamesTable key) (fun _ => IsHeader)
    (linesOf (slice existing rangeStart rangeEnd)) with absent | ⟨front, head, body, rest, segment⟩
  · left
    refine ⟨?_, absent⟩
    rw [locateTomlMcpServersTableBlockInRange, ← append_nil (splitInclusive _ _)]
    exact tableLoop_skip absent
  · refine .inr ⟨front, head, body, rest, segment, tableLoop_segment segment ?_⟩
    rw [flatten_splitInclusive]
    exact length_slice ordered inside

theorem locateTable_bounds {start stop : Nat} (ordered : rangeStart ≤ rangeEnd)
    (inside : rangeEnd ≤ existing.length)
    (located : locateTomlMcpServersTableBlockInRange existing key rangeStart rangeEnd =
      some (start, stop)) :
    start ≤ stop ∧ stop ≤ rangeEnd := by
  rcases @locateTable_cases existing key _ _ ordered inside with
    ⟨absent, -⟩ | ⟨front, head, body, rest, segment, found⟩
  · rw [absent] at located
    cases located
  · rw [found] at located
    cases located
    have long := congrArg List.length (flatten_linesOf (slice existing rangeStart rangeEnd))
    have width := length_slice ordered inside
    rw [segment.split] at long
    simp only [flatten_append, flatten_cons, List.length_append] at long ⊢
    omega

/-- The section of the text, or no line that opens one. -/
theorem locateSection_cases (existing : List Char) :
    (locateYamlTopLevelSection existing mcpServersKey = none ∧
      ∀ line ∈ linesOf existing, ¬IsSection line) ∨
    ∃ front head body rest, SectionLines (linesOf existing) front head body rest ∧
      locateYamlTopLevelSection existing mcpServersKey =
        some (front.flatten.length, front.flatten.length + head.length,
          (front ++ head :: body).flatten.length) := by
  rcases exists_segment IsSection (fun _ => KeyAt (some 0)) (linesOf existing) with
    absent | ⟨front, head, body, rest, segment⟩
  · left
    refine ⟨?_, absent⟩
    rw [locateYamlTopLevelSection, ← append_nil (splitInclusive _ _)]
    exact sectionLoop_skip absent
  · refine .inr ⟨front, head, body, rest, segment, ?_⟩
    have located := @sectionLoop_segment _ _ _ _ _ 0 segment
    rwa [Nat.zero_add, Nat.zero_add] at located

/-- The entry among the lines of the section, or no line there that reads as its key. -/
theorem locateEntry_cases (segment : SectionLines (linesOf existing) front head body rest) :
    (locateYamlSectionEntry existing (front.flatten.length + head.length)
        (front ++ head :: body).flatten.length key = none ∧
      ∀ line ∈ body, ¬NamesEntry key line) ∨
    ∃ early entry inner later, EntryLines key body early entry inner later ∧
      locateYamlSectionEntry existing (front.flatten.length + head.length)
        (front ++ head :: body).flatten.length key =
        some ((front ++ head :: early).flatten.length,
          (front ++ head :: (early ++ entry :: inner)).flatten.length) := by
  have lines : splitInclusive '\n' (slice existing (front.flatten.length + head.length)
      (front ++ head :: body).flatten.length) = body := by
    have shape : linesOf existing = (front ++ [head]) ++ (body ++ rest) := by
      rw [segment.split, List.append_assoc, singleton_append]
    have taken := linesOf_slice shape
    rwa [List.append_assoc, singleton_append, flatten_append, flatten_singleton,
      List.length_append] at taken
  rcases exists_segment (NamesEntry key)
    (fun head => KeyAt ((readYamlMappingKey head).map Prod.fst)) body with
    absent | ⟨early, entry, inner, later, entryLines⟩
  · left
    refine ⟨?_, absent⟩
    rw [locateYamlSectionEntry, lines, ← append_nil body, entryLoop_skip absent]
    rfl
  · refine .inr ⟨early, entry, inner, later, entryLines, ?_⟩
    rw [locateYamlSectionEntry, lines, entryLoop_segment entryLines]
    · simp [Nat.add_assoc]
    · simp [Nat.add_assoc]

theorem locateEntry_le {sectionStart start stop : Nat}
    (found : locateYamlTopLevelSection existing mcpServersKey =
      some (sectionStart, sectionBodyStart, sectionEnd))
    (located : locateYamlSectionEntry existing sectionBodyStart sectionEnd key =
      some (start, stop)) : start ≤ stop := by
  rcases locateSection_cases existing with ⟨absent, -⟩ | ⟨front, head, body, rest, segment, isSection⟩
  · rw [absent] at found
    cases found
  · rw [isSection] at found
    cases found
    rcases locateEntry_cases segment with ⟨absent, -⟩ | ⟨early, entry, inner, later, -, isEntry⟩
    · rw [absent] at located
      cases located
    · rw [isEntry] at located
      cases located
      simp only [flatten_append, flatten_cons, List.length_append]
      omega

end Lines

/-! ### Operations -/

inductive Operation where
  | installToml (managedBlock : String)
  | removeToml
  | installYaml (serverUrl : String)
  | removeYaml

def Operation.run (existing key configPath : String) : Operation → Except Failure ClientConfigUpdate
  | .installToml managedBlock => applyTomlMcpServerBlock existing key managedBlock configPath
  | .removeToml => removeTomlMcpServerBlock existing key configPath
  | .installYaml serverUrl => applyYamlMcpServerEntry existing key serverUrl configPath
  | .removeYaml => removeYamlMcpServerEntry existing key configPath

def Operation.plan (existing key : List Char) (configPath : String) :
    Operation → Except Failure Plan
  | .installToml managedBlock => planToml existing key managedBlock.toList configPath
  | .removeToml => planTomlRemoval existing key configPath
  | .installYaml serverUrl => planYaml existing key serverUrl.toList configPath
  | .removeYaml => planYamlRemoval existing key configPath

section

variable {operation : Operation} {existing key configPath : String}

theorem run_eq_bind : operation.run existing key configPath =
    operation.plan existing.toList key.toList configPath >>=
      fun plan => .ok (plan.update existing.toList) := by
  cases operation <;> rfl

theorem run_of_plan {plan : Plan}
    (planned : operation.plan existing.toList key.toList configPath = .ok plan) :
    operation.run existing key configPath = .ok (plan.update existing.toList) := by
  rw [run_eq_bind, planned]
  rfl

theorem plan_of_run {update : ClientConfigUpdate}
    (ran : operation.run existing key configPath = .ok update) :
    ∃ plan, operation.plan existing.toList key.toList configPath = .ok plan ∧
      update = plan.update existing.toList := by
  rw [run_eq_bind, bind_eq_ok] at ran
  obtain ⟨plan, planned, ⟨⟩⟩ := ran
  exact ⟨plan, planned, rfl⟩

end

/-! ### What is the adapter's

Read off the text: the places of the markers, and the lines that name the table or the entry. -/

/-- The mark stands at the place, and nowhere from `low` up to it. -/
structure FirstFrom (mark text : List Char) (low place : Nat) : Prop where
  behind : low ≤ place
  here : mark <+: text.drop place
  first : ∀ earlier, low ≤ earlier → earlier < place → ¬mark <+: text.drop earlier

/-- The begin marker stands first at `opens`, and an end marker first behind it at `closes`. -/
structure Markers (existing key : List Char) (opens closes : Nat) : Prop where
  begins : FirstFrom (beginMarker key) existing 0 opens
  ends : FirstFrom (endMarker key) existing opens closes

/-- The line of the place starts there. -/
structure OpensLine (text : List Char) (place start : Nat) : Prop where
  before : start ≤ place
  within : '\n' ∉ slice text start place
  opens : text.take start = [] ∨ (text.take start).getLast? = some '\n'

/-- The line of the place ends there, behind its line end or at the end of the text. -/
def ClosesLine (text : List Char) (place stop : Nat) : Prop :=
  ∃ line, '\n' ∉ line ∧ (text.drop place = line ∧ stop = text.length ∨
    line ++ ['\n'] <+: text.drop place ∧ stop = place + line.length + 1)

/-- Behind a line end that follows the place at once, or at the place. -/
def PassesLineEnd (text : List Char) (place stop : Nat) : Prop :=
  ['\r', '\n'] <+: text.drop place ∧ stop = place + 2 ∨
    ['\n'] <+: text.drop place ∧ stop = place + 1 ∨
      ¬['\r', '\n'] <+: text.drop place ∧ ¬['\n'] <+: text.drop place ∧ stop = place

/-- A header of another table stands in the range. -/
def HasForeign (existing key : List Char) (first last : Nat) : Prop :=
  ∃ line ∈ linesOf (slice existing first last), IsHeader line ∧ ¬NamesTable key line

/-- The ranges of a TOML text with markers: the lines from the one to the other where no other table
stands between them, and else the lines of the markers and the table, with what stands before the
table when no other table does. -/
inductive OwnsMarked (existing key : List Char) : List (Nat × Nat) → Prop
  | narrow {opens closes first last : Nat} (markers : Markers existing key opens closes)
      (begins : OpensLine existing opens first)
      (ends : ClosesLine existing (closes + (endMarker key).length) last)
      (own : ¬HasForeign existing key (opens + (beginMarker key).length) closes) :
      OwnsMarked existing key [(first, last)]
  | wide {opens closes first last beginEnd endStart : Nat} {front body rest : List (List Char)}
      {head : List Char} (markers : Markers existing key opens closes)
      (begins : OpensLine existing opens first)
      (ends : ClosesLine existing (closes + (endMarker key).length) last)
      (beginEnds : ClosesLine existing (opens + (beginMarker key).length) beginEnd)
      (endStarts : OpensLine existing closes endStart)
      (foreign : HasForeign existing key (opens + (beginMarker key).length) closes)
      (table : TableLines key (linesOf (slice existing (opens + (beginMarker key).length) closes))
        front head body rest) {tableStart tableEnd : Nat}
      (starts : tableStart = opens + (beginMarker key).length + front.flatten.length)
      (stops : tableEnd = opens + (beginMarker key).length + (front ++ head :: body).flatten.length)
      {ranges : List (Nat × Nat)}
      (kept : HasForeign existing key beginEnd tableStart ∧
          ranges = [(first, beginEnd), (tableStart, tableEnd), (endStart, last)] ∨
        ¬HasForeign existing key beginEnd tableStart ∧
          ranges = [(first, tableEnd), (endStart, last)]) :
      OwnsMarked existing key ranges

/-- The ranges of the text that are the adapter's; an empty range is a place where text is
inserted. -/
inductive Operation.Owns (existing key : List Char) : Operation → List (Nat × Nat) → Prop
  | markedToml {operation : Operation} {ranges : List (Nat × Nat)}
      (toml : operation = .removeToml ∨ ∃ block, operation = .installToml block)
      (marked : OwnsMarked existing key ranges) : Owns existing key operation ranges
  | table {block : String} {front body rest : List (List Char)} {head : List Char}
      (unmarked : ¬beginMarker key <:+: existing)
      (lines : TableLines key (linesOf existing) front head body rest) :
      Owns existing key (.installToml block)
        [(front.flatten.length, (front ++ head :: body).flatten.length)]
  | noTable {block : String} (unmarked : ¬beginMarker key <:+: existing)
      (absent : ∀ line ∈ linesOf existing, ¬NamesTable key line) :
      Owns existing key (.installToml block) [(existing.length, existing.length)]
  | markedYaml {operation : Operation} {opens closes first last : Nat}
      (yaml : operation = .removeYaml ∨ ∃ url, operation = .installYaml url)
      (markers : Markers existing key opens closes) (begins : OpensLine existing opens first)
      (ends : PassesLineEnd existing (closes + (endMarker key).length) last) :
      Owns existing key operation [(first, last)]
  | entry {url : String} {front body rest early inner later : List (List Char)}
      {head entry : List Char} (unmarked : ¬beginMarker key <:+: existing)
      (lines : SectionLines (linesOf existing) front head body rest)
      (entryLines : EntryLines key body early entry inner later) :
      Owns existing key (.installYaml url) [((front ++ head :: early).flatten.length,
        (front ++ head :: (early ++ entry :: inner)).flatten.length)]
  | noEntry {url : String} {front body rest : List (List Char)} {head : List Char}
      (unmarked : ¬beginMarker key <:+: existing)
      (lines : SectionLines (linesOf existing) front head body rest)
      (absent : ∀ line ∈ body, ¬NamesEntry key line) :
      Owns existing key (.installYaml url) [((front ++ head :: body).flatten.length,
        (front ++ head :: body).flatten.length)]
  | noSection {url : String} (unmarked : ¬beginMarker key <:+: existing)
      (absent : ∀ line ∈ linesOf existing, ¬IsSection line) :
      Owns existing key (.installYaml url) [(existing.length, existing.length)]
  | nothing {operation : Operation} (removes : operation = .removeToml ∨ operation = .removeYaml)
      (unmarked : ¬beginMarker key <:+: existing) : Owns existing key operation []

/-! ### What the editor takes -/

/-- The ranges between the markers that are the adapter's: all, or its lines and its table. -/
def TomlManagedBlockSpan.ranges : TomlManagedBlockSpan → List (Nat × Nat)
  | .exact start stop => [(start, stop)]
  | .recoverOverwide beginLineStart beginLineEnd tableStart tableEnd endLineStart endLineEnd
      preserve =>
      if preserve then
        [(beginLineStart, beginLineEnd), (tableStart, tableEnd), (endLineStart, endLineEnd)]
      else [(beginLineStart, tableEnd), (endLineStart, endLineEnd)]

/-- The ranges of the text the editor takes to be the adapter's; an empty range is a place where
text is inserted. -/
def Operation.territory (existing key : List Char) (configPath : String) :
    Operation → List (Nat × Nat)
  | .installToml _ =>
    match locateTomlManagedBlock existing key configPath with
    | .ok (some span) => span.ranges
    | _ =>
      match locateTomlMcpServersTableBlock existing key with
      | some table => [table]
      | none => [(existing.length, existing.length)]
  | .removeToml =>
    match locateTomlManagedBlock existing key configPath with
    | .ok (some span) => span.ranges
    | _ => []
  | .installYaml _ =>
    match locateManagedBlock existing key configPath with
    | .ok (some block) => [block]
    | _ =>
      match locateYamlTopLevelSection existing mcpServersKey with
      | some (_, sectionBodyStart, sectionEnd) =>
        match locateYamlSectionEntry existing sectionBodyStart sectionEnd key with
        | some entry => [entry]
        | none => [(sectionEnd, sectionEnd)]
      | none => [(existing.length, existing.length)]
  | .removeYaml =>
    match locateManagedBlock existing key configPath with
    | .ok (some block) => [block]
    | _ => []

/-- The characters of the range are copied as one piece. -/
def Plan.Keeps (plan : Plan) (start stop : Nat) : Prop :=
  ∃ first last, Part.kept first last ∈ plan.parts ∧ first ≤ start ∧ stop ≤ last

def Apart (range : Nat × Nat) (start stop : Nat) : Prop := stop ≤ range.1 ∨ range.2 ≤ start

section Keeping

variable {existing key : List Char} {configPath : String} {plan : Plan} {first last start stop : Nat}

@[simp] theorem keeps_nil (replaced : Bool) : ¬(Plan.mk [] replaced).Keeps start stop := by
  rintro ⟨low, high, absent, -⟩
  exact not_mem_nil absent

@[simp] theorem keeps_kept (replaced : Bool) (parts : List Part) :
    (Plan.mk (.kept first last :: parts) replaced).Keeps start stop ↔
      first ≤ start ∧ stop ≤ last ∨ (Plan.mk parts replaced).Keeps start stop := by
  constructor
  · rintro ⟨low, high, member, inside⟩
    rcases mem_cons.mp member with same | later
    · cases same
      exact .inl inside
    · exact .inr ⟨low, high, later, inside⟩
  · rintro (inside | ⟨low, high, later, inside⟩)
    · exact ⟨first, last, mem_cons_self, inside⟩
    · exact ⟨low, high, mem_cons_of_mem _ later, inside⟩

@[simp] theorem keeps_added (replaced : Bool) (text : List Char) (parts : List Part) :
    (Plan.mk (.added text :: parts) replaced).Keeps start stop ↔
      (Plan.mk parts replaced).Keeps start stop := by
  constructor
  · rintro ⟨low, high, member, inside⟩
    rcases mem_cons.mp member with same | later
    · cases same
    · exact ⟨low, high, later, inside⟩
  · rintro ⟨low, high, later, inside⟩
    exact ⟨low, high, mem_cons_of_mem _ later, inside⟩

theorem keeps_replacing (text : List Char) (inside : stop ≤ existing.length) :
    (replacing existing first last text).Keeps start stop ↔ Apart (first, last) start stop := by
  simp only [replacing, keeps_kept, keeps_added, keeps_nil, Apart, or_false]
  omega

variable {markerStart endMarkerStart : Nat}

theorem locateMarkers_cases {markers : Option (Nat × Nat)}
    (located : locateMarkers existing key configPath = .ok markers) :
    (markers = none ∧ find (beginMarker key) existing = none) ∨
      ∃ place relative, markers = some (place, place + relative) ∧
        find (beginMarker key) existing = some place ∧
        find (endMarker key) (existing.drop place) = some relative := by
  unfold locateMarkers at located
  split at located
  · cases located
    exact .inl ⟨rfl, ‹_›⟩
  · split at located
    · cases located
    · cases located
      exact .inr ⟨_, _, rfl, ‹_›, ‹_›⟩

theorem locateMarkers_bounds
    (located : locateMarkers existing key configPath = .ok (some (markerStart, endMarkerStart))) :
    markerStart + (beginMarker key).length ≤ existing.length ∧ markerStart ≤ endMarkerStart ∧
      endMarkerStart + (endMarker key).length ≤ existing.length := by
  rcases locateMarkers_cases located with ⟨absent, -⟩ | ⟨place, relative, same, begun, ended⟩
  · cases absent
  · cases same
    have opening := find_le begun
    have closing := find_le ended
    rw [length_drop] at closing
    omega

theorem locateManagedBlock_bounds
    (located : locateManagedBlock existing key configPath = .ok (some (first, last))) :
    first ≤ last ∧ last ≤ existing.length := by
  rw [locateManagedBlock, bind_eq_ok] at located
  obtain ⟨markers, found, shape⟩ := located
  cases markers with
  | none => cases shape
  | some markers =>
    obtain ⟨markerStart, endMarkerStart⟩ := markers
    cases shape
    have bounds := locateMarkers_bounds found
    have opening := lineStart_le existing markerStart
    have closing := le_behindMarker bounds.2.2
    dsimp only
    omega

/-- The offsets of a span in the order of the text. -/
def TomlManagedBlockSpan.Ordered (length : Nat) : TomlManagedBlockSpan → Prop
  | .exact start stop => start ≤ stop ∧ stop ≤ length
  | .recoverOverwide beginLineStart beginLineEnd tableStart tableEnd endLineStart endLineEnd _ =>
    beginLineStart ≤ beginLineEnd ∧ beginLineEnd ≤ tableStart ∧ tableStart ≤ tableEnd ∧
      endLineStart ≤ endLineEnd ∧ endLineEnd ≤ length

/-- Slices that were made have their ends in order. -/
theorem le_of_rangeHasForeign {foreign : Bool}
    (checked : rangeHasForeignTomlHeader existing first last key = .ok foreign) :
    first ≤ last := by
  unfold rangeHasForeignTomlHeader at checked
  split_ifs at checked with ordered
  exact ordered

variable {span : TomlManagedBlockSpan}

/-- A span covers all that stands between its markers, or their lines and a table. -/
theorem locateToml_cases
    (located : locateTomlManagedBlock existing key configPath = .ok (some span)) :
    ∃ markerStart endMarkerStart,
      locateMarkers existing key configPath = .ok (some (markerStart, endMarkerStart)) ∧
      markerStart + (beginMarker key).length ≤ endMarkerStart ∧
      (rangeHasForeignTomlHeader existing (markerStart + (beginMarker key).length) endMarkerStart
          key = .ok false ∧
        span = .exact (lineStart existing markerStart)
          (lineEndAfter existing (endMarkerStart + (endMarker key).length)) ∨
        rangeHasForeignTomlHeader existing (markerStart + (beginMarker key).length) endMarkerStart
          key = .ok true ∧
        ∃ tableStart tableEnd preserve,
          locateTomlMcpServersTableBlockInRange existing key
            (markerStart + (beginMarker key).length) endMarkerStart = some (tableStart, tableEnd) ∧
          rangeHasForeignTomlHeader existing
            (lineEndAfter existing (markerStart + (beginMarker key).length)) tableStart key =
              .ok preserve ∧
          span = .recoverOverwide (lineStart existing markerStart)
            (lineEndAfter existing (markerStart + (beginMarker key).length)) tableStart tableEnd
            (lineStart existing endMarkerStart)
            (lineEndAfter existing (endMarkerStart + (endMarker key).length)) preserve) := by
  rw [locateTomlManagedBlock, bind_eq_ok] at located
  obtain ⟨markers, found, located⟩ := located
  cases markers with
  | none => cases located
  | some markers =>
    simp only [tomlSpan, bind_eq_ok] at located
    obtain ⟨_, ⟨foreign, checked, located⟩, same⟩ := located
    cases same
    refine ⟨markers.1, markers.2, found, le_of_rangeHasForeign checked, ?_⟩
    cases foreign with
    | true =>
      rw [if_pos rfl] at located
      cases table : locateTomlMcpServersTableBlockInRange existing key
          (markers.1 + (beginMarker key).length) markers.2 with
      | none =>
        rw [table] at located
        cases located
      | some place =>
        simp only [table, bind_eq_ok] at located
        obtain ⟨preserve, kept, located⟩ := located
        cases located
        exact .inr ⟨checked, place.1, place.2, preserve, rfl, kept, rfl⟩
    | false =>
      cases located
      exact .inl ⟨checked, rfl⟩

theorem locateToml_ordered
    (located : locateTomlManagedBlock existing key configPath = .ok (some span)) :
    span.Ordered existing.length := by
  obtain ⟨markerStart, endMarkerStart, found, ordered, shape⟩ := locateToml_cases located
  have bounds := locateMarkers_bounds found
  have beginStart := lineStart_le existing markerStart
  have beginEnd := le_lineEndAfter bounds.1
  have endStart := lineStart_le existing endMarkerStart
  have endEnd := le_lineEndAfter bounds.2.2
  rcases shape with ⟨-, rfl⟩ | ⟨-, tableStart, tableEnd, preserve, table, kept, rfl⟩
  · exact ⟨by omega, endEnd.2⟩
  · have inTable := locateTable_bounds ordered (by omega) table
    exact ⟨by omega, le_of_rangeHasForeign kept, inTable.1, by omega, endEnd.2⟩

theorem keeps_span {managedBlock : List Char} (ordered : span.Ordered existing.length)
    (planned : applyTomlManagedBlockUpdate existing managedBlock span = .ok plan)
    (filled : start < stop) (inside : stop ≤ existing.length) :
    plan.Keeps start stop ↔ ∀ range ∈ span.ranges, Apart range start stop := by
  cases span with
  | exact first last =>
    cases planned
    rw [keeps_replacing managedBlock inside, TomlManagedBlockSpan.ranges, forall_mem_singleton]
  | recoverOverwide beginLineStart beginLineEnd tableStart tableEnd endLineStart endLineEnd
      preserve =>
      rw [TomlManagedBlockSpan.Ordered] at ordered
      rw [applyTomlManagedBlockUpdate] at planned
      by_cases fits : tableEnd ≤ endLineStart
      · rw [if_pos fits] at planned
        cases planned
        cases preserve
        all_goals
          simp only [TomlManagedBlockSpan.ranges, Bool.false_eq_true, if_true, if_false,
            cons_append, nil_append, keeps_kept, keeps_added, keeps_nil, forall_mem_cons,
            not_mem_nil, IsEmpty.forall_iff, implies_true, and_true, Apart, or_false]
          omega
      · rw [if_neg fits] at planned
        cases planned

theorem slice_zero (existing : List Char) (stop : Nat) : slice existing 0 stop = existing.take stop :=
  rfl

theorem slice_length (existing : List Char) (start : Nat) :
    slice existing start existing.length = existing.drop start := by
  rw [slice, take_length]

theorem contents_replacing (existing added : List Char) (first last : Nat) :
    (replacing existing first last added).contents existing =
      existing.take first ++ (added ++ existing.drop last) := by
  simp [replacing, Plan.contents, Part.render, slice_zero, slice_length]

/-- An installation puts new text between what stands before a range and what stands behind it. -/
theorem planYaml_splice {serverUrl : List Char} (url : String)
    (planned : planYaml existing key serverUrl configPath = .ok plan) :
    ∃ first last added, first ≤ last ∧
      (Operation.installYaml url).territory existing key configPath = [(first, last)] ∧
      plan.contents existing = existing.take first ++ (added ++ existing.drop last) ∧
      ∀ start stop, start < stop → stop ≤ existing.length →
        (plan.Keeps start stop ↔ Apart (first, last) start stop) := by
  rw [planYaml, bind_eq_ok] at planned
  obtain ⟨managed, located, planned⟩ := planned
  rw [Operation.territory, located]
  cases managed with
  | some block =>
    cases planned
    have bounds := locateManagedBlock_bounds located
    exact ⟨block.1, block.2, _, bounds.1, rfl, contents_replacing _ _ _ _,
      fun _ _ _ inside => keeps_replacing _ inside⟩
  | none =>
    dsimp only at planned ⊢
    cases found : locateYamlTopLevelSection existing mcpServersKey with
    | some place =>
      obtain ⟨sectionStart, bodyStart, sectionEnd⟩ := place
      rw [found] at planned
      dsimp only at planned ⊢
      cases entry : locateYamlSectionEntry existing bodyStart sectionEnd key with
      | some place =>
        rw [entry] at planned
        cases planned
        exact ⟨place.1, place.2, _, locateEntry_le found entry, rfl, contents_replacing _ _ _ _,
          fun _ _ _ inside => keeps_replacing _ inside⟩
      | none =>
        rw [entry] at planned
        cases planned
        have contents : ∀ added more : List Char,
            Plan.contents ⟨[.kept 0 sectionEnd, .added added, .added more,
              .kept sectionEnd existing.length], false⟩ existing =
                existing.take sectionEnd ++ ((added ++ more) ++ existing.drop sectionEnd) := by
          intro added more
          simp [Plan.contents, Part.render, slice_zero, slice_length]
        refine ⟨sectionEnd, sectionEnd, _, Nat.le_refl _, rfl, contents _ _, ?_⟩
        intro start stop filled inside
        simp only [keeps_kept, keeps_added, keeps_nil, Apart, or_false]
        omega
    | none =>
      rw [found] at planned
      cases planned
      have contents : ∀ added header block : List Char,
          Plan.contents ⟨[.kept 0 existing.length, .added added, .added header, .added block],
            false⟩ existing = existing.take existing.length ++
              ((added ++ (header ++ block)) ++ existing.drop existing.length) := by
        intro added header block
        simp [Plan.contents, Part.render, slice_zero]
      refine ⟨existing.length, existing.length, _, Nat.le_refl _, rfl, contents _ _ _, ?_⟩
      intro start stop filled inside
      simp only [keeps_kept, keeps_added, keeps_nil, Apart, or_false]
      omega

/-- An edit keeps exactly the ranges apart from the adapter's territory. -/
theorem keeps_iff_apart {operation : Operation}
    (planned : operation.plan existing key configPath = .ok plan) (filled : start < stop)
    (inside : stop ≤ existing.length) :
    plan.Keeps start stop ↔
      ∀ range ∈ operation.territory existing key configPath, Apart range start stop := by
  cases operation with
  | installToml managedBlock =>
    rw [Operation.plan, planToml, bind_eq_ok] at planned
    obtain ⟨span, located, planned⟩ := planned
    rw [Operation.territory, located]
    cases span with
    | some span => exact keeps_span (locateToml_ordered located) planned filled inside
    | none =>
      dsimp only at planned ⊢
      cases table : locateTomlMcpServersTableBlock existing key with
      | some place =>
        rw [table] at planned
        cases planned
        rw [keeps_replacing _ inside, forall_mem_singleton]
      | none =>
        rw [table] at planned
        cases planned
        simp only [keeps_kept, keeps_added, keeps_nil, forall_mem_singleton, Apart, or_false]
        omega
  | removeToml =>
    rw [Operation.plan, planTomlRemoval, bind_eq_ok] at planned
    obtain ⟨span, located, planned⟩ := planned
    rw [Operation.territory, located]
    cases span with
    | some span => exact keeps_span (locateToml_ordered located) planned filled inside
    | none =>
      cases planned
      simp [unchanged, inside]
  | installYaml serverUrl =>
    obtain ⟨first, last, _, -, territory, -, kept⟩ := planYaml_splice serverUrl planned
    rw [territory, forall_mem_singleton]
    exact kept start stop filled inside
  | removeYaml =>
    rw [Operation.plan, planYamlRemoval, bind_eq_ok] at planned
    obtain ⟨managed, located, planned⟩ := planned
    rw [Operation.territory, located]
    cases managed with
    | some block =>
      cases planned
      rw [keeps_replacing _ inside, forall_mem_singleton]
    | none =>
      cases planned
      simp [unchanged, inside]

/-! The ranges the editor takes are the adapter's. -/

section Territory

variable {mark text : List Char} {low index place opens closes : Nat}

theorem firstFrom_of_find (found : find mark (text.drop low) = some index) :
    FirstFrom mark text low (low + index) := by
  rw [find, Option.map_eq_some_iff] at found
  obtain ⟨⟨front, back⟩, cutHere, rfl⟩ := found
  have shape := eq_append_of_cut cutHere
  refine ⟨Nat.le_add_right _ _, ?_, ?_⟩
  · rw [← drop_drop, shape, List.append_assoc, drop_left]
    exact prefix_append _ _
  · intro earlier behind before opens
    obtain ⟨place, rfl⟩ := Nat.exists_eq_add_of_le behind
    rw [← drop_drop] at opens
    exact not_isPrefix_of_cut cutHere (Nat.lt_of_add_lt_add_left before) opens

theorem unmarked_of_locateMarkers (located : locateMarkers existing key configPath = .ok none) :
    ¬beginMarker key <:+: existing := by
  rcases locateMarkers_cases located with ⟨-, absent⟩ | ⟨place, relative, same, -⟩
  · rw [find, Option.map_eq_none_iff] at absent
    exact cut_eq_none_iff.mp absent
  · cases same

theorem markers_of_locateMarkers
    (located : locateMarkers existing key configPath = .ok (some (opens, closes))) :
    Markers existing key opens closes := by
  rcases locateMarkers_cases located with ⟨absent, -⟩ | ⟨place, relative, same, begun, ended⟩
  · cases absent
  · cases same
    have first := @firstFrom_of_find (beginMarker key) existing 0 opens begun
    rw [Nat.zero_add] at first
    exact ⟨first, firstFrom_of_find ended⟩

theorem opensLine_lineStart (text : List Char) (place : Nat) :
    OpensLine text place (lineStart text place) := by
  have parts := rdropWhile_append_rtakeWhile (p := (· ≠ '\n')) (l := text.take place)
  have front : text.take (lineStart text place) = (text.take place).rdropWhile (· ≠ '\n') := by
    have opens := (List.rdropWhile_prefix (· ≠ '\n') (text.take place)).trans
      (List.take_prefix place text)
    exact (prefix_iff_eq_take.mp opens).symm
  refine ⟨lineStart_le text place, ?_, ?_⟩
  · have back : slice text (lineStart text place) place =
        (text.take place).rtakeWhile (· ≠ '\n') := by
      rw [slice, lineStart]
      nth_rewrite 2 [← parts]
      rw [drop_left]
    rw [back]
    intro member
    simpa using mem_rtakeWhile_imp member
  · rw [front]
    by_cases empty : (text.take place).rdropWhile (· ≠ '\n') = []
    · exact .inl empty
    · right
      have ends := rdropWhile_last_not (· ≠ '\n') (text.take place) empty
      rw [List.getLast?_eq_some_getLast empty, Option.some_inj]
      simpa using ends

theorem closesLine_lineEndAfter (text : List Char) (place : Nat) :
    ClosesLine text place (lineEndAfter text place) := by
  unfold lineEndAfter
  dsimp only
  split_ifs with present
  · obtain ⟨line, back, shape, free⟩ := eq_append_cons_of_mem present
    refine ⟨line, free, .inr ⟨?_, ?_⟩⟩
    · rw [shape]
      exact ⟨back, by simp⟩
    · rw [shape, idxOf_append_of_notMem free, idxOf_cons_self]
      rfl
  · exact ⟨text.drop place, present, .inl ⟨rfl, rfl⟩⟩

theorem passesLineEnd_behindMarker (text : List Char) (place : Nat) :
    PassesLineEnd text place (behindMarker text place) := by
  unfold behindMarker PassesLineEnd
  simp only [List.isPrefixOf_iff_prefix]
  split_ifs with two one
  · exact .inl ⟨two, rfl⟩
  · exact .inr (.inl ⟨one, rfl⟩)
  · exact .inr (.inr ⟨two, one, rfl⟩)

theorem hasForeign_iff {foreign : Bool}
    (checked : rangeHasForeignTomlHeader existing first last key = .ok foreign) :
    HasForeign existing key first last ↔ foreign = true := by
  unfold rangeHasForeignTomlHeader at checked
  split_ifs at checked
  cases checked
  simp [HasForeign, linesOf, NamesTable, List.any_eq_true]

theorem ownsMarked_ranges
    (located : locateTomlManagedBlock existing key configPath = .ok (some span)) :
    OwnsMarked existing key span.ranges := by
  obtain ⟨opens, closes, found, ordered, shape⟩ := locateToml_cases located
  have markers := markers_of_locateMarkers found
  have bounds := locateMarkers_bounds found
  have begins := opensLine_lineStart existing opens
  have ends := closesLine_lineEndAfter existing (closes + (endMarker key).length)
  rcases shape with ⟨checked, rfl⟩ | ⟨checked, tableStart, tableEnd, preserve, table, kept, rfl⟩
  · refine .narrow markers begins ends ?_
    rw [hasForeign_iff checked]
    exact Bool.false_ne_true
  · rcases @locateTable_cases existing key _ _ ordered (by omega) with
      ⟨absent, -⟩ | ⟨front, head, body, rest, segment, here⟩
    · rw [absent] at table
      cases table
    · rw [here] at table
      cases table
      refine .wide markers begins ends (closesLine_lineEndAfter _ _)
        (opensLine_lineStart _ _) ((hasForeign_iff checked).mpr rfl) segment rfl rfl ?_
      rw [hasForeign_iff kept]
      cases preserve with
      | true => exact .inl ⟨rfl, rfl⟩
      | false => exact .inr ⟨Bool.false_ne_true, rfl⟩

theorem Markers.infix (markers : Markers existing key opens closes) :
    beginMarker key <:+: existing :=
  markers.begins.here.isInfix.trans (drop_suffix _ _).isInfix

theorem OwnsMarked.infix {ranges : List (Nat × Nat)} (marked : OwnsMarked existing key ranges) :
    beginMarker key <:+: existing := by
  cases marked with
  | narrow markers => exact markers.infix
  | wide markers => exact markers.infix

theorem unmarked_of_locateToml
    (located : locateTomlManagedBlock existing key configPath = .ok none) :
    ¬beginMarker key <:+: existing := by
  rw [locateTomlManagedBlock, bind_eq_ok] at located
  obtain ⟨markers, found, located⟩ := located
  cases markers with
  | none => exact unmarked_of_locateMarkers found
  | some markers =>
    obtain ⟨span, -, same⟩ := bind_eq_ok.mp located
    cases same

theorem unmarked_of_locateManagedBlock
    (located : locateManagedBlock existing key configPath = .ok none) :
    ¬beginMarker key <:+: existing := by
  rw [locateManagedBlock, bind_eq_ok] at located
  obtain ⟨markers, found, located⟩ := located
  cases markers with
  | none => exact unmarked_of_locateMarkers found
  | some markers => cases located

theorem owns_managedBlock {operation : Operation} {block : Nat × Nat}
    (yaml : operation = .removeYaml ∨ ∃ url, operation = .installYaml url)
    (located : locateManagedBlock existing key configPath = .ok (some block)) :
    operation.Owns existing key [block] := by
  rw [locateManagedBlock, bind_eq_ok] at located
  obtain ⟨markers, found, located⟩ := located
  cases markers with
  | none => cases located
  | some markers =>
    cases located
    exact .markedYaml yaml (markers_of_locateMarkers found) (opensLine_lineStart _ _)
      (passesLineEnd_behindMarker _ _)

/-- What the editor takes to be the adapter's is the adapter's. -/
theorem owns_territory {operation : Operation}
    (planned : operation.plan existing key configPath = .ok plan) :
    operation.Owns existing key (operation.territory existing key configPath) := by
  cases operation with
  | installToml managedBlock =>
    rw [Operation.plan, planToml, bind_eq_ok] at planned
    obtain ⟨span, located, -⟩ := planned
    rw [Operation.territory, located]
    cases span with
    | some span => exact .markedToml (.inr ⟨_, rfl⟩) (ownsMarked_ranges located)
    | none =>
      have unmarked := unmarked_of_locateToml located
      have whole : slice existing 0 existing.length = existing := by
        rw [slice, take_length, drop_zero]
      dsimp only
      rw [locateTomlMcpServersTableBlock]
      rcases @locateTable_cases existing key _ _ (Nat.zero_le _) (Nat.le_refl _) with
        ⟨absent, others⟩ | ⟨front, head, body, rest, segment, here⟩
      · rw [absent]
        rw [whole] at others
        exact .noTable unmarked others
      · rw [here]
        rw [whole] at segment
        rw [Nat.zero_add, Nat.zero_add]
        exact .table unmarked segment
  | removeToml =>
    rw [Operation.plan, planTomlRemoval, bind_eq_ok] at planned
    obtain ⟨span, located, -⟩ := planned
    rw [Operation.territory, located]
    cases span with
    | some span => exact .markedToml (.inl rfl) (ownsMarked_ranges located)
    | none => exact .nothing (.inl rfl) (unmarked_of_locateToml located)
  | installYaml serverUrl =>
    rw [Operation.plan, planYaml, bind_eq_ok] at planned
    obtain ⟨managed, located, -⟩ := planned
    rw [Operation.territory, located]
    cases managed with
    | some block => exact owns_managedBlock (.inr ⟨_, rfl⟩) located
    | none =>
      have unmarked := unmarked_of_locateManagedBlock located
      dsimp only
      rcases locateSection_cases existing with
        ⟨absent, others⟩ | ⟨front, head, body, rest, segment, here⟩
      · rw [absent]
        exact .noSection unmarked others
      · rw [here]
        dsimp only
        rcases locateEntry_cases segment with
          ⟨absent, others⟩ | ⟨early, entry, inner, later, entryLines, isEntry⟩
        · rw [absent]
          exact .noEntry unmarked segment others
        · rw [isEntry]
          exact .entry unmarked segment entryLines
  | removeYaml =>
    rw [Operation.plan, planYamlRemoval, bind_eq_ok] at planned
    obtain ⟨managed, located, -⟩ := planned
    rw [Operation.territory, located]
    cases managed with
    | some block => exact owns_managedBlock (.inl rfl) located
    | none => exact .nothing (.inr rfl) (unmarked_of_locateManagedBlock located)

end Territory

theorem infix_of_keeps (kept : plan.Keeps start stop) :
    slice existing start stop <:+: plan.contents existing := by
  obtain ⟨first, last, member, below, above⟩ := kept
  have whole : slice existing first last <:+: plan.contents existing := by
    obtain ⟨before, after, shape⟩ := append_of_mem member
    refine ⟨before.flatMap (Part.render existing), after.flatMap (Part.render existing), ?_⟩
    rw [Plan.contents, shape, flatMap_append, flatMap_cons, List.append_assoc]
    rfl
  refine List.IsInfix.trans ?_ whole
  have narrower : slice existing start stop =
      ((slice existing first last).drop (start - first)).take (stop - start) := by
    rw [slice, slice, drop_drop, Nat.add_sub_cancel' below, drop_take, drop_take,
      take_take, Nat.min_eq_left (by omega)]
  rw [narrower]
  exact (List.take_prefix _ _).isInfix.trans (drop_suffix _ _).isInfix

end Keeping

/-! ### Blocks of other adapters -/

/-- The range is a block of the adapter: from the line of its begin marker to its end marker, each
marker indented at most and at the end of its line. -/
structure CompleteBlock (existing key : List Char) (start stop : Nat) : Prop where
  inside : stop ≤ existing.length
  lineOpens : lineStart existing start = start
  lineCloses : existing.drop stop = [] ∨ ['\n'] <+: existing.drop stop ∨
    ['\r', '\n'] <+: existing.drop stop
  lines : ∃ indent body, indent.all (· = ' ') = true ∧ (['\n'] <+: body ∨ ['\r', '\n'] <+: body) ∧
    (body.rdropWhile (· = ' ')).getLast? = some '\n' ∧
    slice existing start stop = indent ++ beginMarker key ++ body ++ endMarker key

theorem CompleteBlock.filled {existing key : List Char} {start stop : Nat}
    (block : CompleteBlock existing key start stop) : start < stop := by
  obtain ⟨indent, body, -, -, -, shape⟩ := block.lines
  have marked : '#' ∈ beginMarker key := mem_append_left _ (by decide)
  have long := length_pos_of_mem marked
  have lengths := congrArg List.length shape
  rw [slice, length_drop, length_take] at lengths
  simp only [List.length_append] at lengths
  omega

/-- An edit for one adapter leaves a block of another where it is exactly when the block is apart
from every range of the text that is the adapter's, and the block then stands in the new text. -/
theorem managedBlock_kept_iff (operation : Operation) (existing adapter other configPath : String)
    (start stop : Nat) (update : ClientConfigUpdate)
    (block : CompleteBlock existing.toList other.toList start stop)
    (ran : operation.run existing adapter configPath = .ok update) :
    ∃ (plan : Plan) (ranges : List (Nat × Nat)),
      operation.plan existing.toList adapter.toList configPath = .ok plan ∧
      update = plan.update existing.toList ∧
      operation.Owns existing.toList adapter.toList ranges ∧
      (plan.Keeps start stop ↔ ∀ range ∈ ranges, Apart range start stop) ∧
      (plan.Keeps start stop → slice existing.toList start stop <:+: update.contents.toList) := by
  obtain ⟨plan, planned, same⟩ := plan_of_run ran
  refine ⟨plan, _, planned, same, owns_territory planned,
    keeps_iff_apart planned block.filled block.inside, ?_⟩
  intro kept
  rw [same, Plan.update, toList_ofList]
  exact infix_of_keeps kept

/-- The edit for the adapter returns a text without the other adapter's block. -/
def Damages (operation : Operation) (existing adapter other : String) (start stop : Nat) : Prop :=
  adapter ≠ other ∧ CompleteBlock existing.toList other.toList start stop ∧
    ∃ update, operation.run existing adapter "config" = .ok update ∧
      ¬slice existing.toList start stop <:+: update.contents.toList

/-- A block of `MCPace2`, whose markers start with those of `MCPace`. -/
def longerKey : String :=
  "mcp_servers:\n  # BEGIN MCPACE MANAGED BLOCK: MCPace2\n  MCPace2:\n    url: \"u\"\n" ++
    "  # END MCPACE MANAGED BLOCK: MCPace2\n"

/-- A table `a` without markers, directly before a block of `b`. -/
def unmarkedNeighbour : String :=
  "[mcp_servers.a]\nurl = \"x\"\n# BEGIN MCPACE MANAGED BLOCK: b\n[mcp_servers.b]\n" ++
    "url = \"y\"\n# END MCPACE MANAGED BLOCK: b\n"

/-- The characters of a text written as two literals. -/
theorem toList_halves {front back : List Char} :
    (String.ofList front ++ String.ofList back).toList = front ++ back := by
  rw [toList_append, toList_ofList, toList_ofList]

theorem completeBlock_longerKey : CompleteBlock longerKey.toList "MCPace2".toList 13 114 := by
  rw [show longerKey.toList = _ from toList_halves]
  exact ⟨by decide, by decide, by decide, [' ', ' '],
    "\n  MCPace2:\n    url: \"u\"\n  ".toList, by decide⟩

theorem completeBlock_unmarkedNeighbour :
    CompleteBlock unmarkedNeighbour.toList "b".toList 26 113 := by
  rw [show unmarkedNeighbour.toList = _ from toList_halves]
  exact ⟨by decide, by decide, by decide, [], "\n[mcp_servers.b]\nurl = \"y\"\n".toList, by decide⟩

/-- Removing `MCPace` removes the block of `MCPace2`, and installing `a` removes the begin marker
of `b`, since the table `a` reaches to the next header. -/
theorem managedBlock_damaged : Damages .removeYaml longerKey "MCPace" "MCPace2" 13 114 ∧
      Damages (.installToml "[mcp_servers.a]\n") unmarkedNeighbour "a" "b" 26 113 := by
  constructor
  · refine ⟨by decide, completeBlock_longerKey, _,
      @run_of_plan _ _ _ _ ⟨[.kept 0 13, .added [], .kept 113 115], true⟩ ?_, ?_⟩
    · rw [show longerKey.toList = _ from toList_halves]
      decide
    · rw [Plan.update, toList_ofList, show longerKey.toList = _ from toList_halves]
      decide
  · refine ⟨by decide, completeBlock_unmarkedNeighbour, _,
      @run_of_plan _ _ _ _ ⟨[.kept 0 0, .added "[mcp_servers.a]\n".toList, .kept 58 114], true⟩ ?_,
      ?_⟩
    · rw [show unmarkedNeighbour.toList = _ from toList_halves]
      decide +kernel
    · rw [Plan.update, toList_ofList,
        show unmarkedNeighbour.toList = _ from toList_halves]
      decide +kernel

/-- The appends of an installation of `c`. -/
def appended : Plan :=
  ⟨[.kept 0 114, .added ['\n'], .added "[mcp_servers.c]\n".toList], false⟩

/-- The block of `b` stands in the new text. -/
theorem managedBlock_kept_append : slice unmarkedNeighbour.toList 26 113 <:+:
      (appended.update unmarkedNeighbour.toList).contents.toList := by
  have planned : (Operation.installToml "[mcp_servers.c]\n").plan unmarkedNeighbour.toList
      "c".toList "config" = .ok appended := by
    rw [show unmarkedNeighbour.toList = _ from toList_halves]
    decide +kernel
  have unmarked : ¬beginMarker "c".toList <:+: unmarkedNeighbour.toList := by
    rw [show unmarkedNeighbour.toList = _ from toList_halves]
    decide +kernel
  have absent : ∀ line ∈ linesOf unmarkedNeighbour.toList, ¬NamesTable "c".toList line := by
    rw [show unmarkedNeighbour.toList = _ from toList_halves]
    decide +kernel
  obtain ⟨plan, ranges, -, -, owns, apart, stands⟩ :=
    managedBlock_kept_iff (.installToml "[mcp_servers.c]\n") unmarkedNeighbour "c" "b" "config"
      26 113 _ completeBlock_unmarkedNeighbour (run_of_plan planned)
  refine stands (apart.mpr ?_)
  -- the text has neither a marker nor a table of `c`
  cases owns with
  | markedToml _ marked => exact absurd marked.infix unmarked
  | table _ lines => exact absurd lines.opens (absent _ (by rw [lines.split]; simp))
  | noTable =>
    rw [forall_mem_singleton, show unmarkedNeighbour.toList = _ from toList_halves]
    exact .inl (by decide)
  | markedYaml yaml markers => exact absurd markers.infix unmarked
  | nothing removes => rcases removes with removes | removes <;> cases removes

end Mcpace.ConfigEdit
