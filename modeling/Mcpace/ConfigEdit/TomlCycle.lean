import Mcpace.ConfigEdit.TomlBlock

/-!
Owns the repeated installation and removal of one adapter in a TOML text: which contents a sequence
of edits goes through.

The contents after each edit are the text, the text padded to end in an empty line, or the padded
text and one block. This breaks where a block is closed too early: by an end marker inside the URL
of an edit that another edit follows.
-/

namespace Mcpace.ConfigEdit

open Library Checks Delimiters List Text

/-! ### Sequences of edits -/

inductive Step where
  | apply (serverUrl : String)
  | remove
deriving DecidableEq, Repr

/-- The edit of a step; the caller builds the block with the line ends of the text. -/
def Step.operation (key existing : String) : Step → Operation
  | .apply serverUrl => .installToml (String.ofList
      (buildTomlMcpServerBlock key.toList serverUrl.toList (detectNewline existing.toList)))
  | .remove => .removeToml

def Step.run (key configPath existing : String) (step : Step) :
    Except Failure ClientConfigUpdate :=
  (step.operation key existing).run existing key configPath

def Step.recent (before : Option String) : Step → Option String
  | .apply serverUrl => some serverUrl
  | .remove => before

/-- The text with the line ends an installation puts behind it. -/
def padded (text : List Char) : List Char := text ++ padding text

/-- The text, the padded text, or the padded text and the block of the URL applied last. -/
def Shape (text key : List Char) (recent : Option String) (contents : List Char) : Prop :=
  contents = text ∨ contents = padded text ∨ ∃ serverUrl ∈ recent,
      contents = padded text ++ buildTomlMcpServerBlock key serverUrl.toList ['\n']

/-- Every step returns contents of this shape. -/
def Clean (text key configPath : String) : String → Option String → List Step → Prop
  | _, _, [] => True
  | contents, recent, step :: steps =>
    ∃ update, step.run key configPath contents = .ok update ∧
      Shape text.toList key.toList (step.recent recent) update.contents.toList ∧
      Clean text key configPath update.contents (step.recent recent) steps

/-- The URL of the step, if it has one, does not hold the end marker. -/
def Step.Safe (key : String) : Step → Prop
  | .apply serverUrl => ¬endMarker key.toList <:+: serverUrl.toList
  | .remove => True

/-- Every step that another step follows is safe. -/
def Orderly (key : String) : List Step → Prop
  | [] => True
  | [_] => True
  | step :: next :: steps => step.Safe key ∧ Orderly key (next :: steps)

/-- No line of the text is the header of the adapter's table, as the editor spells it. -/
def Headless (text key : List Char) : Prop :=
  ∀ line ∈ splitInclusive '\n' text, trimTomlLine line ∉ tableHeaderCandidates key

/-! ### Padding -/

section Padding

variable {text key : List Char}

theorem endsWith_iff {tail : List Char} : endsWith text tail = true ↔ tail <:+ text :=
  isSuffixOf_iff_suffix

theorem nil_not_mem_candidates (key : List Char) : [] ∉ tableHeaderCandidates key := by
  have solid : ∀ name : List Char, tableHeader name ≠ [] := fun name =>
    append_ne_nil_of_right_ne_nil _ (cons_ne_nil _ _)
  intro member
  rw [tableHeaderCandidates, mem_append, mem_singleton] at member
  rcases member with plain | quoted
  · split_ifs at plain
    · exact solid _ (mem_singleton.mp plain).symm
    · cases plain
  · exact solid _ quoted.symm

/-- A line end behind a text brings no header. -/
theorem headless_snoc (headless : Headless text key) : Headless (text ++ ['\n']) key := by
  intro line member
  rcases splitInclusive_snoc '\n' text with alone | ⟨parts, last, whole, longer⟩
  · rw [alone, mem_append, mem_singleton] at member
    rcases member with old | new
    · exact headless line old
    · rw [new]
      exact nil_not_mem_candidates key
  · rw [longer, mem_append, mem_singleton] at member
    rcases member with old | new
    · exact headless line (by rw [whole]; exact mem_append_left _ old)
    · have same : trimTomlLine (last ++ ['\n']) = trimTomlLine last := by
        rw [trimTomlLine, trimTomlLine, trimChars_concat (by decide)]
      rw [new, same]
      exact headless last (by rw [whole]; exact mem_append_right _ mem_cons_self)

variable (free : '\r' ∉ text)

include free

theorem detectNewline_of_free : detectNewline text = ['\n'] := by
  rw [detectNewline, find, cut_eq_none free]
  rfl

theorem padding_eq : ∃ count ≤ 2, padding text = List.replicate count '\n' := by
  rw [padding, detectNewline_of_free free]
  dsimp only
  split_ifs
  · exact ⟨0, by omega, rfl⟩
  · exact ⟨0, by omega, rfl⟩
  · exact ⟨1, by omega, rfl⟩
  · exact ⟨1, by omega, rfl⟩
  · exact ⟨2, by omega, rfl⟩

theorem not_mem_padded {char : Char} (absent : char ∉ text) (other : char ≠ '\n') :
    char ∉ padded text := by
  obtain ⟨count, -, same⟩ := padding_eq free
  rw [padded, mem_append, not_or, same]
  exact ⟨absent, fun member => other (eq_of_mem_replicate member)⟩

/-- A padded text is empty or ends in an empty line. -/
theorem padded_ends : padded text = [] ∨ ['\n', '\n'] <:+ padded text := by
  rw [padded, padding, detectNewline_of_free free]
  dsimp only
  by_cases empty : text = []
  · left
    rw [if_pos empty, empty]
    rfl
  · right
    rw [if_neg empty]
    -- with the first line end the text ends in one
    obtain ⟨first, isFirst, front, closed⟩ : ∃ first,
        (if endsWith text ['\n'] = true then [] else ['\n']) = first ∧
          ∃ front, text ++ first = front ++ ['\n'] := by
      by_cases ends : endsWith text ['\n'] = true
      · obtain ⟨front, shape⟩ := endsWith_iff.mp ends
        exact ⟨[], if_pos ends, front, by rw [append_nil, shape]⟩
      · exact ⟨['\n'], if_neg ends, text, rfl⟩
    rw [isFirst, ← List.append_assoc]
    by_cases ends : endsWith (text ++ first) (['\n'] ++ ['\n']) = true
    · rw [if_pos ends, append_nil]
      exact endsWith_iff.mp ends
    · rw [if_neg ends, closed, List.append_assoc]
      exact suffix_append _ _

theorem padding_padded : padding (padded text) = [] := by
  have line := detectNewline_of_free (not_mem_padded free free (by decide))
  rcases padded_ends free with empty | ends
  · rw [empty]
    rfl
  · have one : ['\n'] <:+ padded text := (suffix_cons '\n' ['\n']).trans ends
    rw [padding, line]
    dsimp only
    rw [if_pos (endsWith_iff.mpr one), append_nil, singleton_append, if_pos (endsWith_iff.mpr ends)]
    split_ifs
    · rfl
    · rfl

theorem padded_closed : padded text = [] ∨ (padded text).getLast? = some '\n' := by
  rcases padded_ends free with empty | ⟨front, shape⟩
  · exact .inl empty
  · right
    rw [← shape, List.getLast?_append]
    rfl

theorem begin_not_infix_padded (bare : isBareTomlKey key = true)
    (unmarked : ¬beginMarker key <:+: text) : ¬beginMarker key <:+: padded text := by
  obtain ⟨count, -, same⟩ := padding_eq free
  rw [padded, same]
  cases count with
  | zero => rwa [replicate_zero, append_nil]
  | succ count =>
    intro occurs
    rw [replicate_succ] at occurs
    rcases infix_of_separated (newline_not_mem_begin bare) occurs with inText | inLines
    · exact unmarked inText
    · have hash : '#' ∈ beginMarker key := by
        rw [beginMarker_cons]
        exact mem_cons_self
      exact absurd (eq_of_mem_replicate (inLines.subset hash)) (by decide)

theorem headless_padded (headless : Headless text key) : Headless (padded text) key := by
  obtain ⟨count, -, same⟩ := padding_eq free
  rw [padded, same]
  clear same
  induction count with
  | zero => rwa [replicate_zero, append_nil]
  | succ count ih =>
    rw [replicate_succ', ← List.append_assoc]
    exact headless_snoc ih

end Padding

/-! ### URLs -/

section Urls

variable {key serverUrl : List Char}

/-- What has no character to escape occurs in a written URL only where it occurs in the URL. -/
theorem prefix_of_escaped {needle : List Char} (free : '\\' ∉ needle) (unquoted : '"' ∉ needle)
    (opens : needle <+: serverUrl.flatMap escapeChar ++ ['"']) : needle <+: serverUrl := by
  induction needle generalizing serverUrl with
  | nil => exact List.nil_prefix
  | cons symbol needle ih =>
    rw [mem_cons, not_or] at free unquoted
    cases serverUrl with
    | nil =>
      rw [flatMap_nil, nil_append, cons_prefix_cons] at opens
      exact absurd opens.1.symm unquoted.1
    | cons written serverUrl =>
      rw [flatMap_cons] at opens
      rcases escapeChar_read written with ⟨plain, -⟩ | ⟨letter, escaped, -⟩
      · rw [plain, List.append_assoc, singleton_append, cons_prefix_cons] at opens
        rw [opens.1, cons_prefix_cons]
        exact ⟨rfl, ih free.2 unquoted.2 opens.2⟩
      · rw [escaped, List.append_assoc, cons_append, cons_prefix_cons] at opens
        exact absurd opens.1.symm free.1

/-- A marker that occurs in a written URL occurs in the URL. -/
theorem infix_of_escaped {needle : List Char} (free : '\\' ∉ '#' :: needle)
    (unquoted : '"' ∉ '#' :: needle)
    (occurs : '#' :: needle <:+: serverUrl.flatMap escapeChar ++ ['"']) :
    '#' :: needle <:+: serverUrl := by
  induction serverUrl with
  | nil =>
    rw [flatMap_nil, nil_append] at occurs
    exact absurd (mem_singleton.mp (occurs.subset mem_cons_self)) (by decide)
  | cons written serverUrl ih =>
    rw [flatMap_cons] at occurs
    rcases escapeChar_read written with ⟨plain, -⟩ | ⟨letter, escaped, value⟩
    · rw [plain, List.append_assoc, singleton_append, infix_cons_iff] at occurs
      rcases occurs with opens | later
      · have whole := @prefix_of_escaped (written :: serverUrl) _ free unquoted (by
          rw [flatMap_cons, plain, List.append_assoc, singleton_append]
          exact opens)
        exact whole.isInfix
      · exact infix_cons (ih later)
    · rw [escaped, List.append_assoc, cons_append, singleton_append,
        infix_cons_iff, infix_cons_iff, cons_prefix_cons,
        cons_prefix_cons] at occurs
      rcases occurs with opens | opens | later
      · exact absurd opens.1 (by decide)
      · rw [← opens.1] at value
        cases value
      · exact infix_cons (ih later)

end Urls

/-! ### Blocks -/

section Blocks

variable {key below line url : List Char} {char : Char}

theorem ownHeaders_line (dark : isWhitespace char = false) (other : char ≠ '[')
    (free : '\n' ∉ char :: line) (own : OwnHeaders key below) :
    OwnHeaders key (char :: line ++ '\n' :: below) := by
  intro found member looks
  rw [splitInclusive_part free, mem_cons] at member
  rcases member with here | later
  · rw [here, cons_append, looksLike_eq_false dark other] at looks
    cases looks
  · exact own found later looks

theorem endMarker_free (key : List Char) (free : '#' ∉ line) : ¬endMarker key <:+: line := by
  intro occurs
  apply free
  apply occurs.subset
  rw [endMarker_cons]
  exact mem_cons_self

variable (bare : isBareTomlKey key = true)

include bare

theorem not_mem_tableHeader (words : char ∉ headerWords)
    (bracket : char ≠ ']')
    (foreign : (isAsciiAlphanumeric char || char = '-' || char = '_') = false) :
    char ∉ tableHeader key := by
  rw [tableHeader_eq, mem_append, mem_append, mem_singleton]
  rintro ((inWords | inKey) | closes)
  · exact words inWords
  · exact not_mem_bare bare foreign inKey
  · exact bracket closes

theorem isWhitespace_tableHeader : ∀ char ∈ tableHeader key, isWhitespace char = false := by
  have words : ∀ char ∈ headerWords, isWhitespace char = false :=
    forall_mem_of_all (by decide)
  intro char member
  rw [tableHeader_eq, mem_append, mem_append, mem_singleton] at member
  rcases member with (inWords | inKey) | rfl
  · exact words char inWords
  · rw [isBareTomlKey, Bool.and_eq_true, List.all_eq_true] at bare
    have allowed := bare.2 char inKey
    rw [Bool.or_eq_true, Bool.or_eq_true, decide_eq_true_iff, decide_eq_true_iff] at allowed
    rcases allowed with (alphanumeric | rfl) | rfl
    · exact isWhitespace_of_isAsciiAlphanumeric alphanumeric
    · decide
    · decide
  · decide

theorem trim_tableHeader : trimTomlLine (tableHeader key ++ ['\n']) = tableHeader key := by
  have uncommented : '#' ∉ tableHeader key :=
    not_mem_tableHeader bare (by decide) (by decide) (by decide)
  rw [trimTomlLine, trimChars_concat (by decide),
    trimChars_eq_self (isWhitespace_tableHeader bare), beforeComment_free .plain uncommented]

/-- The lines above the URL bring no header but the adapter's own. -/
theorem ownHeaders_upper (own : OwnHeaders key below) : OwnHeaders key (upperLines key ++ below) := by
  have note : noteLine = '#' :: noteLine.tail := by decide
  have closed : '\n' ∉ tableHeader key :=
    not_mem_tableHeader bare (by decide) (by decide) (by decide)
  intro line member looks
  rw [upperLines, formatTomlTableKey, if_pos bare, List.append_assoc, cons_append,
    List.append_assoc, singleton_append, splitInclusive_part (by decide),
    splitInclusive_part closed, mem_cons, mem_cons] at member
  rcases member with isNote | isHeader | later
  · rw [isNote, note, cons_append, looksLike_eq_false (by decide) (by decide)] at looks
    cases looks
  · rw [isHeader, trim_tableHeader bare, tableHeaderCandidates, if_pos bare]
    exact mem_cons_self
  · exact own line later looks

/-- No end marker stands above the URL. -/
theorem endMarker_not_infix_upper (free : ¬endMarker key <:+: below) :
    ¬endMarker key <:+: upperLines key ++ below := by
  have note : noteLine = '#' :: noteLine.tail := by decide
  have once : ¬endMarker key <:+: '#' :: noteLine.tail :=
    endMarker_not_infix (by decide) (by decide)
  rw [upperLines, formatTomlTableKey, if_pos bare, List.append_assoc, cons_append,
    List.append_assoc, singleton_append]
  intro occurs
  rcases infix_of_separated (newline_not_mem_end bare) occurs with inNote | occurs
  · rw [note] at inNote
    exact once inNote
  · rcases infix_of_separated (newline_not_mem_end bare) occurs with inHeader | inBelow
    · exact endMarker_free key
        (not_mem_tableHeader bare (by decide) (by decide) (by decide)) inHeader
    · exact free inBelow

theorem not_mem_endMarker (words : char ∉ endWords)
    (foreign : (isAsciiAlphanumeric char || char = '-' || char = '_') = false) :
    char ∉ endMarker key := by
  rw [endMarker_eq, mem_append, not_or]
  exact ⟨words, not_mem_bare bare foreign⟩

theorem escape_endMarker : (endMarker key).flatMap escapeChar = endMarker key := by
  have plain : ∀ char ∈ endMarker key, escapeChar char = [char] := by
    intro char member
    have other : ∀ escaped ∉ endWords,
        (isAsciiAlphanumeric escaped || escaped = '-' || escaped = '_') = false → char ≠ escaped :=
      fun _ words foreign same => not_mem_endMarker bare words foreign (same ▸ member)
    rw [escapeChar, if_neg (other _ (by decide) (by decide)), if_neg (other _ (by decide) (by decide)),
      if_neg (other _ (by decide) (by decide)), if_neg (other _ (by decide) (by decide)),
      if_neg (other _ (by decide) (by decide))]
  rw [flatMap_congr plain, flatMap_singleton']

/-- The end marker is written into the line of a URL as it is. -/
theorem endMarker_infix_urlLine : endMarker key <:+: urlLine url ↔ endMarker key <:+: url := by
  have unquoted : '"' ∉ endMarker key := not_mem_endMarker bare (by decide) (by decide)
  have free : '\\' ∉ endMarker key := not_mem_endMarker bare (by decide) (by decide)
  constructor
  · intro occurs
    rw [urlLine, tomlBasicString, cons_append] at occurs
    rcases infix_of_separated unquoted occurs with inWords | inUrl
    · exact absurd inWords (endMarker_free key (by decide))
    · rw [endMarker_cons] at inUrl free unquoted ⊢
      exact infix_of_escaped free unquoted inUrl
  · rintro ⟨front, back, rfl⟩
    rw [urlLine, tomlBasicString, flatMap_append, flatMap_append, escape_endMarker bare]
    refine ⟨urlWords ++ '"' :: front.flatMap escapeChar, back.flatMap escapeChar ++ ['"'], ?_⟩
    simp only [List.append_assoc, cons_append]

variable {configPath : String} {before existing : List Char}
  (unmarked : ¬beginMarker key <:+: before) (closed : before = [] ∨ before.getLast? = some '\n')
  (shape : existing = before ++ buildTomlMcpServerBlock key url ['\n'])

include unmarked closed shape

/-- A block whose URL has no end marker is found as it was written. -/
theorem locate_block (safe : ¬endMarker key <:+: url) :
    locateTomlManagedBlock existing key configPath =
      .ok (some (.exact before.length existing.length)) := by
  have words : urlLine url = 'u' :: (urlLine url).tail := rfl
  have enabled : enabledLine = 'e' :: enabledLine.tail := by decide
  have timeout : timeoutLine = 's' :: timeoutLine.tail := by decide
  have unended : ¬endMarker key <:+: upperLines key ++ (urlLine url ++ '\n' :: (enabledLine ++
      '\n' :: (timeoutLine ++ '\n' :: []))) := by
    apply endMarker_not_infix_upper bare
    intro occurs
    rcases infix_of_separated (newline_not_mem_end bare) occurs with inUrl | occurs
    · exact safe ((endMarker_infix_urlLine bare).mp inUrl)
    · rcases infix_of_separated (newline_not_mem_end bare) occurs with inLine | occurs
      · exact endMarker_free key (by decide) inLine
      · rcases infix_of_separated (newline_not_mem_end bare) occurs with inLine | atEnd
        · exact endMarker_free key (by decide) inLine
        · exact endMarker_free key not_mem_nil atEnd
  have own : OwnHeaders key (upperLines key ++ (urlLine url ++ '\n' :: (enabledLine ++
      '\n' :: (timeoutLine ++ '\n' :: [])))) := by
    apply ownHeaders_upper bare
    rw [words]
    apply ownHeaders_line (by decide) (by decide) (by rw [← words]; exact not_mem_urlLine (.inl rfl))
    rw [enabled]
    apply ownHeaders_line (by decide) (by decide) (by decide)
    rw [timeout]
    apply ownHeaders_line (by decide) (by decide) (by decide)
    exact nofun
  have located := @locate_marked key before _ [] [] configPath existing bare unmarked closed unended
    own not_mem_nil (by
      rw [shape, buildToml_eq, lowerLines]
      simp only [List.append_assoc, cons_append, nil_append])
  rwa [length_nil, Nat.sub_zero] at located

/-- A block whose URL has an end marker ends with the line of the URL. -/
theorem locate_block_early (ended : endMarker key <:+: url) :
    locateTomlManagedBlock existing key configPath =
      .ok (some (.exact before.length (existing.length - (lowerLines key).length))) := by
  obtain ⟨early, later, occurs⟩ := (endMarker_infix_urlLine bare).mpr ended
  obtain ⟨⟨front, back⟩, found⟩ : ∃ parts, cut (endMarker key) (urlLine url) = some parts := by
    rw [← occurs]
    exact exists_cut_of_infix early later
  have line := eq_append_of_cut found
  have solid : endMarker key ≠ [] := by
    rw [endMarker_cons]
    exact cons_ne_nil _ _
  -- what is left of the URL's line before the marker opens with its first letter
  obtain ⟨rest, opens⟩ : ∃ rest, front = 'u' :: rest := by
    cases front with
    | nil =>
      rw [nil_append, endMarker_cons] at line
      have first : some 'u' = some '#' := congrArg List.head? line
      exact absurd first (by decide)
    | cons letter rest =>
      have first : some 'u' = some letter := congrArg List.head? line
      exact ⟨rest, by rw [Option.some_inj.mp first]⟩
  have newline : '\n' ∉ urlLine url := not_mem_urlLine (.inl rfl)
  rw [line, mem_append, mem_append, not_or, not_or] at newline
  have own : OwnHeaders key (upperLines key ++ front) := by
    apply ownHeaders_upper bare
    intro found member looks
    rw [splitInclusive_free newline.1.1 (by rw [opens]; exact cons_ne_nil _ _),
      mem_singleton] at member
    rw [member, opens, looksLike_eq_false (by decide) (by decide)] at looks
    cases looks
  exact locate_marked bare unmarked closed
    (endMarker_not_infix_upper bare (not_infix_of_cut solid found)) own newline.2 (by
      rw [shape, buildToml_eq, line]
      simp only [List.append_assoc])

end Blocks

/-! ### Steps -/

section Steps

variable {key configPath existing : String} {before middle behind : List Char}

def Step.block (key existing : String) : Step → List Char
  | .apply serverUrl =>
    buildTomlMcpServerBlock key.toList serverUrl.toList (detectNewline existing.toList)
  | .remove => []

theorem run_marked (step : Step) (shape : existing.toList = before ++ (middle ++ behind))
    (located : locateTomlManagedBlock existing.toList key.toList configPath =
      .ok (some (.exact before.length (existing.toList.length - behind.length)))) :
    ∃ update, step.run key configPath existing = .ok update ∧
      update.contents.toList = before ++ (step.block key existing ++ behind) := by
  have planned : (step.operation key existing).plan existing.toList key.toList configPath =
      .ok (replacing existing.toList before.length (existing.toList.length - behind.length)
        (step.block key existing)) := by
    cases step with
    | apply serverUrl =>
      rw [Step.operation, Operation.plan, planToml, located, String.toList_ofList]
      rfl
    | remove =>
      rw [Step.operation, Operation.plan, planTomlRemoval, located]
      rfl
  refine ⟨_, run_of_plan planned, ?_⟩
  have tail : slice existing.toList (existing.toList.length - behind.length)
      existing.toList.length = behind := by
    rw [slice, take_length, shape, ← List.append_assoc]
    exact drop_left' (by simp only [List.length_append]; omega)
  have front : slice existing.toList 0 before.length = before := by
    rw [slice, shape, take_left, drop_zero]
  rw [Plan.update, String.toList_ofList, replacing, Plan.contents]
  simp only [flatMap_cons, flatMap_nil, Part.render, tail, front, append_nil]

variable {name : List Char}

theorem locate_unmarked {text : List Char} (unmarked : ¬beginMarker name <:+: text) :
    locateTomlManagedBlock text name configPath = .ok none := by
  rw [locateTomlManagedBlock, locateMarkers, find, cut_eq_none_iff.mpr unmarked]
  rfl

theorem run_remove_unmarked (unmarked : ¬beginMarker key.toList <:+: existing.toList) :
    ∃ update, Step.remove.run key configPath existing = .ok update ∧
      update.contents = existing := by
  have planned : (Step.remove.operation key existing).plan existing.toList key.toList configPath =
      .ok (unchanged existing.toList) := by
    rw [Step.operation, Operation.plan, planTomlRemoval, locate_unmarked unmarked]
    rfl
  refine ⟨_, run_of_plan planned, ?_⟩
  rw [Plan.update, unchanged, Plan.contents, flatMap_cons, flatMap_nil, append_nil,
    Part.render, slice, take_length, drop_zero, String.ofList_toList]

theorem run_apply_unmarked (serverUrl : String)
    (unmarked : ¬beginMarker key.toList <:+: existing.toList)
    (headless : Headless existing.toList key.toList) :
    ∃ update, (Step.apply serverUrl).run key configPath existing = .ok update ∧
      update.contents.toList = padded existing.toList ++
        (Step.apply serverUrl).block key existing := by
  have absent : locateTomlMcpServersTableBlock existing.toList key.toList = none := by
    rw [locateTable_eq, ← append_nil (splitInclusive _ _), tableLoop_skip headless]
    rfl
  have planned : ((Step.apply serverUrl).operation key existing).plan existing.toList key.toList
      configPath = .ok ⟨[.kept 0 existing.toList.length, .added (padding existing.toList),
        .added ((Step.apply serverUrl).block key existing)], false⟩ := by
    rw [Step.operation, Operation.plan, planToml_append (locate_unmarked unmarked) absent,
      String.toList_ofList]
    rfl
  refine ⟨_, run_of_plan planned, ?_⟩
  rw [Plan.update, String.toList_ofList, Plan.contents]
  simp only [flatMap_cons, flatMap_nil, Part.render, slice, take_length,
    drop_zero, append_nil, padded, List.append_assoc]

theorem looksLike_tableHeader (name : List Char) :
    looksLikeTomlTableHeader (tableHeader name) = true := by
  have words : headerWords = '[' :: headerWords.tail := by decide
  rw [looksLikeTomlTableHeader, tableHeader_eq, List.getLast?_append, words]
  rfl

theorem looksLike_candidate {line : List Char} (member : line ∈ tableHeaderCandidates name) :
    looksLikeTomlTableHeader line = true := by
  rw [tableHeaderCandidates, mem_append, mem_singleton] at member
  rcases member with plain | quoted
  · split_ifs at plain
    · rw [mem_singleton.mp plain]
      exact looksLike_tableHeader name
    · cases plain
  · rw [quoted]
    exact looksLike_tableHeader _

theorem block_cons (serverUrl : String) :
    ∃ rest, (Step.apply serverUrl).block key existing = '#' :: rest := by
  rw [Step.block, buildTomlMcpServerBlock, beginMarker_cons, List.intercalate]
  exact ⟨_, rfl⟩

/-- An installation into a text without a marker that has a line the editor takes for the header:
the block stands where the line did, which opens differently. -/
theorem run_apply_table (serverUrl : String)
    (unmarked : ¬beginMarker key.toList <:+: existing.toList)
    (headed : ¬Headless existing.toList key.toList) :
    ∃ update, (Step.apply serverUrl).run key configPath existing = .ok update ∧
      ¬existing.toList <+: update.contents.toList := by
  have present : ((splitInclusive '\n' existing.toList).find? (fun line =>
      trimTomlLine line ∈ tableHeaderCandidates key.toList)).isSome := by
    rw [List.find?_isSome]
    rw [Headless] at headed
    push Not at headed
    obtain ⟨line, member, isHeader⟩ := headed
    exact ⟨line, member, decide_eq_true isHeader⟩
  obtain ⟨line, found⟩ := Option.isSome_iff_exists.mp present
  obtain ⟨reads, early, later, lines, unread⟩ := List.find?_eq_some_iff_append.mp found
  have isHeader := of_decide_eq_true reads
  have skipped : ∀ line ∈ early, trimTomlLine line ∉ tableHeaderCandidates key.toList := by
    intro other member same
    simpa [same] using unread other member
  have text : existing.toList = early.flatten ++ (line ++ later.flatten) := by
    rw [← flatten_splitInclusive '\n' existing.toList, lines, flatten_append, flatten_cons]
  -- the line opens with a blank or a bracket
  obtain ⟨opening, rest, isLine, other⟩ : ∃ opening rest, line = opening :: rest ∧
      opening ≠ '#' := by
    cases line with
    | nil => exact absurd isHeader (nil_not_mem_candidates key.toList)
    | cons opening rest =>
      refine ⟨opening, rest, rfl, ?_⟩
      rintro rfl
      have looks := looksLike_candidate isHeader
      rw [looksLike_eq_false (by decide) (by decide)] at looks
      cases looks
  obtain ⟨stop, located⟩ : ∃ stop, locateTomlMcpServersTableBlock existing.toList key.toList =
      some (early.flatten.length, stop) := by
    rw [locateTable_eq, lines, tableLoop_skip skipped, tableLoop, if_pos (by simpa using isHeader),
      Nat.zero_add]
    exact tableLoop_open _ _ _ _ _
  have planned : ((Step.apply serverUrl).operation key existing).plan existing.toList key.toList
      configPath = .ok (replacing existing.toList early.flatten.length stop
        ((Step.apply serverUrl).block key existing)) := by
    rw [Step.operation, Operation.plan, planToml_table (locate_unmarked unmarked) located,
      String.toList_ofList]
    rfl
  refine ⟨_, run_of_plan planned, ?_⟩
  obtain ⟨tail, block⟩ := @block_cons key existing serverUrl
  have front : slice existing.toList 0 early.flatten.length = early.flatten := by
    rw [slice, text, take_left, drop_zero]
  rw [Plan.update, String.toList_ofList, replacing, Plan.contents, block]
  simp only [flatMap_cons, flatMap_nil, Part.render, front]
  intro whole
  rw [text, prefix_append_right_inj, isLine, cons_append, cons_append, cons_prefix_cons] at whole
  exact other whole.1

end Steps

/-! ### Runs -/

section Runs

variable {text key configPath existing : String} {recent : Option String} {steps : List Step}

theorem carriage_not_mem_block (bare : isBareTomlKey key.toList = true) (url : List Char) :
    '\r' ∉ buildTomlMcpServerBlock key.toList url ['\n'] := by
  have header : '\r' ∉ tableHeader key.toList :=
    not_mem_tableHeader bare (by decide) (by decide) (by decide)
  have opens : '\r' ∉ beginMarker key.toList := by
    rw [beginMarker_eq, mem_append, not_or]
    exact ⟨by decide, not_mem_bare bare (by decide)⟩
  have closes : '\r' ∉ endMarker key.toList :=
    not_mem_endMarker bare (by decide) (by decide)
  have line : '\r' ∉ urlLine url := not_mem_urlLine (.inr rfl)
  have note : '\r' ∉ noteLine := by decide
  have enabled : '\r' ∉ enabledLine := by decide
  have timeout : '\r' ∉ timeoutLine := by decide
  rw [buildToml_eq, upperLines, lowerLines, formatTomlTableKey, if_pos bare]
  simp [header, opens, closes, line, note, enabled, timeout]

/-- The text, padded or not. -/
def Plain (text existing : String) : Prop :=
  existing.toList = text.toList ∨ existing.toList = padded text.toList

/-- The padded text and a block. -/
def Blocked (text key existing serverUrl : String) : Prop :=
  existing.toList = padded text.toList ++ buildTomlMcpServerBlock key.toList serverUrl.toList ['\n']

/-- What holds of the text through all edits. -/
structure Editable (text key : String) : Prop where
  lineEnds : '\r' ∉ text.toList
  bare : isBareTomlKey key.toList = true
  unmarked : ¬beginMarker key.toList <:+: text.toList

section

variable (editable : Editable text key)

include editable

section

variable (plain : Plain text existing)

include plain

theorem Plain.padded :
    padded existing.toList = ConfigEdit.padded text.toList := by
  rcases plain with same | same
  · rw [same]
  · rw [same, ConfigEdit.padded, padding_padded editable.lineEnds, append_nil]

theorem Plain.unmarked :
    ¬beginMarker key.toList <:+: existing.toList := by
  rcases plain with same | same
  · rw [same]
    exact editable.unmarked
  · rw [same]
    exact begin_not_infix_padded editable.lineEnds editable.bare editable.unmarked

theorem Plain.lineEnds : detectNewline existing.toList = ['\n'] := by
  apply detectNewline_of_free
  rcases plain with same | same
  · rw [same]
    exact editable.lineEnds
  · rw [same]
    exact not_mem_padded editable.lineEnds editable.lineEnds (by decide)

theorem Plain.headless (headless : Headless text.toList key.toList) :
    Headless existing.toList key.toList := by
  rcases plain with same | same
  · rwa [same]
  · rw [same]
    exact headless_padded editable.lineEnds headless

theorem plain_apply (headless : Headless text.toList key.toList) (serverUrl : String) :
    ∃ update, (Step.apply serverUrl).run key configPath existing = .ok update ∧
      Blocked text key update.contents serverUrl := by
  obtain ⟨update, ran, contents⟩ := @run_apply_unmarked key configPath existing serverUrl
    (plain.unmarked editable) (plain.headless editable headless)
  refine ⟨update, ran, ?_⟩
  rw [Blocked, contents, plain.padded editable, Step.block, plain.lineEnds editable]

end

variable {serverUrl : String} (blocked : Blocked text key existing serverUrl)

include blocked

theorem Blocked.lineEnds : detectNewline existing.toList = ['\n'] := by
  apply detectNewline_of_free
  rw [blocked, mem_append, not_or]
  exact ⟨not_mem_padded editable.lineEnds editable.lineEnds (by decide),
    carriage_not_mem_block editable.bare _⟩

/-- A step behind a safe installation replaces the block. -/
theorem blocked_step (safe : (Step.apply serverUrl).Safe key) (step : Step) :
    ∃ update, step.run key configPath existing = .ok update ∧
      update.contents.toList = padded text.toList ++ step.block key existing := by
  have located : locateTomlManagedBlock existing.toList key.toList configPath = _ :=
    locate_block editable.bare
      (begin_not_infix_padded editable.lineEnds editable.bare editable.unmarked)
      (padded_closed editable.lineEnds) blocked safe
  have shape : existing.toList = padded text.toList ++
      (buildTomlMcpServerBlock key.toList serverUrl.toList ['\n'] ++ []) := by
    rw [blocked, append_nil]
  obtain ⟨update, ran, contents⟩ := run_marked step shape located
  exact ⟨update, ran, by rw [contents, append_nil]⟩

/-- A step behind another installation leaves the lines below the URL. -/
theorem blocked_step_early (ended : ¬(Step.apply serverUrl).Safe key) (step : Step) :
    ∃ update, step.run key configPath existing = .ok update ∧
      update.contents.toList =
        padded text.toList ++ (step.block key existing ++ lowerLines key.toList) := by
  have located : locateTomlManagedBlock existing.toList key.toList configPath = _ :=
    locate_block_early editable.bare
      (begin_not_infix_padded editable.lineEnds editable.bare editable.unmarked)
      (padded_closed editable.lineEnds) blocked (not_not.mp ended)
  have shape : existing.toList = padded text.toList ++ ((beginMarker key.toList ++ '\n' ::
      (upperLines key.toList ++ (urlLine serverUrl.toList ++ ['\n']))) ++ lowerLines key.toList) := by
    rw [blocked, buildToml_eq]
    simp only [List.append_assoc, cons_append, nil_append]
  exact run_marked step shape located

/-- What is left of a block that was closed too early fits no shape. -/
theorem not_shape_early (step : Step) :
    ¬Shape text.toList key.toList (step.recent (some serverUrl))
      (padded text.toList ++ (step.block key existing ++ lowerLines key.toList)) := by
  have left : 0 < (lowerLines key.toList).length := by
    rw [lowerLines, List.length_append, length_cons]
    omega
  have long : text.toList.length ≤ (padded text.toList).length := by
    rw [padded, List.length_append]
    omega
  rintro (same | same | ⟨applied, isApplied, same⟩)
  · have lengths := congrArg List.length same
    simp only [List.length_append] at lengths
    omega
  · have lengths := congrArg List.length same
    simp only [List.length_append] at lengths
    omega
  · have lengths := congrArg List.length (append_cancel_left same)
    rw [List.length_append] at lengths
    cases step with
    | apply url =>
      cases isApplied
      rw [Step.block, blocked.lineEnds editable] at lengths
      omega
    | remove =>
      cases isApplied
      rw [Step.block, buildToml_eq] at lengths
      simp only [List.length_append, length_cons, length_nil] at lengths
      omega

end

theorem Plain.shape (plain : Plain text existing) :
    Shape text.toList key.toList recent existing.toList := by
  rcases plain with same | same
  · exact .inl same
  · exact .inr (.inl same)

/-- Every shape continues the text. -/
theorem prefix_of_shape {text key contents : List Char}
    (shape : Shape text key recent contents) : text <+: contents := by
  rcases shape with same | same | ⟨serverUrl, -, same⟩
  · rw [same]
  · rw [same]
    exact prefix_append _ _
  · rw [same, padded, List.append_assoc]
    exact prefix_append _ _

variable {step : Step}

/-- A run goes on from what its first step returns. -/
theorem clean_cons {update : ClientConfigUpdate}
    (ran : step.run key configPath existing = .ok update) :
    Clean text key configPath existing recent (step :: steps) ↔
      Shape text.toList key.toList (step.recent recent) update.contents.toList ∧
        Clean text key configPath update.contents (step.recent recent) steps := by
  constructor
  · rintro ⟨other, same, shape, later⟩
    rw [ran] at same
    cases same
    exact ⟨shape, later⟩
  · rintro ⟨shape, later⟩
    exact ⟨update, ran, shape, later⟩

theorem orderly_cons_of_safe (safe : step.Safe key) :
    Orderly key (step :: steps) ↔ Orderly key steps := by
  cases steps with
  | nil => exact Iff.rfl
  | cons next steps => exact and_iff_right safe

theorem orderly_remove : Orderly key (.remove :: steps) ↔ Orderly key steps :=
  orderly_cons_of_safe (show Step.Safe key .remove from trivial)

/-- Step by step: a run from the text is clean when it is orderly, and a run from a block when it is
orderly behind the installation of that block. -/
theorem clean_iff_orderly (editable : Editable text key)
    (headless : Headless text.toList key.toList) (steps : List Step) :
    (∀ existing recent, Plain text existing →
      (Clean text key configPath existing recent steps ↔ Orderly key steps)) ∧
    (∀ existing serverUrl, Blocked text key existing serverUrl →
      (Clean text key configPath existing (some serverUrl) steps ↔
        Orderly key (.apply serverUrl :: steps))) := by
  induction steps with
  | nil => exact ⟨fun _ _ _ => Iff.rfl, fun _ _ _ => Iff.rfl⟩
  | cons step steps ih =>
    obtain ⟨fromPlain, fromBlock⟩ := ih
    constructor
    · intro existing recent plain
      cases step with
      | apply serverUrl =>
        obtain ⟨update, ran, blocked⟩ :=
          @plain_apply text key configPath existing editable plain headless serverUrl
        rw [clean_cons ran, Step.recent, fromBlock _ _ blocked, and_iff_right]
        exact .inr (.inr ⟨serverUrl, rfl, blocked⟩)
      | remove =>
        obtain ⟨update, ran, contents⟩ :=
          @run_remove_unmarked key configPath existing (plain.unmarked editable)
        rw [clean_cons ran, contents, fromPlain _ _ plain, and_iff_right plain.shape,
          orderly_remove]
    · intro existing serverUrl blocked
      by_cases safe : (Step.apply serverUrl).Safe key
      · rw [orderly_cons_of_safe safe]
        obtain ⟨update, ran, contents⟩ :=
          @blocked_step text key configPath existing editable serverUrl blocked safe step
        rw [clean_cons ran]
        cases step with
        | apply url =>
          rw [Step.block, blocked.lineEnds editable] at contents
          rw [Step.recent, fromBlock _ _ contents, and_iff_right]
          exact .inr (.inr ⟨url, rfl, contents⟩)
        | remove =>
          rw [Step.block, append_nil] at contents
          rw [fromPlain _ _ (.inr contents), and_iff_right (.inr (.inl contents)), orderly_remove]
      · obtain ⟨update, ran, contents⟩ :=
          @blocked_step_early text key configPath existing editable serverUrl blocked safe step
        rw [clean_cons ran, contents]
        constructor
        · intro clean
          exact absurd clean.1 (not_shape_early editable blocked step)
        · intro orderly
          exact absurd orderly.1 safe

/-- Where the text has a line the editor takes for the table's header, a run is clean until the
first installation. -/
theorem clean_iff_removals (editable : Editable text key)
    (headed : ¬Headless text.toList key.toList) (steps : List Step) :
    Clean text key configPath text none steps ↔ ∀ step ∈ steps, step = .remove := by
  induction steps with
  | nil => exact ⟨fun _ => nofun, fun _ => trivial⟩
  | cons step steps ih =>
    rw [forall_mem_cons]
    cases step with
    | apply serverUrl =>
      obtain ⟨update, ran, replaced⟩ :=
        @run_apply_table key configPath text serverUrl editable.unmarked headed
      rw [clean_cons ran]
      constructor
      · intro clean
        exact absurd (prefix_of_shape clean.1) replaced
      · rintro ⟨same, -⟩
        cases same
    | remove =>
      obtain ⟨update, ran, contents⟩ :=
        @run_remove_unmarked key configPath text editable.unmarked
      rw [clean_cons ran, contents, Step.recent, ih, and_iff_right (.inl rfl), and_iff_right rfl]

theorem orderly_of_removals (removals : ∀ step ∈ steps, step = .remove) : Orderly key steps := by
  induction steps with
  | nil => exact trivial
  | cons step steps ih =>
    obtain ⟨first, later⟩ := forall_mem_cons.mp removals
    rw [first, orderly_remove]
    exact ih later

end Runs

/-- Every installation and removal of a bare key returns the text, the text padded by at most two
line ends, or the padded text and one block of the URL applied last, exactly when no URL but that of
the last step holds the end marker, and no line of the text is spelled as the table's header where
anything is installed. -/
theorem tomlCycle_clean_iff (text key configPath : String) (steps : List Step)
    (editable : Editable text key) :
    (∃ count ≤ 2, padding text.toList = List.replicate count '\n') ∧
      (Clean text key configPath text none steps ↔
        ((∃ serverUrl, Step.apply serverUrl ∈ steps) → Headless text.toList key.toList) ∧
          Orderly key steps) := by
  refine ⟨padding_eq editable.lineEnds, ?_⟩
  by_cases headless : Headless text.toList key.toList
  · rw [(clean_iff_orderly editable headless steps).1 text none (.inl rfl)]
    exact (and_iff_right (fun _ => headless)).symm
  · rw [clean_iff_removals editable headless]
    constructor
    · intro removals
      refine ⟨?_, orderly_of_removals removals⟩
      rintro ⟨serverUrl, member⟩
      cases removals _ member
    · rintro ⟨installs, -⟩ step member
      cases step with
      | apply serverUrl => exact absurd (installs ⟨serverUrl, member⟩) headless
      | remove => rfl

/-- Two installations around a removal. -/
theorem tomlCycle_clean_reinstalled :
    Clean "a = 1\n" "k" "config" "a = 1\n" none [.apply "u", .remove, .apply "v"] := by
  have editable : Editable "a = 1\n" "k" :=
    ⟨by decide, by decide, by decide⟩
  apply (tomlCycle_clean_iff "a = 1\n" "k" "config" _ editable).2.mpr
  refine ⟨fun _ => ?_, ?_, trivial, trivial⟩
  · unfold Headless
    decide
  · unfold Step.Safe
    decide

/-- The removal behind an installation whose URL holds the end marker, as the configured host, leaves
a part of the block. -/
theorem tomlCycle_unclean : Editable "" "k" ∧ Headless "".toList "k".toList ∧
    ¬Clean "" "k" "config" "" none
      [.apply "http://[# END MCPACE MANAGED BLOCK: k]:39022/mcp", .remove] := by
  have editable : Editable "" "k" := ⟨by decide, by decide, by decide⟩
  have headless : Headless "".toList "k".toList := nofun
  refine ⟨editable, headless, ?_⟩
  rw [(clean_iff_orderly editable headless _).1 "" none (.inl rfl)]
  rintro ⟨safe, -⟩
  apply safe
  decide

end Mcpace.ConfigEdit
