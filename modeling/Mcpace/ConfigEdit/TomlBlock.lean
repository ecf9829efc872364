import Mcpace.ConfigEdit.Isolation
import Mcpace.Library.Toml

/-!
Owns the managed block of a bare key in a TOML text: its lines, where its markers are found, and the
range the editor takes for it.

A block is closed by the first place of its end marker, wherever on a line that is. The lemmas are
stated for any text between the markers, so that they also speak about a block that is closed too
early.
-/

namespace Mcpace.ConfigEdit

open Library Checks Delimiters List Text

/-! ### Bare keys and markers -/

section Markers

variable {key : List Char}

theorem not_mem_bare {char : Char} (bare : isBareTomlKey key = true)
    (foreign : (isAsciiAlphanumeric char || char = '-' || char = '_') = false) :
    char ∉ key := by
  intro member
  rw [isBareTomlKey, Bool.and_eq_true, List.all_eq_true] at bare
  have allowed := bare.2 char member
  rw [foreign] at allowed
  cases allowed

def beginWords : List Char := "# BEGIN MCPACE MANAGED BLOCK: ".toList

def endWords : List Char := "# END MCPACE MANAGED BLOCK: ".toList

theorem beginMarker_eq (key : List Char) : beginMarker key = beginWords ++ key := rfl

theorem endMarker_eq (key : List Char) : endMarker key = endWords ++ key := rfl

theorem beginMarker_cons (key : List Char) : beginMarker key = '#' :: (beginWords.tail ++ key) := by
  have opens : beginWords = '#' :: beginWords.tail := by decide
  rw [beginMarker_eq, ← cons_append, ← opens]

theorem endMarker_cons (key : List Char) : endMarker key = '#' :: (endWords.tail ++ key) := by
  have opens : endWords = '#' :: endWords.tail := by decide
  rw [endMarker_eq, ← cons_append, ← opens]

section

variable (bare : isBareTomlKey key = true)

include bare

theorem hash_not_mem_begin : '#' ∉ beginWords.tail ++ key := by
  rw [mem_append, not_or]
  exact ⟨by decide, not_mem_bare bare (by decide)⟩

theorem hash_not_mem_end : '#' ∉ endWords.tail ++ key := by
  rw [mem_append, not_or]
  exact ⟨by decide, not_mem_bare bare (by decide)⟩

theorem newline_not_mem_begin : '\n' ∉ beginMarker key := by
  rw [beginMarker_eq, mem_append, not_or]
  exact ⟨by decide, not_mem_bare bare (by decide)⟩

theorem newline_not_mem_end : '\n' ∉ endMarker key := by
  rw [endMarker_eq, mem_append, not_or]
  exact ⟨by decide, not_mem_bare bare (by decide)⟩

end

/-- A line whose only `#` opens it holds an end marker only if it starts with one. -/
theorem endMarker_not_infix {line : List Char} (once : '#' ∉ line)
    (other : ¬endWords <+: '#' :: line) : ¬endMarker key <:+: '#' :: line := by
  rw [infix_cons_iff]
  rintro (opens | occurs)
  · exact other ((prefix_append _ _).trans opens)
  · apply once
    apply occurs.subset
    rw [endMarker_cons]
    exact mem_cons_self

theorem endMarker_not_infix_begin (bare : isBareTomlKey key = true) :
    ¬endMarker key <:+: beginMarker key := by
  rw [beginMarker_cons]
  refine endMarker_not_infix (hash_not_mem_begin bare) ?_
  intro opens
  have early := opens.take 3
  rw [take_succ_cons, take_append_of_le_length (by decide)] at early
  exact absurd early (by decide)

end Markers

/-! ### Lines that are no headers -/

theorem beforeComment_free {line : List Char} (quote : Quote) (free : '#' ∉ line) :
    beforeComment quote line = none := by
  induction line generalizing quote with
  | nil => rfl
  | cons char rest ih =>
    rw [mem_cons, not_or] at free
    rw [beforeComment, if_neg (fun both => free.1 both.2.symm), ih _ free.2]
    rfl

variable {char : Char}

theorem looksLike_eq_false {rest : List Char} (dark : isWhitespace char = false)
    (other : char ≠ '[') : looksLikeTomlTableHeader (trimTomlLine (char :: rest)) = false := by
  obtain ⟨tail, trimmed⟩ : ∃ tail, trimChars (char :: rest) = char :: tail := by
    have opens := Text.head?_trimChars (char :: rest)
    rw [filter_cons_of_pos (by simp [dark]), List.head?_cons, List.head?_eq_some_iff] at opens
    exact opens
  have opens : (trimTomlLine (char :: rest)).head? ≠ some '[' := by
    unfold trimTomlLine
    rw [trimmed]
    dsimp only
    rw [beforeComment]
    split_ifs with comment
    · exact nofun
    · cases beforeComment (Quote.plain.next char) tail with
      | none => exact fun same => other (Option.some_inj.mp same)
      | some front =>
        have shorter := List.rdropWhile_prefix isWhitespace (char :: front)
        intro same
        obtain ⟨more, shape⟩ := List.head?_eq_some_iff.mp same
        dsimp only [Option.map_some] at shape
        rw [shape, cons_prefix_cons] at shorter
        exact other shorter.1.symm
  rw [looksLikeTomlTableHeader, decide_eq_false opens, Bool.false_and]

/-! ### The lines of a block -/

def noteLine : List Char := "# This block is managed by `mcpace advanced client install`.".toList

def enabledLine : List Char := "enabled = true".toList

def timeoutLine : List Char := "startup_timeout_sec = 20".toList

def urlWords : List Char := "url = ".toList

def urlLine (serverUrl : List Char) : List Char := urlWords ++ tomlBasicString serverUrl

def headerWords : List Char := "[mcp_servers.".toList

theorem tableHeader_eq (name : List Char) : tableHeader name = headerWords ++ name ++ [']'] := rfl

/-- What stands between the begin marker's line and the line of the URL. -/
def upperLines (key : List Char) : List Char :=
  noteLine ++ '\n' :: (tableHeader (formatTomlTableKey key) ++ ['\n'])

/-- What stands behind the line of the URL. -/
def lowerLines (key : List Char) : List Char :=
  enabledLine ++ '\n' :: (timeoutLine ++ '\n' :: (endMarker key ++ ['\n']))

theorem buildToml_eq (key serverUrl : List Char) : buildTomlMcpServerBlock key serverUrl ['\n'] =
      beginMarker key ++ '\n' :: (upperLines key ++ (urlLine serverUrl ++ '\n' :: lowerLines key)) := by
  simp only [buildTomlMcpServerBlock, List.intercalate, List.intersperse, flatten_cons,
    flatten_nil, upperLines, lowerLines, List.append_assoc, cons_append, nil_append,
    append_nil]
  rfl

/-- An escaped character is read back. -/
theorem escapeChar_read (written : Char) :
    (escapeChar written = [written] ∧ written ≠ '"' ∧ written ≠ '\\') ∨
      ∃ letter, escapeChar written = ['\\', letter] ∧ Toml.escapeValue letter = some written := by
  rw [escapeChar]
  split_ifs with back quote line carriage tab
  · exact .inr ⟨'\\', rfl, by rw [back]; rfl⟩
  · exact .inr ⟨'"', rfl, by rw [quote]; rfl⟩
  · exact .inr ⟨'n', rfl, by rw [line]; rfl⟩
  · exact .inr ⟨'r', rfl, by rw [carriage]; rfl⟩
  · exact .inr ⟨'t', rfl, by rw [tab]; rfl⟩
  · exact .inl ⟨rfl, quote, back⟩

theorem not_mem_escapeChar (written : Char) (control : char = '\n' ∨ char = '\r') :
    char ∉ escapeChar written := by
  rw [escapeChar]
  rcases control with rfl | rfl
  · split_ifs with back quote line carriage tab <;> simp
    exact Ne.symm line
  · split_ifs with back quote line carriage tab <;> simp
    exact Ne.symm carriage

theorem not_mem_urlLine {serverUrl : List Char} (control : char = '\n' ∨ char = '\r') :
    char ∉ urlLine serverUrl := by
  have plain : char ∉ urlWords ∧ char ≠ '"' := by
    rcases control with rfl | rfl
    · exact ⟨by decide, by decide⟩
    · exact ⟨by decide, by decide⟩
  rw [urlLine, tomlBasicString, mem_append, cons_append, mem_cons, mem_append,
    mem_flatMap, mem_singleton]
  rintro (inWords | opens | ⟨written, -, escaped⟩ | closes)
  · exact plain.1 inWords
  · exact plain.2 opens
  · exact not_mem_escapeChar written control escaped
  · exact plain.2 closes

section Located

variable {key before between rest behind : List Char} {configPath : String}

theorem lineStart_of_closed (closed : before = [] ∨ before.getLast? = some '\n')
    (more : List Char) : lineStart (before ++ more) before.length = before.length := by
  rw [lineStart, take_left]
  rcases closed with empty | ends
  · rw [empty]
    rfl
  · rw [rdropWhile_eq_self_iff.mpr]
    intro nonempty
    rw [List.getLast?_eq_some_getLast nonempty, Option.some_inj] at ends
    simp [ends]

theorem lineEndAfter_of_line (front : List Char) (free : '\n' ∉ rest) :
    lineEndAfter (front ++ (rest ++ '\n' :: behind)) front.length =
      front.length + rest.length + 1 := by
  rw [lineEndAfter, drop_left, if_pos (by simp), idxOf_append_of_notMem free, idxOf_cons_self]
  rfl

theorem find_of_once {first : Char} {others front : List Char} (once : first ∉ others)
    (absent : ¬first :: others <:+: front) (back : List Char) :
    find (first :: others) (front ++ (first :: others ++ back)) = some front.length := by
  rw [find, ← List.append_assoc, cut_of_not_infix once absent back]
  rfl

theorem find_begin (bare : isBareTomlKey key = true) (unmarked : ¬beginMarker key <:+: before)
    (back : List Char) :
    find (beginMarker key) (before ++ (beginMarker key ++ back)) = some before.length := by
  rw [beginMarker_cons] at unmarked ⊢
  exact find_of_once (hash_not_mem_begin bare) unmarked back

theorem find_end (bare : isBareTomlKey key = true) (unmarked : ¬endMarker key <:+: before)
    (back : List Char) :
    find (endMarker key) (before ++ (endMarker key ++ back)) = some before.length := by
  rw [endMarker_cons] at unmarked ⊢
  exact find_of_once (hash_not_mem_end bare) unmarked back

/-- No header of another table stands between the markers. -/
def OwnHeaders (key between : List Char) : Prop :=
  ∀ line ∈ splitInclusive '\n' between, looksLikeTomlTableHeader (trimTomlLine line) = true →
    trimTomlLine line ∈ tableHeaderCandidates key

/-- The editor takes a block from its begin marker to the line of the first end marker, where no
other table's header stands between. -/
theorem locate_marked {existing : List Char} (bare : isBareTomlKey key = true)
    (unmarked : ¬beginMarker key <:+: before)
    (closed : before = [] ∨ before.getLast? = some '\n')
    (unended : ¬endMarker key <:+: between) (own : OwnHeaders key between) (free : '\n' ∉ rest)
    (shape : existing = before ++ (beginMarker key ++ ('\n' :: (between ++
      (endMarker key ++ (rest ++ '\n' :: behind)))))) :
    locateTomlManagedBlock existing key configPath =
      .ok (some (.exact before.length (existing.length - behind.length))) := by
  set opened := beginMarker key ++ '\n' :: between with isOpened
  have closing : ¬endMarker key <:+: opened := by
    intro occurs
    rcases infix_of_separated (newline_not_mem_end bare) occurs with inBegin | inBetween
    · exact endMarker_not_infix_begin bare inBegin
    · exact unended inBetween
  -- the places of the two markers, and what stands between them
  have front : existing = (before ++ opened) ++ (endMarker key ++ (rest ++ '\n' :: behind)) := by
    rw [shape]
    simp only [isOpened, List.append_assoc, cons_append]
  have markers : locateMarkers existing key configPath = .ok (some (before.length,
      before.length + opened.length)) := by
    rw [locateMarkers, shape, find_begin bare unmarked]
    dsimp only
    rw [drop_left, ← cons_append, ← List.append_assoc (beginMarker key), find_end bare closing]
  have slices : slice existing (before.length + (beginMarker key).length)
      (before.length + opened.length) = '\n' :: between := by
    rw [slice, front, take_left' (List.length_append),
      ← List.append_assoc, drop_left' (List.length_append)]
  have foreign : rangeHasForeignTomlHeader existing (before.length + (beginMarker key).length)
      (before.length + opened.length) key = .ok false := by
    rw [rangeHasForeignTomlHeader, if_pos (by rw [List.length_append]; omega), slices,
      splitInclusive_mark, any_cons, Except.ok.injEq, Bool.or_eq_false_iff, List.any_eq_false]
    refine ⟨rfl, ?_⟩
    intro line member
    have known := own line member
    simpa using known
  have starts : lineStart existing before.length = before.length := by
    rw [shape]
    exact lineStart_of_closed closed _
  have ends : lineEndAfter existing (before.length + opened.length + (endMarker key).length) =
      existing.length - behind.length := by
    have line : lineEndAfter _ _ = _ := @lineEndAfter_of_line rest behind
      ((before ++ opened) ++ endMarker key) free
    rw [List.append_assoc _ (endMarker key), ← front, List.length_append, List.length_append] at line
    rw [line, front]
    simp only [List.length_append, length_cons]
    omega
  rw [locateTomlManagedBlock, markers]
  show (tomlSpan existing key configPath before.length _ >>= _) = _
  have span : tomlSpan existing key configPath before.length (before.length + opened.length) =
      .ok (.exact before.length (existing.length - behind.length)) := by
    rw [tomlSpan, foreign]
    show Except.ok (TomlManagedBlockSpan.exact _ _) = _
    rw [starts, ends]
  rw [span]
  rfl

end Located

/-! ### Tables without markers -/

variable {candidates lines : List (List Char)} {rangeEnd offset : Nat}

theorem tableLoop_open (candidates lines : List (List Char)) (rangeEnd offset start : Nat) :
    ∃ stop, tableLoop candidates rangeEnd lines offset (some start) = some (start, stop) := by
  induction lines generalizing offset with
  | nil => exact ⟨rangeEnd, rfl⟩
  | cons line lines ih =>
    rw [tableLoop]
    split_ifs
    · exact ⟨offset, rfl⟩
    · exact ih _

theorem locateTable_eq (text name : List Char) : locateTomlMcpServersTableBlock text name =
    tableLoop (tableHeaderCandidates name) text.length (splitInclusive '\n' text) 0 none := by
  rw [locateTomlMcpServersTableBlock, locateTomlMcpServersTableBlockInRange, slice,
    take_length, drop_zero]

variable {existing key block : List Char} {configPath : String}

theorem planToml_append (unmarked : locateTomlManagedBlock existing key configPath = .ok none)
    (absent : locateTomlMcpServersTableBlock existing key = none) :
    planToml existing key block configPath =
      .ok ⟨[.kept 0 existing.length, .added (padding existing), .added block], false⟩ := by
  rw [planToml, unmarked]
  dsimp only [bind, Except.bind]
  rw [absent]

theorem planToml_table {stop : Nat}
    (unmarked : locateTomlManagedBlock existing key configPath = .ok none)
    (located : locateTomlMcpServersTableBlock existing key = some (start, stop)) :
    planToml existing key block configPath = .ok (replacing existing start stop block) := by
  rw [planToml, unmarked]
  dsimp only [bind, Except.bind]
  rw [located]

end Mcpace.ConfigEdit
