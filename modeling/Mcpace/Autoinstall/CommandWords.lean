import Mcpace.Library.Text

/-!
Owns the command words of `src/mcp_autoinstall.rs`: `split_command_words`, and how far it inverts
the quoting of words.

Does not own: what becomes of the words.
-/

namespace Mcpace.Autoinstall

open Library Text List

/-- The variables of the loop. -/
structure Splitter where
  words : List (List Char)
  current : List Char
  quote : Option Char
  escaping : Bool

namespace Splitter

def push (splitter : Splitter) (char : Char) : Splitter :=
  { splitter with current := splitter.current ++ [char] }

/-- The words with the current one, if it is not empty. -/
def closed (splitter : Splitter) : List (List Char) :=
  if splitter.current = [] then splitter.words else splitter.words ++ [splitter.current]

def step (splitter : Splitter) (char : Char) : Splitter :=
  if splitter.escaping then { splitter.push char with escaping := false }
  else if char = '\\' then
    if splitter.quote.isSome then { splitter with escaping := true } else splitter.push char
  else
    match splitter.quote with
    | some active =>
      if char = active then { splitter with quote := none } else splitter.push char
    | none =>
      if char = '\'' ∨ char = '"' then { splitter with quote := some char }
      else if isWhitespace char then { splitter with words := splitter.closed, current := [] }
      else splitter.push char

end Splitter

def splitCommandWords (value : String) : Except String (List String) :=
  let splitter := (trimChars value.toList).foldl Splitter.step ⟨[], [], none, false⟩
  let ended := if splitter.escaping then splitter.push '\\' else splitter
  match ended.quote with
  | some active =>
    .error s!"server install command spec has an unterminated {active} quote"
  | none => .ok (ended.closed.map String.ofList)

/-! ### Quoted words -/

def escape (char : Char) : List Char := if char = '\\' ∨ char = '"' then ['\\', char] else [char]

def quoteWord (word : String) : List Char := '"' :: word.toList.flatMap escape ++ ['"']

def quoteWords (words : List String) : String :=
  String.ofList ([' '].intercalate (words.map quoteWord))

theorem step_escape (words : List (List Char)) (current : List Char) (char : Char) :
    (escape char).foldl Splitter.step ⟨words, current, some '"', false⟩ =
      ⟨words, current ++ [char], some '"', false⟩ := by
  rw [escape]
  split
  · simp [Splitter.step, Splitter.push]
  · rename_i plain
    obtain ⟨notBackslash, notQuote⟩ := not_or.mp plain
    simp [Splitter.step, Splitter.push, notBackslash, notQuote]

theorem step_body (words : List (List Char)) (current body : List Char) :
    (body.flatMap escape).foldl Splitter.step ⟨words, current, some '"', false⟩ =
      ⟨words, current ++ body, some '"', false⟩ := by
  induction body generalizing current with
  | nil => simp
  | cons char rest ih =>
    rw [flatMap_cons, foldl_append, step_escape, ih, List.append_assoc]
    rfl

theorem step_quoteWord (words : List (List Char)) (word : String) :
    (quoteWord word).foldl Splitter.step ⟨words, [], none, false⟩ =
      ⟨words, word.toList, none, false⟩ := by
  rw [quoteWord, cons_append, foldl_cons]
  have opened : Splitter.step ⟨words, [], none, false⟩ '"' = ⟨words, [], some '"', false⟩ := rfl
  rw [opened, foldl_append, step_body]
  rfl

theorem closed_word (found : List (List Char)) (word : String) :
    (⟨found, word.toList, none, false⟩ : Splitter).closed =
      found ++ ([word].filter (· ≠ "")).map String.toList := by
  by_cases empty : word = "" <;> simp [Splitter.closed, empty]

/-- Of the quoted words those are found that are not empty. -/
theorem step_quoteWords (found : List (List Char)) (words : List String) :
    ∃ before last, ([' '].intercalate (words.map quoteWord)).foldl Splitter.step
        ⟨found, [], none, false⟩ = ⟨before, last, none, false⟩ ∧
      (⟨before, last, none, false⟩ : Splitter).closed =
        found ++ (words.filter (· ≠ "")).map String.toList := by
  induction words generalizing found with
  | nil => exact ⟨found, [], rfl, by simp [Splitter.closed]⟩
  | cons word rest ih =>
    cases rest with
    | nil =>
      refine ⟨found, word.toList, ?_, closed_word found word⟩
      rw [map_singleton, intercalate_singleton, step_quoteWord]
    | cons next rest =>
      obtain ⟨before, last, state, closed⟩ := ih (found ++ ([word].filter (· ≠ "")).map String.toList)
      refine ⟨before, last, ?_, ?_⟩
      · -- The blank behind the word closes it.
        rw [map_cons, map_cons, intercalate_cons_cons, foldl_append, foldl_append,
          step_quoteWord, ← state, ← closed_word]
        rfl
      · rw [closed, List.append_assoc, ← map_append, ← filter_append]
        rfl

theorem quoted_ends (word : String) (rest : List String) : ∃ middle,
    [' '].intercalate ((word :: rest).map quoteWord) = '"' :: middle ++ ['"'] := by
  induction rest generalizing word with
  | nil => exact ⟨word.toList.flatMap escape, by simp [quoteWord]⟩
  | cons next rest ih =>
    obtain ⟨middle, shape⟩ := ih next
    refine ⟨word.toList.flatMap escape ++ '"' :: ' ' :: '"' :: middle, ?_⟩
    rw [map_cons, map_cons, intercalate_cons_cons, ← map_cons, shape, quoteWord]
    simp

theorem trimChars_quoted (words : List String) :
    trimChars ([' '].intercalate (words.map quoteWord)) =
      [' '].intercalate (words.map quoteWord) := by
  cases words with
  | nil => rfl
  | cons word rest =>
    obtain ⟨middle, shape⟩ := quoted_ends word rest
    rw [shape, trimChars, cons_append, dropWhile_cons_of_neg (by decide), ← cons_append,
      rdropWhile_concat_neg _ _ _ (by decide)]

theorem splitCommandWords_quoteWords (words : List String) :
    splitCommandWords (quoteWords words) = .ok (words.filter (· ≠ "")) := by
  obtain ⟨before, last, state, closed⟩ := step_quoteWords [] words
  rw [splitCommandWords, quoteWords, String.toList_ofList, trimChars_quoted, state]
  simp [closed]

/-- Splitting inverts quoting exactly where no word is empty. -/
theorem splitCommandWords_inverts_iff (words : List String) :
    splitCommandWords (quoteWords words) = .ok words ↔ "" ∉ words := by
  rw [splitCommandWords_quoteWords, Except.ok.injEq, filter_eq_self]
  simp only [decide_eq_true_eq]
  exact ⟨fun filled member => filled "" member rfl, fun absent word member isEmpty =>
    absent (isEmpty ▸ member)⟩

theorem splitCommandWords_dropsEmpty :
    splitCommandWords (quoteWords ["npx", ""]) = .ok ["npx"] := by
  decide

end Mcpace.Autoinstall
