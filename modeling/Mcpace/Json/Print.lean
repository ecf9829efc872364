import Mcpace.Json.Text

/-!
Owns the printing of documents, and that what is printed reads back.

The layout says which blanks stand before an item, before a closing bracket and behind a colon. The
pretty layout has one item a line, the compact one no blanks at all.

Does not own: what becomes of numbers that are no literals.
-/

namespace Mcpace.Json

open Library List Option

/-! ### Strings -/

def hexChar (digit : Nat) : Char :=
  if digit < 10 then Char.ofNat ('0'.toNat + digit) else Char.ofNat ('a'.toNat + (digit - 10))

/-- How a character is written in a string. -/
def escapeJsonChar (char : Char) : List Char :=
  if char = '"' then ['\\', '"']
  else if char = '\\' then ['\\', '\\']
  else if char.toNat = 8 then ['\\', 'b']
  else if char.toNat = 12 then ['\\', 'f']
  else if char = '\n' then ['\\', 'n']
  else if char = '\r' then ['\\', 'r']
  else if char = '\t' then ['\\', 't']
  else if char.toNat < 0x20 then
    ['\\', 'u', '0', '0', hexChar (char.toNat / 16), hexChar (char.toNat % 16)]
  else [char]

def quoted (text : String) : List Char := '"' :: (text.toList.flatMap escapeJsonChar ++ ['"'])

theorem stringBody_control {code : Nat} (control : code < 32) (rest : List Char) :
    stringBody .plain (escapeJsonChar (Char.ofNat code) ++ rest) =
      (stringBody .plain rest).map (readMore (Char.ofNat code)) := by
  interval_cases code
  all_goals rfl

theorem stringBody_escapeJsonChar (char : Char) (rest : List Char) :
    stringBody .plain (escapeJsonChar char ++ rest) =
      (stringBody .plain rest).map (readMore char) := by
  by_cases control : char.toNat < 32
  · have same : Char.ofNat char.toNat = char := Char.ofNat_toNat char
    rw [← same]
    exact stringBody_control control rest
  · have ne8 : char.toNat ≠ 8 := by omega
    have ne12 : char.toNat ≠ 12 := by omega
    have neLine : char ≠ '\n' := by
      rintro rfl
      exact control (by decide)
    have neReturn : char ≠ '\r' := by
      rintro rfl
      exact control (by decide)
    have neTab : char ≠ '\t' := by
      rintro rfl
      exact control (by decide)
    rw [escapeJsonChar]
    split_ifs with quote back
    · rw [quote]
      rfl
    · rw [back]
      rfl
    · rw [singleton_append, stringBody, if_neg quote, if_neg back, if_neg control]

theorem stringBody_quoted (text rest : List Char) :
    stringBody .plain (text.flatMap escapeJsonChar ++ '"' :: rest) = some (text, rest) := by
  induction text with
  | nil => rfl
  | cons first others ih =>
    rw [flatMap_cons, List.append_assoc, stringBody_escapeJsonChar, ih]
    rfl

/-! ### Documents -/

structure Layout where
  indent : Nat → List Char
  behindColon : List Char

def Layout.pretty : Layout := ⟨fun depth => '\n' :: List.replicate (2 * depth) ' ', [' ']⟩

structure Layout.Blank (layout : Layout) : Prop where
  indent : ∀ depth, ∀ char ∈ layout.indent depth, isBlank char = true
  behindColon : ∀ char ∈ layout.behindColon, isBlank char = true

theorem blank_pretty : Layout.pretty.Blank where
  indent := by
    intro depth char member
    rcases mem_cons.mp member with rfl | inSpaces
    · rfl
    · rw [eq_of_mem_replicate inSpaces]
      rfl
  behindColon := by
    intro char member
    rw [mem_singleton.mp member]
    rfl

/-- Printed items behind each other, and the closing bracket. -/
def joined (close : Char) (blanks first : List Char) (others : List (List Char)) : List Char :=
  first ++ (others.flatMap (',' :: ·) ++ (blanks ++ [close]))

mutual

def render (layout : Layout) (depth : Nat) : JsonValue → List Char
  | .null => ['n', 'u', 'l', 'l']
  | .bool true => ['t', 'r', 'u', 'e']
  | .bool false => ['f', 'a', 'l', 's', 'e']
  | .number text => text.toList
  | .string text => quoted text
  | .array [] => ['[', ']']
  | .array (item :: rest) =>
    '[' :: joined ']' (layout.indent depth)
      (layout.indent (depth + 1) ++ render layout (depth + 1) item)
      (renderItems layout (depth + 1) rest)
  | .object [] => ['{', '}']
  | .object ((key, value) :: rest) =>
    '{' :: joined '}' (layout.indent depth)
      (layout.indent (depth + 1) ++ (quoted key ++ (':' :: (layout.behindColon ++
        render layout (depth + 1) value))))
      (renderEntries layout (depth + 1) rest)

def renderItems (layout : Layout) (depth : Nat) : List JsonValue → List (List Char)
  | [] => []
  | item :: rest =>
    (layout.indent depth ++ render layout depth item) :: renderItems layout depth rest

def renderEntries (layout : Layout) (depth : Nat) : List (String × JsonValue) → List (List Char)
  | [] => []
  | (key, value) :: rest =>
    (layout.indent depth ++ (quoted key ++ (':' :: (layout.behindColon ++
      render layout depth value)))) :: renderEntries layout depth rest

end

mutual

def numbers : JsonValue → List String
  | .null => []
  | .bool _ => []
  | .number text => [text]
  | .string _ => []
  | .array items => numbersOfItems items
  | .object entries => numbersOfEntries entries

def numbersOfItems : List JsonValue → List String
  | [] => []
  | item :: rest => numbers item ++ numbersOfItems rest

def numbersOfEntries : List (String × JsonValue) → List String
  | [] => []
  | (_, value) :: rest => numbers value ++ numbersOfEntries rest

end

mutual

def nesting : JsonValue → Nat
  | .null => 0
  | .bool _ => 0
  | .number _ => 0
  | .string _ => 0
  | .array items => nestingOfItems items + 1
  | .object entries => nestingOfEntries entries + 1

def nestingOfItems : List JsonValue → Nat
  | [] => 0
  | item :: rest => max (nesting item) (nestingOfItems rest)

def nestingOfEntries : List (String × JsonValue) → Nat
  | [] => 0
  | (_, value) :: rest => max (nesting value) (nestingOfEntries rest)

end

/-- Every number is a literal. -/
def Printable (value : JsonValue) : Prop := ∀ text ∈ numbers value, IsNumber text.toList

/-! ### Reading back -/

section RoundTrip

/-- What follows does not go on with a number. -/
def Stops (rest : List Char) : Prop := ∀ char, rest.head? = some char → isNumberChar char = false

variable {char : Char}

theorem not_isNumberChar_of_isBlank (blank : isBlank char = true) : isNumberChar char = false := by
  rw [isBlank, Bool.or_eq_true, Bool.or_eq_true, Bool.or_eq_true, decide_eq_true_iff,
    decide_eq_true_iff, decide_eq_true_iff, decide_eq_true_iff] at blank
  rcases blank with ((rfl | rfl) | rfl) | rfl
  · decide
  · decide
  · decide
  · decide

variable {blanks rest : List Char}

theorem stops_append (blank : ∀ char ∈ blanks, isBlank char = true) (stops : Stops rest) :
    Stops (blanks ++ rest) := by
  cases blanks with
  | nil => exact stops
  | cons first others =>
    intro char isFirst
    rw [← some_inj.mp isFirst]
    exact not_isNumberChar_of_isBlank (blank first mem_cons_self)

theorem stops_cons {first : Char} (stop : isNumberChar first = false) (rest : List Char) :
    Stops (first :: rest) := by
  intro char isFirst
  rw [← some_inj.mp isFirst]
  exact stop

variable {text : String}

theorem number_append (isNumber : IsNumber text.toList) (stops : Stops rest) :
    number (text.toList ++ rest) = some (.number text, rest) := by
  have none : rest.takeWhile isNumberChar = [] ∧ rest.dropWhile isNumberChar = rest := by
    cases rest with
    | nil => exact ⟨rfl, rfl⟩
    | cons first others =>
      have stop := stops first rfl
      exact ⟨takeWhile_cons_of_neg (by rw [stop]; exact Bool.false_ne_true),
        dropWhile_cons_of_neg (by rw [stop]; exact Bool.false_ne_true)⟩
  have literal : (text.toList ++ rest).takeWhile isNumberChar = text.toList := by
    rw [takeWhile_append_of_pos isNumber.2, none.1, append_nil]
  have behind : (text.toList ++ rest).dropWhile isNumberChar = rest := by
    rw [dropWhile_append_of_pos isNumber.2, none.2]
  rw [number, literal, behind, if_pos isNumber, String.ofList_toList]

theorem ne_of_isNumberChar {other : Char} (isNumber : isNumberChar char = true)
    (stop : isNumberChar other = false) : char ≠ other := by
  rintro rfl
  rw [isNumber] at stop
  cases stop

theorem IsNumber.exists_head {text : List Char} (isNumber : IsNumber text) :
    ∃ first rest, text = first :: rest ∧ isNumberChar first = true := by
  cases text with
  | nil => exact absurd isNumber.1 (by decide)
  | cons first rest => exact ⟨first, rest, rfl, isNumber.2 first mem_cons_self⟩

theorem isBlank_of_isNumberChar (isNumber : isNumberChar char = true) : isBlank char = false := by
  cases blank : isBlank char with
  | false => rfl
  | true =>
    have stop := not_isNumberChar_of_isBlank blank
    rw [isNumber] at stop
    cases stop

variable {value : JsonValue}

/-- A printed document opens with a character that is neither a blank nor a closing bracket. -/
theorem exists_head_render (layout : Layout) (depth : Nat) (printable : Printable value) :
    ∃ first rest, render layout depth value = first :: rest ∧
      isBlank first = false ∧ first ≠ ']' := by
  match value with
  | .null => exact ⟨_, _, by rw [render], by decide, by decide⟩
  | .bool true => exact ⟨_, _, by rw [render], by decide, by decide⟩
  | .bool false => exact ⟨_, _, by rw [render], by decide, by decide⟩
  | .number text =>
    obtain ⟨first, rest, shape, isNumber⟩ :=
      (printable text (by rw [numbers]; exact mem_singleton_self text)).exists_head
    exact ⟨first, rest, by rw [render, shape], isBlank_of_isNumberChar isNumber,
      ne_of_isNumberChar isNumber (by decide)⟩
  | .string text => exact ⟨_, _, by rw [render, quoted], by decide, by decide⟩
  | .array [] => exact ⟨_, _, by rw [render], by decide, by decide⟩
  | .array (_ :: _) => exact ⟨_, _, by rw [render], by decide, by decide⟩
  | .object [] => exact ⟨_, _, by rw [render], by decide, by decide⟩
  | .object ((_, _) :: _) => exact ⟨_, _, by rw [render], by decide, by decide⟩

theorem readValue_blanks (blank : ∀ char ∈ blanks, isBlank char = true) (limit : Nat)
    (text : List Char) : readValue limit (blanks ++ text) = readValue limit text := by
  cases limit with
  | zero => rfl
  | succ limit => rw [readValue, readValue, skipBlanks_append blank]

theorem readValue_word {letters : List Char} (limit : Nat)
    (isScalar : scalar (letters ++ rest) = some (value, rest))
    (opens : ∃ first others, letters = first :: others ∧ isBlank first = false ∧ first ≠ '{' ∧
      first ≠ '[' ∧ first ≠ '"') :
    readValue (limit + 1) (letters ++ rest) = some (value, rest) := by
  obtain ⟨first, others, rfl, solid, noBrace, noBracket, noQuote⟩ := opens
  rw [cons_append] at isScalar ⊢
  rw [readValue, skipBlanks_cons solid]
  dsimp only
  rw [if_neg noBrace, if_neg noBracket, if_neg noQuote, isScalar]

theorem scalar_number (isNumber : IsNumber text.toList) (stops : Stops rest) :
    scalar (text.toList ++ rest) = some (.number text, rest) := by
  obtain ⟨first, others, shape, isFirst⟩ := isNumber.exists_head
  have noWord : ∀ letter letters value, isNumberChar letter = false →
      word (letter :: letters) value (text.toList ++ rest) = none := by
    intro letter letters value stop
    rw [word, shape, cons_append, if_neg]
    rw [isPrefixOf_cons_cons, Bool.and_eq_true, beq_iff_eq]
    exact fun both => ne_of_isNumberChar isFirst stop both.1.symm
  rw [scalar, noWord 'n' _ _ (by decide), noWord 't' _ _ (by decide), noWord 'f' _ _ (by decide),
    none_or, none_or, none_or]
  exact number_append isNumber stops

/-! ### Items behind each other -/

/-- The text is read as the item, whatever follows it. -/
def ReadAs {α : Type} (reader : List Char → Option (α × List Char)) (text : List Char) (item : α) :
    Prop :=
  ∀ rest, Stops rest → reader (text ++ rest) = some (item, rest)

section Items

variable {α : Type} {close : Char} {reader : List Char → Option (α × List Char)}
  {blanks text : List Char} {item : α} {texts : List (List Char)} {items : List α}
  (isBlanks : ∀ char ∈ blanks, isBlank char = true) (isClose : close = ']' ∨ close = '}')

include isBlanks isClose

theorem stops_joined (texts : List (List Char)) (rest : List Char) :
    Stops (texts.flatMap (',' :: ·) ++ (blanks ++ close :: rest)) := by
  cases texts with
  | nil =>
    apply stops_append isBlanks
    rcases isClose with rfl | rfl
    · exact stops_cons (by decide) rest
    · exact stops_cons (by decide) rest
  | cons first others => exact stops_cons (by decide) _

theorem continued_joined (each : List.Forall₂ (ReadAs reader) texts items) (item : α)
    (rest : List Char) {fuel : Nat} (enough : texts.length ≤ fuel) :
    continued close (separated close reader fuel) item
      (texts.flatMap (',' :: ·) ++ (blanks ++ close :: rest)) = some (item :: items, rest) := by
  induction each generalizing item fuel with
  | nil =>
    have solid : isBlank close = false ∧ close ≠ ',' := by
      rcases isClose with rfl | rfl
      · decide
      · decide
    rw [flatMap_nil, nil_append, continued, skipBlanks_append isBlanks, skipBlanks_cons solid.1]
    dsimp only
    rw [if_neg solid.2, if_pos rfl]
  | cons read _ ih =>
    obtain ⟨less, rfl⟩ := Nat.exists_eq_succ_of_ne_zero (Nat.ne_zero_of_lt enough)
    rw [flatMap_cons, cons_append, cons_append, List.append_assoc, continued,
      skipBlanks_cons (by decide)]
    dsimp only
    rw [if_pos rfl, separated, read _ (stops_joined isBlanks isClose _ rest), bind_some,
      ih _ (Nat.le_of_succ_le_succ enough)]
    rfl

/-- What is printed between brackets is read back, unless it opens with the closing one. -/
theorem enclosed_joined (first : ReadAs reader text item)
    (opens : ∀ rest, (skipBlanks (text ++ rest)).head? ≠ some close)
    (each : List.Forall₂ (ReadAs reader) texts items) (rest : List Char) :
    enclosed close reader (joined close blanks text texts ++ rest) = some (item :: items, rest) := by
  have long : texts.length ≤ (texts.flatMap (',' :: ·)).length := by
    induction texts generalizing items with
    | nil => exact Nat.zero_le _
    | cons text others ih =>
      cases each with
      | cons _ later =>
        have shorter := ih later
        rw [flatMap_cons, List.length_append, length_cons, length_cons]
        omega
  have shape : joined close blanks text texts ++ rest =
      text ++ (texts.flatMap (',' :: ·) ++ (blanks ++ close :: rest)) := by
    simp only [joined, List.append_assoc, cons_append, nil_append]
  rw [enclosed, shape, if_neg (opens _)]
  obtain ⟨fuel, enough⟩ : ∃ fuel, (text ++ (texts.flatMap (',' :: ·) ++
      (blanks ++ close :: rest))).length = fuel + 1 ∧ texts.length ≤ fuel := by
    refine ⟨text.length + ((texts.flatMap (',' :: ·)).length + (blanks.length + rest.length)), ?_, ?_⟩
    · simp only [List.length_append, length_cons]
      omega
    · omega
  rw [enough.1, separated, first _ (stops_joined isBlanks isClose texts rest), bind_some,
    continued_joined isBlanks isClose each item rest enough.2]

end Items

section Layout

variable {layout : Layout} (blank : layout.Blank) {value : JsonValue}

theorem readAs_scalar {depth limit : Nat}
    (isScalar : ∀ rest, Stops rest → scalar (render layout depth value ++ rest) = some (value, rest))
    (opens : ∃ first others, render layout depth value = first :: others ∧
      isBlank first = false ∧ first ≠ '{' ∧ first ≠ '[' ∧ first ≠ '"')
    (above : nesting value < limit) :
    ReadAs (readValue limit) (render layout depth value) value := by
  intro rest stops
  obtain ⟨less, rfl⟩ := Nat.exists_eq_succ_of_ne_zero (Nat.ne_zero_of_lt above)
  exact readValue_word less (isScalar rest stops) opens

include blank

theorem readAs_indented {limit depth : Nat} {text : List Char} {value : JsonValue}
    (read : ReadAs (readValue limit) text value) :
    ReadAs (readValue limit) (layout.indent depth ++ text) value := by
  intro rest stops
  rw [List.append_assoc, readValue_blanks (blank.indent depth)]
  exact read rest stops

theorem readAs_member {limit depth : Nat} {key : String} {text : List Char} {value : JsonValue}
    (read : ReadAs (readValue limit) text value) :
    ReadAs (member (readValue limit))
      (layout.indent depth ++ (quoted key ++ (':' :: (layout.behindColon ++ text)))) (key, value) := by
  intro rest stops
  simp only [List.append_assoc, cons_append]
  rw [member, skipBlanks_append (blank.indent depth), quoted, cons_append,
    skipBlanks_cons (by decide)]
  dsimp only
  rw [if_pos rfl, List.append_assoc, singleton_append, stringBody_quoted, bind_some,
    skipBlanks_cons (by decide)]
  dsimp only
  rw [if_pos rfl, readValue_blanks blank.behindColon, read rest stops, map_some,
    String.ofList_toList]

mutual

theorem readAs_render : ∀ (value : JsonValue) (depth : Nat) {limit : Nat}, Printable value →
    nesting value < limit → ReadAs (readValue limit) (render layout depth value) value
  | .null, _, _, _, above => readAs_scalar (fun _ _ => by rw [render]; rfl)
      ⟨_, _, by rw [render], by decide, by decide, by decide, by decide⟩ above
  | .bool true, _, _, _, above => readAs_scalar (fun _ _ => by rw [render]; rfl)
      ⟨_, _, by rw [render], by decide, by decide, by decide, by decide⟩ above
  | .bool false, _, _, _, above => readAs_scalar (fun _ _ => by rw [render]; rfl)
      ⟨_, _, by rw [render], by decide, by decide, by decide, by decide⟩ above
  | .number text, depth, _, printable, above => by
      have isNumber := printable text (by rw [numbers]; exact mem_singleton_self text)
      obtain ⟨first, rest, shape, isFirst⟩ := isNumber.exists_head
      refine readAs_scalar (fun behind stops => ?_) ?_ above
      · rw [render]
        exact scalar_number isNumber stops
      · exact ⟨first, rest, by rw [render, shape], isBlank_of_isNumberChar isFirst,
          ne_of_isNumberChar isFirst (by decide), ne_of_isNumberChar isFirst (by decide),
          ne_of_isNumberChar isFirst (by decide)⟩
  | .string text, _, limit, _, above => by
      intro rest _
      obtain ⟨less, rfl⟩ := Nat.exists_eq_succ_of_ne_zero (Nat.ne_zero_of_lt above)
      rw [render, quoted, cons_append, readValue, skipBlanks_cons (by decide)]
      dsimp only
      rw [if_neg (by decide), if_neg (by decide), if_pos rfl, List.append_assoc,
        singleton_append, stringBody_quoted, map_some, String.ofList_toList]
  | .array [], _, _, _, above => by
      intro rest _
      rw [nesting, nestingOfItems] at above
      obtain ⟨less, rfl⟩ := Nat.exists_eq_add_of_le' above
      rw [render]
      rfl
  | .array (item :: others), depth, _, printable, above => by
      intro rest _
      rw [nesting, nestingOfItems] at above
      obtain ⟨less, rfl⟩ := Nat.exists_eq_add_of_le' ((Nat.le_add_left 2 _).trans above)
      rw [Printable, numbers, numbersOfItems] at printable
      have parts := forall_mem_append.mp printable
      obtain ⟨head, tail, shape, solid, noClose⟩ := exists_head_render layout (depth + 1) parts.1
      have first : ReadAs (readValue (less + 1)) _ item :=
        readAs_render item (depth + 1) parts.1 (by omega)
      have read := enclosed_joined (blank.indent depth) (.inl rfl)
        (@readAs_indented _ blank _ (depth + 1) _ _ first) (by
          intro rest
          rw [List.append_assoc, skipBlanks_append (blank.indent _), shape, cons_append,
            skipBlanks_cons solid]
          exact fun same => noClose (some_inj.mp same))
        (readAs_renderItems others (depth + 1) parts.2 (by omega)) rest
      rw [render, cons_append, readValue, skipBlanks_cons (by decide)]
      dsimp only
      rw [if_neg (by decide), if_pos rfl, if_neg (Nat.succ_ne_zero less), read]
      rfl
  | .object [], _, _, _, above => by
      intro rest _
      rw [nesting, nestingOfEntries] at above
      obtain ⟨less, rfl⟩ := Nat.exists_eq_add_of_le' above
      rw [render]
      rfl
  | .object ((key, value) :: others), depth, _, printable, above => by
      intro rest _
      rw [nesting, nestingOfEntries] at above
      obtain ⟨less, rfl⟩ := Nat.exists_eq_add_of_le' ((Nat.le_add_left 2 _).trans above)
      rw [Printable, numbers, numbersOfEntries] at printable
      have parts := forall_mem_append.mp printable
      have first : ReadAs (readValue (less + 1)) _ value :=
        readAs_render value (depth + 1) parts.1 (by omega)
      have read := enclosed_joined (blank.indent depth) (.inr rfl)
        (@readAs_member _ blank _ (depth + 1) key _ _ first) (by
          intro rest
          rw [List.append_assoc, skipBlanks_append (blank.indent _), quoted, cons_append,
            cons_append, skipBlanks_cons (by decide)]
          exact fun same => absurd (some_inj.mp same) (by decide))
        (readAs_renderEntries others (depth + 1) parts.2 (by omega)) rest
      rw [render, cons_append, readValue, skipBlanks_cons (by decide)]
      dsimp only
      rw [if_pos rfl, if_neg (Nat.succ_ne_zero less), read]
      rfl

theorem readAs_renderItems : ∀ (items : List JsonValue) (depth : Nat) {limit : Nat},
    (∀ text ∈ numbersOfItems items, IsNumber text.toList) → nestingOfItems items < limit →
    List.Forall₂ (ReadAs (readValue limit)) (renderItems layout depth items) items
  | [], _, _, _, _ => by
      rw [renderItems]
      exact .nil
  | item :: rest, depth, _, printable, above => by
      rw [numbersOfItems] at printable
      rw [nestingOfItems, Nat.max_lt] at above
      have parts := forall_mem_append.mp printable
      rw [renderItems]
      exact .cons (readAs_indented blank (readAs_render item depth parts.1 above.1))
        (readAs_renderItems rest depth parts.2 above.2)

theorem readAs_renderEntries : ∀ (entries : List (String × JsonValue)) (depth : Nat) {limit : Nat},
    (∀ text ∈ numbersOfEntries entries, IsNumber text.toList) → nestingOfEntries entries < limit →
    List.Forall₂ (ReadAs (member (readValue limit))) (renderEntries layout depth entries) entries
  | [], _, _, _, _ => by
      rw [renderEntries]
      exact .nil
  | (key, value) :: rest, depth, _, printable, above => by
      rw [numbersOfEntries] at printable
      rw [nestingOfEntries, Nat.max_lt] at above
      have parts := forall_mem_append.mp printable
      rw [renderEntries]
      exact .cons (readAs_member blank (readAs_render value depth parts.1 above.1))
        (readAs_renderEntries rest depth parts.2 above.2)

end

omit blank

mutual

/-- Every bracket takes a character. -/
theorem nesting_le_length : ∀ (value : JsonValue) (depth : Nat),
    nesting value ≤ (render layout depth value).length
  | .null, _ => Nat.zero_le _
  | .bool _, _ => Nat.zero_le _
  | .number _, _ => Nat.zero_le _
  | .string _, _ => Nat.zero_le _
  | .array [], _ => by
      rw [nesting, nestingOfItems, render]
      decide
  | .array (item :: rest), depth => by
      have first := nesting_le_length item (depth + 1)
      have others := nestingOfItems_le rest (depth + 1)
      simp only [nesting, nestingOfItems, render, joined, length_cons, List.length_append]
      omega
  | .object [], _ => by
      rw [nesting, nestingOfEntries, render]
      decide
  | .object ((key, value) :: rest), depth => by
      have first := nesting_le_length value (depth + 1)
      have others := nestingOfEntries_le rest (depth + 1)
      simp only [nesting, nestingOfEntries, render, joined, length_cons, List.length_append]
      omega

theorem nestingOfItems_le : ∀ (items : List JsonValue) (depth : Nat),
    nestingOfItems items ≤ ((renderItems layout depth items).flatMap (',' :: ·)).length
  | [], _ => Nat.zero_le _
  | item :: rest, depth => by
      have first := nesting_le_length item depth
      have others := nestingOfItems_le rest depth
      simp only [nestingOfItems, renderItems, flatMap_cons, length_cons, List.length_append]
      omega

theorem nestingOfEntries_le : ∀ (entries : List (String × JsonValue)) (depth : Nat),
    nestingOfEntries entries ≤ ((renderEntries layout depth entries).flatMap (',' :: ·)).length
  | [], _ => Nat.zero_le _
  | (key, value) :: rest, depth => by
      have first := nesting_le_length value depth
      have others := nestingOfEntries_le rest depth
      simp only [nestingOfEntries, renderEntries, flatMap_cons, length_cons, List.length_append]
      omega

end

include blank

/-- What is printed is read as the document that was printed. -/
theorem readText_render (printable : Printable value) (depth : Nat) :
    readText (render layout depth value) = some value := by
  have above : nesting value < (render layout depth value).length + 1 :=
    Nat.lt_succ_of_le (nesting_le_length value depth)
  have read := readAs_render blank value depth printable above [] (fun _ none => nomatch none)
  rw [append_nil] at read
  rw [readText, read]
  rfl

end Layout

end RoundTrip

end Mcpace.Json
