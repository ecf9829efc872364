import Mcpace.Json.Value

/-!
Owns the text of JSON documents: a reader of the grammar.

Numbers stay literals and objects keep their members in the order of the text. The external parser
reads the same texts up to a nesting limit.

Does not own: what a number literal is worth, and printing.
-/

namespace Mcpace.Json

open Library List Option Text

/-! ### Blanks -/

def isBlank (char : Char) : Bool :=
  char = ' ' || char = '\n' || char = '\t' || char = '\r'

def skipBlanks (text : List Char) : List Char := text.dropWhile isBlank

theorem skipBlanks_append {blanks : List Char} (blank : ∀ char ∈ blanks, isBlank char)
    (text : List Char) : skipBlanks (blanks ++ text) = skipBlanks text := by
  rw [skipBlanks, dropWhile_append, dropWhile_eq_nil_iff.mpr blank]
  rfl

theorem skipBlanks_cons {first : Char} (solid : isBlank first = false) (rest : List Char) :
    skipBlanks (first :: rest) = first :: rest :=
  dropWhile_cons_of_neg (by rw [solid]; exact Bool.false_ne_true)

theorem skipBlanks_suffix (text : List Char) : skipBlanks text <:+ text :=
  dropWhile_suffix _

/-! ### Strings -/

/-- Where a string stands: in its text, or in an escape. A unit of a surrogate pair waits for the
other one. -/
inductive Escape where
  | plain
  | opened
  | hex (high : Option Nat) (digits value : Nat)
  | pair (high : Nat)
  | pairOpened (high : Nat)

def simpleEscape (char : Char) : Option Char :=
  if char = '"' then some '"'
  else if char = '\\' then some '\\'
  else if char = '/' then some '/'
  else if char = 'b' then some (Char.ofNat 8)
  else if char = 'f' then some (Char.ofNat 12)
  else if char = 'n' then some '\n'
  else if char = 'r' then some '\r'
  else if char = 't' then some '\t'
  else none

def isHighSurrogate (unit : Nat) : Bool := 0xD800 ≤ unit && unit ≤ 0xDBFF
def isLowSurrogate (unit : Nat) : Bool := 0xDC00 ≤ unit && unit ≤ 0xDFFF

/-- The character of a code unit that is not waiting for another. -/
def unitChar (high : Option Nat) (unit : Nat) : Option Char :=
  match high with
  | none => if isLowSurrogate unit then none else some (Char.ofNat unit)
  | some high =>
    if isLowSurrogate unit then
      some (Char.ofNat (0x10000 + (high - 0xD800) * 0x400 + (unit - 0xDC00)))
    else none

def readMore (char : Char) (read : List Char × List Char) : List Char × List Char :=
  (char :: read.1, read.2)

/-- The rest of a string behind its opening quote, and what follows its closing quote. -/
def stringBody : Escape → List Char → Option (List Char × List Char)
  | _, [] => none
  | .plain, first :: rest =>
    if first = '"' then some ([], rest)
    else if first = '\\' then stringBody .opened rest
    else if first.toNat < 0x20 then none
    else (stringBody .plain rest).map (readMore first)
  | .opened, first :: rest =>
    if first = 'u' then stringBody (.hex none 0 0) rest
    else
      match simpleEscape first with
      | some char => (stringBody .plain rest).map (readMore char)
      | none => none
  | .hex high digits value, first :: rest =>
    match hexDigit first with
    | none => none
    | some digit =>
      if digits < 3 then stringBody (.hex high (digits + 1) (value * 16 + digit)) rest
      else if high.isNone && isHighSurrogate (value * 16 + digit) then
        stringBody (.pair (value * 16 + digit)) rest
      else
        match unitChar high (value * 16 + digit) with
        | some char => (stringBody .plain rest).map (readMore char)
        | none => none
  | .pair high, first :: rest => if first = '\\' then stringBody (.pairOpened high) rest else none
  | .pairOpened high, first :: rest =>
    if first = 'u' then stringBody (.hex (some high) 0 0) rest else none

theorem stringBody_suffix {state : Escape} {text read rest : List Char}
    (found : stringBody state text = some (read, rest)) :
    rest <:+ text ∧ rest.length < text.length := by
  induction text generalizing state read with
  | nil => cases state <;> cases found
  | cons first others ih =>
    -- every branch ends here, fails, or goes on with the others
    have more : ∀ {state read}, stringBody state others = some (read, rest) →
        rest <:+ first :: others ∧ rest.length < (first :: others).length := by
      intro state read later
      have shorter := ih later
      exact ⟨shorter.1.trans (suffix_cons first others), shorter.2.trans (Nat.lt_succ_self _)⟩
    have kept : ∀ {state char}, (stringBody state others).map (readMore char) =
        some (read, rest) → rest <:+ first :: others ∧ rest.length < (first :: others).length := by
      intro state char later
      obtain ⟨⟨body, behind⟩, isBody, same⟩ := map_eq_some_iff.mp later
      cases same
      exact more isBody
    cases state with
    | plain =>
      rw [stringBody] at found
      split_ifs at found
      · rw [Option.some.injEq, Prod.mk.injEq] at found
        rw [← found.2]
        exact ⟨suffix_cons first others, Nat.lt_succ_self _⟩
      · exact more found
      · exact kept found
    | opened =>
      rw [stringBody] at found
      split_ifs at found
      · exact more found
      · split at found
        · exact kept found
        · cases found
    | hex high digits value =>
      rw [stringBody] at found
      split at found
      · cases found
      · split_ifs at found
        · exact more found
        · exact more found
        · split at found
          · exact kept found
          · cases found
    | pair high =>
      rw [stringBody] at found
      split_ifs at found
      exact more found
    | pairOpened high =>
      rw [stringBody] at found
      split_ifs at found
      exact more found

/-! ### Numbers -/

/-- A number literal, split at its point and exponent. -/
structure Decimal where
  negative : Bool
  whole : List Char
  fraction : List Char
  exponent : Int

def isNumberChar (char : Char) : Bool :=
  char.isDigit || ['-', '+', '.', 'e', 'E'].contains char

def allDigits (digits : List Char) : Bool := digits ≠ [] && digits.all Char.isDigit

def readExponent (text : List Char) : Option Int :=
  match text with
  | [] => some 0
  | marker :: rest =>
    if marker = 'e' || marker = 'E' then
      match rest with
      | '-' :: digits =>
        if allDigits digits then (parseDigits digits).map (fun value => -(value : Int))
        else none
      | '+' :: digits => if allDigits digits then (parseDigits digits).map Int.ofNat else none
      | digits => if allDigits digits then (parseDigits digits).map Int.ofNat else none
    else none

/-- The grammar of number literals. -/
def readDecimal (text : List Char) : Option Decimal :=
  let negative := decide (text.head? = some '-')
  let unsigned := if negative then text.tail else text
  let whole := unsigned.takeWhile Char.isDigit
  let rest := unsigned.dropWhile Char.isDigit
  if whole = [] || (whole.head? = some '0' && whole.length > 1) then none
  else
    match rest with
    | '.' :: behind =>
      let fraction := behind.takeWhile Char.isDigit
      if fraction = [] then none
      else (readExponent (behind.dropWhile Char.isDigit)).map (⟨negative, whole, fraction, ·⟩)
    | _ => (readExponent rest).map (⟨negative, whole, [], ·⟩)

def IsNumber (text : List Char) : Prop :=
  (readDecimal text).isSome = true ∧ ∀ char ∈ text, isNumberChar char = true

instance (text : List Char) : Decidable (IsNumber text) :=
  @instDecidableAnd _ _ _ (List.decidableBAll _ text)

/-! ### Documents -/

/-- A literal, up to the first character that no number has. -/
def number (text : List Char) : Option (JsonValue × List Char) :=
  let literal := text.takeWhile isNumberChar
  if IsNumber literal then
    some (.number (String.ofList literal), text.dropWhile isNumberChar)
  else none

def word (letters : List Char) (value : JsonValue) (text : List Char) :
    Option (JsonValue × List Char) :=
  if letters.isPrefixOf text then some (value, text.drop letters.length) else none

def scalar (text : List Char) : Option (JsonValue × List Char) :=
  ((word ['n', 'u', 'l', 'l'] .null text).or (word ['t', 'r', 'u', 'e'] (.bool true) text)).or
    ((word ['f', 'a', 'l', 's', 'e'] (.bool false) text).or (number text))

/-- What follows an item: another one behind a comma, or the end. -/
def continued {α : Type} (close : Char) (more : List Char → Option (List α × List Char)) (item : α)
    (text : List Char) : Option (List α × List Char) :=
  match skipBlanks text with
  | [] => none
  | first :: rest =>
    if first = ',' then (more rest).map (fun read => (item :: read.1, read.2))
    else if first = close then some ([item], rest)
    else none

/-- Items behind each other. Every item takes a character, so the text bounds their number. -/
def separated {α : Type} (close : Char) (item : List Char → Option (α × List Char)) :
    Nat → List Char → Option (List α × List Char)
  | 0, _ => none
  | fuel + 1, text =>
    (item text).bind (fun read => continued close (separated close item fuel) read.1 read.2)

/-- The inside of an array or object: nothing, or items. -/
def enclosed {α : Type} (close : Char) (item : List Char → Option (α × List Char))
    (text : List Char) : Option (List α × List Char) :=
  if (skipBlanks text).head? = some close then some ([], (skipBlanks text).tail)
  else separated close item text.length text

def member (value : List Char → Option (JsonValue × List Char)) (text : List Char) :
    Option ((String × JsonValue) × List Char) :=
  match skipBlanks text with
  | [] => none
  | first :: rest =>
    if first = '"' then
      (stringBody .plain rest).bind (fun key =>
        match skipBlanks key.2 with
        | [] => none
        | colon :: rest =>
          if colon = ':' then
            (value rest).map (fun read => ((String.ofList key.1, read.1), read.2))
          else none)
    else none

/-- A document at the start of a text, with fewer than `limit` arrays and objects in each other. -/
def readValue : (limit : Nat) → List Char → Option (JsonValue × List Char)
  | 0, _ => none
  | limit + 1, text =>
    match skipBlanks text with
    | [] => none
    | first :: rest =>
      if first = '{' then
        if limit = 0 then none
        else (enclosed '}' (member (readValue limit)) rest).map (fun read =>
          (.object read.1, read.2))
      else if first = '[' then
        if limit = 0 then none
        else (enclosed ']' (readValue limit) rest).map (fun read => (.array read.1, read.2))
      else if first = '"' then
        (stringBody .plain rest).map (fun read => (.string (String.ofList read.1), read.2))
      else scalar (first :: rest)

/-- The document that a whole text holds. No text nests deeper than it is long. -/
def readText (text : List Char) : Option JsonValue :=
  match readValue (text.length + 1) text with
  | some (value, rest) => if skipBlanks rest = [] then some value else none
  | none => none

/-! ### Documents are parts of their text -/

section Suffix

variable {α : Type} {close : Char} {item : List Char → Option (α × List Char)}

/-- The reader leaves a part of the text. -/
def Consumes {β : Type} (reader : List Char → Option (β × List Char)) : Prop :=
  ∀ text read, reader text = some read → read.2 <:+ text

variable {text : List Char} {read : List α × List Char}

theorem separated_closed (consumes : Consumes item) (fuel : Nat)
    (found : separated close item fuel text = some read) : close :: read.2 <:+ text := by
  induction fuel generalizing text read with
  | zero => cases found
  | succ fuel ih =>
    rw [separated, bind_eq_some_iff] at found
    obtain ⟨first, isFirst, more⟩ := found
    have later := (skipBlanks_suffix first.2).trans (consumes text first isFirst)
    rw [continued] at more
    split at more
    · cases more
    · rename_i next rest isRest
      rw [isRest] at later
      split_ifs at more with comma closes
      · obtain ⟨others, isOthers, same⟩ := map_eq_some_iff.mp more
        rw [← same]
        exact ((ih isOthers).trans (suffix_cons next rest)).trans later
      · rw [Option.some.injEq] at more
        rw [← more, ← closes]
        exact later

theorem enclosed_closed (consumes : Consumes item) (found : enclosed close item text = some read) :
    close :: read.2 <:+ text := by
  rw [enclosed] at found
  split_ifs at found with closes
  · rw [Option.some.injEq] at found
    have shape : close :: (skipBlanks text).tail = skipBlanks text := List.cons_head?_tail closes
    rw [← found, shape]
    exact skipBlanks_suffix text
  · exact separated_closed consumes _ found

theorem consumes_enclosed (consumes : Consumes item) : Consumes (enclosed close item) :=
  fun _ read found => (suffix_cons close read.2).trans (enclosed_closed consumes found)

theorem consumes_member {value : List Char → Option (JsonValue × List Char)}
    (consumes : Consumes value) : Consumes (member value) := by
  intro text read found
  rw [member] at found
  split at found
  · cases found
  · rename_i first rest isRest
    split_ifs at found
    rw [bind_eq_some_iff] at found
    obtain ⟨key, isKey, behind⟩ := found
    have inRest : rest <:+ text := by
      have later := skipBlanks_suffix text
      rw [isRest] at later
      exact (suffix_cons first rest).trans later
    have inKey := (stringBody_suffix isKey).1
    split at behind
    · cases behind
    · rename_i colon others isOthers
      split_ifs at behind
      obtain ⟨last, isLast, same⟩ := map_eq_some_iff.mp behind
      rw [← same]
      have later := skipBlanks_suffix key.2
      rw [isOthers] at later
      exact (consumes others last isLast).trans
        ((suffix_cons colon others).trans (later.trans (inKey.trans inRest)))

theorem consumes_scalar : Consumes scalar := by
  intro text read found
  have words : ∀ letters value, word letters value text = some read → read.2 <:+ text := by
    intro letters value isWord
    rw [word] at isWord
    split_ifs at isWord
    rw [Option.some.injEq] at isWord
    rw [← isWord]
    exact drop_suffix _ _
  rw [scalar, or_eq_some_iff, or_eq_some_iff] at found
  rcases found with (isNull | ⟨-, isTrue⟩) | ⟨-, behind⟩
  · exact words _ _ isNull
  · exact words _ _ isTrue
  · rw [or_eq_some_iff] at behind
    rcases behind with isFalse | ⟨-, isNumber⟩
    · exact words _ _ isFalse
    · rw [number] at isNumber
      split_ifs at isNumber
      rw [Option.some.injEq] at isNumber
      rw [← isNumber]
      exact dropWhile_suffix _

theorem consumes_readValue (limit : Nat) : Consumes (readValue limit) := by
  induction limit with
  | zero => exact fun _ _ found => nomatch found
  | succ limit ih =>
    intro text read found
    rw [readValue] at found
    split at found
    · cases found
    · rename_i first rest isRest
      have inText := skipBlanks_suffix text
      rw [isRest] at inText
      have inRest := (suffix_cons first rest).trans inText
      split_ifs at found
      · obtain ⟨members, isMembers, same⟩ := map_eq_some_iff.mp found
        rw [← same]
        exact (consumes_enclosed (consumes_member ih) _ _ isMembers).trans inRest
      · obtain ⟨items, isItems, same⟩ := map_eq_some_iff.mp found
        rw [← same]
        exact (consumes_enclosed ih _ _ isItems).trans inRest
      · obtain ⟨body, isBody, same⟩ := map_eq_some_iff.mp found
        rw [← same]
        exact (stringBody_suffix isBody).1.trans inRest
      · exact (consumes_scalar _ _ found).trans inText

theorem brace_mem_of_readValue {limit : Nat} {rest : List Char} {read : JsonValue × List Char}
    (found : readValue limit ('{' :: rest) = some read) : '}' ∈ rest := by
  cases limit with
  | zero => cases found
  | succ limit =>
    rw [readValue, skipBlanks_cons (by decide)] at found
    dsimp only at found
    rw [if_pos rfl] at found
    split_ifs at found
    obtain ⟨members, isMembers, -⟩ := map_eq_some_iff.mp found
    have closed := enclosed_closed (consumes_member (consumes_readValue limit)) isMembers
    exact closed.subset mem_cons_self

end Suffix

end Mcpace.Json
