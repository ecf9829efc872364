import Mathlib

/-!
Owns the text operations of the host language's standard library on Unicode
strings: trimming, ASCII case folding, containment, sorting, and decimal integer parsing with the
width checks of fixed-size integers.

White space is the Unicode `White_Space` property, not its ASCII part.
-/

namespace Mcpace.Library.Text

open List String

/-- The characters with the Unicode property `White_Space`. -/
def isWhitespace (char : Char) : Bool :=
  let code := char.toNat
  (0x09 ≤ code && code ≤ 0x0D) || code == 0x20 || code == 0x85 || code == 0xA0 ||
    code == 0x1680 || (0x2000 ≤ code && code ≤ 0x200A) || code == 0x2028 || code == 0x2029 ||
    code == 0x202F || code == 0x205F || code == 0x3000

/-- The characters of the general category Cc. -/
def isControl (char : Char) : Bool :=
  char.toNat < 32 || (127 ≤ char.toNat && char.toNat < 160)

def isAsciiAlphanumeric (char : Char) : Bool :=
  char.isDigit || char.isUpper || char.isLower

def trimChars (chars : List Char) : List Char :=
  (chars.dropWhile isWhitespace).rdropWhile isWhitespace

def trim (text : String) : String := String.ofList (trimChars text.toList)

def toAsciiLowercase (text : String) : String := String.ofList (text.toList.map Char.toLower)

/-- Strip the characters the predicate accepts from both ends. -/
def trimMatches (strip : Char → Bool) (text : String) : String :=
  String.ofList ((text.toList.dropWhile strip).rdropWhile strip)

/-- `trim` with empty results dropped. -/
def trimNonEmpty (text : String) : Option String :=
  if trim text = "" then none else some (trim text)

def startsWith (text head : String) : Bool := head.toList.isPrefixOf text.toList

def contains (text needle : String) : Bool := decide (needle.toList <:+: text.toList)

/-- What follows `head`, if the text begins with it. -/
def stripPrefix (head text : String) : Option String :=
  if startsWith text head then some (String.ofList (text.toList.drop head.toList.length))
  else none

/-- The parts before and after the first `separator`. -/
def splitOnce (separator : Char) (text : String) : Option (String × String) :=
  if separator ∈ text.toList then
    some (String.ofList (text.toList.takeWhile (· ≠ separator)),
      String.ofList (text.toList.dropWhile (· ≠ separator)).tail)
  else none

def sortedUnique (values : List String) : List String :=
  (values.insertionSort (· ≤ ·)).destutter (· ≠ ·)

def parseDigits (chars : List Char) : Option Nat :=
  if chars ≠ [] ∧ chars.all Char.isDigit = true then
    some (Nat.ofDigitChars 10 chars 0)
  else none

/-- Decimal parsing into an unsigned integer of `width` bits; one leading `+`
is accepted. -/
def parseUnsigned (width : Nat) (text : String) : Option Nat :=
  let digits := match text.toList with
    | '+' :: rest => rest
    | chars => chars
  (parseDigits digits).filter (fun value => value < 2 ^ width)

/-- Decimal parsing into a two's-complement integer of `width` bits; one leading
sign is accepted. -/
def parseSigned (width : Nat) (text : String) : Option Int :=
  let value : Option Int := match text.toList with
    | '+' :: rest => (parseDigits rest).map Int.ofNat
    | '-' :: rest => (parseDigits rest).map (fun magnitude => - Int.ofNat magnitude)
    | chars => (parseDigits chars).map Int.ofNat
  value.filter (fun number => -(2 ^ (width - 1)) ≤ number ∧ number < 2 ^ (width - 1))

def hexDigit (char : Char) : Option Nat :=
  if char.isDigit then some (char.toNat - '0'.toNat)
  else if 'a' ≤ char ∧ char ≤ 'f' then some (char.toNat - 'a'.toNat + 10)
  else if 'A' ≤ char ∧ char ≤ 'F' then some (char.toNat - 'A'.toNat + 10)
  else none

def parseHexDigits (chars : List Char) : Option Nat :=
  if chars = [] then none
  else chars.foldlM (fun value char =>
    (hexDigit char).map (fun digit => 16 * value + digit)) 0

/-- Hexadecimal parsing into an unsigned integer of `width` bits; one leading `+` is accepted. -/
def parseHexUnsigned (width : Nat) (text : String) : Option Nat :=
  let digits := match text.toList with
    | '+' :: rest => rest
    | chars => chars
  (parseHexDigits digits).filter (fun value => value < 2 ^ width)

variable {values : List String}

theorem mem_of_mem_sortedUnique {value : String} (member : value ∈ sortedUnique values) :
    value ∈ values :=
  mem_insertionSort (· ≤ ·) |>.mp ((destutter_sublist _ _).subset member)

theorem mem_destutter' {α : Type*} [DecidableEq α] {value first : α} {rest : List α}
    (member : value = first ∨ value ∈ rest) :
    value ∈ rest.destutter' (· ≠ ·) first := by
  induction rest generalizing first with
  | nil =>
    rcases member with same | absent
    · rw [same]
      exact mem_singleton_self first
    · cases absent
  | cons second rest ih =>
    rw [destutter'_cons]
    by_cases different : first ≠ second
    · rw [if_pos different]
      rcases member with same | later
      · rw [same]
        exact mem_cons_self
      · exact mem_cons_of_mem _ (ih (mem_cons.mp later))
    · rw [if_neg different]
      apply ih
      rcases member with same | later
      · exact Or.inl same
      · rcases mem_cons.mp later with same | inside
        · exact Or.inl (same.trans (not_not.mp different).symm)
        · exact Or.inr inside

theorem mem_sortedUnique {value : String} : value ∈ sortedUnique values ↔ value ∈ values := by
  constructor
  · exact mem_of_mem_sortedUnique
  · intro member
    have sorted : value ∈ values.insertionSort (· ≤ ·) :=
      (perm_insertionSort (· ≤ ·) values).mem_iff.mpr member
    rw [sortedUnique]
    cases found : values.insertionSort (· ≤ ·) with
    | nil =>
      rw [found] at sorted
      cases sorted
    | cons first rest =>
      rw [found] at sorted
      rw [destutter_cons']
      exact mem_destutter' (mem_cons.mp sorted)

theorem sortedUnique_eq_nil : sortedUnique values = [] ↔ values = [] := by
  rw [sortedUnique, destutter_eq_nil, ← List.length_eq_zero_iff, length_insertionSort,
    List.length_eq_zero_iff]

/-- Strictly increasing, so sorted and without duplicates. -/
theorem sorted_sortedUnique (values : List String) : (sortedUnique values).Pairwise (· < ·) := by
  have ordered : (values.insertionSort (· ≤ ·)).Pairwise (· ≤ ·) :=
    pairwise_insertionSort (· ≤ ·) values
  have unique : sortedUnique values = (values.insertionSort (· ≤ ·)).dedup :=
    ordered.destutter_eq_dedup
  rw [unique]
  have weakly : ((values.insertionSort (· ≤ ·)).dedup).Pairwise (· ≤ ·) :=
    ordered.sublist (dedup_sublist _)
  exact (weakly.and (nodup_dedup _)).imp (fun both => lt_of_le_of_ne both.1 both.2)

theorem sortedUnique_of_sorted (sorted : values.Pairwise (· < ·)) :
    sortedUnique values = values := by
  have weakly : values.Pairwise (· ≤ ·) := sorted.imp le_of_lt
  have distinct : values.Nodup := sorted.imp ne_of_lt
  rw [sortedUnique, weakly.insertionSort_eq, weakly.destutter_eq_dedup, distinct.dedup]

theorem startsWith_append (head rest : String) : startsWith (head ++ rest) head = true := by
  rw [startsWith, toList_append, List.isPrefixOf_iff_prefix]
  exact prefix_append _ _

variable {char : Char}

theorem toNat_val_toLower (upper : char.val ≥ 'A'.val ∧ char.val ≤ 'Z'.val) :
    char.toLower.val.toNat = char.val.toNat + 32 := by
  have lowered : char.toLower.val = char.val + 32 := by
    rw [Char.toLower, dif_pos upper]
    rfl
  have high : char.val.toNat ≤ 90 := upper.2
  rw [lowered, UInt32.toNat_add, show (32 : UInt32).toNat = 32 from rfl]
  omega

theorem toLower_toLower (char : Char) : char.toLower.toLower = char.toLower := by
  by_cases upper : char.val ≥ 'A'.val ∧ char.val ≤ 'Z'.val
  · have lowered := toNat_val_toLower upper
    have low : 65 ≤ char.val.toNat := upper.1
    apply dif_neg
    rintro ⟨-, below⟩
    have bound : char.toLower.val.toNat ≤ 90 := below
    omega
  · rw [show char.toLower = char from dif_neg upper]
    exact dif_neg upper

theorem toAsciiLowercase_idem (text : String) :
    toAsciiLowercase (toAsciiLowercase text) = toAsciiLowercase text := by
  rw [toAsciiLowercase, toAsciiLowercase, toList_ofList, List.map_map]
  exact congrArg String.ofList (map_congr_left (fun char _ => toLower_toLower char))

theorem trimChars_cons (blank : isWhitespace char = true) (rest : List Char) :
    trimChars (char :: rest) = trimChars rest := by
  rw [trimChars, dropWhile_cons_of_pos blank, trimChars]

theorem filter_dropWhile_isWhitespace (chars : List Char) :
    (chars.dropWhile isWhitespace).filter (!isWhitespace ·) = chars.filter (!isWhitespace ·) := by
  induction chars with
  | nil => rfl
  | cons char rest ih =>
    by_cases blank : isWhitespace char = true
    · rw [dropWhile_cons_of_pos blank, ih, filter_cons_of_neg (by simp [blank])]
    · rw [dropWhile_cons_of_neg blank]

/-- Trimming removes white space only. -/
theorem filter_trimChars (chars : List Char) :
    (trimChars chars).filter (!isWhitespace ·) = chars.filter (!isWhitespace ·) := by
  rw [trimChars, List.rdropWhile, filter_reverse, filter_dropWhile_isWhitespace,
    ← filter_reverse, reverse_reverse, filter_dropWhile_isWhitespace]

/-- A trimmed text opens with the first character that is not white space. -/
theorem head?_trimChars (chars : List Char) :
    (trimChars chars).head? = (chars.filter (!isWhitespace ·)).head? := by
  induction chars with
  | nil => rfl
  | cons char rest ih =>
    by_cases blank : isWhitespace char = true
    · rw [trimChars_cons blank, ih, filter_cons_of_neg (by simp [blank])]
    · have solid : (char :: rest).rdropWhile isWhitespace ≠ [] := by
        intro empty
        exact blank (rdropWhile_eq_nil_iff.mp empty char mem_cons_self)
      obtain ⟨tail, shape⟩ := List.rdropWhile_prefix isWhitespace (char :: rest)
      rw [trimChars, dropWhile_cons_of_neg blank,
        filter_cons_of_pos (by simpa using blank), List.head?_cons,
        ← List.head?_append_of_ne_nil _ solid, shape, List.head?_cons]

variable {chars : List Char}

/-- White space behind a solid text is trimmed away. -/
theorem trimChars_append_blank {blanks : List Char}
    (solid : ∀ char ∈ chars, isWhitespace char = false)
    (blank : ∀ char ∈ blanks, isWhitespace char = true) :
    trimChars (chars ++ blanks) = chars := by
  have back : (chars ++ blanks).rdropWhile isWhitespace = chars := by
    rw [List.rdropWhile, reverse_append, dropWhile_append_of_pos
      (fun char member => blank char (mem_reverse.mp member)),
      ← List.rdropWhile, rdropWhile_eq_self_iff]
    intro nonempty
    simp [solid _ (getLast_mem nonempty)]
  cases chars with
  | nil => rw [trimChars, nil_append, dropWhile_eq_nil_iff.mpr blank, rdropWhile_nil]
  | cons char rest =>
    rw [trimChars, cons_append, dropWhile_cons_of_neg, ← cons_append, back]
    simp [solid char mem_cons_self]

theorem trimChars_blank_append {blanks : List Char}
    (blank : ∀ char ∈ blanks, isWhitespace char = true) (chars : List Char) :
    trimChars (blanks ++ chars) = trimChars chars := by
  induction blanks with
  | nil => rfl
  | cons char blanks ih =>
    rw [forall_mem_cons] at blank
    rw [cons_append, trimChars_cons blank.1, ih blank.2]

theorem trimChars_eq_self (solid : ∀ char ∈ chars, isWhitespace char = false) :
    trimChars chars = chars := by
  have trimmed := trimChars_append_blank solid
    (fun char (member : char ∈ []) => absurd member not_mem_nil)
  rwa [append_nil] at trimmed

theorem trimChars_concat {blank : Char} (white : isWhitespace blank = true)
    (chars : List Char) : trimChars (chars ++ [blank]) = trimChars chars := by
  rw [trimChars, trimChars, dropWhile_append]
  split_ifs with empty
  · rw [List.isEmpty_iff.mp empty, dropWhile_cons_of_pos white]
    rfl
  · exact rdropWhile_concat_pos _ _ _ white

theorem trimChars_trimChars (chars : List Char) :
    trimChars (trimChars chars) = trimChars chars := by
  have front : (trimChars chars).dropWhile isWhitespace = trimChars chars := by
    have opens := head?_trimChars chars
    cases shape : trimChars chars with
    | nil => rfl
    | cons char rest =>
      rw [shape, List.head?_cons] at opens
      have solid := of_mem_filter (List.mem_of_head? opens.symm)
      exact dropWhile_cons_of_neg (by simpa using solid)
  rw [trimChars, front]
  exact rdropWhile_idempotent _ _

theorem trim_trim (text : String) : trim (trim text) = trim text := by
  rw [trim, trim, toList_ofList, trimChars_trimChars]

theorem trimNonEmpty_idem {text trimmed : String} (found : trimNonEmpty text = some trimmed) :
    trimNonEmpty trimmed = some trimmed := by
  unfold trimNonEmpty at found ⊢
  split at found
  · cases found
  · cases found
    rename_i solid
    rw [trim_trim, if_neg solid]

variable {separator : Char}

theorem splitOnce_append {head : String} (absent : separator ∉ head.toList) (rest : String) :
    splitOnce separator (head ++ String.singleton separator ++ rest) = some (head, rest) := by
  have chars : (head ++ String.singleton separator ++ rest).toList =
      head.toList ++ separator :: rest.toList := by
    simp
  have before : ∀ char ∈ head.toList, decide (char ≠ separator) = true := by
    intro char member
    rw [decide_eq_true_eq]
    intro same
    exact absent (same ▸ member)
  rw [splitOnce, chars, if_pos (by simp), takeWhile_append_of_pos before,
    dropWhile_append_of_pos before, takeWhile_cons_of_neg (by simp),
    dropWhile_cons_of_neg (by simp)]
  simp

theorem mem_of_mem_intercalate {α : Type*} {separator : List α} {parts : List (List α)}
    {item : α} (member : item ∈ separator.intercalate parts) :
    item ∈ separator ∨ ∃ part ∈ parts, item ∈ part := by
  induction parts with
  | nil => cases member
  | cons part parts ih =>
    cases parts with
    | nil => exact .inr ⟨part, mem_cons_self, by simpa using member⟩
    | cons next parts =>
      rw [List.intercalate_cons_cons, List.append_assoc, mem_append, mem_append] at member
      rcases member with member | member | member
      · exact .inr ⟨part, mem_cons_self, member⟩
      · exact .inl member
      · rcases ih member with member | ⟨found, inParts, member⟩
        · exact .inl member
        · exact .inr ⟨found, mem_cons_of_mem _ inParts, member⟩

theorem toNat_of_isAsciiAlphanumeric (alphanumeric : isAsciiAlphanumeric char = true) :
    0x30 ≤ char.toNat ∧ char.toNat ≤ 0x39 ∨ 0x41 ≤ char.toNat ∧ char.toNat ≤ 0x5a ∨
      0x61 ≤ char.toNat ∧ char.toNat ≤ 0x7a := by
  simp only [isAsciiAlphanumeric, Char.isDigit, Char.isUpper, Char.isLower, Bool.or_eq_true,
    Bool.and_eq_true, decide_eq_true_eq, ge_iff_le, UInt32.le_iff_toNat_le] at alphanumeric
  rcases alphanumeric with (digit | upper) | lower
  · exact .inl digit
  · exact .inr (.inl upper)
  · exact .inr (.inr lower)

theorem isWhitespace_of_isAsciiAlphanumeric (alphanumeric : isAsciiAlphanumeric char = true) :
    isWhitespace char = false := by
  have code := toNat_of_isAsciiAlphanumeric alphanumeric
  simp only [isWhitespace, Bool.or_eq_false_iff, Bool.and_eq_false_iff,
    decide_eq_false_iff_not, beq_eq_false_iff_ne]
  omega

theorem isAsciiAlphanumeric_of_mem_toString {number : Nat}
    (member : char ∈ (toString number).toList) : isAsciiAlphanumeric char = true := by
  have printed : char ∈ Nat.toDigits 10 number := Nat.toList_repr ▸ member
  rw [isAsciiAlphanumeric, Nat.isDigit_of_mem_toDigits (by decide) (by decide) printed]
  rfl

theorem map_intercalate {α β : Type*} (f : α → β) (separator : List α) (parts : List (List α)) :
    (separator.intercalate parts).map f =
      (separator.map f).intercalate (parts.map (List.map f)) := by
  induction parts with
  | nil => rfl
  | cons part parts ih =>
    cases parts with
    | nil => simp
    | cons next parts =>
      rw [List.intercalate_cons_cons, map_append, map_append, ih]
      simp [List.intercalate_cons_cons]

/-- The first separator of a text determines what stands before and behind it. -/
theorem append_separator_inj {left right leftRest rightRest : List Char}
    (leftPlain : separator ∉ left) (rightPlain : separator ∉ right) :
    left ++ separator :: leftRest = right ++ separator :: rightRest ↔
      left = right ∧ leftRest = rightRest := by
  constructor
  · intro same
    have before (text rest : List Char) (plain : separator ∉ text) :
        (text ++ separator :: rest).takeWhile (· ≠ separator) = text := by
      rw [takeWhile_append_of_pos, takeWhile_cons_of_neg (by simp), append_nil]
      intro char member
      rw [decide_eq_true_eq]
      exact fun equal => plain (equal ▸ member)
    have heads : left = right := by
      rw [← before left leftRest leftPlain, same, before right rightRest rightPlain]
    subst heads
    exact ⟨rfl, (List.cons.inj (append_cancel_left same)).2⟩
  · intro same
    rw [same.1, same.2]

/-- Fields under fixed heads, joined by a separator that occurs in no field, determine the
fields. -/
theorem intercalate_fields_inj {ι : Type*} {head left right : ι → List Char} {names : List ι}
    (leftPlain : ∀ name ∈ names, separator ∉ left name)
    (rightPlain : ∀ name ∈ names, separator ∉ right name) :
    [separator].intercalate (names.map (fun name => head name ++ left name)) =
        [separator].intercalate (names.map (fun name => head name ++ right name)) ↔
      ∀ name ∈ names, left name = right name := by
  induction names with
  | nil => simp
  | cons name names ih =>
    have later := ih (forall_mem_cons.mp leftPlain).2
      (forall_mem_cons.mp rightPlain).2
    rw [forall_mem_cons, ← later]
    cases names with
    | nil => simp
    | cons next names =>
      simp only [map_cons, List.intercalate_cons_cons, List.append_assoc,
        append_cancel_left_eq, singleton_append]
      exact append_separator_inj (leftPlain name mem_cons_self) (rightPlain name mem_cons_self)

theorem parseDigits_toDigits (value : Nat) : parseDigits (Nat.toDigits 10 value) = some value := by
  have digits : (Nat.toDigits 10 value).all Char.isDigit = true := by
    rw [List.all_eq_true]
    intro char member
    exact Nat.isDigit_of_mem_toDigits (by decide) (by decide) member
  rw [parseDigits, if_pos ⟨Nat.toDigits_ne_nil, digits⟩, Nat.ofDigitChars_ten_toDigits]

theorem toDigits_ne_sign {sign : Char} (notDigit : sign.isDigit = false) (value : Nat)
    (rest : List Char) : Nat.toDigits 10 value ≠ sign :: rest := by
  intro equal
  have digit : sign.isDigit = true := by
    apply Nat.isDigit_of_mem_toDigits (b := 10) (n := value) (by decide) (by decide)
    rw [equal]
    exact mem_cons_self
  rw [notDigit] at digit
  exact Bool.noConfusion digit

theorem toString_injective : Function.Injective (toString : Nat → String) := by
  intro left right same
  have digits : Nat.toDigits 10 left = Nat.toDigits 10 right := by
    rw [← Nat.toList_repr, ← Nat.toList_repr]
    exact congrArg String.toList same
  have read := congrArg (fun chars => Nat.ofDigitChars 10 chars 0) digits
  simpa only [Nat.ofDigitChars_ten_toDigits] using read

theorem parseUnsigned_toString_eq (width value : Nat) :
    parseUnsigned width (toString value) = if value < 2 ^ width then some value else none := by
  have chars : (toString value).toList = Nat.toDigits 10 value := Nat.toList_repr
  have digits : (match (toString value).toList with
      | '+' :: rest => rest
      | chars => chars) = Nat.toDigits 10 value := by
    rw [chars]
    split
    · rename_i rest equal
      exact absurd equal (toDigits_ne_sign (by decide) value rest)
    · rfl
  simp only [parseUnsigned, digits, parseDigits_toDigits, Option.filter_some, decide_eq_true_eq]

variable {width value : Nat}

theorem parseUnsigned_toString (fits : value < 2 ^ width) :
    parseUnsigned width (toString value) = some value := by
  rw [parseUnsigned_toString_eq, if_pos fits]

theorem parseSigned_toString_eq (width value : Nat) :
    parseSigned width (toString value) = (some (value : Int)).filter (fun number =>
      -(2 ^ (width - 1)) ≤ number ∧ number < 2 ^ (width - 1)) := by
  have chars : (toString value).toList = Nat.toDigits 10 value := Nat.toList_repr
  have parsed : (match (toString value).toList with
      | '+' :: rest => (parseDigits rest).map Int.ofNat
      | '-' :: rest => (parseDigits rest).map (fun magnitude => - Int.ofNat magnitude)
      | chars => (parseDigits chars).map Int.ofNat) = some (value : Int) := by
    rw [chars]
    split
    · rename_i rest equal
      exact absurd equal (toDigits_ne_sign (by decide) value rest)
    · rename_i rest equal
      exact absurd equal (toDigits_ne_sign (by decide) value rest)
    · rw [parseDigits_toDigits]
      rfl
  simp only [parseSigned, parsed]

theorem parseSigned_toString (fits : value < 2 ^ (width - 1)) :
    parseSigned width (toString value) = some (value : Int) := by
  have bound : ((value : Int) < 2 ^ (width - 1)) := by exact_mod_cast fits
  rw [parseSigned_toString_eq, Option.filter_some, if_pos]
  exact decide_eq_true ⟨by omega, bound⟩

/-- A printed natural number is never parsed as another one. -/
theorem eq_of_parseSigned_toString {number : Int}
    (parsed : parseSigned width (toString value) = some number) : number = value := by
  rw [parseSigned_toString_eq] at parsed
  exact (Option.some.inj (Option.filter_eq_some_iff.mp parsed).1).symm

theorem isAsciiAlphanumeric_of_hexDigit (digit : (hexDigit char).isSome = true) :
    isAsciiAlphanumeric char = true := by
  unfold hexDigit at digit
  unfold isAsciiAlphanumeric
  split_ifs at digit with decimal lower upper
  · rw [decimal, Bool.true_or, Bool.true_or]
  · have low : char.isLower = true := by
      rw [Char.isLower, Bool.and_eq_true, decide_eq_true_eq, decide_eq_true_eq]
      exact ⟨lower.1, le_trans lower.2 (by decide)⟩
    rw [low, Bool.or_true]
  · have high : char.isUpper = true := by
      rw [Char.isUpper, decide_eq_true_eq]
      exact ⟨upper.1, le_trans upper.2 (by decide)⟩
    rw [high, Bool.or_true, Bool.true_or]
  · cases digit

theorem hexDigit_of_parseHexDigits (parsed : parseHexDigits chars = some value) :
    ∀ char ∈ chars, (hexDigit char).isSome = true := by
  rw [parseHexDigits] at parsed
  split_ifs at parsed
  clear * - parsed
  generalize 0 = start at parsed
  induction chars generalizing start with
  | nil => exact nofun
  | cons first rest ih =>
    rw [foldlM_cons] at parsed
    obtain ⟨next, step, parsed⟩ := Option.bind_eq_some_iff.mp parsed
    obtain ⟨digit, read, -⟩ := Option.map_eq_some_iff.mp step
    intro char member
    rcases mem_cons.mp member with rfl | later
    · rw [read]
      rfl
    · exact ih _ parsed char later

/-- A run of digits has no sign, so the parser reads it as it is. -/
theorem parseHexUnsigned_eq (parsed : parseHexDigits chars = some value) :
    parseHexUnsigned width (String.ofList chars) =
      if value < 2 ^ width then some value else none := by
  have digits : (match (String.ofList chars).toList with
      | '+' :: rest => rest
      | chars => chars) = chars := by
    rw [toList_ofList]
    split
    · rename_i rest
      exact absurd (hexDigit_of_parseHexDigits parsed '+' mem_cons_self) (by decide)
    · rfl
  simp only [parseHexUnsigned, digits, parsed, Option.filter_some, decide_eq_true_eq]

end Mcpace.Library.Text
