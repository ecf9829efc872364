import Mathlib

/-!
Owns patterns with one wildcard symbol: their language, its description by the
pieces between the wildcards, and the greedy scan that places each piece at its
first occurrence.

The scan consumes the shortest possible part of a text. That makes it complete
when anything may follow the last piece, and incomplete when the last piece has
to end the text: the occurrence that ends it need not be the first one.
-/

namespace Mcpace.Library.Glob

open List

universe u

variable {α : Type u}

/-! ### The language of a pattern -/

/-- The wildcard stands for any text, every other symbol for itself. -/
inductive Language (star : α) : List α → List α → Prop where
  | nil : Language star [] []
  | any {pattern text : List α} (skipped : List α) (rest : Language star pattern text) :
      Language star (star :: pattern) (skipped ++ text)
  | literal {symbol : α} {pattern text : List α} (plain : symbol ≠ star)
      (rest : Language star pattern text) :
      Language star (symbol :: pattern) (symbol :: text)

variable {star : α} {text : List α}

theorem language_nil_iff : Language star [] text ↔ text = [] := by
  constructor
  · intro member
    cases member
    rfl
  · rintro rfl
    exact .nil

variable {pattern : List α}

theorem language_star_iff : Language star (star :: pattern) text ↔
      ∃ skipped rest, text = skipped ++ rest ∧ Language star pattern rest := by
  constructor
  · intro member
    cases member with
    | any skipped rest => exact ⟨skipped, _, rfl, rest⟩
    | literal plain rest => exact absurd rfl plain
  · rintro ⟨skipped, rest, rfl, member⟩
    exact .any skipped member

theorem language_literal_iff {symbol : α} (plain : symbol ≠ star) :
    Language star (symbol :: pattern) text ↔
      ∃ rest, text = symbol :: rest ∧ Language star pattern rest := by
  constructor
  · intro member
    cases member with
    | any skipped rest => exact absurd rfl plain
    | literal _ rest => exact ⟨_, rfl, rest⟩
  · rintro ⟨rest, rfl, member⟩
    exact .literal plain member

section Decidable

variable [DecidableEq α]

/-- A pattern belongs to its own language. -/
theorem Language.self (star : α) (pattern : List α) : Language star pattern pattern := by
  induction pattern with
  | nil => exact .nil
  | cons symbol rest ih =>
    by_cases wild : symbol = star
    · subst wild
      exact .any [symbol] ih
    · exact .literal wild ih

variable {star : α} {pattern text : List α}

/-- A text of the language has at least the literals of the pattern. -/
theorem Language.countP_le (member : Language star pattern text) :
    pattern.countP (· ≠ star) ≤ text.countP (· ≠ star) := by
  induction member with
  | nil => exact Nat.le_refl _
  | any skipped rest ih =>
    rw [countP_cons_of_neg (by simp), countP_append]
    omega
  | literal plain rest ih =>
    rw [countP_cons_of_pos (by simpa using plain), countP_cons_of_pos (by simpa using plain)]
    omega

/-- A pattern that does not end with the wildcard has no proper initial part of
itself in its language. -/
theorem Language.eq_of_isPrefix_self (member : Language star pattern text)
    (initial : text <+: pattern) (anchored : pattern.getLast? ≠ some star) : text = pattern := by
  obtain ⟨remainder, split⟩ := initial
  have literals := member.countP_le
  rw [← split, countP_append] at literals
  have onlyStars : remainder.countP (· ≠ star) = 0 := by omega
  cases last : remainder.getLast? with
  | none =>
    rw [List.getLast?_eq_none_iff] at last
    rw [last, append_nil] at split
    exact split
  | some symbol =>
    have wild : symbol = star := by
      have none := List.countP_eq_zero.mp onlyStars symbol (List.mem_of_getLast? last)
      simpa using none
    refine absurd ?_ anchored
    rw [← split, List.getLast?_append, last, wild]
    rfl

/-! ### Pieces -/

/-- The pieces occur in order, each after an arbitrary gap, the last one at the end. -/
inductive Scattered : List (List α) → List α → Prop where
  | nil : Scattered [] []
  | cons (gap piece : List α) {pieces : List (List α)} {text : List α}
      (rest : Scattered pieces text) : Scattered (piece :: pieces) (gap ++ (piece ++ text))

omit [DecidableEq α] in
theorem scattered_nil_iff : Scattered [] text ↔ text = [] := by
  constructor
  · intro scattered
    cases scattered
    rfl
  · rintro rfl
    exact .nil

variable {pieces : List (List α)} {piece : List α}

omit [DecidableEq α] in
theorem scattered_cons_iff : Scattered (piece :: pieces) text ↔
      ∃ gap rest, text = gap ++ (piece ++ rest) ∧ Scattered pieces rest := by
  constructor
  · intro scattered
    cases scattered with
    | cons gap _ rest => exact ⟨gap, _, rfl, rest⟩
  · rintro ⟨gap, rest, rfl, scattered⟩
    exact .cons gap piece scattered

omit [DecidableEq α] in
/-- A first gap can always be longer. -/
theorem Scattered.prepend (some : pieces ≠ []) (scattered : Scattered pieces text)
    (longer : List α) : Scattered pieces (longer ++ text) := by
  cases scattered with
  | nil => exact absurd rfl some
  | cons gap piece rest =>
    rw [← List.append_assoc]
    exact .cons (longer ++ gap) piece rest

omit [DecidableEq α] in
/-- After an empty last piece anything may follow. -/
theorem Scattered.append (scattered : Scattered pieces text) (openEnd : pieces.getLast? = some [])
    (more : List α) : Scattered pieces (text ++ more) := by
  induction scattered with
  | nil => simp at openEnd
  | @cons gap piece pieces text rest ih =>
    cases pieces with
    | nil =>
      rw [scattered_nil_iff] at rest
      rw [List.getLast?_singleton, Option.some.injEq] at openEnd
      rw [rest, openEnd]
      have whole : gap ++ ([] ++ []) ++ more = (gap ++ more) ++ ([] ++ []) := by simp
      rw [whole]
      exact .cons (gap ++ more) [] .nil
    | cons next others =>
      rw [List.getLast?_cons_cons] at openEnd
      rw [List.append_assoc, List.append_assoc]
      exact .cons gap piece (ih openEnd)

theorem splitOn_cons (star symbol : α) (rest : List α) : (symbol :: rest).splitOn star =
      if symbol = star then [] :: rest.splitOn star
      else (rest.splitOn star).modifyHead (List.cons symbol) := by
  rw [List.splitOn, splitOnP_cons_eq_if_modifyHead]
  simp [List.splitOn]

theorem exists_splitOn (star : α) (pattern : List α) :
    ∃ first others, pattern.splitOn star = first :: others :=
  exists_cons_of_ne_nil (splitOnP_ne_nil _ _)

/-- The language in terms of the pieces between the wildcards: the first piece
starts the text and the others follow with gaps. -/
theorem language_iff_pieces {star : α} {pattern first : List α} {others : List (List α)}
    (pieces : pattern.splitOn star = first :: others) {text : List α} :
    Language star pattern text ↔ ∃ rest, text = first ++ rest ∧ Scattered others rest := by
  induction pattern generalizing first others text with
  | nil =>
    rw [splitOn_nil, List.cons.injEq] at pieces
    obtain ⟨rfl, rfl⟩ := pieces
    simp [language_nil_iff, scattered_nil_iff]
  | cons symbol pattern ih =>
    obtain ⟨next, later, split⟩ := exists_splitOn star pattern
    rw [splitOn_cons, split] at pieces
    by_cases wild : symbol = star
    · subst wild
      rw [if_pos rfl, List.cons.injEq] at pieces
      obtain ⟨rfl, rfl⟩ := pieces
      rw [language_star_iff]
      constructor
      · rintro ⟨skipped, rest, rfl, member⟩
        obtain ⟨tail, rfl, scattered⟩ := (ih split).mp member
        exact ⟨_, rfl, .cons skipped next scattered⟩
      · rintro ⟨rest, rfl, scattered⟩
        obtain ⟨gap, tail, rfl, remaining⟩ := scattered_cons_iff.mp scattered
        exact ⟨gap, next ++ tail, rfl, (ih split).mpr ⟨tail, rfl, remaining⟩⟩
    · rw [if_neg wild, modifyHead_cons, List.cons.injEq] at pieces
      obtain ⟨rfl, rfl⟩ := pieces
      rw [language_literal_iff wild]
      constructor
      · rintro ⟨rest, rfl, member⟩
        obtain ⟨tail, rfl, scattered⟩ := (ih split).mp member
        exact ⟨tail, rfl, scattered⟩
      · rintro ⟨tail, rfl, scattered⟩
        exact ⟨next ++ tail, rfl, (ih split).mpr ⟨tail, rfl, scattered⟩⟩

/-- The last piece is empty exactly when the pattern ends with the wildcard. -/
theorem getLast?_pieces {first : List α} {others : List (List α)}
    (pieces : pattern.splitOn star = first :: others) :
    others.getLast? = some [] ↔ pattern.getLast? = some star := by
  induction pattern generalizing first others with
  | nil =>
    rw [splitOn_nil, List.cons.injEq] at pieces
    obtain ⟨rfl, rfl⟩ := pieces
    simp
  | cons symbol pattern ih =>
    obtain ⟨next, later, split⟩ := exists_splitOn star pattern
    rw [splitOn_cons, split] at pieces
    have earlier := ih split
    by_cases wild : symbol = star
    · subst wild
      rw [if_pos rfl, List.cons.injEq] at pieces
      obtain ⟨rfl, rfl⟩ := pieces
      cases pattern with
      | nil =>
        rw [splitOn_nil, List.cons.injEq] at split
        obtain ⟨rfl, rfl⟩ := split
        simp
      | cons head tail =>
        rw [List.getLast?_cons_cons, ← earlier]
        cases later with
        | nil =>
          -- A pattern of one piece is that piece, so the piece is not empty.
          have whole : [symbol].intercalate ((head :: tail).splitOn symbol) =
              head :: tail := intercalate_splitOn symbol
          rw [split] at whole
          simp only [List.intercalate, intersperse_singleton, flatten_cons,
            flatten_nil, append_nil] at whole
          simp [whole]
        | cons second others => rw [List.getLast?_cons_cons]
    · rw [if_neg wild, modifyHead_cons, List.cons.injEq] at pieces
      obtain ⟨rfl, rfl⟩ := pieces
      rw [earlier]
      cases pattern with
      | nil => simpa using wild
      | cons head tail => rw [List.getLast?_cons_cons]

/-! ### The greedy scan -/

/-- The first index at which the needle occurs. -/
def find (needle : List α) : List α → Option Nat
  | [] => if needle = [] then some 0 else none
  | symbol :: rest =>
    if needle.isPrefixOf (symbol :: rest) then some 0 else (find needle rest).map (· + 1)

theorem find_nil (text : List α) : find [] text = some 0 := by
  cases text <;> simp [find]

variable {needle : List α} {index : Nat}

theorem find_some (found : find needle text = some index) :
    (∃ before after, text = before ++ (needle ++ after) ∧ before.length = index) ∧
      ∀ before after, text = before ++ (needle ++ after) → index ≤ before.length := by
  induction text generalizing index with
  | nil =>
    simp only [find] at found
    split at found
    · rename_i empty
      cases found
      exact ⟨⟨[], [], by simp [empty], rfl⟩, fun _ _ _ => Nat.zero_le _⟩
    · cases found
  | cons symbol rest ih =>
    rw [find] at found
    split at found
    · rename_i here
      cases found
      obtain ⟨after, split⟩ := List.isPrefixOf_iff_prefix.mp here
      exact ⟨⟨[], after, split.symm, rfl⟩, fun _ _ _ => Nat.zero_le _⟩
    · rename_i notHere
      obtain ⟨earlier, foundLater, rfl⟩ := Option.map_eq_some_iff.mp found
      obtain ⟨⟨before, after, split, length⟩, first⟩ := ih foundLater
      refine ⟨⟨symbol :: before, after, by rw [split]; rfl, by simp [length]⟩, ?_⟩
      intro other tail occurs
      cases other with
      | nil => exact absurd (List.isPrefixOf_iff_prefix.mpr ⟨tail, occurs.symm⟩) notHere
      | cons head others =>
        rw [cons_append, List.cons.injEq] at occurs
        have bound := first others tail occurs.2
        rw [length_cons]
        omega

theorem find_none (missing : find needle text = none) (before after : List α) :
    text ≠ before ++ (needle ++ after) := by
  intro occurs
  induction text generalizing before with
  | nil =>
    simp only [find] at missing
    split at missing
    · cases missing
    · rename_i nonempty
      simp only [nil_eq, append_eq_nil_iff] at occurs
      exact nonempty occurs.2.1
  | cons symbol rest ih =>
    rw [find] at missing
    split at missing
    · cases missing
    · rename_i notHere
      cases before with
      | nil => exact notHere (List.isPrefixOf_iff_prefix.mpr ⟨after, occurs.symm⟩)
      | cons head others =>
        rw [cons_append, List.cons.injEq] at occurs
        exact ih (Option.map_eq_none_iff.mp missing) others occurs.2

/-- Place each piece at its first occurrence after the previous one; what follows
the last piece. -/
def scan : List (List α) → List α → Option (List α)
  | [], text => some text
  | piece :: pieces, text =>
    match find piece text with
    | none => none
    | some index => scan pieces (text.drop (index + piece.length))

/-- Empty pieces are found at once. -/
theorem scan_filter (pieces : List (List α)) (text : List α) :
    scan (pieces.filter (fun piece => !piece.isEmpty)) text = scan pieces text := by
  induction pieces generalizing text with
  | nil => rfl
  | cons piece pieces ih =>
    cases piece with
    | nil =>
      rw [filter_cons_of_neg (by simp), ih, scan, find_nil]
      rfl
    | cons symbol symbols =>
      rw [filter_cons_of_pos (by simp), scan, scan]
      cases find (symbol :: symbols) text with
      | none => rfl
      | some index => exact ih _

variable {other : List α}

/-- Behind the first occurrence of the first piece an initial part has the others,
and it reaches no further than any other placement. -/
theorem scattered_behind_find {tail : List α} (found : find piece text = some index)
    (whole : text = other ++ tail) (scattered : Scattered (piece :: pieces) other) :
    ∃ initial, initial <+: text.drop (index + piece.length) ∧ Scattered pieces initial ∧
      index + piece.length + initial.length ≤ other.length := by
  obtain ⟨gap, rest, rfl, restScattered⟩ := scattered_cons_iff.mp scattered
  have later : index ≤ gap.length := by
    apply (find_some found).2 gap (rest ++ tail)
    rw [whole]
    simp
  cases pieces with
  | nil =>
    refine ⟨[], List.nil_prefix, .nil, ?_⟩
    simp only [List.length_append, length_nil]
    omega
  | cons next others =>
    refine ⟨(gap ++ (piece ++ rest)).drop (index + piece.length), ?_, ?_, ?_⟩
    · have within : index + piece.length ≤ (gap ++ (piece ++ rest)).length := by
        simp only [List.length_append]
        omega
      rw [whole, drop_append_of_le_length within]
      exact prefix_append _ _
    · -- The part before `rest` only lengthens the first gap.
      have ending : rest <:+ (gap ++ (piece ++ rest)).drop (index + piece.length) := by
        have whole : rest <:+ gap ++ (piece ++ rest) := ⟨gap ++ piece, by simp⟩
        apply suffix_of_suffix_length_le whole
        · exact drop_suffix _ _
        · simp only [length_drop, List.length_append]
          omega
      obtain ⟨longer, equal⟩ := ending
      rw [← equal]
      exact restScattered.prepend (cons_ne_nil next others) longer
    · simp only [length_drop, List.length_append]
      omega

/-- A successful scan consumes the shortest initial part that has the pieces. -/
theorem scan_some {remainder : List α} (scanned : scan pieces text = some remainder) :
    ∃ consumed, text = consumed ++ remainder ∧ Scattered pieces consumed ∧
      ∀ other, other <+: text → Scattered pieces other → consumed.length ≤ other.length := by
  induction pieces generalizing text with
  | nil =>
    rw [scan, Option.some.injEq] at scanned
    exact ⟨[], by simp [scanned], .nil, fun _ _ _ => Nat.zero_le _⟩
  | cons piece pieces ih =>
    rw [scan] at scanned
    cases found : find piece text with
    | none =>
      rw [found] at scanned
      cases scanned
    | some index =>
      rw [found] at scanned
      obtain ⟨consumed, split, scattered, shortest⟩ := ih scanned
      obtain ⟨before, after, occurs, length⟩ := (find_some found).1
      have dropped : text.drop (index + piece.length) = after := by
        rw [occurs, ← List.append_assoc, ← length, ← List.length_append, drop_left]
      rw [dropped] at split
      refine ⟨before ++ (piece ++ consumed), by rw [occurs, split]; simp,
        .cons before piece scattered, ?_⟩
      rintro other ⟨tail, whole⟩ otherScattered
      obtain ⟨initial, isInitial, initialScattered, reach⟩ :=
        scattered_behind_find found whole.symm otherScattered
      have bound := shortest initial isInitial initialScattered
      simp only [List.length_append]
      omega

/-- A failed scan means that no initial part has the pieces. -/
theorem scan_none (scanned : scan pieces text = none) (initial : other <+: text) :
    ¬ Scattered pieces other := by
  intro scattered
  induction pieces generalizing text other with
  | nil => cases scanned
  | cons piece pieces ih =>
    obtain ⟨tail, whole⟩ := initial
    rw [scan] at scanned
    cases found : find piece text with
    | none =>
      obtain ⟨gap, rest, split, -⟩ := scattered_cons_iff.mp scattered
      apply find_none found gap (rest ++ tail)
      rw [← whole, split]
      simp
    | some index =>
      rw [found] at scanned
      obtain ⟨later, isInitial, laterScattered, -⟩ :=
        scattered_behind_find found whole.symm scattered
      exact ih scanned isInitial laterScattered

/-! ### What the scan decides -/

/-- With an open end the scan decides the pieces. -/
theorem scan_isSome_iff (openEnd : pieces.getLast? = some []) :
    (scan pieces text).isSome = true ↔ Scattered pieces text := by
  cases scanned : scan pieces text with
  | none =>
    simp only [Option.isSome_none, Bool.false_eq_true, false_iff]
    exact scan_none scanned (prefix_refl text)
  | some remainder =>
    obtain ⟨consumed, split, scattered, -⟩ := scan_some scanned
    simp only [Option.isSome_some, true_iff]
    rw [split]
    exact scattered.append openEnd remainder

/-- The scan ends with the text exactly when the text has the pieces and no proper
initial part of it does. -/
theorem scan_eq_nil_iff : scan pieces text = some [] ↔
      Scattered pieces text ∧ ∀ other, other <+: text → Scattered pieces other → other = text := by
  constructor
  · intro scanned
    obtain ⟨consumed, split, scattered, shortest⟩ := scan_some scanned
    rw [append_nil] at split
    subst split
    refine ⟨scattered, fun other initial otherScattered => ?_⟩
    exact initial.eq_of_length_le (shortest other initial otherScattered)
  · rintro ⟨scattered, only⟩
    cases scanned : scan pieces text with
    | none => exact absurd scattered (scan_none scanned (prefix_refl text))
    | some remainder =>
      obtain ⟨consumed, split, consumedScattered, -⟩ := scan_some scanned
      have whole := only consumed ⟨remainder, split.symm⟩ consumedScattered
      rw [whole] at split
      rw [self_eq_append_right.mp split]

end Decidable

end Mcpace.Library.Glob
