import Mathlib

/-!
Owns splitting at a mark: at the first place of a mark of several symbols, at every place of it, and
behind every place of a single one. A segment is what a loop over the parts finds: from the first
part that opens it up to the next one that stops it.
-/

namespace Mcpace.Library.Delimiters

open List

variable {α : Type} [DecidableEq α] {mark list front back : List α}

/-- The parts before and behind the first place of the mark. -/
def cut (mark : List α) : List α → Option (List α × List α)
  | [] => if mark = [] then some ([], []) else none
  | item :: rest =>
    if mark.isPrefixOf (item :: rest) then some ([], (item :: rest).drop mark.length)
    else (cut mark rest).map (fun parts => (item :: parts.1, parts.2))

/-- The parts between the marks; the fuel is the number of cuts. -/
def splitLoop (mark : List α) : Nat → List α → List (List α)
  | 0, list => [list]
  | fuel + 1, list =>
    match cut mark list with
    | none => [list]
    | some (part, rest) => part :: splitLoop mark fuel rest

def splitAll (mark list : List α) : List (List α) := splitLoop mark list.length list

/-- Cut behind every mark; the last part may have none. -/
def splitInclusive (mark : α) : List α → List (List α)
  | [] => []
  | item :: rest =>
    if item = mark then [item] :: splitInclusive mark rest
    else
      match splitInclusive mark rest with
      | [] => [[item]]
      | part :: others => (item :: part) :: others

/-! ### The first mark -/

theorem cut_of_isPrefix (opens : mark <+: list) :
    cut mark list = some ([], list.drop mark.length) := by
  cases list with
  | nil =>
    rw [prefix_nil.mp opens]
    rfl
  | cons item rest =>
    rw [cut, if_pos (List.isPrefixOf_iff_prefix.mpr opens)]

theorem cut_cons_of_not_isPrefix {item : α} {rest : List α} (other : ¬mark <+: item :: rest) :
    cut mark (item :: rest) = (cut mark rest).map (fun parts => (item :: parts.1, parts.2)) := by
  rw [cut, if_neg (fun opens => other (List.isPrefixOf_iff_prefix.mp opens))]

theorem eq_append_of_cut (found : cut mark list = some (front, back)) :
    list = front ++ mark ++ back := by
  induction list generalizing front with
  | nil =>
    rw [cut] at found
    split_ifs at found with empty
    cases found
    rw [empty]
    rfl
  | cons item rest ih =>
    by_cases opens : mark <+: item :: rest
    · rw [cut_of_isPrefix opens] at found
      cases found
      obtain ⟨tail, shape⟩ := opens
      rw [← shape, drop_left, nil_append]
    · rw [cut_cons_of_not_isPrefix opens, Option.map_eq_some_iff] at found
      obtain ⟨parts, later, same⟩ := found
      cases same
      rw [ih later]
      simp

/-- Symbols behind the mark do not move it. -/
theorem cut_append (found : cut mark list = some (front, back)) (more : List α) :
    cut mark (list ++ more) = some (front, back ++ more) := by
  induction list generalizing front with
  | nil =>
    rw [cut] at found
    split_ifs at found with empty
    cases found
    rw [cut_of_isPrefix (empty ▸ List.nil_prefix), empty]
    rfl
  | cons item rest ih =>
    by_cases opens : mark <+: item :: rest
    · rw [cut_of_isPrefix opens] at found
      cases found
      rw [cut_of_isPrefix (opens.trans (prefix_append _ _)),
        drop_append_of_le_length opens.length_le]
    · rw [cut_cons_of_not_isPrefix opens, Option.map_eq_some_iff] at found
      obtain ⟨parts, later, same⟩ := found
      cases same
      have stays : ¬mark <+: item :: (rest ++ more) := by
        intro early
        apply opens
        have place := eq_append_of_cut later
        have short : mark.length ≤ (item :: rest).length := by
          rw [place]
          simp
          omega
        exact prefix_of_prefix_length_le early (prefix_append (item :: rest) more) short
      rw [cons_append, cut_cons_of_not_isPrefix stays, ih later]
      rfl

/-- What is found in the front part of a list is what is found in the whole. -/
theorem cut_of_append {rest early later : List α} (found : cut mark list = some (early, later))
    (whole : cut mark (list ++ rest) = some (front, back)) :
    early = front ∧ later ++ rest = back := by
  rw [cut_append found rest] at whole
  exact Prod.mk.inj (Option.some.inj whole)

theorem exists_cut_of_infix (front back : List α) :
    ∃ parts, cut mark (front ++ mark ++ back) = some parts := by
  induction front with
  | nil =>
    rw [nil_append, cut_of_isPrefix (prefix_append mark back)]
    exact ⟨_, rfl⟩
  | cons item rest ih =>
    rw [cons_append, cons_append]
    by_cases opens : mark <+: item :: (rest ++ mark ++ back)
    · rw [cut_of_isPrefix opens]
      exact ⟨_, rfl⟩
    · obtain ⟨parts, found⟩ := ih
      rw [cut_cons_of_not_isPrefix opens, found]
      exact ⟨_, rfl⟩

variable {first : α} {others : List α}

/-- Symbols other than the first of the mark stand before it. -/
theorem cut_skip (free : first ∉ front) : cut (first :: others) (front ++ back) =
      (cut (first :: others) back).map (fun parts => (front ++ parts.1, parts.2)) := by
  induction front with
  | nil => simp
  | cons item rest ih =>
    have other : ¬first :: others <+: item :: (rest ++ back) := by
      rw [cons_prefix_cons]
      intro same
      exact free (same.1 ▸ mem_cons_self)
    rw [cons_append, cut_cons_of_not_isPrefix other,
      ih (fun member => free (mem_cons_of_mem _ member)), Option.map_map]
    rfl

theorem cut_free (free : first ∉ front) (back : List α) :
    cut (first :: others) (front ++ first :: others ++ back) = some (front, back) := by
  rw [List.append_assoc, cut_skip free, cut_of_isPrefix (prefix_append _ _), drop_left,
    Option.map_some, append_nil]

/-- No mark in symbols that lack its first one. -/
theorem cut_eq_none (free : first ∉ list) : cut (first :: others) list = none := by
  rw [← append_nil list, cut_skip free]
  rfl

theorem cut_eq_none_iff : cut mark list = none ↔ ¬mark <:+: list := by
  constructor
  · rintro absent ⟨front, back, rfl⟩
    obtain ⟨parts, found⟩ : ∃ parts, cut mark (front ++ mark ++ back) = some parts :=
      exists_cut_of_infix front back
    rw [absent] at found
    cases found
  · intro absent
    cases found : cut mark list with
    | none => rfl
    | some parts =>
      exact absurd ⟨parts.1, parts.2, (eq_append_of_cut found).symm⟩ absent

/-- A mark whose first symbol stands nowhere else in it is found where it first occurs. -/
theorem cut_of_not_infix (once : first ∉ others) (absent : ¬first :: others <:+: front)
    (back : List α) :
    cut (first :: others) (front ++ first :: others ++ back) = some (front, back) := by
  induction front with
  | nil =>
    rw [nil_append, cut_of_isPrefix (prefix_append _ _), drop_left]
  | cons item rest ih =>
    have later := ih (fun occurs => absent (occurs.trans (infix_cons_iff.mpr
      (.inr (infix_refl rest)))))
    have other : ¬first :: others <+: item :: (rest ++ first :: others ++ back) := by
      intro opens
      rw [cons_prefix_cons] at opens
      obtain ⟨same, opens⟩ := opens
      rw [List.append_assoc] at opens
      -- the mark would lie in front, or reach over its own first symbol
      rcases prefix_or_prefix_of_prefix opens (prefix_append rest _) with short | long
      · apply absent
        rw [same]
        exact (cons_prefix_cons.mpr ⟨rfl, short⟩).isInfix
      · obtain ⟨tail, shape⟩ := long
        rw [← shape, prefix_append_right_inj] at opens
        cases tail with
        | nil =>
          apply absent
          rw [same, ← shape, append_nil]
        | cons symbol tail =>
          rw [cons_append, cons_prefix_cons] at opens
          apply once
          rw [← shape, opens.1]
          exact mem_append_right _ mem_cons_self
    rw [cons_append, cons_append, cut_cons_of_not_isPrefix other, later]
    rfl

/-- No mark stands before the first. -/
theorem not_infix_of_cut (solid : mark ≠ []) (found : cut mark list = some (front, back)) :
    ¬mark <:+: front := by
  rintro ⟨early, later, shape⟩
  obtain ⟨parts, inFront⟩ : ∃ parts, cut mark front = some parts := by
    rw [← shape]
    exact exists_cut_of_infix early later
  have whole := eq_append_of_cut found
  rw [whole, List.append_assoc] at found
  have same := (cut_of_append inFront found).1
  have length := congrArg List.length (eq_append_of_cut inFront)
  simp only [List.length_append] at length
  have long := length_pos_of_ne_nil solid
  rw [same] at length
  omega

theorem not_isPrefix_of_cut (found : cut mark list = some (front, back)) {index : Nat}
    (early : index < front.length) : ¬mark <+: list.drop index := by
  induction list generalizing front index with
  | nil =>
    rw [cut] at found
    split_ifs at found
    cases found
    exact absurd early (Nat.not_lt_zero _)
  | cons item rest ih =>
    by_cases opens : mark <+: item :: rest
    · rw [cut_of_isPrefix opens] at found
      cases found
      exact absurd early (Nat.not_lt_zero _)
    · rw [cut_cons_of_not_isPrefix opens, Option.map_eq_some_iff] at found
      obtain ⟨parts, later, same⟩ := found
      cases same
      cases index with
      | zero => exact opens
      | succ index => exact ih later (Nat.lt_of_succ_lt_succ early)

omit [DecidableEq α] in
/-- What lacks a separator occurs on one side of it. -/
theorem infix_of_separated {separator : α} {needle : List α} (free : separator ∉ needle)
    (occurs : needle <:+: front ++ separator :: back) : needle <:+: front ∨ needle <:+: back := by
  obtain ⟨before, behind, shape⟩ := occurs
  rw [List.append_assoc] at shape
  rcases append_eq_append_iff.mp shape with ⟨extra, isFront, isRest⟩ | ⟨extra, _, isRest⟩
  · left
    rcases append_eq_append_iff.mp isRest with ⟨more, isExtra, _⟩ | ⟨more, isNeedle, isMore⟩
    · exact ⟨before, more, by rw [isFront, isExtra, List.append_assoc]⟩
    · cases more with
      | nil =>
        rw [append_nil] at isNeedle
        exact ⟨before, [], by rw [isFront, isNeedle, append_nil]⟩
      | cons symbol more =>
        rw [cons_append, cons_eq_cons] at isMore
        apply absurd _ free
        rw [isNeedle, isMore.1]
        exact mem_append_right _ mem_cons_self
  · cases extra with
    | nil =>
      rw [nil_append] at isRest
      cases needle with
      | nil => exact .inl (List.nil_infix)
      | cons symbol needle =>
        rw [cons_append, cons_eq_cons] at isRest
        exact absurd (isRest.1 ▸ mem_cons_self) free
    | cons symbol extra =>
      right
      rw [cons_append, cons_eq_cons] at isRest
      exact ⟨extra, behind, by rw [isRest.2, List.append_assoc]⟩

/-! ### Lines -/

section Lines

variable {first second : α} {lines : List (List α)}

/-- Lines without the first symbol of their mark are found again. -/
theorem splitLoop_intercalate {fuel : Nat} (filled : lines ≠ [])
    (free : ∀ line ∈ lines, first ∉ line) (enough : lines.length ≤ fuel + 1) :
    splitLoop [first, second] fuel ([first, second].intercalate lines) = lines := by
  induction lines generalizing fuel with
  | nil => exact absurd rfl filled
  | cons line lines ih =>
    have here := free line mem_cons_self
    cases lines with
    | nil =>
      cases fuel with
      | zero => simp [splitLoop]
      | succ fuel => simp [splitLoop, cut_eq_none here]
    | cons next lines =>
      obtain ⟨fuel, rfl⟩ : ∃ less, fuel = less + 1 := by
        rw [length_cons, length_cons] at enough
        exact Nat.exists_eq_succ_of_ne_zero (by omega)
      have later := @ih fuel (cons_ne_nil _ _)
        (forall_mem_cons.mp free).2
        (by rw [length_cons] at enough; omega)
      rw [List.intercalate_cons_cons, splitLoop, cut_free here]
      exact congrArg (List.cons line) later

omit [DecidableEq α] in
theorem length_le_intercalate (lines : List (List α)) :
    lines.length ≤ ([first, second].intercalate lines).length + 1 := by
  induction lines with
  | nil => simp
  | cons line lines ih =>
    cases lines with
    | nil => simp
    | cons next lines =>
      rw [List.intercalate_cons_cons]
      simp only [List.length_append, length_cons, length_nil] at ih ⊢
      omega

theorem splitAll_intercalate (filled : lines ≠ []) (free : ∀ line ∈ lines, first ∉ line) :
    splitAll [first, second] ([first, second].intercalate lines) = lines :=
  splitLoop_intercalate filled free (length_le_intercalate lines)

/-- The doubled mark ends filled lines: it is not found between them. -/
theorem cut_lines (different : first ≠ second) (filled : ∀ line ∈ lines, line ≠ [])
    (free : ∀ line ∈ lines, first ∉ line) (back : List α) :
    cut [first, second, first, second]
        ([first, second].intercalate lines ++ [first, second, first, second] ++ back) =
      some ([first, second].intercalate lines, back) := by
  induction lines with
  | nil =>
    rw [List.intercalate_nil, nil_append, cut_of_isPrefix (prefix_append _ _), drop_left]
  | cons line lines ih =>
    have here := free line mem_cons_self
    cases lines with
    | nil => rw [List.intercalate_singleton, cut_free here]
    | cons next lines =>
      have later := ih (forall_mem_cons.mp filled).2
        (forall_mem_cons.mp free).2
      rw [List.intercalate_cons_cons, List.append_assoc line, List.append_assoc line,
        List.append_assoc line, cut_skip here]
      -- The next line opens with a symbol that is not the first of the mark.
      obtain ⟨symbol, others, shape⟩ :=
        exists_cons_of_ne_nil (filled next (by simp))
      have opens : ∃ tail, [first, second].intercalate (next :: lines) ++
          [first, second, first, second] ++ back = symbol :: tail := by
        cases lines with
        | nil => simp [shape]
        | cons third lines => simp [List.intercalate_cons_cons, shape]
      have apart : first ≠ symbol := by
        intro same
        apply free next (by simp)
        rw [shape, same]
        exact mem_cons_self
      obtain ⟨tail, opening⟩ := opens
      rw [List.append_assoc] at opening later
      simp only [List.append_assoc, cons_append, nil_append] at opening later ⊢
      rw [cut_cons_of_not_isPrefix, cut_cons_of_not_isPrefix, later]
      · simp
      · rw [cons_prefix_cons]
        exact fun same => different same.1
      · rw [opening, cons_prefix_cons, cons_prefix_cons, cons_prefix_cons]
        exact fun same => apart same.2.2.1

end Lines

/-! ### Marked lines -/

section Inclusive

variable {item : α}

theorem splitInclusive_mark (item : α) (rest : List α) :
    splitInclusive item (item :: rest) = [item] :: splitInclusive item rest := by
  rw [splitInclusive, if_pos rfl]

theorem splitInclusive_cons {mark : α} (other : item ≠ mark) (rest : List α) :
    splitInclusive mark (item :: rest) =
      (item :: (splitInclusive mark rest).headD []) :: (splitInclusive mark rest).tail := by
  rw [splitInclusive, if_neg other]
  cases splitInclusive mark rest with
  | nil => rfl
  | cons part others => rfl

theorem flatten_splitInclusive (mark : α) (list : List α) :
    (splitInclusive mark list).flatten = list := by
  induction list with
  | nil => rfl
  | cons item rest ih =>
    by_cases same : item = mark
    · rw [same, splitInclusive_mark, flatten_cons, ih]
      rfl
    · rw [splitInclusive_cons same]
      cases parts : splitInclusive mark rest with
      | nil =>
        rw [parts, flatten_nil] at ih
        rw [← ih]
        rfl
      | cons part others =>
        rw [parts, flatten_cons] at ih
        rw [← ih]
        rfl

theorem splitInclusive_free {mark : α} (free : mark ∉ list) (filled : list ≠ []) :
    splitInclusive mark list = [list] := by
  induction list with
  | nil => exact absurd rfl filled
  | cons item rest ih =>
    rw [mem_cons, not_or] at free
    rw [splitInclusive_cons (Ne.symm free.1)]
    cases rest with
    | nil => rfl
    | cons next others =>
      rw [ih free.2 (cons_ne_nil _ _)]
      rfl

theorem splitInclusive_part {mark : α} (free : mark ∉ front) (back : List α) :
    splitInclusive mark (front ++ mark :: back) = (front ++ [mark]) :: splitInclusive mark back := by
  induction front with
  | nil => exact splitInclusive_mark mark back
  | cons item rest ih =>
    rw [mem_cons, not_or] at free
    rw [cons_append, splitInclusive_cons (Ne.symm free.1), ih free.2]
    rfl

/-- Parts that have the mark at their end only, and all have it but the last. -/
structure IsSplit (mark : α) (parts : List (List α)) : Prop where
  filled : ∀ part ∈ parts, part ≠ []
  inner : ∀ part ∈ parts, mark ∉ part.dropLast
  marked : ∀ part ∈ parts.dropLast, part.getLast? = some mark

theorem isSplit_splitInclusive (mark : α) (list : List α) :
    IsSplit mark (splitInclusive mark list) := by
  induction list with
  | nil => exact ⟨by simp [splitInclusive], by simp [splitInclusive], by simp [splitInclusive]⟩
  | cons item rest ih =>
    obtain ⟨filled, inner, marked⟩ := ih
    by_cases same : item = mark
    · rw [same, splitInclusive_mark]
      cases parts : splitInclusive mark rest with
      | nil => exact ⟨by simp, by simp, by simp⟩
      | cons part others =>
        rw [parts] at filled inner marked
        refine ⟨?_, ?_, ?_⟩
        · exact forall_mem_cons.mpr ⟨by simp, filled⟩
        · exact forall_mem_cons.mpr ⟨by simp, inner⟩
        · rw [dropLast_cons_of_ne_nil (cons_ne_nil _ _)]
          exact forall_mem_cons.mpr ⟨rfl, marked⟩
    · rw [splitInclusive_cons same]
      cases parts : splitInclusive mark rest with
      | nil => exact ⟨by simp, by simp, by simp⟩
      | cons part others =>
        rw [parts] at filled inner marked
        have nonempty : part ≠ [] := filled part mem_cons_self
        refine ⟨?_, ?_, ?_⟩
        · exact forall_mem_cons.mpr
            ⟨cons_ne_nil _ _, fun other later => filled other (.tail _ later)⟩
        · refine forall_mem_cons.mpr ⟨?_, fun other later => inner other (.tail _ later)⟩
          rw [headD_cons, dropLast_cons_of_ne_nil nonempty, mem_cons, not_or]
          exact ⟨Ne.symm same, inner part mem_cons_self⟩
        · cases others with
          | nil => simp
          | cons next further =>
            rw [tail_cons, dropLast_cons_of_ne_nil (cons_ne_nil _ _)]
            rw [dropLast_cons_of_ne_nil (cons_ne_nil _ _)] at marked
            have last := (forall_mem_cons.mp marked).1
            refine forall_mem_cons.mpr ⟨?_, (forall_mem_cons.mp marked).2⟩
            rw [headD_cons, List.getLast?_cons, last]
            rfl

theorem splitInclusive_flatten {mark : α} {parts : List (List α)} (split : IsSplit mark parts) :
    splitInclusive mark parts.flatten = parts := by
  obtain ⟨filled, inner, marked⟩ := split
  induction parts with
  | nil => rfl
  | cons part others ih =>
    have nonempty := filled part mem_cons_self
    have free := inner part mem_cons_self
    have shape := dropLast_append_getLast nonempty
    cases others with
    | nil =>
      rw [flatten_cons, flatten_nil, append_nil]
      by_cases ends : part.getLast nonempty = mark
      · rw [ends] at shape
        rw [← shape, splitInclusive_part free []]
        rfl
      · refine splitInclusive_free ?_ nonempty
        rw [← shape, mem_append, mem_singleton, not_or]
        exact ⟨free, Ne.symm ends⟩
    | cons next further =>
      rw [dropLast_cons_of_ne_nil (cons_ne_nil _ _)] at marked
      have ends := marked part mem_cons_self
      rw [List.getLast?_eq_some_getLast nonempty, Option.some_inj] at ends
      rw [ends] at shape
      have later := ih (forall_mem_cons.mp filled).2
        (forall_mem_cons.mp inner).2
        (forall_mem_cons.mp marked).2
      rw [flatten_cons, ← shape, List.append_assoc, singleton_append,
        splitInclusive_part free, later]

/-- A mark at the end closes the last part, or is a part of its own. -/
theorem splitInclusive_snoc (mark : α) (list : List α) :
    splitInclusive mark (list ++ [mark]) = splitInclusive mark list ++ [[mark]] ∨
      ∃ parts last, splitInclusive mark list = parts ++ [last] ∧
        splitInclusive mark (list ++ [mark]) = parts ++ [last ++ [mark]] := by
  induction list with
  | nil => exact .inl (splitInclusive_mark mark [])
  | cons item rest ih =>
    by_cases same : item = mark
    · rw [same, cons_append, splitInclusive_mark, splitInclusive_mark]
      rcases ih with alone | ⟨parts, last, whole, longer⟩
      · exact .inl (by rw [alone, cons_append])
      · exact .inr ⟨[mark] :: parts, last, by rw [whole, cons_append], by rw [longer, cons_append]⟩
    · rw [cons_append, splitInclusive_cons same, splitInclusive_cons same]
      rcases ih with alone | ⟨parts, last, whole, longer⟩
      · rw [alone]
        cases others : splitInclusive mark rest with
        | nil => exact .inr ⟨[], [item], rfl, rfl⟩
        | cons part others => exact .inl rfl
      · rw [whole, longer]
        cases parts with
        | nil => exact .inr ⟨[], item :: last, rfl, rfl⟩
        | cons part others => exact .inr ⟨(item :: part) :: others, last, rfl, rfl⟩

omit [DecidableEq α] in
theorem IsSplit.of_append {mark : α} {parts others : List (List α)}
    (split : IsSplit mark (parts ++ others)) : IsSplit mark parts ∧ IsSplit mark others := by
  refine ⟨⟨fun part member => split.filled part (mem_append_left _ member),
    fun part member => split.inner part (mem_append_left _ member), ?_⟩,
    ⟨fun part member => split.filled part (mem_append_right _ member),
      fun part member => split.inner part (mem_append_right _ member), ?_⟩⟩
  · intro part member
    apply split.marked part
    cases others with
    | nil => rwa [append_nil]
    | cons next further =>
      rw [dropLast_append_of_ne_nil (cons_ne_nil _ _)]
      exact mem_append_left _ (mem_of_mem_dropLast member)
  · intro part member
    apply split.marked part
    cases others with
    | nil => cases member
    | cons next further =>
      rw [dropLast_append_of_ne_nil (cons_ne_nil _ _)]
      exact mem_append_right _ member

end Inclusive

omit [DecidableEq α] in
/-- A loop that counts the places of its parts passes over those it has no use for. -/
theorem loop_skip {β : Type*} {passes : List α → Prop} (loop : List (List α) → Nat → β)
    (step : ∀ part rest offset, passes part →
      loop (part :: rest) offset = loop rest (offset + part.length))
    {parts rest : List (List α)} {offset : Nat} (all : ∀ part ∈ parts, passes part) :
    loop (parts ++ rest) offset = loop rest (offset + parts.flatten.length) := by
  induction parts generalizing offset with
  | nil => rfl
  | cons part parts ih =>
    obtain ⟨first, later⟩ := forall_mem_cons.mp all
    rw [cons_append, step _ _ _ first, ih later, flatten_cons, List.length_append, Nat.add_assoc]

/-! ### Segments -/

section Segments

omit [DecidableEq α]

/-- The items by the first hit and what follows it up to the next stop. -/
structure Segment (hit : α → Prop) (stops : α → α → Prop) (items front : List α) (head : α)
    (body rest : List α) : Prop where
  split : items = front ++ head :: (body ++ rest)
  before : ∀ item ∈ front, ¬hit item
  opens : hit head
  inner : ∀ item ∈ body, ¬stops head item
  behind : ∀ item ∈ rest.head?, stops head item

theorem exists_segment (hit : α → Prop) (stops : α → α → Prop) (items : List α) :
    (∀ item ∈ items, ¬hit item) ∨
      ∃ front head body rest, Segment hit stops items front head body rest := by
  classical
  cases found : items.find? (fun item => decide (hit item)) with
  | none =>
    left
    intro item member isHit
    exact List.find?_eq_none.mp found item member (decide_eq_true isHit)
  | some head =>
    right
    obtain ⟨isHit, front, later, shape, before⟩ := List.find?_eq_some_iff_append.mp found
    refine ⟨front, head, later.takeWhile (fun item => decide ¬stops head item),
      later.dropWhile (fun item => decide ¬stops head item), ?_, ?_, of_decide_eq_true isHit, ?_, ?_⟩
    · rw [takeWhile_append_dropWhile, shape]
    · intro item member isHit
      have passed := before item member
      rw [decide_eq_true isHit] at passed
      cases passed
    · intro item member
      have passed := mem_takeWhile_imp member
      exact of_decide_eq_true passed
    · intro item first
      have stopped := List.head?_dropWhile_not (fun item => decide ¬stops head item) later
      rw [Option.mem_def.mp first] at stopped
      exact not_not.mp (of_decide_eq_false stopped)

/-- A loop that looks for the first hit and then for the next stop finds the segment. -/
theorem loop_segment {σ β : Type*} {hit : List α → Prop} {stops : List α → List α → Prop}
    (loop : List (List α) → Nat → Option σ → β) (start : List α → Nat → σ) (finish : σ → Nat → β)
    {last : Nat}
    (skips : ∀ part rest offset, ¬hit part →
      loop (part :: rest) offset none = loop rest (offset + part.length) none)
    (hits : ∀ part rest offset, hit part → loop (part :: rest) offset none =
      loop rest (offset + part.length) (some (start part offset)))
    (passes : ∀ head part rest offset place, hit head → ¬stops head part →
      loop (part :: rest) offset (some (start head place)) =
        loop rest (offset + part.length) (some (start head place)))
    (halts : ∀ head part rest offset place, hit head → stops head part →
      loop (part :: rest) offset (some (start head place)) = finish (start head place) offset)
    (ends : ∀ head place, loop [] last (some (start head place)) = finish (start head place) last)
    {parts front body rest : List (List α)} {head : List α} {offset : Nat}
    (segment : Segment hit stops parts front head body rest)
    (fits : offset + parts.flatten.length = last) :
    loop parts offset none = finish (start head (offset + front.flatten.length))
      (offset + (front ++ head :: body).flatten.length) := by
  have total : offset + (front ++ head :: body).flatten.length + rest.flatten.length = last := by
    rw [← fits, segment.split]
    simp only [flatten_append, flatten_cons, List.length_append]
    omega
  have place : offset + front.flatten.length + head.length + body.flatten.length =
      offset + (front ++ head :: body).flatten.length := by
    simp only [flatten_append, flatten_cons, List.length_append]
    omega
  rw [segment.split, loop_skip (fun parts offset => loop parts offset none) skips segment.before,
    hits _ _ _ segment.opens, loop_skip (fun parts offset => loop parts offset (some _))
      (fun part rest offset => passes head part rest offset _ segment.opens) segment.inner, place]
  cases rest with
  | nil =>
    rw [flatten_nil, length_nil, Nat.add_zero] at total
    rw [total]
    exact ends head _
  | cons part rest => exact halts head part rest _ _ segment.opens (segment.behind part rfl)

end Segments

end Mcpace.Library.Delimiters
