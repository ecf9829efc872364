import Mathlib

/-!
Owns the framing of event streams: events are blocks of non-empty lines, each
block ended by a blank line, with LF, CRLF or CR line ends in any mixture, behind
an optional byte order mark.

`decode` reads a stream by replacing CRLF, cutting at the first pairs of line
feeds and splitting the blocks into lines. It knows neither bare CR nor the mark;
`decode_encode` is the round trip for streams without them.
-/

namespace Mcpace.Library.EventStream

open List

/-- Replace every CRLF by LF, from left to right. -/
def normalizeNewlines : List Char → List Char
  | [] => []
  | '\r' :: '\n' :: rest => '\n' :: normalizeNewlines rest
  | char :: rest => char :: normalizeNewlines rest

/-- Cut at every pair of line feeds, from left to right. -/
def splitBlank : List Char → List (List Char)
  | [] => [[]]
  | '\n' :: '\n' :: rest => [] :: splitBlank rest
  | char :: rest => (splitBlank rest).modifyHead (List.cons char)

def stripCarriageReturn (line : List Char) : List Char :=
  if line.getLast? = some '\r' then line.dropLast else line

/-- The lines of a text: a line feed ends a line, and so does a CRLF; what follows
the last line feed is a line, as it stands, unless it is empty. -/
def lines (text : List Char) : List (List Char) :=
  let pieces := text.splitOn '\n'
  pieces.dropLast.map stripCarriageReturn ++ pieces.getLast?.toList.filter (· ≠ [])

def filledLines (text : List Char) : List (List Char) := (lines text).filter (· ≠ [])

/-- The events of a stream by their non-empty lines; events without any are left out. -/
def decode (text : List Char) : List (List (List Char)) :=
  ((splitBlank (normalizeNewlines text)).map filledLines).filter (· ≠ [])

/-! ### Streams -/

inductive LineEnd where
  | lf
  | crlf
  | cr
deriving DecidableEq

def LineEnd.chars : LineEnd → List Char
  | .lf => ['\n']
  | .crlf => ['\r', '\n']
  | .cr => ['\r']

/-- A line of an event with its line end. -/
structure Line where
  text : List Char
  ending : LineEnd
  text_ne_nil : text ≠ []
  plain : ∀ char ∈ text, char ≠ '\n' ∧ char ≠ '\r'

/-- An event: its lines, and the end of the blank line behind them. An event without
lines is one more blank line. -/
structure Event where
  lines : List Line
  ending : LineEnd

def Event.texts (event : Event) : List (List Char) := event.lines.map Line.text

def Line.encode (line : Line) : List Char := line.text ++ line.ending.chars

def Event.encode (event : Event) : List Char :=
  event.lines.flatMap Line.encode ++ event.ending.chars

def encode (marked : Bool) (events : List Event) : List Char :=
  (if marked then ['\uFEFF'] else []) ++ events.flatMap Event.encode

/-- Every line of the event ends with a line feed. -/
def Event.Fed (event : Event) : Prop :=
  (∀ line ∈ event.lines, line.ending ≠ .cr) ∧ event.ending ≠ .cr

instance (event : Event) : Decidable event.Fed := inferInstanceAs (Decidable (_ ∧ _))

/-! ### Line ends -/

variable {char : Char}

theorem normalizeNewlines_cons (plain : char ≠ '\r') (rest : List Char) :
    normalizeNewlines (char :: rest) = char :: normalizeNewlines rest := by
  rw [normalizeNewlines]
  intro tail equal
  exact absurd equal plain

variable {text : List Char}

theorem normalizeNewlines_append (plain : ∀ char ∈ text, char ≠ '\r') (rest : List Char) :
    normalizeNewlines (text ++ rest) = text ++ normalizeNewlines rest := by
  induction text with
  | nil => rfl
  | cons char text ih =>
    rw [cons_append, normalizeNewlines_cons (plain char mem_cons_self),
      ih (forall_mem_cons.mp plain).2]
    rfl

theorem normalizeNewlines_chars {ending : LineEnd} (fed : ending ≠ .cr) (rest : List Char) :
    normalizeNewlines (ending.chars ++ rest) = '\n' :: normalizeNewlines rest := by
  cases ending with
  | lf => exact normalizeNewlines_cons (by decide) rest
  | crlf => rfl
  | cr => exact absurd rfl fed

theorem normalizeNewlines_lines {block : List Line} (fed : ∀ line ∈ block, line.ending ≠ .cr)
    (rest : List Char) : normalizeNewlines (block.flatMap Line.encode ++ rest) =
      block.flatMap (fun line => line.text ++ ['\n']) ++ normalizeNewlines rest := by
  induction block with
  | nil => rfl
  | cons line block ih =>
    rw [forall_mem_cons] at fed
    rw [flatMap_cons, flatMap_cons, Line.encode, List.append_assoc, List.append_assoc,
      normalizeNewlines_append (fun char member => (line.plain char member).2),
      normalizeNewlines_chars fed.1, ih fed.2]
    simp

/-! ### Blocks -/

/-- The lines of a block with line feeds between them. -/
def block (texts : List (List Char)) : List Char := ['\n'].intercalate texts

theorem splitBlank_cons {rest : List Char} (single : char = '\n' → rest.head? ≠ some '\n') :
    splitBlank (char :: rest) = (splitBlank rest).modifyHead (List.cons char) := by
  rw [splitBlank]
  intro tail isFeed begins
  exact single isFeed (by rw [begins]; rfl)

theorem splitBlank_plain (plain : ∀ char ∈ text, char ≠ '\n') (rest : List Char) :
    splitBlank (text ++ rest) = (splitBlank rest).modifyHead (text ++ ·) := by
  induction text with
  | nil =>
    rw [nil_append]
    cases splitBlank rest <;> rfl
  | cons char text ih =>
    have feed : char ≠ '\n' := plain char mem_cons_self
    rw [cons_append, splitBlank_cons (fun equal => absurd equal feed),
      ih (forall_mem_cons.mp plain).2]
    cases splitBlank rest <;> rfl

variable {texts : List (List Char)}

/-- The first blank line behind a block of lines ends the first piece. -/
theorem splitBlank_block (some : texts ≠ []) (nonempty : ∀ text ∈ texts, text ≠ [])
    (plain : ∀ text ∈ texts, ∀ char ∈ text, char ≠ '\n') (rest : List Char) :
    splitBlank (texts.flatMap (fun text => text ++ ['\n']) ++ '\n' :: rest) =
      block texts :: splitBlank rest := by
  induction texts with
  | nil => exact absurd rfl some
  | cons text texts ih =>
    have plainText := plain text mem_cons_self
    rw [flatMap_cons, List.append_assoc, List.append_assoc, splitBlank_plain plainText]
    cases texts with
    | nil =>
      rw [flatMap_nil, nil_append, singleton_append, splitBlank]
      simp [block]
    | cons next texts =>
      have earlier := ih (cons_ne_nil next texts)
        (forall_mem_cons.mp nonempty).2
        (forall_mem_cons.mp plain).2
      -- The next line is not empty, so this line feed does not end the block.
      obtain ⟨first, others, shape⟩ := exists_cons_of_ne_nil
        (nonempty next (mem_cons_of_mem _ mem_cons_self))
      have notFeed : first ≠ '\n' := by
        apply plain next (mem_cons_of_mem _ mem_cons_self)
        rw [shape]
        exact mem_cons_self
      rw [singleton_append, splitBlank_cons, earlier]
      · simp [block, List.intercalate]
      · intro _
        rw [flatMap_cons, shape]
        simpa using notFeed

theorem filledLines_block (some : texts ≠ []) (nonempty : ∀ text ∈ texts, text ≠ [])
    (plain : ∀ text ∈ texts, ∀ char ∈ text, char ≠ '\n' ∧ char ≠ '\r') :
    filledLines (block texts) = texts := by
  have pieces : (block texts).splitOn '\n' = texts :=
    splitOn_intercalate '\n'
      (fun text member feed => (plain text member '\n' feed).1 rfl) some
  have unchanged : ∀ text ∈ texts, stripCarriageReturn text = text := by
    intro text member
    rw [stripCarriageReturn, if_neg]
    intro last
    exact (plain text member '\r' (List.mem_of_getLast? last)).2 rfl
  have kept : texts.dropLast.map stripCarriageReturn = texts.dropLast := by
    rw [map_congr_left (fun text member => unchanged text ((dropLast_sublist texts).mem member)),
      List.map_id']
  have last : texts.getLast?.toList.filter (· ≠ []) = [texts.getLast some] := by
    rw [List.getLast?_eq_some_getLast some]
    simpa using nonempty _ (getLast_mem some)
  have whole : lines (block texts) = texts := by
    simp only [lines, pieces]
    rw [kept, last, dropLast_append_getLast]
  rw [filledLines, whole, filter_eq_self]
  intro text member
  simpa using nonempty text member

/-! ### Blank lines -/

/-- A blank line in front of a text adds no filled line. -/
theorem filledLines_feed (text : List Char) : filledLines ('\n' :: text) = filledLines text := by
  have pieces : ('\n' :: text).splitOn '\n' = [] :: text.splitOn '\n' := by
    simp [List.splitOn, splitOnP_cons_eq_if_modifyHead]
  have some : text.splitOn '\n' ≠ [] := splitOnP_ne_nil _ _
  simp only [filledLines, lines, pieces, dropLast_cons_of_ne_nil some,
    List.getLast?_cons_of_ne_nil some, map_cons, cons_append]
  rw [filter_cons_of_neg (by decide)]

def blocks (text : List Char) : List (List (List Char)) :=
  ((splitBlank text).map filledLines).filter (· ≠ [])

/-- One more blank line does not change the events, wherever the pairs of line feeds
are then cut. -/
theorem blocks_feed (text : List Char) : blocks ('\n' :: text) = blocks text := by
  induction text with
  | nil => rfl
  | cons char text ih =>
    by_cases feed : char = '\n'
    · subst feed
      have cut : blocks ('\n' :: '\n' :: text) = blocks text := by
        rw [blocks, splitBlank, map_cons]
        rfl
      rw [cut, ih]
    · have joined : splitBlank ('\n' :: char :: text) =
          (splitBlank (char :: text)).modifyHead (List.cons '\n') :=
        splitBlank_cons (fun _ => by simpa using feed)
      rw [blocks, blocks, joined]
      cases splitBlank (char :: text) with
      | nil => rfl
      | cons piece pieces =>
        rw [modifyHead_cons, map_cons, map_cons, filledLines_feed]

/-! ### The round trip -/

theorem Event.normalizeNewlines_encode {event : Event} (fed : event.Fed) (rest : List Char) :
    normalizeNewlines (event.encode ++ rest) =
      event.texts.flatMap (fun text => text ++ ['\n']) ++ '\n' :: normalizeNewlines rest := by
  rw [Event.encode, List.append_assoc, normalizeNewlines_lines fed.1,
    normalizeNewlines_chars fed.2, Event.texts, flatMap_map]

theorem Event.ne_nil_of_mem_texts {event : Event} (member : text ∈ event.texts) : text ≠ [] := by
  obtain ⟨line, -, rfl⟩ := List.mem_map.mp member
  exact line.text_ne_nil

theorem Event.filter_texts (event : Event) : event.texts.filter (· ≠ []) = event.texts := by
  rw [filter_eq_self]
  intro text member
  simpa using Event.ne_nil_of_mem_texts member

theorem Event.blocks_texts (event : Event) (rest : List Char) :
    blocks (event.texts.flatMap (fun text => text ++ ['\n']) ++ '\n' :: rest) =
      [event.texts].filter (· ≠ []) ++ blocks rest := by
  have nonempty : ∀ text ∈ event.texts, text ≠ [] := fun _ => Event.ne_nil_of_mem_texts
  have plain : ∀ text ∈ event.texts, ∀ char ∈ text, char ≠ '\n' ∧ char ≠ '\r' := by
    intro text member
    obtain ⟨line, -, rfl⟩ := List.mem_map.mp member
    exact line.plain
  by_cases empty : event.texts = []
  · rw [empty]
    exact blocks_feed rest
  · rw [blocks, splitBlank_block empty nonempty
      (fun text member char inText => (plain text member char inText).1),
      map_cons, filledLines_block empty nonempty plain, filter_cons_of_pos (by simpa),
      filter_cons_of_pos (by simpa)]
    rfl

/-- Reading a stream back gives the lines of its events, whatever follows. -/
theorem decode_encode {events : List Event} (fed : ∀ event ∈ events, event.Fed)
    (rest : List Char) : decode (encode false events ++ rest) =
      (events.map Event.texts).filter (· ≠ []) ++ decode rest := by
  show blocks (normalizeNewlines (events.flatMap Event.encode ++ rest)) = _
  induction events with
  | nil => rfl
  | cons event events ih =>
    rw [forall_mem_cons] at fed
    rw [flatMap_cons, List.append_assoc, Event.normalizeNewlines_encode fed.1, event.blocks_texts,
      ih fed.2, ← List.append_assoc, ← filter_append, singleton_append, map_cons]

end Mcpace.Library.EventStream
