import Mathlib

/-!
Owns byte streams that arrive in pieces: a buffered reader over them, and the lines of a byte
sequence.

A reader is known by the bytes it has still to give. Its operations are stated in those terms, so
that nothing depends on how the bytes were cut into pieces.
-/

namespace Mcpace.Library.ByteStream

open List

/-! ### Lines -/

def newline : UInt8 := 10

/-- Cut behind every newline; the last line may have none. -/
def lines : List UInt8 → List (List UInt8)
  | [] => []
  | byte :: rest =>
    if byte = newline then [byte] :: lines rest
    else
      match lines rest with
      | [] => [[byte]]
      | line :: others => (byte :: line) :: others

def IsLine (line : List UInt8) : Prop := ∃ front, line = front ++ [newline] ∧ newline ∉ front

theorem lines_newline (rest : List UInt8) : lines (newline :: rest) = [newline] :: lines rest := by
  rw [lines, if_pos rfl]

theorem lines_cons {byte : UInt8} (other : byte ≠ newline) (rest : List UInt8) :
    lines (byte :: rest) = (byte :: (lines rest).headD []) :: (lines rest).tail := by
  rw [lines, if_neg other]
  cases lines rest with
  | nil => rfl
  | cons line others => rfl

@[simp] theorem lines_eq_nil {bytes : List UInt8} : lines bytes = [] ↔ bytes = [] := by
  cases bytes with
  | nil => exact iff_of_true rfl rfl
  | cons byte rest =>
    refine iff_of_false ?_ (cons_ne_nil _ _)
    by_cases same : byte = newline
    · rw [same, lines_newline]
      exact cons_ne_nil _ _
    · rw [lines_cons same]
      exact cons_ne_nil _ _

theorem flatten_lines (bytes : List UInt8) : (lines bytes).flatten = bytes := by
  induction bytes with
  | nil => rfl
  | cons byte rest ih =>
    by_cases same : byte = newline
    · rw [same, lines_newline, flatten_cons, ih]
      rfl
    · rw [lines_cons same, flatten_cons, cons_append]
      congr 1
      cases found : lines rest with
      | nil =>
        rw [lines_eq_nil] at found
        rw [found]
        rfl
      | cons line others =>
        rw [found] at ih
        exact ih

theorem nil_not_mem_lines (bytes : List UInt8) : [] ∉ lines bytes := by
  induction bytes with
  | nil => exact not_mem_nil
  | cons byte rest ih =>
    by_cases same : byte = newline
    · rw [same, lines_newline]
      exact fun member => ih (mem_of_ne_of_mem (by simp) member)
    · rw [lines_cons same]
      exact fun member => ih (mem_of_mem_tail (mem_of_ne_of_mem (by simp) member))

theorem lines_append {front : List UInt8} (free : newline ∉ front) (rest : List UInt8) :
    lines (front ++ newline :: rest) = (front ++ [newline]) :: lines rest := by
  induction front with
  | nil => exact lines_newline rest
  | cons byte others ih =>
    rw [mem_cons, not_or] at free
    rw [cons_append, lines_cons (Ne.symm free.1), ih free.2]
    rfl

theorem lines_of_free {bytes : List UInt8} (free : newline ∉ bytes) (filled : bytes ≠ []) :
    lines bytes = [bytes] := by
  induction bytes with
  | nil => exact absurd rfl filled
  | cons byte rest ih =>
    rw [mem_cons, not_or] at free
    rw [lines_cons (Ne.symm free.1)]
    cases rest with
    | nil => rfl
    | cons second others => rw [ih free.2 (cons_ne_nil _ _)]; rfl

theorem lines_isLine {line : List UInt8} (isLine : IsLine line) (rest : List UInt8) :
    lines (line ++ rest) = line :: lines rest := by
  obtain ⟨front, rfl, free⟩ := isLine
  rw [List.append_assoc, singleton_append, lines_append free]

theorem lines_flatten_append {whole : List (List UInt8)} (areLines : ∀ line ∈ whole, IsLine line)
    (rest : List UInt8) : lines (whole.flatten ++ rest) = whole ++ lines rest := by
  induction whole with
  | nil => rfl
  | cons line others ih =>
    have first := areLines line mem_cons_self
    have later := ih (forall_mem_cons.mp areLines).2
    rw [flatten_cons, List.append_assoc, lines_isLine first, later, cons_append]

theorem isLine_of_lines {bytes : List UInt8} {before after : List (List UInt8)}
    (split : lines bytes = before ++ after) (more : after ≠ []) :
    ∀ line ∈ before, IsLine line := by
  induction before generalizing bytes with
  | nil => exact nofun
  | cons first others ih =>
    have cut : newline ∈ bytes := by
      by_contra free
      have filled : bytes ≠ [] := by
        intro empty
        rw [empty] at split
        exact absurd split (cons_ne_nil _ _).symm
      rw [lines_of_free free filled] at split
      have tail : [] = others ++ after := (List.cons.inj split).2
      exact more (append_eq_nil_iff.mp tail.symm).2
    obtain ⟨front, rest, rfl, free⟩ := eq_append_cons_of_mem cut
    rw [lines_append free, cons_append, List.cons.injEq] at split
    intro line member
    rcases mem_cons.mp member with rfl | later
    · exact ⟨front, split.1.symm, free⟩
    · exact ih split.2 line later

/-! ### Readers -/

/-- What one read of the source delivers. -/
abbrev Piece := { bytes : List UInt8 // bytes ≠ [] }

/-- Bytes that were read and not consumed, the pieces to come, and how the source ends: by its end
or by an error. `patience` is the number of reads before the deadline passes. -/
structure Reader where
  buffer : List UInt8
  pieces : List Piece
  failure : Option String
  patience : Nat

namespace Reader

def bytes (reader : Reader) : List UInt8 :=
  reader.buffer ++ (reader.pieces.map Subtype.val).flatten

/-- Read a piece if the buffer is empty. At the end of the source the buffer stays empty. -/
def fillBuf (reader : Reader) : Except String Reader :=
  match reader.buffer, reader.pieces with
  | [], piece :: rest => .ok { reader with buffer := piece.val, pieces := rest }
  | [], [] => reader.failure.elim (.ok reader) .error
  | _ :: _, _ => .ok reader

/-- Take bytes from the front, or fail if the source ends before. -/
def readExact (count : Nat) (reader : Reader) : Except String (List UInt8 × Reader) :=
  if count ≤ reader.bytes.length then
    .ok (reader.bytes.take count, { reader with buffer := reader.bytes.drop count, pieces := [] })
  else .error (reader.failure.getD "failed to fill whole buffer")

theorem bytes_fillBuf {reader filled : Reader} (fills : reader.fillBuf = .ok filled) :
    filled.bytes = reader.bytes ∧ (filled.buffer = [] → filled.bytes = []) := by
  unfold fillBuf at fills
  split at fills
  · rename_i piece rest empty pieces
    cases fills
    refine ⟨?_, fun none => absurd none piece.property⟩
    simp [bytes, empty, pieces]
  · rename_i empty pieces
    cases ended : reader.failure with
    | some error =>
      rw [ended] at fills
      cases fills
    | none =>
      rw [ended] at fills
      cases fills
      exact ⟨rfl, fun _ => by simp [bytes, empty, pieces]⟩
  · rename_i byte rest buffer
    cases fills
    exact ⟨rfl, fun empty => absurd (buffer.symm.trans empty) (cons_ne_nil _ _)⟩

theorem bytes_readExact {count : Nat} {reader after : Reader} {taken : List UInt8}
    (read : reader.readExact count = .ok (taken, after)) :
    reader.bytes = taken ++ after.bytes ∧ taken.length = count := by
  unfold readExact at read
  split_ifs at read with enough
  cases read
  refine ⟨?_, length_take_of_le enough⟩
  simp [bytes]

end Reader

end Mcpace.Library.ByteStream
