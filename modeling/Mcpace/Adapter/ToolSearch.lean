import Mcpace.Json.Value
import Mcpace.Library.StableSort

/-!
Owns the bounded list of the best tools that a search keeps while it goes through the listings.

Does not own how a tool is scored.
-/

namespace Mcpace.Adapter

open Library Json List StableSort

abbrev ScoredSearchTool := Nat × String × JsonValue

/-- Higher scores first, then smaller keys. -/
def Precedes (left right : ScoredSearchTool) : Prop :=
  right.1 < left.1 ∨ left.1 = right.1 ∧ left.2.1 ≤ right.2.1

instance : DecidableRel Precedes := fun _ _ => inferInstanceAs (Decidable (_ ∨ _))

instance : Std.Total Precedes where
  total left right := by
    simp only [Precedes]
    rcases lt_trichotomy left.1 right.1 with less | same | greater
    · exact Or.inr (Or.inl less)
    · exact (le_total left.2.1 right.2.1).imp (fun le => Or.inr ⟨same, le⟩)
        (fun le => Or.inr ⟨same.symm, le⟩)
    · exact Or.inl (Or.inl greater)

instance : IsTrans ScoredSearchTool Precedes where
  trans left middle right := by
    rintro (less | ⟨same, le⟩) (less' | ⟨same', le'⟩)
    · exact Or.inl (less'.trans less)
    · exact Or.inl (same' ▸ less)
    · exact Or.inl (same.symm ▸ less')
    · exact Or.inr ⟨same.trans same', le.trans le'⟩

/-- The new tool goes before the old one. -/
def overtakes (item old : ScoredSearchTool) : Bool :=
  item.1 > old.1 || (item.1 = old.1 && item.2.1 < old.2.1)

def insertScoredToolBounded (keepLimit : Nat) (scored : List ScoredSearchTool)
    (item : ScoredSearchTool) : List ScoredSearchTool :=
  if keepLimit = 0 then scored
  else
    let position := scored.findIdx (overtakes item)
    if position ≥ keepLimit then scored
    else
      let scored := scored.insertIdx position item
      if scored.length > keepLimit then scored.dropLast else scored

theorem overtakes_iff {item old : ScoredSearchTool} : overtakes item old ↔ ¬ Precedes old item := by
  simp only [overtakes, Precedes, Bool.or_eq_true, Bool.and_eq_true, decide_eq_true_eq, not_or,
    not_and, not_le]
  constructor
  · rintro (more | ⟨same, less⟩)
    · exact ⟨more.not_gt, fun same => absurd same more.ne⟩
    · exact ⟨same.not_lt, fun _ => less⟩
  · intro ⟨notLess, later⟩
    rcases (Nat.not_lt.mp notLess).lt_or_eq with more | same
    · exact Or.inl more
    · exact Or.inr ⟨same.symm, later same⟩

theorem insertIdx_findIdx (scored : List ScoredSearchTool) (item : ScoredSearchTool) :
    scored.insertIdx (scored.findIdx (overtakes item)) item = place Precedes item scored := by
  induction scored with
  | nil => rfl
  | cons head rest ih =>
    rw [place] at ih ⊢
    rw [findIdx_cons, orderedInsert_cons]
    by_cases before : overtakes item head
    · rw [before, if_pos (overtakes_iff.mp before)]
      rfl
    · rw [Bool.eq_false_of_not_eq_true before, if_neg (mt overtakes_iff.mpr before), ← ih]
      rfl

/-- An insertion keeps the front of the list that the new tool was put into. -/
theorem insertScoredToolBounded_eq {keepLimit : Nat} {scored : List ScoredSearchTool}
    (bounded : scored.length ≤ keepLimit) (item : ScoredSearchTool) :
    insertScoredToolBounded keepLimit scored item =
      (place Precedes item scored).take keepLimit := by
  have grown : (place Precedes item scored).length = scored.length + 1 := orderedInsert_length ..
  have within : scored.findIdx (overtakes item) ≤ scored.length := findIdx_le_length
  rw [insertScoredToolBounded]
  split_ifs with none
  · rw [none, take_zero]
    exact length_eq_zero_iff.mp (by omega)
  dsimp only
  by_cases full : scored.findIdx (overtakes item) ≥ keepLimit
  · have last : scored.findIdx (overtakes item) = scored.length := by omega
    rw [if_pos full, ← insertIdx_findIdx, last, insertIdx_length_self,
      take_append_of_le_length (by omega), take_of_length_le bounded]
  · rw [if_neg full, insertIdx_findIdx]
    split_ifs with long
    · rw [dropLast_eq_take, grown]
      congr 1
      omega
    · rw [take_of_length_le (by omega)]

/-- However long the stream, what is kept is the front of its stable sort. -/
theorem insertScoredToolBounded_sorts (keepLimit : Nat) (stream : List ScoredSearchTool) :
    stream.foldl (insertScoredToolBounded keepLimit) [] =
      (stream.insertionSort Precedes).take keepLimit := by
  induction stream using List.reverseRecOn with
  | nil => rw [insertionSort_nil, take_nil, foldl_nil]
  | append_singleton stream item ih =>
    rw [foldl_append, foldl_cons, foldl_nil, ih, insertionSort_concat,
      insertScoredToolBounded_eq (length_take_le _ _), take_place]

end Mcpace.Adapter
