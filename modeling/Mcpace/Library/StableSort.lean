import Mathlib

/-!
Owns stable sorting of a stream as it arrives: each new element goes behind those it ties with.
-/

namespace Mcpace.Library.StableSort

open List

variable {α : Type*} (le : α → α → Prop) [DecidableRel le]

/-- Put an element before the first one that has to come after it. -/
def place (item : α) (items : List α) : List α :=
  items.orderedInsert (fun new old => ¬ le old new) item

variable {le}

/-- Only what is kept decides what is kept next. -/
theorem take_place (count : Nat) (item : α) (items : List α) :
    (place le item (items.take count)).take count = (place le item items).take count := by
  induction items generalizing count with
  | nil => rw [take_nil]
  | cons head rest ih =>
    cases count with
    | zero => rfl
    | succ count =>
      rw [take_succ_cons, place, place, orderedInsert_cons, orderedInsert_cons]
      split
      · cases count with
        | zero => rfl
        | succ count => simp [take_take]
      · rw [take_succ_cons, take_succ_cons]
        exact congrArg _ (ih count)

variable [Std.Total le] [IsTrans α le]

/-- The first element of a stream and its last one do not get in each other's way. -/
theorem place_orderedInsert (item first : α) (items : List α) :
    place le item (items.orderedInsert le first) = (place le item items).orderedInsert le first := by
  induction items with
  | nil =>
    simp only [place, orderedInsert_nil, orderedInsert_cons]
    split <;> simp_all
  | cons head rest ih =>
    have through : le first head → le head item → le first item := fun before => trans_of le before
    have back : le first item → le first head ∨ le head item := fun before =>
      (total_of le first head).imp_right (fun behind => trans_of le behind before)
    rw [place] at ih ⊢
    by_cases before : le first head <;> by_cases behind : le head item <;>
      by_cases across : le first item <;> simp_all [place]

/-- A stream is sorted by putting in its elements as they come. -/
theorem insertionSort_concat (items : List α) (item : α) :
    (items ++ [item]).insertionSort le = place le item (items.insertionSort le) := by
  induction items with
  | nil => rfl
  | cons head rest ih =>
    rw [cons_append, insertionSort_cons, ih, insertionSort_cons, place_orderedInsert]

end Mcpace.Library.StableSort
