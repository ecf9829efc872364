import Mcpace.Library.OrderedMap

/-!
Owns ordered maps of non-empty item lists: a registry that groups items under keys. A group
that loses its last item is dropped.

Every operation is described by what it does to each group and to the number of items; a
missing group and an empty one count as the same.
-/

namespace Mcpace.Library.Groups

open List Option
open OrderedMap hiding insert

universe u v

variable {κ : Type u} {α : Type v} [LinearOrder κ]

def group (key : κ) (groups : List (κ × List α)) : List α := (get key groups).getD []

def total (groups : List (κ × List α)) : Nat := (groups.map (fun entry => entry.2.length)).sum

/-- Write a group back, or drop it. -/
def replace (key : κ) (items : List α) (groups : List (κ × List α)) : List (κ × List α) :=
  if items.isEmpty then remove key groups else OrderedMap.insert key items groups

def push (key : κ) (item : α) (groups : List (κ × List α)) : List (κ × List α) :=
  OrderedMap.insert key (group key groups ++ [item]) groups

def erase [BEq α] (key : κ) (item : α) (groups : List (κ × List α)) : List (κ × List α) :=
  replace key ((group key groups).erase item) groups

def eraseIdx (key : κ) (index : Nat) (groups : List (κ × List α)) : List (κ × List α) :=
  replace key ((group key groups).eraseIdx index) groups

/-- Keep the items that are accepted, and the groups that have one left. -/
def filterItems (keep : α → Bool) (groups : List (κ × List α)) : List (κ × List α) :=
  retain (fun _ items => !items.isEmpty)
    (groups.map (fun entry => (entry.1, entry.2.filter keep)))

/-! ### Groups after an operation -/

variable {key : κ} {items : List α} {groups : List (κ × List α)}

theorem group_of_mem (sorted : Sorted groups) (member : (key, items) ∈ groups) :
    group key groups = items := by
  rw [group, get_of_mem sorted member, getD_some]

theorem group_replace (key other : κ) (items : List α) (groups : List (κ × List α)) :
    group other (replace key items groups) =
      if other = key then items else group other groups := by
  rw [replace]
  by_cases empty : items.isEmpty = true
  · rw [if_pos empty]
    by_cases same : other = key
    · rw [if_pos same, same, group, get_remove_self, List.isEmpty_iff.mp empty, getD_none]
    · rw [if_neg same, group, get_remove_of_ne same, ← group]
  · rw [if_neg empty, group, get_insert]
    split
    · rw [getD_some]
    · rfl

/-- Replacing a group by a part of it takes nothing into any group. -/
theorem group_replace_sublist (part : items.Sublist (group key groups)) (other : κ) :
    (group other (replace key items groups)).Sublist (group other groups) := by
  rw [group_replace]
  split
  · rename_i same
    rw [same]
    exact part
  · exact List.Sublist.refl _

/-- An item that stays in its group stays when the group is replaced. -/
theorem mem_group_replace {other : κ} {item : α} (member : item ∈ group other groups)
    (stays : other = key → item ∈ items) : item ∈ group other (replace key items groups) := by
  rw [group_replace]
  split
  · rename_i same
    exact stays same
  · exact member

theorem group_push (key other : κ) (item : α) (groups : List (κ × List α)) :
    group other (push key item groups) =
      if other = key then group key groups ++ [item] else group other groups := by
  rw [push, group, get_insert]
  split
  · rw [getD_some]
  · rfl

theorem mem_group_push {key : κ} {item : α} {groups : List (κ × List α)} (other : κ) (member : α) :
    member ∈ group other (push key item groups) ↔
      member ∈ group other groups ∨ (member = item ∧ other = key) := by
  rw [group_push]
  by_cases same : other = key
  · simp [same]
  · simp [same]

theorem group_filterItems (sorted : Sorted groups) (keep : α → Bool) (key : κ) :
    group key (filterItems keep groups) = (group key groups).filter keep := by
  have mapped : Sorted (groups.map (fun entry => (entry.1, entry.2.filter keep))) :=
    sorted_of_keys_eq (by simp [OrderedMap.keys]) sorted
  rw [group, filterItems, get_retain mapped, get_map_values, group]
  cases get key groups with
  | none => rfl
  | some items =>
    rw [map_some, filter_some, getD_some]
    cases kept : items.filter keep <;> rfl

/-! ### Order -/

theorem sorted_replace (sorted : Sorted groups) (key : κ) (items : List α) :
    Sorted (replace key items groups) := by
  rw [replace]
  split
  · exact sorted_remove sorted
  · exact sorted_insert sorted

theorem sorted_filterItems (sorted : Sorted groups) (keep : α → Bool) :
    Sorted (filterItems keep groups) :=
  sorted_retain (sorted_of_keys_eq (by simp [OrderedMap.keys]) sorted)

/-! ### Totals -/

omit [LinearOrder κ] in
theorem total_cons (entry : κ × List α) (groups : List (κ × List α)) :
    total (entry :: groups) = entry.2.length + total groups := by
  rw [total, map_cons, sum_cons, total]

theorem group_eq_nil_of_forall_lt (above : ∀ entry ∈ groups, key < entry.1) :
    group key groups = [] := by
  have absent : get key groups = none := by
    rw [eq_none_iff_forall_ne_some]
    intro items found
    exact lt_irrefl key (above _ (mem_of_get found))
  rw [group, absent, getD_none]

theorem total_insert (sorted : Sorted groups) (key : κ) (items : List α) :
    total (OrderedMap.insert key items groups) + (group key groups).length =
      total groups + items.length := by
  induction groups with
  | nil => simp [OrderedMap.insert, total, group]
  | cons entry rest ih =>
    have restSorted := (pairwise_cons.mp sorted).2
    have headBelow := (pairwise_cons.mp sorted).1
    rw [OrderedMap.insert]
    by_cases below : key < entry.1
    · have absent : group key (entry :: rest) = [] := by
        apply group_eq_nil_of_forall_lt
        intro other member
        rcases mem_cons.mp member with first | later
        · exact first ▸ below
        · exact lt_trans below (headBelow other later)
      rw [if_pos below, absent, total_cons, length_nil]
      dsimp only
      omega
    · rw [if_neg below]
      by_cases same : key = entry.1
      · have present : group key (entry :: rest) = entry.2 := by
          rw [group, get_cons, if_pos same, getD_some]
        rw [if_pos same, present, total_cons, total_cons]
        dsimp only
        omega
      · have later : group key (entry :: rest) = group key rest := by
          rw [group, get_cons, if_neg same, group]
        have remaining := ih restSorted
        rw [if_neg same, later, total_cons, total_cons]
        omega

omit [LinearOrder κ] in
theorem total_filter_le (keep : κ × List α → Bool) (groups : List (κ × List α)) :
    total (groups.filter keep) ≤ total groups := by
  induction groups with
  | nil => exact le_refl _
  | cons entry rest ih =>
    rw [filter_cons, total_cons]
    split
    · rw [total_cons]
      omega
    · omega

theorem total_push (sorted : Sorted groups) (key : κ) (item : α) :
    total (push key item groups) = total groups + 1 := by
  have inserted := total_insert sorted key (group key groups ++ [item])
  rw [List.length_append, List.length_singleton] at inserted
  rw [push]
  omega

theorem total_replace_le (sorted : Sorted groups)
    (shorter : items.length ≤ (group key groups).length) :
    total (replace key items groups) ≤ total groups := by
  rw [replace]
  split
  · exact total_filter_le _ groups
  · have inserted := total_insert sorted key items
    omega

omit [LinearOrder κ] in
theorem total_filterItems_le (keep : α → Bool) (groups : List (κ × List α)) :
    total (filterItems keep groups) ≤ total groups := by
  have mapped : total (groups.map (fun entry => (entry.1, entry.2.filter keep))) ≤
      total groups := by
    induction groups with
    | nil => exact le_refl _
    | cons entry rest ih =>
      have shorter := length_filter_le keep entry.2
      rw [map_cons, total_cons, total_cons]
      dsimp only
      omega
  exact (total_filter_le _ _).trans mapped

end Mcpace.Library.Groups
