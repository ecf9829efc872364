import Mathlib

/-!
Owns ordered maps represented by their entries in increasing key order: lookup,
insertion, removal, filtering and in-place update, the lookup laws of each, and
the preservation of the order.

The operations are total on arbitrary entry lists; the laws that need unique
keys ask for `Sorted`.
-/

namespace Mcpace.Library.OrderedMap

open List Option

universe u v

variable {κ : Type u} {ν : Type v}

def keys (entries : List (κ × ν)) : List κ := entries.map Prod.fst

def values (entries : List (κ × ν)) : List ν := entries.map Prod.snd

/-- Keys strictly increase, so every key occurs at most once. -/
def Sorted [LT κ] (entries : List (κ × ν)) : Prop :=
  entries.Pairwise (fun left right => left.1 < right.1)

section Lookup

variable [DecidableEq κ]

def get (key : κ) : List (κ × ν) → Option ν
  | [] => none
  | entry :: rest => if key = entry.1 then some entry.2 else get key rest

def remove (key : κ) (entries : List (κ × ν)) : List (κ × ν) :=
  entries.filter (fun entry => entry.1 ≠ key)

def retain (keep : κ → ν → Bool) (entries : List (κ × ν)) : List (κ × ν) :=
  entries.filter (fun entry => keep entry.1 entry.2)

/-- Update the value stored under `key`, if there is one. -/
def modify (key : κ) (update : ν → ν) (entries : List (κ × ν)) : List (κ × ν) :=
  entries.map (fun entry => if entry.1 = key then (entry.1, update entry.2) else entry)

@[simp] theorem get_nil (key : κ) : get key ([] : List (κ × ν)) = none := rfl

theorem get_cons (key : κ) (entry : κ × ν) (rest : List (κ × ν)) :
    get key (entry :: rest) = if key = entry.1 then some entry.2 else get key rest := rfl

theorem get_map_values {μ : Type*} (change : ν → μ) (key : κ) (entries : List (κ × ν)) :
    get key (entries.map (fun entry => (entry.1, change entry.2))) =
      (get key entries).map change := by
  induction entries with
  | nil => rfl
  | cons entry rest ih =>
    rw [map_cons, get_cons, get_cons, ih]
    split <;> rfl

theorem get_map_of_unique {α : Type*} (name : α → κ) (value : α → ν) {items : List α} {item : α}
    (member : item ∈ items) (unique : ∀ other ∈ items, name other = name item → other = item) :
    get (name item) (items.map (fun other => (name other, value other))) = some (value item) := by
  induction items with
  | nil => cases member
  | cons head rest ih =>
    rw [map_cons, get_cons]
    by_cases same : name item = name head
    · rw [if_pos same, unique head mem_cons_self same.symm]
    · have inRest : item ∈ rest := by
        rcases mem_cons.mp member with equal | later
        · exact absurd (congrArg name equal) same
        · exact later
      rw [if_neg same]
      exact ih inRest (forall_mem_cons.mp unique).2

variable {key : κ} {value : ν} {entries : List (κ × ν)}

theorem mem_of_get (found : get key entries = some value) : (key, value) ∈ entries := by
  induction entries with
  | nil => simp at found
  | cons entry rest ih =>
    rw [get_cons] at found
    split at found
    · rename_i same
      simp only [Option.some.injEq] at found
      rw [same, ← found]
      exact mem_cons_self
    · exact mem_cons_of_mem entry (ih found)

theorem get_append (key : κ) (left right : List (κ × ν)) :
    get key (left ++ right) = (get key left).or (get key right) := by
  induction left with
  | nil => simp
  | cons first others ih =>
    rw [cons_append, get_cons, get_cons, ih]
    split <;> simp

/-- With distinct keys an entry is found under its own. -/
theorem get_eq_some_iff_of_nodup (distinct : (keys entries).Nodup) :
    get key entries = some value ↔ (key, value) ∈ entries := by
  refine ⟨mem_of_get, ?_⟩
  intro member
  have found := get_map_of_unique Prod.fst Prod.snd member (fun other isOther same =>
    inj_on_of_nodup_map distinct isOther member same)
  simpa using found

theorem get_remove_self (key : κ) (entries : List (κ × ν)) :
    get key (remove key entries) = none := by
  induction entries with
  | nil => rfl
  | cons entry rest ih =>
    by_cases same : entry.1 = key
    · simpa [remove, same] using ih
    · have keep : remove key (entry :: rest) = entry :: remove key rest := by
        simp [remove, same]
      rw [keep, get_cons, if_neg (fun equal => same equal.symm)]
      exact ih

theorem get_remove_of_ne {other : κ} (different : other ≠ key) (entries : List (κ × ν)) :
    get other (remove key entries) = get other entries := by
  induction entries with
  | nil => rfl
  | cons entry rest ih =>
    by_cases same : entry.1 = key
    · have dropped : remove key (entry :: rest) = remove key rest := by
        simp [remove, same]
      have miss : ¬ other = entry.1 := fun equal => different (equal.trans same)
      rw [dropped, ih, get_cons, if_neg miss]
    · have keep : remove key (entry :: rest) = entry :: remove key rest := by
        simp [remove, same]
      rw [keep, get_cons, get_cons, ih]

theorem get_modify (key other : κ) (update : ν → ν) (entries : List (κ × ν)) :
    get other (modify key update entries) =
      if other = key then (get other entries).map update else get other entries := by
  induction entries with
  | nil => simp [modify]
  | cons entry rest ih =>
    have split : modify key update (entry :: rest) =
        (if entry.1 = key then (entry.1, update entry.2) else entry) ::
          modify key update rest := rfl
    rw [split, get_cons, get_cons, ih]
    by_cases hit : entry.1 = key <;> by_cases same : other = entry.1
    · simp [hit, same]
    · simp only [hit, if_true]
      rw [hit] at same
      simp [same]
    · simp only [hit, if_false]
      simp [same, hit]
    · simp [hit, same]

theorem keys_modify (key : κ) (update : ν → ν) (entries : List (κ × ν)) :
    keys (modify key update entries) = keys entries := by
  induction entries with
  | nil => rfl
  | cons entry rest ih =>
    simp only [keys, modify, map_cons, List.map_map] at ih ⊢
    rw [ih]
    split <;> rfl

end Lookup

section Order

variable [LinearOrder κ]

/-- Insert or overwrite, keeping the key order. -/
def insert (key : κ) (value : ν) : List (κ × ν) → List (κ × ν)
  | [] => [(key, value)]
  | entry :: rest =>
    if key < entry.1 then (key, value) :: entry :: rest
    else if key = entry.1 then (key, value) :: rest
    else entry :: insert key value rest

/-- Insert the given entries from left to right into the empty map. -/
def ofList (entries : List (κ × ν)) : List (κ × ν) :=
  entries.foldl (fun map entry => insert entry.1 entry.2 map) []

theorem get_insert (key other : κ) (value : ν) (entries : List (κ × ν)) :
    get other (insert key value entries) =
      if other = key then some value else get other entries := by
  induction entries with
  | nil => simp [insert, get_cons]
  | cons entry rest ih =>
    rw [insert]
    by_cases below : key < entry.1
    · rw [if_pos below, get_cons]
    · rw [if_neg below]
      by_cases same : key = entry.1
      · rw [if_pos same, get_cons, get_cons, ← same]
        split <;> rfl
      · rw [if_neg same, get_cons, get_cons, ih]
        by_cases hit : other = key
        · have miss : ¬ other = entry.1 := fun equal => same (hit ▸ equal)
          rw [if_neg miss, if_pos hit, if_pos hit]
        · rw [if_neg hit, if_neg hit]

@[simp] theorem get_insert_self (key : κ) (value : ν) (entries : List (κ × ν)) :
    get key (insert key value entries) = some value := by
  simp [get_insert]

variable {key : κ}

theorem get_insert_of_ne {other : κ} (different : other ≠ key) (value : ν)
    (entries : List (κ × ν)) : get other (insert key value entries) = get other entries := by
  simp [get_insert, different]

variable {value : ν} {entries : List (κ × ν)} {entry : κ × ν}

theorem mem_insert (member : entry ∈ insert key value entries) :
    entry = (key, value) ∨ entry ∈ entries := by
  induction entries with
  | nil => exact Or.inl (by simpa [insert] using member)
  | cons head rest ih =>
    rw [insert] at member
    split_ifs at member with below same
    · rcases mem_cons.mp member with new | old
      · exact Or.inl new
      · exact Or.inr old
    · rcases mem_cons.mp member with new | old
      · exact Or.inl new
      · exact Or.inr (mem_cons_of_mem head old)
    · rcases mem_cons.mp member with first | old
      · exact Or.inr (first ▸ mem_cons_self)
      · rcases ih old with new | older
        · exact Or.inl new
        · exact Or.inr (mem_cons_of_mem head older)

theorem forall_mem_insert {P : κ × ν → Prop} (new : P (key, value))
    (old : ∀ entry ∈ entries, P entry) : ∀ entry ∈ insert key value entries, P entry := by
  intro entry member
  rcases mem_insert member with rfl | kept
  · exact new
  · exact old entry kept

theorem length_insert_of_get_eq_none (absent : get key entries = none) :
    (insert key value entries).length = entries.length + 1 := by
  induction entries with
  | nil => rfl
  | cons entry rest ih =>
    rw [get_cons] at absent
    split at absent
    · cases absent
    · rename_i different
      rw [insert, if_neg different]
      split
      · rfl
      · rw [length_cons, ih absent, length_cons]

theorem sorted_nil : Sorted ([] : List (κ × ν)) := List.Pairwise.nil

section

variable (sorted : Sorted entries)

include sorted

theorem sorted_insert : Sorted (insert key value entries) := by
  induction entries with
  | nil => exact pairwise_singleton _ _
  | cons head rest ih =>
    obtain ⟨headBelow, restSorted⟩ := pairwise_cons.mp sorted
    rw [insert]
    split_ifs with below same
    · refine pairwise_cons.mpr ⟨?_, sorted⟩
      intro entry member
      rcases mem_cons.mp member with first | later
      · exact first ▸ below
      · exact lt_trans below (headBelow entry later)
    · refine pairwise_cons.mpr ⟨?_, restSorted⟩
      intro entry member
      exact same ▸ headBelow entry member
    · refine pairwise_cons.mpr ⟨forall_mem_insert ?_ headBelow, ih restSorted⟩
      exact lt_of_le_of_ne (not_lt.mp below) (fun equal => same equal.symm)

theorem sorted_filter {keep : κ × ν → Bool} : Sorted (entries.filter keep) :=
  List.Pairwise.filter keep sorted

theorem sorted_remove : Sorted (remove key entries) :=
  sorted_filter sorted

theorem sorted_retain {keep : κ → ν → Bool} : Sorted (retain keep entries) :=
  sorted_filter sorted

end

theorem sorted_of_keys_eq {μ : Type*} {left : List (κ × ν)} {right : List (κ × μ)}
    (same : keys left = keys right) (sorted : Sorted left) : Sorted right := by
  have leftKeys : (keys left).Pairwise (· < ·) := pairwise_map.mpr sorted
  rw [same] at leftKeys
  exact pairwise_map.mp leftKeys

section

variable (sorted : Sorted entries)

include sorted

theorem sorted_modify {update : ν → ν} : Sorted (modify key update entries) :=
  sorted_of_keys_eq (keys_modify key update entries).symm sorted

theorem get_of_mem (member : (key, value) ∈ entries) : get key entries = some value := by
  induction entries with
  | nil => simp at member
  | cons head rest ih =>
    obtain ⟨headBelow, restSorted⟩ := pairwise_cons.mp sorted
    rw [get_cons]
    rcases mem_cons.mp member with first | later
    · rw [← first, if_pos rfl]
    · have above : head.1 < key := headBelow _ later
      rw [if_neg (ne_of_gt above)]
      exact ih restSorted later

theorem get_eq_some_iff : get key entries = some value ↔ (key, value) ∈ entries :=
  ⟨mem_of_get, get_of_mem sorted⟩

theorem get_retain {keep : κ → ν → Bool} :
    get key (retain keep entries) = (get key entries).filter (keep key) := by
  apply Option.ext
  intro value
  rw [get_eq_some_iff (sorted_retain sorted), filter_eq_some_iff, get_eq_some_iff sorted]
  simp [retain]

end

theorem get_eq_none_of_forall_lt (below : ∀ entry ∈ entries, key < entry.1) :
    get key entries = none := by
  cases found : get key entries with
  | none => rfl
  | some value => exact absurd (below _ (mem_of_get found)) (lt_irrefl key)

theorem get_eq_none_of_forall_gt (above : ∀ entry ∈ entries, entry.1 < key) :
    get key entries = none := by
  cases found : get key entries with
  | none => rfl
  | some value => exact absurd (above _ (mem_of_get found)) (lt_irrefl key)

/-- A total over the values gains what is inserted and loses what stood there. -/
theorem sum_insert (measure : ν → Nat) {key : κ} {value : ν} {entries : List (κ × ν)}
    (sorted : Sorted entries) :
    ((insert key value entries).map (fun entry => measure entry.2)).sum +
        ((get key entries).map measure).getD 0 =
      (entries.map (fun entry => measure entry.2)).sum + measure value := by
  induction entries with
  | nil => simp [insert]
  | cons head rest ih =>
    have later := pairwise_cons.mp sorted
    rw [insert, get_cons]
    by_cases below : key < head.1
    · have absent : get key rest = none :=
        get_eq_none_of_forall_lt (fun entry member => below.trans (later.1 entry member))
      rw [if_pos below, if_neg below.ne, absent, map_cons, sum_cons]
      simp only [map_none, getD_none]
      omega
    · rw [if_neg below]
      by_cases same : key = head.1
      · rw [if_pos same, if_pos same, map_cons, map_cons, sum_cons, sum_cons]
        simp only [map_some, getD_some]
        omega
      · have rest := ih later.2
        rw [if_neg same, if_neg same, map_cons, map_cons, sum_cons, sum_cons]
        omega

theorem sum_remove (measure : ν → Nat) {key : κ} {value : ν}
    {entries : List (κ × ν)} (sorted : Sorted entries)
    (found : get key entries = some value) :
    ((remove key entries).map (fun entry => measure entry.2)).sum + measure value =
      (entries.map (fun entry => measure entry.2)).sum := by
  induction entries with
  | nil => cases found
  | cons head rest ih =>
    have later := pairwise_cons.mp sorted
    rw [get_cons] at found
    by_cases same : key = head.1
    · rw [if_pos same, some_inj] at found
      have others : remove key (head :: rest) = rest := by
        rw [remove, filter_cons_of_neg (by simp [same])]
        apply filter_eq_self.mpr
        intro entry member
        have above := later.1 entry member
        exact decide_eq_true (same ▸ above.ne')
      rw [others, map_cons, sum_cons, found, Nat.add_comm]
    · rw [if_neg same] at found
      have kept : remove key (head :: rest) = head :: remove key rest :=
        filter_cons_of_pos (decide_eq_true (Ne.symm same))
      have total := ih later.2 found
      rw [kept, map_cons, map_cons, sum_cons, sum_cons]
      omega

theorem length_insert {key : κ} {value : ν} {entries : List (κ × ν)} (sorted : Sorted entries) :
    (insert key value entries).length + (if (get key entries).isSome then 1 else 0) =
      entries.length + 1 := by
  have total := @sum_insert _ _ _ (fun _ => 1) key value entries sorted
  simp only [map_const', sum_replicate_nat, Nat.mul_one] at total
  cases found : get key entries with
  | none =>
    rw [found] at total
    exact total
  | some old =>
    rw [found] at total
    exact total

/-- Only the inserted entry can add to a count of values. -/
theorem countP_insert_le (accept : ν → Bool) (key : κ) (value : ν) (entries : List (κ × ν)) :
    (values (insert key value entries)).countP accept ≤
      (values entries).countP accept + if accept value then 1 else 0 := by
  induction entries with
  | nil => simp [insert, values, countP_cons]
  | cons head rest ih =>
    rw [insert]
    simp only [values] at ih
    split_ifs with below same <;>
      simp only [values, map_cons, countP_cons] <;>
      split_ifs at ih ⊢ <;> omega

omit [LinearOrder κ] in
theorem countP_filter_le (accept : ν → Bool) (keep : κ × ν → Bool) (entries : List (κ × ν)) :
    (values (entries.filter keep)).countP accept ≤ (values entries).countP accept := by
  have sublist : (values (entries.filter keep)).Sublist (values entries) :=
    List.Sublist.map Prod.snd filter_sublist
  exact sublist.countP_le

theorem countP_remove {accept : ν → Bool} (found : get key entries = some value)
    (accepted : accept value = true) :
    (values (remove key entries)).countP accept + 1 ≤ (values entries).countP accept := by
  induction entries with
  | nil => simp at found
  | cons head rest ih =>
    rw [get_cons] at found
    simp only [values] at ih ⊢
    by_cases same : key = head.1
    · rw [if_pos same, Option.some.injEq] at found
      have dropped : remove key (head :: rest) = remove key rest := by
        simp [remove, same]
      have bound := countP_filter_le accept (fun entry => decide (entry.1 ≠ key)) rest
      simp only [values] at bound
      rw [dropped, map_cons, countP_cons, found, if_pos accepted, remove]
      omega
    · rw [if_neg same] at found
      have keep : remove key (head :: rest) = head :: remove key rest := by
        simp [remove, Ne.symm same]
      have bound := ih found
      rw [keep, map_cons, map_cons, countP_cons, countP_cons]
      omega

theorem get_foldl_insert (key : κ) (entries initial : List (κ × ν)) :
    get key (entries.foldl (fun map entry => insert entry.1 entry.2 map) initial) =
      (get key entries.reverse).or (get key initial) := by
  induction entries generalizing initial with
  | nil => simp
  | cons head rest ih =>
    rw [foldl_cons, ih, get_insert, reverse_cons, get_append]
    cases get key rest.reverse <;> simp [get_cons]
    split <;> simp

/-- The last entry given for a key is the one the map holds. -/
theorem get_ofList (key : κ) (entries : List (κ × ν)) :
    get key (ofList entries) = get key entries.reverse := by
  rw [ofList, get_foldl_insert]
  simp

theorem get_ofList_of_nodup (key : κ) (distinct : (keys entries).Nodup) :
    get key (ofList entries) = get key entries := by
  apply Option.ext
  intro value
  have reversed : (keys entries.reverse).Nodup := by
    rw [keys, map_reverse]
    exact nodup_reverse.mpr distinct
  rw [get_ofList, get_eq_some_iff_of_nodup reversed, get_eq_some_iff_of_nodup distinct, mem_reverse]

theorem mem_ofList (member : entry ∈ ofList entries) : entry ∈ entries := by
  have origin : ∀ (given initial : List (κ × ν)),
      entry ∈ given.foldl (fun map entry => insert entry.1 entry.2 map) initial →
      entry ∈ given ∨ entry ∈ initial := by
    intro given
    induction given with
    | nil => exact fun initial found => Or.inr found
    | cons head rest ih =>
      intro initial found
      rcases ih _ found with later | inserted
      · exact Or.inl (mem_cons_of_mem head later)
      · rcases mem_insert inserted with new | old
        · exact Or.inl (new ▸ mem_cons_self)
        · exact Or.inr old
  rcases origin entries [] member with given | none
  · exact given
  · cases none

theorem sorted_foldl_insert (entries initial : List (κ × ν)) (sorted : Sorted initial) :
    Sorted (entries.foldl (fun map entry => insert entry.1 entry.2 map) initial) := by
  induction entries generalizing initial with
  | nil => exact sorted
  | cons head rest ih =>
    exact ih _ (sorted_insert sorted)

theorem insert_of_forall_gt (below : ∀ entry ∈ entries, key < entry.1) :
    insert key value entries = (key, value) :: entries := by
  cases entries with
  | nil => rfl
  | cons head rest => rw [insert, if_pos (below head mem_cons_self)]

/-- Inserting commutes with selecting by key, when the key is selected. -/
theorem filter_insert {keep : κ → Bool} {key : κ} (kept : keep key = true) (value : ν)
    {entries : List (κ × ν)} (sorted : Sorted entries) :
    (insert key value entries).filter (fun entry => keep entry.1) =
      insert key value (entries.filter (fun entry => keep entry.1)) := by
  induction entries with
  | nil => simp [insert, kept]
  | cons head rest ih =>
    obtain ⟨headBelow, restSorted⟩ := pairwise_cons.mp sorted
    rw [insert]
    by_cases below : key < head.1
    · have first : ∀ entry ∈ (head :: rest).filter (fun entry => keep entry.1), key < entry.1 := by
        intro entry member
        rcases mem_cons.mp (mem_of_mem_filter member) with same | later
        · rw [same]
          exact below
        · exact below.trans (headBelow entry later)
      rw [if_pos below, insert_of_forall_gt first, filter_cons, if_pos kept]
    · rw [if_neg below]
      by_cases same : key = head.1
      · have headKept : keep head.1 = true := same ▸ kept
        rw [if_pos same, filter_cons, if_pos kept, filter_cons, if_pos headKept,
          insert, if_neg below, if_pos same]
      · rw [if_neg same]
        rw [filter_cons, filter_cons, ih restSorted]
        by_cases headKept : keep head.1 = true
        · rw [if_pos headKept, if_pos headKept, insert, if_neg below, if_neg same]
        · rw [if_neg headKept, if_neg headKept]

theorem filter_insert_of_not {keep : κ → Bool} {key : κ} (dropped : keep key = false) (value : ν)
    (entries : List (κ × ν)) :
    (insert key value entries).filter (fun entry => keep entry.1) =
      entries.filter (fun entry => keep entry.1) := by
  induction entries with
  | nil => simp [insert, dropped]
  | cons head rest ih =>
    rw [insert]
    split
    · simp [dropped]
    · split
      · rename_i same
        simp [dropped, ← same]
      · simp [filter_cons, ih]

/-- The last entry after an insertion: the old one if its key is greater. -/
theorem getLast?_insert (key : κ) (value : ν) (sorted : Sorted entries) :
    (insert key value entries).getLast? =
      some ((entries.getLast?.filter (fun last => key < last.1)).getD (key, value)) := by
  induction entries with
  | nil => rfl
  | cons head rest ih =>
    obtain ⟨headBelow, restSorted⟩ := pairwise_cons.mp sorted
    rw [insert]
    by_cases below : key < head.1
    · have greater : key < (rest.getLast?.getD head).1 := by
        cases last : rest.getLast? with
        | none => exact below
        | some entry => exact below.trans (headBelow entry (List.mem_of_getLast? last))
      rw [if_pos below, List.getLast?_cons_cons, List.getLast?_cons]
      simp [Option.filter, greater]
    · rw [if_neg below]
      by_cases same : key = head.1
      · rw [if_pos same, List.getLast?_cons, List.getLast?_cons]
        cases last : rest.getLast? with
        | none => simp [Option.filter, below]
        | some entry =>
          have greater : key < entry.1 := same ▸ headBelow entry (List.mem_of_getLast? last)
          simp [Option.filter, greater]
      · rw [if_neg same, List.getLast?_cons, ih restSorted, List.getLast?_cons]
        cases last : rest.getLast? with
        | none => simp [Option.filter, below]
        | some entry => rfl

theorem insert_of_forall_lt (above : ∀ entry ∈ entries, entry.1 < key) :
    insert key value entries = entries ++ [(key, value)] := by
  induction entries with
  | nil => rfl
  | cons head rest ih =>
    have below : head.1 < key := above head mem_cons_self
    rw [insert, if_neg below.not_gt, if_neg below.ne',
      ih (forall_mem_cons.mp above).2,
      cons_append]

theorem insert_concat (above : ∀ entry ∈ entries, entry.1 < key) (old : ν) :
    insert key value (entries ++ [(key, old)]) = entries ++ [(key, value)] := by
  induction entries with
  | nil => simp [insert]
  | cons head rest ih =>
    have below : head.1 < key := above head mem_cons_self
    rw [cons_append, insert, if_neg below.not_gt, if_neg below.ne',
      ih (forall_mem_cons.mp above).2, cons_append]

theorem ofList_of_sorted (sorted : Sorted entries) : ofList entries = entries := by
  have extend : ∀ rest initial : List (κ × ν), Sorted (initial ++ rest) →
      rest.foldl (fun map entry => insert entry.1 entry.2 map) initial = initial ++ rest := by
    intro rest
    induction rest with
    | nil => exact fun initial _ => (append_nil initial).symm
    | cons head tail ih =>
      intro initial ordered
      have above : ∀ entry ∈ initial, entry.1 < head.1 := fun entry member =>
        (pairwise_append.mp ordered).2.2 entry member head mem_cons_self
      have regroup : initial ++ head :: tail = (initial ++ [head]) ++ tail := by simp
      rw [foldl_cons, insert_of_forall_lt above, regroup]
      exact ih _ (regroup ▸ ordered)
  exact extend entries [] sorted

theorem sorted_ofList (entries : List (κ × ν)) : Sorted (ofList entries) :=
  sorted_foldl_insert entries [] sorted_nil

end Order

end Mcpace.Library.OrderedMap
