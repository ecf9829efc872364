import Mathlib

/-!
Owns first-in first-out queues that are kept as counters: tickets are numbered as they are
issued, one counter says which number is served, and the numbers given up meanwhile are
skipped.

The queue itself is `pending`, the list of the numbers between the two counters that nobody
gave up. Issuing appends to it, serving drops its head, and giving up erases from it.
-/

namespace Mcpace.Library.TicketQueue

open List

/-- The numbers from `serving` on, up to `next`, that are not cancelled. -/
def pending (serving next : Nat) (cancelled : Finset Nat) : List Nat :=
  (List.range' serving (next - serving)).filter (fun ticket => ticket ∉ cancelled)

/-- Cancelled numbers were issued, and the number being served is not one of them. -/
structure WellFormed (serving next : Nat) (cancelled : Finset Nat) : Prop where
  ordered : serving ≤ next
  issued : ∀ ticket ∈ cancelled, serving < ticket ∧ ticket < next

/-- Step over cancelled numbers; `fuel` is the number of them. -/
def skip : Nat → Nat → Finset Nat → Nat × Finset Nat
  | 0, serving, cancelled => (serving, cancelled)
  | fuel + 1, serving, cancelled =>
    if serving ∈ cancelled then skip fuel (serving + 1) (cancelled.erase serving)
    else (serving, cancelled)

variable {serving next : Nat} {cancelled : Finset Nat}

theorem mem_pending {ticket : Nat} : ticket ∈ pending serving next cancelled ↔
      serving ≤ ticket ∧ ticket < next ∧ ticket ∉ cancelled := by
  rw [pending, mem_filter, mem_range'_1, decide_eq_true_eq]
  constructor
  · intro ⟨⟨low, high⟩, kept⟩
    exact ⟨low, by omega, kept⟩
  · intro ⟨low, high, kept⟩
    exact ⟨⟨low, by omega⟩, kept⟩

theorem nodup_pending (serving next : Nat) (cancelled : Finset Nat) :
    (pending serving next cancelled).Nodup :=
  List.Nodup.filter _ nodup_range'

/-- The queue and the cancelled numbers make up the whole range. -/
theorem length_pending (wellFormed : WellFormed serving next cancelled) :
    (pending serving next cancelled).length + cancelled.card = next - serving := by
  let range := List.range' serving (next - serving)
  have given : (range.filter (fun ticket => decide (ticket ∈ cancelled))).toFinset =
      cancelled := by
    ext ticket
    rw [List.mem_toFinset, mem_filter, mem_range'_1, decide_eq_true_eq]
    have bounds := wellFormed.issued ticket
    constructor
    · exact fun found => found.2
    · intro member
      have issued := bounds member
      exact ⟨by omega, member⟩
  have counted : (range.filter (fun ticket => decide (ticket ∈ cancelled))).length =
      cancelled.card := by
    rw [← given, toFinset_card_of_nodup (List.Nodup.filter _ nodup_range'), given]
  have split := length_eq_length_filter_add (fun ticket => decide (ticket ∈ cancelled)) (l := range)
  have whole : range.length = next - serving := length_range'
  have kept : (range.filter (fun ticket => !decide (ticket ∈ cancelled))) =
      pending serving next cancelled := by
    rw [pending]
    exact filter_congr (fun ticket _ => by rw [decide_not])
  rw [kept] at split
  omega

/-! ### Operations -/

theorem pending_issue (wellFormed : WellFormed serving next cancelled) :
    pending serving (next + 1) cancelled = pending serving next cancelled ++ [next] := by
  have grown : next + 1 - serving = next - serving + 1 := by
    have := wellFormed.ordered
    omega
  have last : serving + (next - serving) = next := Nat.add_sub_cancel' wellFormed.ordered
  have fresh : next ∉ cancelled := fun member => lt_irrefl _ (wellFormed.issued next member).2
  rw [pending, grown, range'_1_concat, filter_append, last, pending]
  simp [fresh]

theorem pending_cancel (ticket : Nat) : pending serving next (insert ticket cancelled) =
      (pending serving next cancelled).erase ticket := by
  rw [(nodup_pending serving next cancelled).erase_eq_filter, pending, pending, List.filter_filter]
  apply filter_congr
  intro other _
  by_cases same : other = ticket
  · simp [same]
  · simp [same]

theorem pending_eq_cons (wellFormed : WellFormed serving next cancelled)
    (waiting : serving < next) :
    pending serving next cancelled = serving :: pending (serving + 1) next cancelled := by
  have unspent : serving ∉ cancelled :=
    fun member => lt_irrefl _ (wellFormed.issued serving member).1
  have grown : next - serving = next - (serving + 1) + 1 := by omega
  rw [pending, grown, range'_succ, filter_cons_of_pos (by simp [unspent]), pending]

theorem pending_erase_of_lt {ticket : Nat} (passed : ticket < serving) :
    pending serving next (cancelled.erase ticket) = pending serving next cancelled := by
  rw [pending, pending]
  apply filter_congr
  intro other member
  have above := (mem_range'_1.mp member).1
  have different : other ≠ ticket := by omega
  simp [different]

/-- Stepping over cancelled numbers leaves the queue as it is. -/
theorem skip_spec {fuel : Nat} (enough : cancelled.card ≤ fuel) (ordered : serving ≤ next)
    (issued : ∀ ticket ∈ cancelled, serving ≤ ticket ∧ ticket < next) :
    WellFormed (skip fuel serving cancelled).1 next (skip fuel serving cancelled).2 ∧
      pending (skip fuel serving cancelled).1 next (skip fuel serving cancelled).2 =
        pending serving next cancelled ∧
      serving ≤ (skip fuel serving cancelled).1 ∧
      (skip fuel serving cancelled).2 ⊆ cancelled := by
  induction fuel generalizing serving cancelled with
  | zero =>
    have none : cancelled = ∅ := Finset.card_eq_zero.mp (Nat.le_zero.mp enough)
    refine ⟨⟨ordered, ?_⟩, rfl, le_refl _, fun _ member => member⟩
    intro ticket member
    rw [skip, none] at member
    exact absurd member (Finset.notMem_empty ticket)
  | succ fuel ih =>
    rw [skip]
    by_cases spent : serving ∈ cancelled
    · rw [if_pos spent]
      have smaller : (cancelled.erase serving).card ≤ fuel := by
        rw [Finset.card_erase_of_mem spent]
        omega
      have bound := (issued serving spent).2
      have later : ∀ ticket ∈ cancelled.erase serving, serving + 1 ≤ ticket ∧ ticket < next := by
        intro ticket member
        obtain ⟨different, before⟩ := Finset.mem_erase.mp member
        have bounds := issued ticket before
        omega
      obtain ⟨wellFormed, same, above, fewer⟩ :=
        ih smaller (by omega) later
      refine ⟨wellFormed, ?_, by omega, fun _ member =>
        Finset.mem_of_mem_erase (fewer member)⟩
      have skipped : pending serving next cancelled = pending (serving + 1) next cancelled := by
        have grown : next - serving = next - (serving + 1) + 1 := by omega
        rw [pending, grown, range'_succ, filter_cons_of_neg (by simp [spent]), pending]
      rw [same, skipped, pending_erase_of_lt (Nat.lt_succ_self serving)]
    · rw [if_neg spent]
      refine ⟨⟨ordered, ?_⟩, rfl, le_refl _, fun _ member => member⟩
      intro ticket member
      have bounds := issued ticket member
      have different : ticket ≠ serving := by
        intro same
        rw [same] at member
        exact spent member
      omega

theorem skip_of_wellFormed (wellFormed : WellFormed serving next cancelled) (fuel : Nat) :
    skip fuel serving cancelled = (serving, cancelled) := by
  have unspent : serving ∉ cancelled :=
    fun member => lt_irrefl _ (wellFormed.issued serving member).1
  cases fuel with
  | zero => rfl
  | succ fuel => rw [skip, if_neg unspent]

end Mcpace.Library.TicketQueue
