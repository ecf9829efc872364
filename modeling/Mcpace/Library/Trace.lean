import Mathlib

/-!
Owns machines that read inputs one by one and may stop: the trace of a run, and the rule by which
an invariant over the past gives a fact about every entry.
-/

namespace Mcpace.Library.Trace

open List

universe u v w

variable {σ : Type u} {ι : Type v} {ο : Type w}

/-- The entries of a run: each input with what the machine made of it. A machine that gives no
next state has stopped. -/
def trace (machine : σ → ι → ο × Option σ) : σ → List ι → List (ι × ο)
  | _, [] => []
  | state, input :: rest =>
    (input, (machine state input).1) ::
      match (machine state input).2 with
      | none => []
      | some next => trace machine next rest

variable {machine : σ → ι → ο × Option σ} {start : σ}

/-- The entries are made of the inputs, in order, as long as no entry shows a stop. -/
theorem map_fst_trace {stopped : ο → Prop} {inputs : List ι}
    (visible : ∀ state, ∀ input ∈ inputs, (machine state input).2 = none →
      stopped (machine state input).1)
    (running : ∀ entry ∈ trace machine start inputs, ¬stopped entry.2) :
    (trace machine start inputs).map Prod.fst = inputs := by
  induction inputs generalizing start with
  | nil => rfl
  | cons input rest ih =>
    rw [trace] at running ⊢
    cases moved : (machine start input).2 with
    | none =>
      have halted := visible start input mem_cons_self moved
      exact absurd halted (running _ mem_cons_self)
    | some next =>
      rw [moved] at running
      have later := @ih next
        (fun state other member => visible state other (mem_cons_of_mem _ member))
        (forall_mem_cons.mp running).2
      rw [map_cons, later]

/-- A property of the past and of the state that the machine keeps up. -/
structure Invariant (machine : σ → ι → ο × Option σ) (start : σ)
    (holds : List (ι × ο) → σ → Prop) : Prop where
  initial : holds [] start
  preserved : ∀ past state input next, holds past state → (machine state input).2 = some next →
    holds (past ++ [(input, (machine state input).1)]) next

/-- Every entry was made in a state of which the invariant holds, with the entries before it as
the past. -/
theorem Invariant.of_entry {holds : List (ι × ο) → σ → Prop}
    (invariant : Invariant machine start holds) {inputs : List ι} {past rest : List (ι × ο)}
    {entry : ι × ο} (split : trace machine start inputs = past ++ entry :: rest) :
    ∃ state, holds past state ∧ (machine state entry.1).1 = entry.2 := by
  have general : ∀ (inputs : List ι) (state : σ) (before past : List (ι × ο)),
      holds before state → trace machine state inputs = past ++ entry :: rest →
      ∃ state, holds (before ++ past) state ∧ (machine state entry.1).1 = entry.2 := by
    intro inputs
    induction inputs with
    | nil =>
      intro state before past _ split
      cases past <;> cases split
    | cons input others ih =>
      intro state before past held split
      rw [trace] at split
      cases past with
      | nil =>
        cases split
        exact ⟨state, by rwa [append_nil], rfl⟩
      | cons first others' =>
        obtain ⟨isFirst, later⟩ := List.cons.inj split
        cases moved : (machine state input).2 with
        | none =>
          rw [moved] at later
          cases others' <;> cases later
        | some next =>
          rw [moved] at later
          have further := ih next (before ++ [first]) others'
            (isFirst ▸ invariant.preserved before state input next held moved) later
          rwa [List.append_assoc] at further
  have found := general inputs start [] past invariant.initial split
  rwa [nil_append] at found

/-- Marks are distinct if none was made before. -/
theorem nodup_filterMap {α : Type u} {β : Type v} {mark : α → Option β} {items : List α}
    (fresh : ∀ past item rest, items = past ++ item :: rest →
      ∀ value, mark item = some value → value ∉ past.filterMap mark) :
    (items.filterMap mark).Nodup := by
  induction items using List.reverseRecOn with
  | nil => exact nodup_nil
  | append_singleton past item ih =>
    have earlier := ih (fun before found rest split =>
      fresh before found (rest ++ [item]) (by rw [split]; simp))
    rw [filterMap_append, nodup_append]
    refine ⟨earlier, ?_, ?_⟩
    · cases marked : mark item <;> simp [marked]
    · intro value member other isLast same
      obtain ⟨last, isItem, marked⟩ := mem_filterMap.mp isLast
      rw [mem_singleton.mp isItem, ← same] at marked
      exact fresh past item [] rfl value marked member

end Mcpace.Library.Trace
