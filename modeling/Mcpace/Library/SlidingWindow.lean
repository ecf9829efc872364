import Mathlib

/-!
Owns sequences of admissions that are limited over a sliding window: from what each admission saw
behind it follows a bound for every interval of the window's length.
-/

namespace Mcpace.Library.SlidingWindow

open List

variable {window limit : Nat} {times : List Nat}

/-- Each admission saw fewer than `limit` earlier ones that still counted. -/
def Limited (window limit : Nat) (times : List Nat) : Prop :=
  ∀ past time rest, times = past ++ time :: rest →
    past.countP (fun earlier => decide (time < earlier + window)) < limit

theorem Limited.of_append {more : List Nat} (limited : Limited window limit (times ++ more)) :
    Limited window limit times := by
  intro past time rest split
  apply limited past time (rest ++ more)
  rw [split]
  simp

theorem limited_append {time : Nat} (limited : Limited window limit times)
    (room : times.countP (fun earlier => decide (time < earlier + window)) < limit) :
    Limited window limit (times ++ [time]) := by
  intro past found rest split
  rcases eq_nil_or_concat rest with rfl | ⟨others, last, rfl⟩
  · obtain ⟨rfl, same⟩ := append_inj' split rfl
    cases same
    exact room
  · have shorter : times ++ [time] = (past ++ found :: others) ++ [last] := by
      rw [split]
      simp
    obtain ⟨isTimes, _⟩ := append_inj' shorter rfl
    exact limited past found others isTimes

/-- Admissions in order of time whose spread stays below the window are at most `limit`. -/
theorem Limited.countP_le (limited : Limited window limit times)
    (ordered : times.Pairwise (· ≤ ·)) {inside : Nat → Bool}
    (narrow : ∀ earlier later, inside earlier = true → inside later = true → earlier ≤ later →
      later < earlier + window) : times.countP inside ≤ limit := by
  induction times using List.reverseRecOn with
  | nil => simp
  | append_singleton past last ih =>
    obtain ⟨pastOrdered, _, before⟩ := pairwise_append.mp ordered
    have bound := ih limited.of_append pastOrdered
    rw [countP_append, countP_singleton]
    split
    · rename_i isInside
      -- Whatever else is inside still counted when the last one was admitted.
      have counted : past.countP inside ≤
          past.countP (fun earlier => decide (last < earlier + window)) := by
        apply countP_mono_left
        intro earlier member earlierInside
        exact decide_eq_true (narrow earlier last earlierInside isInside
          (before earlier member last (by simp)))
      have room := limited past last [] rfl
      omega
    · omega

end Mcpace.Library.SlidingWindow
