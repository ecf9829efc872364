import Mathlib

/-!
Owns arithmetic of fixed width on natural numbers: addition that stops at the largest value.
-/

namespace Mcpace.Library.Machine

/-- Addition of unsigned numbers of the width, cut off at the largest one. -/
def saturatingAdd (width left right : Nat) : Nat := min (left + right) (2 ^ width - 1)

/-- A sum within a limit that the width can pass was not cut off. -/
theorem saturatingAdd_of_le {width left right limit : Nat} (small : limit < 2 ^ width - 1)
    (within : saturatingAdd width left right ≤ limit) :
    saturatingAdd width left right = left + right := by
  unfold saturatingAdd at within ⊢
  omega

end Mcpace.Library.Machine
