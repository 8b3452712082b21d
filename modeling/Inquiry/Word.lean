import Inquiry.Text.Decimal

/-!
# Machine words

Budgets, times and counts are 64-bit words. A sum that does not fit a word, a
difference below zero and a quotient by zero have no result.
-/

namespace Inquiry.Word

/-- The sum, if it fits a word. -/
def add? (a b : Nat) : Option Nat :=
  if a + b < Decimal.wordLimit then some (a + b) else none

/-- The difference, if it is not below zero. -/
def sub? (a b : Nat) : Option Nat :=
  if b ≤ a then some (a - b) else none

/-- The quotient, unless the divisor is zero. -/
def div? (a b : Nat) : Option Nat :=
  if b = 0 then none else some (a / b)

theorem add?_eq_some_iff {a b n : Nat} :
    add? a b = some n ↔ a + b < Decimal.wordLimit ∧ n = a + b := by
  rw [add?, Option.ite_none_right_eq_some, Option.some.injEq, eq_comm (a := n)]

theorem sub?_eq_some_iff {a b n : Nat} : sub? a b = some n ↔ b ≤ a ∧ n = a - b := by
  rw [sub?, Option.ite_none_right_eq_some, Option.some.injEq, eq_comm (a := n)]

end Inquiry.Word
