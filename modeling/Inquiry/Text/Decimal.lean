/-!
# Decimal numerals

Counts, indices and budgets are written as plain decimal numerals. A numeral
may have any number of digits, leading zeros included; a count that enters the
library from text has to fit a 64-bit word (`wordLimit`).

* `ofDigits_digits`: the numeral of `n` reads back as `n`;
* `head?_digits`: it starts with a zero only if `n` is zero;
* `EndsDigits.takeWhile_append`: where no digit follows, a run of digits is all of
  the digits that a text starts with.
-/

namespace Inquiry

namespace Decimal

/-- The first number that does not fit a 64-bit word. -/
def wordLimit : Nat := 18446744073709551616

/-- The numeral of `n`, without leading zeros. -/
def digits (n : Nat) : List Char :=
  Nat.toDigits 10 n

/-- The number a run of digits stands for. -/
def ofDigits (ds : List Char) : Nat :=
  Nat.ofDigitChars 10 ds 0

@[simp]
theorem ofDigits_digits (n : Nat) : ofDigits (digits n) = n :=
  Nat.ofDigitChars_toDigits (by decide) (by decide)

/-- The number a run of digits stands for, if it fits a 64-bit word. -/
def word? (ds : List Char) : Option Nat :=
  if ofDigits ds < wordLimit then some (ofDigits ds) else none

theorem word?_digits {n : Nat} (h : n < wordLimit) : word? (digits n) = some n := by
  rw [word?, ofDigits_digits, if_pos h]

theorem isDigit_of_mem_digits {n : Nat} {c : Char} (h : c ∈ digits n) : c.isDigit = true :=
  Nat.isDigit_of_mem_toDigits (by decide) (by decide) h

theorem digits_ne_nil (n : Nat) : digits n ≠ [] := Nat.toDigits_ne_nil

/-- A numeral of more than one digit has no zero in front. -/
theorem head?_digits {n : Nat} (h : (digits n).head? = some '0') : n = 0 := by
  induction n using Nat.strongRecOn with
  | ind n ih =>
    rcases Nat.lt_or_ge n 10 with hn | hn
    · have hdigit : ∀ d < 10, (digits d).head? = some '0' → d = 0 := by decide
      exact hdigit n hn h
    · rw [digits, Nat.toDigits_of_base_le (by decide) hn, ← digits, List.head?_append,
        Option.or_of_isSome (List.isSome_head?.2 (digits_ne_nil _))] at h
      have := ih (n / 10) (Nat.div_lt_self (by omega) (by decide)) h
      omega

end Decimal

/-- No digit comes first, so that digits in front end here. -/
def EndsDigits (cs : List Char) : Prop := cs.takeWhile Char.isDigit = []

namespace EndsDigits

variable {cs : List Char}

theorem cons {c : Char} (h : c.isDigit = false) : EndsDigits (c :: cs) := by
  rw [EndsDigits, List.takeWhile_cons, h]
  rfl

theorem dropWhile_eq (h : EndsDigits cs) : cs.dropWhile Char.isDigit = cs := by
  have := List.takeWhile_append_dropWhile (p := Char.isDigit) (l := cs)
  rwa [h, List.nil_append] at this

/-- Where digits have been taken off, no digit comes first. -/
theorem dropWhile (cs : List Char) : EndsDigits (cs.dropWhile Char.isDigit) := by
  have h := List.head?_dropWhile_not Char.isDigit cs
  cases hd : cs.dropWhile Char.isDigit with
  | nil => rfl
  | cons d ds =>
    rw [hd] at h
    exact .cons (by simpa using h)

variable {ds : List Char} (hds : ∀ c ∈ ds, c.isDigit = true)
include hds

theorem takeWhile_append (h : EndsDigits cs) : (ds ++ cs).takeWhile Char.isDigit = ds := by
  rw [List.takeWhile_append_of_pos hds, h, List.append_nil]

theorem dropWhile_append (h : EndsDigits cs) : (ds ++ cs).dropWhile Char.isDigit = cs := by
  rw [List.dropWhile_append_of_pos hds, h.dropWhile_eq]

end EndsDigits

end Inquiry
