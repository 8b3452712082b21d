import Inquiry.Text.Decimal

/-!
# Numbers within the range of a double

A number that is set aside is kept as a double, so it has to be in range. The
double is made in the short way: of the digits as many are taken as fit a 64-bit
word, those left over only count as places, and the number taken is multiplied
by one power of ten. The number, the power and the product are rounded to
doubles, each on its own. So close to the end of the range the product may fall
on the other side of it than the number that is written, and it is the product
that counts.

* `Double.takeDigits_of_lt`: a numeral that fits a word is taken whole;
* `Double.isFinite_digits`: so it is in range.
-/

namespace Inquiry.Double

/-- What the last of the 53 binary digits of a double near `n` counts. -/
def unit (n : Nat) : Nat := Nat.pow 2 (n.log2 - 52)

/-- The double nearest to `n`, if doubles had no end: 53 binary digits with zeros
    behind them. Of two that are equally near it is the one with the even digits. -/
def round (n : Nat) : Nat :=
  let q := n / unit n
  let r := n % unit n
  if unit n < 2 * r ∨ 2 * r = unit n ∧ q % 2 = 1 then (q + 1) * unit n else q * unit n

/-- The first number beyond all doubles. -/
def limit : Nat := Nat.pow 2 1024

/-- The largest power of ten that is a double, as its exponent. -/
def maxExponent : Nat := 308

/-- Writes digits behind a number as long as it fits a word: the number then, and the
    digits left over. -/
def takeDigits (n : Nat) : List Char → Nat × List Char
  | [] => (n, [])
  | d :: ds =>
    let m := 10 * n + (d.toNat - '0'.toNat)
    if m < Decimal.wordLimit then takeDigits m ds else (n, d :: ds)

/-- The exponent behind an `e`: an optional sign and digits. -/
def exponent : List Char → Int
  | '-' :: ds => -(Decimal.ofDigits ds : Int)
  | '+' :: ds => Decimal.ofDigits ds
  | ds => Decimal.ofDigits ds

/-- A number of some digits and the power of ten that it is multiplied by. -/
structure Scaled where
  number : Nat
  power : Int

/-- The digits that count in a literal, whatever its sign, and their power of ten. -/
def Scaled.ofLiteral (literal : List Char) : Scaled :=
  let unsigned := literal.dropWhile (· == '-')
  let whole := unsigned.takeWhile Char.isDigit
  let rest := unsigned.dropWhile Char.isDigit
  let fraction := if rest.head? == some '.' then rest.tail.takeWhile Char.isDigit else []
  let scale := exponent ((rest.dropWhile fun c => c == '.' || c.isDigit).drop 1)
  -- Digits left over in the whole part still move the point, those in the fraction
  -- no longer do.
  let (number, spare) := takeDigits 0 whole
  let (number, unread) := takeDigits number fraction
  let places := fraction.length - unread.length
  ⟨number, spare.length - (places : Int) + scale⟩

/-- Whether the double made of a number and a power of ten is in range. A power below one
    never leaves it. -/
def Scaled.isFinite (x : Scaled) : Bool :=
  x.number == 0 || x.power ≤ 0 ||
    (x.power ≤ maxExponent &&
      round (round x.number * round (Nat.pow 10 x.power.toNat)) < limit)

/-- Whether the double made of a literal is in range. -/
def isFinite (literal : List Char) : Bool :=
  (Scaled.ofLiteral literal).isFinite

theorem le_ofDigitChars (ds : List Char) (n : Nat) : n ≤ Nat.ofDigitChars 10 ds n := by
  induction ds generalizing n with
  | nil => exact Nat.le_refl _
  | cons d ds ih =>
    rw [Nat.ofDigitChars_cons]
    exact Nat.le_trans (by omega) (ih _)

/-- Digits that fit a word behind a number are all taken. -/
theorem takeDigits_of_lt {ds : List Char} {n : Nat}
    (h : Nat.ofDigitChars 10 ds n < Decimal.wordLimit) :
    takeDigits n ds = (Nat.ofDigitChars 10 ds n, []) := by
  induction ds generalizing n with
  | nil => rfl
  | cons d ds ih =>
    rw [Nat.ofDigitChars_cons] at h ⊢
    rw [takeDigits, if_pos (Nat.lt_of_le_of_lt (le_ofDigitChars ds _) h), ih h]

/-- The numeral of a number that fits a word is in range. -/
theorem isFinite_digits {n : Nat} (h : n < Decimal.wordLimit) :
    isFinite (Decimal.digits n) = true := by
  have hdigit := fun c => Decimal.isDigit_of_mem_digits (n := n) (c := c)
  have hsign : (Decimal.digits n).dropWhile (· == '-') = Decimal.digits n := by
    obtain ⟨d, ds, hds⟩ := List.exists_cons_of_ne_nil (Decimal.digits_ne_nil n)
    have hd : d.isDigit = true := hdigit d (hds ▸ List.mem_cons_self)
    rw [hds, List.dropWhile_cons_of_neg]
    rw [beq_iff_eq]
    rintro rfl
    cases hd
  have hends : EndsDigits [] := rfl
  have htake := hends.takeWhile_append hdigit
  have hdrop := hends.dropWhile_append hdigit
  rw [List.append_nil] at htake hdrop
  have hword : takeDigits 0 (Decimal.digits n) = (n, []) := by
    have hn : Nat.ofDigitChars 10 (Decimal.digits n) 0 = n := Decimal.ofDigits_digits n
    rw [takeDigits_of_lt (hn.symm ▸ h), hn]
  have hscaled : Scaled.ofLiteral (Decimal.digits n) = ⟨n, 0⟩ := by
    simp [Scaled.ofLiteral, hsign, htake, hdrop, hword, takeDigits, exponent]
    rfl
  simp [isFinite, hscaled, Scaled.isFinite]

end Inquiry.Double
