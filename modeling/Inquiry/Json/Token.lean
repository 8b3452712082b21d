import Inquiry.Json.Basic

/-!
# JSON tokens

The pieces of a JSON text: punctuation, words, numbers and strings, with white
space between them.

A string is first scanned into *units*, characters and halves of surrogate
pairs, since an escape may denote either. Two halves that belong together make
one character; a half that is left over makes the string one without text.

* `Token.length_rest_le`: a token leaves only text behind its first character.
-/

namespace Inquiry.Json

/-- A piece of a JSON text. -/
inductive Token
  | openArray
  | closeArray
  | openObject
  | closeObject
  | comma
  | colon
  | null
  | bool (b : Bool)
  | number (literal : List Char)
  | string (text : Option String)

/-- What a character or an escape in a string denotes. -/
inductive StringUnit
  | char (c : Char)
  /-- Half of a surrogate pair. -/
  | half (code : Nat)

/-- The value of a hexadecimal digit, in either case. -/
def hexValue? (c : Char) : Option Nat :=
  if c.isDigit then some (c.toNat - '0'.toNat)
  else if 'a' ≤ c ∧ c ≤ 'f' then some (c.toNat - 'a'.toNat + 10)
  else if 'A' ≤ c ∧ c ≤ 'F' then some (c.toNat - 'A'.toNat + 10)
  else none

/-- What an escape of four hexadecimal digits denotes. -/
def StringUnit.ofHex? (a b c d : Char) : Option StringUnit := do
  let code := ((← hexValue? a) * 16 + (← hexValue? b)) * 256 +
    ((← hexValue? c) * 16 + (← hexValue? d))
  return if 0xD800 ≤ code ∧ code < 0xE000 then .half code else .char (Char.ofNat code)

/-- What an escape of one letter denotes. -/
def ofEscape? : Char → Option Char
  | '"' => some '"'
  | '\\' => some '\\'
  | '/' => some '/'
  | 'b' => some '\x08'
  | 'f' => some '\x0c'
  | 'n' => some '\n'
  | 'r' => some '\r'
  | 't' => some '\t'
  | _ => none

/-- The units of a string up to the closing quote, and the text behind it. -/
def scanString : List Char → Option (List StringUnit × List Char)
  | [] => none
  | '"' :: cs => some ([], cs)
  | '\\' :: 'u' :: a :: b :: c :: d :: cs => do
    let u ← StringUnit.ofHex? a b c d
    let (us, rest) ← scanString cs
    return (u :: us, rest)
  | '\\' :: e :: cs => do
    let c ← ofEscape? e
    let (us, rest) ← scanString cs
    return (.char c :: us, rest)
  | c :: cs =>
    if c.toNat < 0x20 ∨ c = '\\' then none
    else do
      let (us, rest) ← scanString cs
      return (.char c :: us, rest)

/-- The character that two halves make, the upper one first. -/
def joinHalves? (upper lower : Nat) : Option Char :=
  if upper < 0xDC00 ∧ 0xDC00 ≤ lower then
    some (Char.ofNat (0x10000 + (upper - 0xD800) * 0x400 + (lower - 0xDC00)))
  else none

/-- The text that units denote, unless a half is left over. -/
def joinUnits : List StringUnit → Option (List Char)
  | [] => some []
  | .char c :: us => (joinUnits us).map (c :: ·)
  | .half upper :: .half lower :: us => do
    let c ← joinHalves? upper lower
    return c :: (← joinUnits us)
  | .half _ :: _ => none

/-- A run of digits that must not be empty, and the text behind it. -/
def scanDigits (cs : List Char) : Option (List Char × List Char) :=
  let digits := cs.takeWhile Char.isDigit
  if digits.isEmpty then none else some (digits, cs.dropWhile Char.isDigit)

/-- The whole part of a number: no zero comes before another digit. -/
def scanWhole (cs : List Char) : Option (List Char × List Char) := do
  let (digits, rest) ← scanDigits cs
  if digits.head? == some '0' && digits.length != 1 then none else return (digits, rest)

/-- The fraction of a number, if a point is there. -/
def scanFraction : List Char → Option (List Char × List Char)
  | '.' :: cs => do
    let (digits, rest) ← scanDigits cs
    return ('.' :: digits, rest)
  | cs => some ([], cs)

/-- The exponent of a number, if an `e` is there. -/
def scanExponent : List Char → Option (List Char × List Char)
  | [] => some ([], [])
  | e :: cs =>
    if e = 'e' ∨ e = 'E' then do
      let sign := (cs.take 1).filter fun c => c == '+' || c == '-'
      let (digits, rest) ← scanDigits (cs.drop sign.length)
      return (e :: sign ++ digits, rest)
    else some ([], e :: cs)

/-- A number without its sign, and the text behind it. -/
def scanNumber (cs : List Char) : Option (List Char × List Char) := do
  let (whole, cs) ← scanWhole cs
  let (fraction, cs) ← scanFraction cs
  let (exponent, cs) ← scanExponent cs
  return (whole ++ fraction ++ exponent, cs)

/-- The text behind a word, if it is there. -/
def skipWord : List Char → List Char → Option (List Char)
  | [], cs => some cs
  | w :: ws, c :: cs => if w = c then skipWord ws cs else none
  | _ :: _, [] => none

/-- The white space of JSON. -/
def isSpace (c : Char) : Bool :=
  c == ' ' || c == '\n' || c == '\r' || c == '\t'

theorem length_rest_of_scanString {cs rest : List Char} {us : List StringUnit}
    (h : scanString cs = some (us, rest)) : rest.length ≤ cs.length := by
  fun_induction scanString cs generalizing us with
  | case1 => simp at h
  | case2 cs => simp_all
  | case3 a b c d cs ih | case4 e cs _ ih | case6 c cs _ _ _ _ ih =>
    simp only [Option.bind_eq_bind, Option.bind_eq_some_iff, Option.pure_def,
      Option.some.injEq, Prod.mk.injEq, Prod.exists] at h
    grind
  | case5 => simp at h

theorem append_of_scanDigits {cs digits rest : List Char}
    (h : scanDigits cs = some (digits, rest)) : digits ++ rest = cs ∧ digits ≠ [] := by
  simp only [scanDigits] at h
  split at h
  · simp at h
  · simp only [Option.some.injEq, Prod.mk.injEq] at h
    obtain ⟨rfl, rfl⟩ := h
    simp_all

theorem append_of_scanWhole {cs digits rest : List Char}
    (h : scanWhole cs = some (digits, rest)) : digits ++ rest = cs ∧ digits ≠ [] := by
  simp only [scanWhole, Option.bind_eq_bind, Option.bind_eq_some_iff, Prod.exists] at h
  obtain ⟨_, _, hd, h⟩ := h
  split at h
  · simp at h
  · simp only [Option.pure_def, Option.some.injEq, Prod.mk.injEq] at h
    obtain ⟨rfl, rfl⟩ := h
    exact append_of_scanDigits hd

theorem append_of_scanFraction {cs fraction rest : List Char}
    (h : scanFraction cs = some (fraction, rest)) : fraction ++ rest = cs := by
  unfold scanFraction at h
  split at h
  · simp only [Option.bind_eq_bind, Option.bind_eq_some_iff, Option.pure_def,
      Option.some.injEq, Prod.mk.injEq, Prod.exists] at h
    obtain ⟨_, _, hd, rfl, rfl⟩ := h
    simp [(append_of_scanDigits hd).1]
  · simp_all

theorem filter_take_append {α : Type} (p : α → Bool) (cs : List α) :
    (cs.take 1).filter p ++ cs.drop ((cs.take 1).filter p).length = cs := by
  cases cs with
  | nil => rfl
  | cons c cs => by_cases h : p c <;> simp [h]

theorem append_of_scanExponent {cs exponent rest : List Char}
    (h : scanExponent cs = some (exponent, rest)) : exponent ++ rest = cs := by
  unfold scanExponent at h
  split at h
  · simp_all
  · split at h
    · simp only [Option.bind_eq_bind, Option.bind_eq_some_iff, Option.pure_def,
        Option.some.injEq, Prod.mk.injEq, Prod.exists] at h
      obtain ⟨_, _, hd, rfl, rfl⟩ := h
      rw [List.append_assoc, (append_of_scanDigits hd).1, List.cons_append, filter_take_append]
    · simp_all

theorem append_of_scanNumber {cs literal rest : List Char}
    (h : scanNumber cs = some (literal, rest)) : literal ++ rest = cs ∧ literal ≠ [] := by
  simp only [scanNumber, Option.bind_eq_bind, Option.bind_eq_some_iff, Option.pure_def,
    Option.some.injEq, Prod.mk.injEq, Prod.exists] at h
  obtain ⟨_, _, hw, _, _, hf, _, _, he, rfl, rfl⟩ := h
  have := append_of_scanWhole hw
  simp [append_of_scanExponent he, append_of_scanFraction hf, this]

theorem append_of_skipWord {w cs rest : List Char} (h : skipWord w cs = some rest) :
    w ++ rest = cs := by
  fun_induction skipWord w cs <;> simp_all

namespace Token

/-- The token that a text `c :: cs` starts with, and the text behind it. -/
def scan? (c : Char) (cs : List Char) : Option (Token × List Char) :=
  match c with
  | '[' => some (.openArray, cs)
  | ']' => some (.closeArray, cs)
  | '\x7b' => some (.openObject, cs)
  | '\x7d' => some (.closeObject, cs)
  | ',' => some (.comma, cs)
  | ':' => some (.colon, cs)
  | 'n' => (skipWord "ull".toList cs).map (.null, ·)
  | 't' => (skipWord "rue".toList cs).map (.bool true, ·)
  | 'f' => (skipWord "alse".toList cs).map (.bool false, ·)
  | '"' => do
    let (units, rest) ← scanString cs
    return (.string ((joinUnits units).map String.ofList), rest)
  | '-' => do
    let (literal, rest) ← scanNumber cs
    return (.number ('-' :: literal), rest)
  | c => do
    let (literal, rest) ← scanNumber (c :: cs)
    return (.number literal, rest)

theorem length_rest_le {c : Char} {cs rest : List Char} {t : Token}
    (h : scan? c cs = some (t, rest)) : rest.length ≤ cs.length := by
  have word {w : List Char} {t' : Token}
      (h : (skipWord w cs).map (t', ·) = some (t, rest)) : rest.length ≤ cs.length := by
    simp only [Option.map_eq_some_iff, Prod.mk.injEq] at h
    obtain ⟨_, hw, _, rfl⟩ := h
    rw [← append_of_skipWord hw, List.length_append]
    omega
  unfold scan? at h
  split at h
  iterate 6
    simp only [Option.some.injEq, Prod.mk.injEq] at h
    obtain ⟨_, rfl⟩ := h
    exact Nat.le_refl _
  iterate 3 exact word h
  all_goals
    simp only [Option.bind_eq_bind, Option.bind_eq_some_iff, Option.pure_def,
      Option.some.injEq, Prod.mk.injEq, Prod.exists] at h
    obtain ⟨_, _, hs, _, rfl⟩ := h
  · exact length_rest_of_scanString hs
  all_goals
    have ⟨hn, hne⟩ := append_of_scanNumber hs
    have := congrArg List.length hn
    have := List.length_pos_iff.2 hne
    simp only [List.length_append, List.length_cons] at *
    omega

/-- The tokens of a text, if it is made of tokens and white space. -/
def scan (cs : List Char) : Option (List Token) :=
  match cs with
  | [] => some []
  | c :: cs =>
    if isSpace c then scan cs
    else
      match _h : scan? c cs with
      | none => none
      | some (t, rest) => (scan rest).map (t :: ·)
termination_by cs.length
decreasing_by
  · simp
  · exact Nat.lt_succ_of_le (length_rest_le ‹_›)

end Token

end Inquiry.Json
