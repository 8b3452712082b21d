import Inquiry.Message.Basic
import Inquiry.Text.Decimal

/-!
# References in text

A pointer is written as its sigil, an arrow and an index: `#->3`. The arrow may
be left out behind `#` and `@`, but not behind `?`, which is too common in
plain text. The digits go on as far as possible, so an index may be too large
to be one.

* `Reference.source_append_of_scan?`: a reference is found where it is written;
* `Reference.scan?_eq_some_iff`: exactly the references that a text begins with are
  found.
-/

namespace Inquiry

/-- A pointer as it is written. -/
structure Reference where
  kind : Pointer.Kind
  arrow : Bool
  digits : List Char

namespace Reference

/-- The characters of a reference. -/
def source (r : Reference) : List Char :=
  r.kind.sigil :: ((if r.arrow then ['-', '>'] else []) ++ r.digits)

/-- The pointer a reference stands for, unless its index is too large. -/
def pointer? (r : Reference) : Option Pointer :=
  (Decimal.word? r.digits).map (⟨r.kind, ·⟩)

/-- Whether an arrow comes first, and what is behind it. -/
def skipArrow : List Char → Bool × List Char
  | '-' :: '>' :: cs => (true, cs)
  | cs => (false, cs)

/-- The reference that a text starts with, and the text behind it. -/
def scan? : List Char → Option (Reference × List Char)
  | [] => none
  | c :: cs => do
    let kind ← Pointer.Kind.ofSigil? c
    let (arrow, cs) := skipArrow cs
    let digits := cs.takeWhile Char.isDigit
    if digits.isEmpty || (kind == .any && !arrow) then none
    else return (⟨kind, arrow, digits⟩, cs.dropWhile Char.isDigit)

theorem sigil_of_ofSigil? {c : Char} {k : Pointer.Kind} (h : Pointer.Kind.ofSigil? c = some k) :
    k.sigil = c := by
  unfold Pointer.Kind.ofSigil? at h
  split at h <;> simp at h <;> subst h <;> rfl

theorem append_skipArrow (cs : List Char) :
    (if (skipArrow cs).1 then ['-', '>'] else []) ++ (skipArrow cs).2 = cs := by
  fun_cases skipArrow cs <;> simp

theorem source_append_of_scan? {cs rest : List Char} {r : Reference}
    (h : scan? cs = some (r, rest)) : r.source ++ rest = cs := by
  cases cs with
  | nil => simp [scan?] at h
  | cons c cs =>
    simp only [scan?, Option.bind_eq_bind, Option.bind_eq_some_iff] at h
    obtain ⟨k, hk, h⟩ := h
    split at h
    · simp at h
    · simp only [Option.pure_def, Option.some.injEq, Prod.mk.injEq] at h
      obtain ⟨rfl, rfl⟩ := h
      simp [source, sigil_of_ofSigil? hk, List.append_assoc, append_skipArrow]

/-! ## What is found -/

/-- The reference is written as references are: it has digits, and an arrow if its kind cannot do
    without. -/
structure WellFormed (r : Reference) : Prop where
  digits_ne_nil : r.digits ≠ []
  isDigit : ∀ c ∈ r.digits, c.isDigit = true
  arrow : r.kind = .any → r.arrow = true

/-- The text begins with the reference, and its digits go on as far as they can. -/
structure Begins (r : Reference) (text : List Char) : Prop extends WellFormed r where
  source : ∃ rest, text = r.source ++ rest ∧ EndsDigits rest

/-- The index of the reference fits a word. -/
def Fits (r : Reference) : Prop := Decimal.ofDigits r.digits < Decimal.wordLimit

theorem pointer?_eq_some_iff {r : Reference} {p : Pointer} :
    r.pointer? = some p ↔ r.Fits ∧ p = ⟨r.kind, Decimal.ofDigits r.digits⟩ := by
  rw [pointer?, Decimal.word?, Fits]
  split
  · next h => simp [h, eq_comm]
  · next h => simp [h]

theorem pointer?_eq_none_iff {r : Reference} : r.pointer? = none ↔ ¬ r.Fits := by
  rw [pointer?, Decimal.word?, Fits]
  split
  · next h => simp [h]
  · next h => simp [h]

theorem ofSigil?_sigil (k : Pointer.Kind) : Pointer.Kind.ofSigil? k.sigil = some k := by
  cases k <;> rfl

/-- Digits are not taken for an arrow. -/
theorem skipArrow_append {r : Reference} (hr : r.WellFormed) (rest : List Char) :
    skipArrow ((if r.arrow then ['-', '>'] else []) ++ r.digits ++ rest) =
      (r.arrow, r.digits ++ rest) := by
  cases harrow : r.arrow with
  | true => rfl
  | false =>
    cases hdigits : r.digits with
    | nil => exact absurd hdigits hr.digits_ne_nil
    | cons d ds =>
      have hd : d ≠ '-' := by
        rintro rfl
        cases hr.isDigit '-' (hdigits ▸ List.mem_cons_self)
      simp [skipArrow, hd]

/-- Exactly the references that a text begins with are found. -/
theorem scan?_eq_some_iff {cs rest : List Char} {r : Reference} :
    scan? cs = some (r, rest) ↔ r.WellFormed ∧ cs = r.source ++ rest ∧ EndsDigits rest := by
  constructor
  · intro h
    have hsource := source_append_of_scan? h
    cases cs with
    | nil => cases h
    | cons c cs =>
      obtain ⟨k, hk, h⟩ := Option.bind_eq_some_iff.1 h
      dsimp only at h
      split at h
      · cases h
      · next hne =>
        cases h
        rw [Bool.not_eq_true, Bool.or_eq_false_iff] at hne
        obtain ⟨hdigits, harrow⟩ := hne
        refine ⟨⟨List.isEmpty_eq_false_iff.1 hdigits, List.all_eq_true.1 List.all_takeWhile, ?_⟩,
          hsource.symm, .dropWhile _⟩
        rintro rfl
        simpa using harrow
  · rintro ⟨hr, rfl, hrest⟩
    have htake := hrest.takeWhile_append hr.isDigit
    have hdrop := hrest.dropWhile_append hr.isDigit
    have hdigits : r.digits.isEmpty = false := List.isEmpty_eq_false_iff.2 hr.digits_ne_nil
    have harrow : (r.kind == .any && !r.arrow) = false := by
      cases hk : r.kind with
      | any =>
        rw [hr.arrow hk]
        rfl
      | _ => rfl
    rw [source, List.cons_append, scan?, ofSigil?_sigil]
    simp only [Option.bind_eq_bind, Option.bind_some, skipArrow_append hr, htake, hdrop, hdigits,
      harrow]
    rfl

theorem begins_iff {cs : List Char} {r : Reference} :
    r.Begins cs ↔ ∃ rest, scan? cs = some (r, rest) := by
  simp only [scan?_eq_some_iff]
  exact ⟨fun ⟨hr, rest, h⟩ => ⟨rest, hr, h⟩, fun ⟨rest, hr, h⟩ => ⟨hr, rest, h⟩⟩

end Reference

end Inquiry
