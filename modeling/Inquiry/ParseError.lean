import Inquiry.Span
import Inquiry.Word

/-!
# Parse errors

What can be wrong with a text that should be a message or a command, where it
is wrong, and the list that collects such errors over one reading. The list
stores the first `ErrorList.capacity` errors and only counts the rest.

* `ErrorList.total_push`, `ErrorList.stored_push`: what adding an error does;
* `ErrorList.stored_foldl_push`: what adding errors does, as long as there is room;
* `ErrorList.total_extend`: extending adds the counts;
* `ErrorList.extend?_eq_some_iff`: in words, a list can be extended by one that counts
  all errors it stores, if the counts fit;
* `ErrorList.conclude_eq_ok_iff`: a reading has a value if no error was met.
-/

namespace Inquiry

/-- What is wrong. -/
inductive ParseError.Cause
  /-- A character that cannot follow the head of a command. -/
  | unexpectedCharacter (found : Char)
  /-- A `(` that is never closed. -/
  | unclosedParen
  /-- A `)` that closes nothing. -/
  | unmatchedParen
  /-- A `(` inside as many open ones as a message may have. -/
  | nestingTooDeep (limit : Nat)
  /-- A number that does not fit a 64-bit word. -/
  | numberTooLarge
  /-- A word that is no verb. -/
  | unknownVerb (verb : String)
  /-- No word where a command should start. -/
  | missingVerb
  /-- A verb that needs a message and has none. -/
  | missingArgument (verb : String)
  /-- A verb that takes no message and has one. -/
  | unexpectedArgument (verb : String)
  /-- A verb that takes no modifiers and has one. -/
  | modifierNotAllowed (verb : String)
  /-- A modifier given twice. -/
  | duplicateModifier (modifier : Char)
  deriving DecidableEq

/-- The wording of a cause. -/
def ParseError.Cause.message : ParseError.Cause → String
  | .unexpectedCharacter found => "unexpected character '" ++ found.toString ++ "'"
  | .unclosedParen => "unclosed '('"
  | .unmatchedParen => "unmatched ')'"
  | .nestingTooDeep limit => "messages nest deeper than " ++ toString limit ++ " levels"
  | .numberTooLarge => "number is too large"
  | .unknownVerb verb => "unknown command '" ++ verb ++ "'"
  | .missingVerb => "expected a command"
  | .missingArgument verb => "'" ++ verb ++ "' needs a message"
  | .unexpectedArgument verb => "'" ++ verb ++ "' takes no message"
  | .modifierNotAllowed verb => "'" ++ verb ++ "' takes no modifiers"
  | .duplicateModifier modifier =>
    "modifier '" ++ modifier.toString ++ "' given more than once"

/-- An error and the bytes it is about. -/
structure ParseError where
  cause : ParseError.Cause
  span : Span
  deriving DecidableEq

/-- The wording of an error, such as `3..4: unclosed '('`. -/
def ParseError.message (e : ParseError) : String :=
  e.span.display ++ ": " ++ e.cause.message

/-- The errors of one reading: the first ones, and how many there are in all. -/
structure ErrorList where
  stored : List ParseError
  total : Nat
  deriving DecidableEq

namespace ErrorList

/-- How many errors a list stores. -/
def capacity : Nat := 20

/-- No errors. -/
def empty : ErrorList := ⟨[], 0⟩

/-- Whether there are any errors, stored or not. -/
def hasErrors (l : ErrorList) : Bool := 0 < l.total

/-- The first error. -/
def first? (l : ErrorList) : Option ParseError := l.stored.head?

/-- Adds one error; it is only counted once the list is full. -/
def push (l : ErrorList) (e : ParseError) : ErrorList where
  stored := if l.stored.length < capacity then l.stored ++ [e] else l.stored
  total := l.total + 1

/-- Adds the errors of another list, those it only counts included. -/
def extend (l other : ErrorList) : ErrorList :=
  let joined := other.stored.foldl push l
  { joined with total := joined.total + (other.total - other.stored.length) }

/-- Adds one error, in words. -/
def push? (l : ErrorList) (e : ParseError) : Option ErrorList := do
  return { l.push e with total := ← Word.add? l.total 1 }

/-- Adds the errors of another list, in words. What the other list only counts is found before
    anything is added. -/
def extend? (l other : ErrorList) : Option ErrorList := do
  let unstored ← Word.sub? other.total other.stored.length
  let joined ← other.stored.foldlM push? l
  return { joined with total := ← Word.add? joined.total unstored }

/-- The wording of all stored errors, and the number of the others. -/
def message (l : ErrorList) : String :=
  "; ".intercalate (l.stored.map ParseError.message) ++
    if l.stored.length < l.total then
      " (+" ++ toString (l.total - l.stored.length) ++ " more)"
    else ""

@[simp]
theorem total_push (l : ErrorList) (e : ParseError) : (l.push e).total = l.total + 1 := rfl

theorem stored_push (l : ErrorList) (e : ParseError) :
    (l.push e).stored = if l.stored.length < capacity then l.stored ++ [e] else l.stored :=
  rfl

theorem total_foldl_push (l : ErrorList) (es : List ParseError) :
    (es.foldl push l).total = l.total + es.length := by
  induction es generalizing l with
  | nil => rfl
  | cons e es ih => rw [List.foldl_cons, ih, total_push, List.length_cons]; omega

/-- As long as the list has room, every error is stored. -/
theorem stored_foldl_push {l : ErrorList} {es : List ParseError}
    (h : l.stored.length + es.length ≤ capacity) :
    (es.foldl push l).stored = l.stored ++ es := by
  induction es generalizing l with
  | nil => exact (List.append_nil _).symm
  | cons e es ih =>
    rw [List.length_cons] at h
    have hpush : (l.push e).stored = l.stored ++ [e] := by rw [stored_push, if_pos (by omega)]
    rw [List.foldl_cons, ih, hpush, List.append_assoc, List.singleton_append]
    rw [hpush, List.length_append, List.length_singleton]
    omega

theorem total_extend (l other : ErrorList) (h : other.stored.length ≤ other.total) :
    (l.extend other).total = l.total + other.total := by
  simp only [extend, total_foldl_push]
  omega

theorem push?_eq_some_iff {l l' : ErrorList} {e : ParseError} :
    l.push? e = some l' ↔ l.total + 1 < Decimal.wordLimit ∧ l' = l.push e := by
  simp only [push?, Option.bind_eq_bind, Option.bind_eq_some_iff, Word.add?_eq_some_iff,
    Option.pure_def, Option.some.injEq]
  constructor
  · rintro ⟨n, ⟨hn, rfl⟩, rfl⟩
    exact ⟨hn, rfl⟩
  · rintro ⟨hn, rfl⟩
    exact ⟨_, ⟨hn, rfl⟩, rfl⟩

theorem eq_foldl_push_of_foldlM_push? {l l' : ErrorList} {es : List ParseError}
    (h : es.foldlM push? l = some l') : l' = es.foldl push l := by
  induction es generalizing l with
  | nil => exact (Option.some.inj h).symm
  | cons e es ih =>
    rw [List.foldlM_cons] at h
    obtain ⟨m, hm, h⟩ := Option.bind_eq_some_iff.1 h
    rw [List.foldl_cons, ← (push?_eq_some_iff.1 hm).2]
    exact ih h

theorem foldlM_push?_eq_some {l : ErrorList} {es : List ParseError}
    (h : l.total + es.length < Decimal.wordLimit) :
    es.foldlM push? l = some (es.foldl push l) := by
  induction es generalizing l with
  | nil => rfl
  | cons e es ih =>
    rw [List.length_cons] at h
    rw [List.foldlM_cons, push?_eq_some_iff.2 ⟨by omega, rfl⟩, List.foldl_cons]
    exact ih (by rw [total_push]; omega)

/-- In words, a list can be extended by another one if the counts fit, but only if the other one
    counts all errors it stores. -/
theorem extend?_eq_some_iff {l l' other : ErrorList} :
    l.extend? other = some l' ↔ other.stored.length ≤ other.total ∧
      l.total + other.total < Decimal.wordLimit ∧ l' = l.extend other := by
  simp only [extend?, Option.bind_eq_bind, Option.bind_eq_some_iff, Word.add?_eq_some_iff,
    Word.sub?_eq_some_iff, Option.pure_def, Option.some.injEq]
  constructor
  · rintro ⟨n, ⟨hn, rfl⟩, joined, hjoined, k, ⟨hk, rfl⟩, rfl⟩
    obtain rfl := eq_foldl_push_of_foldlM_push? hjoined
    rw [total_foldl_push] at hk
    exact ⟨hn, by omega, rfl⟩
  · rintro ⟨hn, hk, rfl⟩
    have hjoined : other.stored.foldlM push? l = some (other.stored.foldl push l) :=
      foldlM_push?_eq_some (by omega)
    exact ⟨_, ⟨hn, rfl⟩, _, hjoined, _, ⟨by rw [total_foldl_push]; omega, rfl⟩, rfl⟩

/-- The value of a reading, if neither it nor the scan before it met an error. -/
def conclude {α : Type} (l : ErrorList) : Except ParseError α → Except ErrorList α
  | .error e => .error (l.push e)
  | .ok a => if l.hasErrors then .error l else .ok a

theorem conclude_eq_ok_iff {α : Type} {l : ErrorList} {x : Except ParseError α} {a : α} :
    l.conclude x = .ok a ↔ l.total = 0 ∧ x = .ok a := by
  cases x with
  | error e => simp [conclude]
  | ok b =>
    by_cases h : l.total = 0
    · simp [conclude, hasErrors, h]
    · simp [conclude, hasErrors, h, Nat.pos_of_ne_zero h]

theorem eq_ok_of_conclude {α : Type} {l : ErrorList} {x : Except ParseError α} {a : α}
    (h : l.conclude x = .ok a) : x = .ok a :=
  (conclude_eq_ok_iff.1 h).2

theorem conclude_map {α β : Type} (l : ErrorList) (f : α → β) (x : Except ParseError α) :
    l.conclude (x.map f) = (l.conclude x).map f := by
  cases x with
  | error e => rfl
  | ok a =>
    rw [Except.map, conclude, conclude]
    split <;> rfl

end ErrorList

end Inquiry
