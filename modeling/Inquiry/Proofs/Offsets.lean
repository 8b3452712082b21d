import Inquiry.Message.Reader

/-!
# Offsets

Where a text stands does not matter for what is read in it: scanned from another
offset, it falls into the same tokens, with all spans moved by as much (`shift`),
and from them the same message is read, or the same errors come out, moved alike.

* `Message.conclude_scanFrom`: reading a text at an offset is reading it alone,
  but for the spans of the errors.
-/

namespace Inquiry

/-- The span, moved by `k` bytes. -/
def Span.shift (k : Nat) (s : Span) : Span := ⟨s.start + k, s.stop + k⟩

/-- The error, moved by `k` bytes. -/
def ParseError.shift (k : Nat) (e : ParseError) : ParseError :=
  { e with span := e.span.shift k }

/-- The same thing, moved by `k` bytes. -/
def Located.shift {α : Type} (k : Nat) (x : Located α) : Located α :=
  { x with span := x.span.shift k }

/-- The same errors, moved by `k` bytes. -/
def ErrorList.shift (k : Nat) (l : ErrorList) : ErrorList :=
  { l with stored := l.stored.map (·.shift k) }

/-- The same tokens, moved by `k` bytes. -/
def MessageTokens.shift (k : Nat) (m : MessageTokens) : MessageTokens :=
  ⟨m.tokens.map (·.shift k), m.stop + k, m.errors.shift k⟩

namespace ErrorList

variable (k : Nat) (l : ErrorList)

@[simp]
theorem shift_empty : empty.shift k = empty := rfl

@[simp]
theorem total_shift : (l.shift k).total = l.total := rfl

@[simp]
theorem hasErrors_shift : (l.shift k).hasErrors = l.hasErrors := rfl

theorem shift_push (e : ParseError) : (l.push e).shift k = (l.shift k).push (e.shift k) := by
  simp only [shift, push, List.length_map]
  split
  · rw [List.map_append]
    rfl
  · rfl

theorem conclude_shift {α : Type} (x : Except ParseError α) :
    (l.shift k).conclude (x.mapError (·.shift k)) = (l.conclude x).mapError (·.shift k) := by
  cases x with
  | error e => exact congrArg Except.error (l.shift_push k e).symm
  | ok a =>
    change (l.shift k).conclude (.ok a) = _
    rw [conclude, conclude, hasErrors_shift]
    split <;> rfl

end ErrorList

theorem Lexeme.error?_add (l : Lexeme) (start k : Nat) :
    l.error? (start + k) = (l.error? start).map (·.shift k) := by
  rw [error?, error?, Option.map_map]
  refine congrArg (l.oversized.map ·) (funext fun r => ?_)
  rw [Function.comp_apply, ParseError.shift, Span.shift, Nat.add_right_comm]

/-- A text at another offset falls into the same tokens. -/
theorem MessageTokens.scanFrom_shift (k start : Nat) (errors : ErrorList) (cs : List Char) :
    scanFrom (start + k) (errors.shift k) cs = (scanFrom start errors cs).shift k := by
  fun_induction scanFrom start errors cs with
  | case1 start errors =>
    rw [scanFrom]
    rfl
  | case2 start errors c cs hfull =>
    rw [scanFrom, ErrorList.total_shift, if_pos hfull]
    rfl
  | case3 start errors c cs hroom l stop errors' ih =>
    have hstop : start + k + byteLength l.source = stop + k := Nat.add_right_comm ..
    have herrors : (l.error? (start + k)).elim (errors.shift k) (errors.shift k).push =
        errors'.shift k := by
      rw [l.error?_add]
      cases he : l.error? start with
      | none => simp [errors', he]
      | some e => simp [errors', he, ErrorList.shift_push]
    rw [scanFrom, ErrorList.total_shift, if_neg hroom]
    dsimp only
    rw [hstop, herrors, ih]
    rfl

namespace Message

variable {C : Type} (k : Nat)

/-- Tokens that are moved, with what is open, are read as the same message. -/
theorem readTokens_shift (opened : List (Span × Draft C)) (draft : Draft C)
    (ts : List (Located Token)) :
    readTokens (opened.map fun o => (o.1.shift k, o.2)) draft (ts.map (·.shift k)) =
      (readTokens opened draft ts).mapError (·.shift k) := by
  fun_induction readTokens opened draft ts with
  | case1 draft => rfl
  | case2 draft span outer opened => rfl
  | case3 opened draft t span ts ih => exact ih
  | case4 opened draft p span ts ih => exact ih
  | case5 opened draft span ts hfull =>
    rw [List.map_cons, Located.shift, readTokens, List.length_map, if_pos hfull]
    rfl
  | case6 opened draft span ts hroom ih =>
    rw [List.map_cons, Located.shift, readTokens, List.length_map, if_neg hroom]
    exact ih
  | case7 draft span ts => rfl
  | case8 draft span ts opener outer opened ih => exact ih

/-- At an offset, a text is read as it is read alone; only the spans of its errors are moved. -/
theorem conclude_scanFrom (cs : List Char) :
    (MessageTokens.scanFrom k .empty cs).errors.conclude
        (ofTokens (C := C) (MessageTokens.scanFrom k .empty cs).tokens) =
      (tryParse (String.ofList cs)).mapError (·.shift k) := by
  have hs := MessageTokens.scanFrom_shift k 0 .empty cs
  rw [Nat.zero_add, ErrorList.shift_empty] at hs
  have ht := readTokens_shift k ([] : List (Span × Draft C)) .empty
    (MessageTokens.scan cs).tokens
  rw [hs, tryParse, String.toList_ofList]
  exact (congrArg _ ht).trans (ErrorList.conclude_shift ..)

end Message

end Inquiry
