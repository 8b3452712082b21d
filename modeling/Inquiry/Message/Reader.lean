import Inquiry.Message.Basic
import Inquiry.Token.Scan

/-!
# Reading messages

A message is read from its tokens in one pass, with the messages that are still
open on a stack: an opening parenthesis opens one, a closing one puts it into a
slot of the message around it. At most `nestingLimit` may be open at once.
Reading stops at the first parenthesis that does not fit, so besides the errors
of the scan there is at most one.

Text from outside is never refused where an answer has to go on
(`Message.parse`): text that is no message is replaced by a fixed one.

* `Draft.toMessage_addText`, `Draft.toMessage_addSlot`: a draft grows at its end.
-/

namespace Inquiry

variable {C : Type}

/-- A message that is still being read. -/
structure Draft (C : Type) where
  /-- The slots read so far, the last one first, each with the fragment before it. -/
  slots : List (String × Referent C)
  /-- The fragment behind the last slot. -/
  fragment : String

namespace Draft

/-- Nothing read yet. -/
def empty : Draft C := ⟨[], ""⟩

/-- The draft with more text. -/
def addText (d : Draft C) (t : String) : Draft C :=
  { d with fragment := d.fragment ++ t }

/-- The draft with one more slot. -/
def addSlot (d : Draft C) (r : Referent C) : Draft C :=
  ⟨(d.fragment, r) :: d.slots, ""⟩

/-- The message read. -/
def toMessage (d : Draft C) : Message C :=
  d.slots.foldl (fun rest s => .slot s.1 s.2 rest) (.text d.fragment)

@[simp]
theorem toMessage_empty : (empty : Draft C).toMessage = .text "" := rfl

theorem foldl_slot_concat (slots : List (String × Referent C)) (a b : Message C) :
    slots.foldl (fun rest s => .slot s.1 s.2 rest) (a.concat b) =
      (slots.foldl (fun rest s => .slot s.1 s.2 rest) a).concat b := by
  induction slots generalizing a with
  | nil => rfl
  | cons s slots ih => rw [List.foldl_cons, ← Message.concat_slot, ih]; rfl

theorem toMessage_addText (d : Draft C) (t : String) :
    (d.addText t).toMessage = d.toMessage.concat (.text t) :=
  foldl_slot_concat d.slots (.text d.fragment) (.text t)

theorem toMessage_addSlot (d : Draft C) (r : Referent C) :
    (d.addSlot r).toMessage = d.toMessage.concat (.reference r) := by
  rw [toMessage, toMessage, ← foldl_slot_concat]
  simp [addSlot, Message.reference, Message.concat]

end Draft

namespace Message

/-- How many messages may be open inside one another. -/
def nestingLimit : Nat := 64

/-- Reads a message, with the messages around it and where each was opened. -/
def readTokens (opened : List (Span × Draft C)) (draft : Draft C) :
    List (Located Token) → Except ParseError (Message C)
  | [] =>
    match opened with
    | [] => .ok draft.toMessage
    | (span, _) :: _ => .error ⟨.unclosedParen, span⟩
  | ⟨.text t, _⟩ :: ts => readTokens opened (draft.addText t) ts
  | ⟨.reference p, _⟩ :: ts => readTokens opened (draft.addSlot (.pointer p)) ts
  | ⟨.opening, span⟩ :: ts =>
    if nestingLimit ≤ opened.length then .error ⟨.nestingTooDeep nestingLimit, span⟩
    else readTokens ((span, draft) :: opened) .empty ts
  | ⟨.closing, span⟩ :: ts =>
    match opened with
    | [] => .error ⟨.unmatchedParen, span⟩
    | (_, outer) :: opened =>
      readTokens opened (outer.addSlot (.message draft.toMessage)) ts

/-- The message that a list of tokens is. -/
def ofTokens (ts : List (Located Token)) : Except ParseError (Message C) :=
  readTokens [] .empty ts

/-- The message that a text is, or the errors in it. -/
def tryParse (text : String) : Except ErrorList (Message C) :=
  let scanned := MessageTokens.scan text.toList
  scanned.errors.conclude (ofTokens scanned.tokens)

/-- What stands for text that is no message. -/
def malformed : Message C := .text "<<malformed message>>"

/-- The message that a text is; text that is none is replaced. -/
def parse (text : String) : Message C :=
  match tryParse text with
  | .ok m => m
  | .error _ => malformed

end Message

end Inquiry
