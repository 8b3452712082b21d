import Inquiry.Message.Scope

/-!
# Messages from their parts

A message can be put together from fragments and arguments, or from a
*template*: text in which `[]` marks each slot. Both need one more fragment
than arguments.

* `Message.ofParts?_fragments_args`: the parts of a message make that message;
* `Message.pieces_ne_nil`: a template has at least one fragment.
-/

namespace Inquiry.Message

variable {C : Type}

/-- The message with the given fragments and arguments, if their numbers fit. -/
def ofParts? : List String → List (Referent C) → Option (Message C)
  | [t], [] => some (.text t)
  | t :: ts, a :: as => (ofParts? ts as).map (.slot t a)
  | _, _ => none

/-- The message with the given fragments and arguments. -/
def ofParts (fragments : List String) (args : List (Referent C)) :
    Except ReferentError (Message C) :=
  match ofParts? fragments args with
  | some m => .ok m
  | none => .error (.slotMismatch fragments.length args.length)

/-- The text between the slot marks `[]`, found from left to right. -/
def pieces : List Char → List (List Char)
  | '[' :: ']' :: cs => [] :: pieces cs
  | c :: cs => (pieces cs).modifyHead (c :: ·)
  | [] => [[]]

/-- The message a template stands for, with the given arguments in its slots. -/
def ofTemplate (template : String) (args : List (Referent C)) :
    Except ReferentError (Message C) :=
  ofParts ((pieces template.toList).map String.ofList) args

theorem pieces_ne_nil (cs : List Char) : pieces cs ≠ [] := by
  fun_induction pieces cs with
  | case1 => simp
  | case2 c cs _ ih =>
    cases h : pieces cs with
    | nil => exact absurd h ih
    | cons => simp
  | case3 => simp

theorem ofParts?_fragments_args (m : Message C) : ofParts? m.fragments m.args = some m := by
  induction m using slotInduct with
  | text t => rfl
  | slot t a rest ih => rw [fragments, args, ofParts?, ih, Option.map_some]

end Inquiry.Message
