import Inquiry.Message.Basic

/-!
# Showing messages

A message is shown in two ways. *Rendered*, every slot is only named, by a mark
and a number, so that the reader can point at what stands in it; numbering
starts anywhere, which lets one conversation number its slots throughout.
*Displayed*, every slot shows what it holds, in parentheses.

* `Message.renderFrom_concat`: joined messages number their slots in one row;
* `Message.display_concat`: joined messages are displayed one after the other.
-/

namespace Inquiry

variable {C : Type}

/-- The fragments with one name in each slot. -/
def Message.render : Message C → List String → String
  | .text t, _ => t
  | .slot t _ rest, name :: names => t ++ name ++ rest.render names
  | .slot _ _ rest, [] => rest.render []

/-- The fragments with a numbered mark in each slot, counting from `start`. -/
def Message.renderFrom (start : Nat) : Message C → String
  | .text t => t
  | .slot t a rest => t ++ (a.symbol ++ toString start) ++ rest.renderFrom (start + 1)

mutual

/-- The fragments with what each slot holds, in parentheses. -/
def Message.display : Message C → String
  | .text t => t
  | .slot t a rest => t ++ ("(" ++ a.display ++ ")") ++ rest.display

/-- What a referent is shown as: a channel as its bare sigil. -/
def Referent.display : Referent C → String
  | .message m => m.display
  | .pointer p => p.display
  | .channel _ => Pointer.Kind.channel.symbol

end

theorem Message.renderFrom_concat (start : Nat) (a b : Message C) :
    (a.concat b).renderFrom start = a.renderFrom start ++ b.renderFrom (start + a.size) := by
  induction a using slotInduct generalizing start with
  | text t => cases b <;> simp [concat, renderFrom, String.append_assoc]
  | slot t a rest ih =>
    simp [renderFrom, ih, String.append_assoc, Nat.add_assoc, Nat.add_comm 1]

theorem Message.display_concat (a b : Message C) :
    (a.concat b).display = a.display ++ b.display := by
  induction a using slotInduct with
  | text t => cases b <;> simp [concat, Message.display, String.append_assoc]
  | slot t a rest ih => simp [Message.display, ih, String.append_assoc]

end Inquiry
