/-!
# Messages

A *message* is text with slots, and every slot holds a *referent*: a message
of its own, a *pointer* into a scope, or a *channel* to someone who can be
addressed. So a message alternates between *fragments* of text and arguments,
beginning and ending with a fragment; the type says so by its shape, a
fragment alone or a fragment, an argument and the message that goes on behind
it. Messages are values: every operation makes a new one.

What a channel leads to is left open (`C`): messages that are read from text
have no channels at all.

* `Message.induct`, `Message.slotInduct`: induction on a message, with the messages
  nested in it or along its slots alone;
* `Message.length_fragments`: there is one more fragment than there are slots;
* `Message.concat_assoc`, `Message.text_empty_concat`, `Message.concat_text_empty`:
  joining messages is a monoid.
-/

namespace Inquiry

/-- What a pointer expects to find. -/
inductive Pointer.Kind
  | message
  | channel
  | any
  deriving DecidableEq

namespace Pointer.Kind

/-- The character that marks a reference of this kind. -/
def sigil : Pointer.Kind → Char
  | .message => '#'
  | .channel => '@'
  | .any => '?'

/-- The kind that a character marks. -/
def ofSigil? : Char → Option Pointer.Kind
  | '#' => some .message
  | '@' => some .channel
  | '?' => some .any
  | _ => none

/-- The sigil as text. -/
def symbol (k : Pointer.Kind) : String := k.sigil.toString

/-- What the kind is called. -/
def describe : Pointer.Kind → String
  | .message => "message"
  | .channel => "channel"
  | .any => "referent"

end Pointer.Kind

/-- A place in the scope a message is instantiated against. -/
structure Pointer where
  kind : Pointer.Kind
  index : Nat
  deriving DecidableEq

namespace Pointer

/-- The sigil and an arrow, such as `#->`. -/
def symbol (p : Pointer) : String := p.kind.symbol ++ "->"

/-- The written form, such as `#->3`. -/
def display (p : Pointer) : String := p.symbol ++ toString p.index

end Pointer

mutual

/-- Text with slots, each holding a referent. -/
inductive Message (C : Type)
  /-- The last fragment. -/
  | text (fragment : String)
  /-- A fragment, the argument in the slot after it, and how the message goes on. -/
  | slot (fragment : String) (arg : Referent C) (rest : Message C)
  deriving DecidableEq

/-- What can stand in a slot. -/
inductive Referent (C : Type)
  | message (m : Message C)
  | pointer (p : Pointer)
  | channel (handle : C)
  deriving DecidableEq

end

/-- What pointers are resolved against. -/
abbrev Scope (C : Type) := List (Referent C)

variable {C : Type}

/-- Induction on a message, by the kind of its first argument. -/
@[elab_as_elim, induction_eliminator]
theorem Message.induct {motive : Message C → Prop}
    (text : ∀ t, motive (.text t))
    (nested : ∀ t m rest, motive m → motive rest → motive (.slot t (.message m) rest))
    (pointer : ∀ t p rest, motive rest → motive (.slot t (.pointer p) rest))
    (channel : ∀ t c rest, motive rest → motive (.slot t (.channel c) rest)) :
    ∀ m, motive m
  | .text t => text t
  | .slot t (.message m) rest =>
    nested t m rest (induct text nested pointer channel m)
      (induct text nested pointer channel rest)
  | .slot t (.pointer p) rest => pointer t p rest (induct text nested pointer channel rest)
  | .slot t (.channel c) rest => channel t c rest (induct text nested pointer channel rest)

/-- Induction along the slots of a message, whatever they hold. -/
@[elab_as_elim]
theorem Message.slotInduct {motive : Message C → Prop}
    (text : ∀ t, motive (.text t))
    (slot : ∀ t a rest, motive rest → motive (.slot t a rest)) :
    ∀ m, motive m
  | .text t => text t
  | .slot t a rest => slot t a rest (slotInduct text slot rest)

/-- The form a referent takes. -/
inductive Referent.Form
  | message
  | pointer
  | channel
  deriving DecidableEq

/-- What the form is called. -/
def Referent.Form.describe : Referent.Form → String
  | .message => "message"
  | .pointer => "pointer"
  | .channel => "channel"

namespace Referent

/-- The form of a referent. -/
def form : Referent C → Referent.Form
  | .message _ => .message
  | .pointer _ => .pointer
  | .channel _ => .channel

/-- What a referent is called. -/
def describe (r : Referent C) : String := r.form.describe

/-- The mark of a referent in a numbered slot: its sigil, with an arrow if it is a
    pointer still to be resolved. -/
def symbol : Referent C → String
  | .message _ => Pointer.Kind.message.symbol
  | .channel _ => Pointer.Kind.channel.symbol
  | .pointer p => p.symbol

/-- The message a referent is, if it is one. -/
def message? : Referent C → Option (Message C)
  | .message m => some m
  | _ => none

/-- What a channel leads to, if the referent is one. -/
def handle? : Referent C → Option C
  | .channel handle => some handle
  | _ => none

end Referent

namespace Message

/-- The fragments of text, in order. -/
def fragments : Message C → List String
  | .text t => [t]
  | .slot t _ rest => t :: rest.fragments

/-- The arguments, in order. -/
def args : Message C → List (Referent C)
  | .text _ => []
  | .slot _ a rest => a :: rest.args

/-- The number of slots. -/
def size (m : Message C) : Nat := m.args.length

/-- A message that is nothing but one slot. -/
def reference (r : Referent C) : Message C := .slot "" r (.text "")

/-- The argument of a message that is nothing but one slot. -/
def reference? : Message C → Option (Referent C)
  | .slot before arg (.text after) => if before = "" ∧ after = "" then some arg else none
  | _ => none

/-- Joins two messages; the last fragment of the one and the first of the other
    become one fragment. -/
def concat : Message C → Message C → Message C
  | .text t, .text u => .text (t ++ u)
  | .text t, .slot u a rest => .slot (t ++ u) a rest
  | .slot t a rest, m => .slot t a (rest.concat m)

/-- A message that says who sent it: a channel to the sender, a colon and the message. -/
def withSender (sender : C) (m : Message C) : Message C :=
  concat (.slot "" (.channel sender) (.text ": ")) m

theorem reference?_eq_some_iff {m : Message C} {r : Referent C} :
    m.reference? = some r ↔ m = reference r := by
  constructor
  · intro h
    unfold reference? at h
    split at h
    · split at h
      · next ht =>
        cases h
        rw [reference, ht.1, ht.2]
      · cases h
    · cases h
  · rintro rfl
    rfl

@[simp]
theorem size_text (t : String) : (text t : Message C).size = 0 := rfl

@[simp]
theorem size_slot (t : String) (a : Referent C) (rest : Message C) :
    (slot t a rest).size = rest.size + 1 := rfl

theorem length_fragments (m : Message C) : m.fragments.length = m.size + 1 := by
  induction m using slotInduct with
  | text t => rfl
  | slot t a rest ih => rw [fragments, List.length_cons, ih, size_slot]

@[simp]
theorem concat_slot (t : String) (a : Referent C) (rest m : Message C) :
    (slot t a rest).concat m = slot t a (rest.concat m) := by
  rw [concat]

@[simp]
theorem text_empty_concat (m : Message C) : concat (text "") m = m := by
  cases m <;> simp [concat]

@[simp]
theorem concat_text_empty (m : Message C) : m.concat (text "") = m := by
  induction m using slotInduct with
  | text t => simp [concat]
  | slot t a rest ih => rw [concat_slot, ih]

theorem concat_assoc (a b c : Message C) : (a.concat b).concat c = a.concat (b.concat c) := by
  induction a using slotInduct with
  | text t => cases b <;> cases c <;> simp [concat, String.append_assoc]
  | slot t a rest ih => simp only [concat_slot, ih]

@[simp]
theorem args_concat (a b : Message C) : (a.concat b).args = a.args ++ b.args := by
  induction a using slotInduct with
  | text t => cases b <;> rfl
  | slot t a rest ih => rw [concat_slot, args, args, ih, List.cons_append]

@[simp]
theorem size_concat (a b : Message C) : (a.concat b).size = a.size + b.size := by
  rw [size, args_concat, List.length_append, size, size]

end Message

mutual

/-- Whether no pointer occurs anywhere in the message. -/
def Message.isClosed : Message C → Bool
  | .text _ => true
  | .slot _ a rest => a.isClosed && rest.isClosed

/-- Whether no pointer occurs anywhere in the referent. -/
def Referent.isClosed : Referent C → Bool
  | .message m => m.isClosed
  | .pointer _ => false
  | .channel _ => true

end

mutual

/-- How deep messages nest inside the message: none if no slot holds a message. -/
def Message.nesting : Message C → Nat
  | .text _ => 0
  | .slot _ a rest => max a.nesting rest.nesting

/-- How deep messages nest inside the referent, one that is a message itself counted. -/
def Referent.nesting : Referent C → Nat
  | .message m => m.nesting + 1
  | .pointer _ => 0
  | .channel _ => 0

end

end Inquiry
