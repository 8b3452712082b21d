import Inquiry.Message.Display
import Inquiry.Proofs.SourceText

/-!
# Display text

What is displayed of a message is no source: nothing is escaped, and every argument stands
in parentheses, whatever it is. Read again, parentheses make nested messages, so a pointer
comes back in a message of its own, and a channel as a message that is nothing but its
sigil (`Message.boxed`). Apart from that the structure is the same, as long as there is
nothing in the fragments that means something in source (`Message.texts`): fragments and
slots are where they were, at any depth.

* `Message.lexes_display`: the display of a message falls into the tokens of the message
  with its arguments boxed;
* `Message.tryParse_display`: it reads back as that message.
-/

namespace Inquiry

variable {C : Type}

mutual

/-- The fragments of a message and of those nested in it. -/
def Message.texts : Message C → List String
  | .text t => [t]
  | .slot t a rest => t :: (a.texts ++ rest.texts)

/-- The fragments of a referent that is a message. -/
def Referent.texts : Referent C → List String
  | .message m => m.texts
  | .pointer _ => []
  | .channel _ => []

end

mutual

/-- The message with a message in each slot: pointers and channels are in messages of their
    own. -/
def Message.boxed : Message C → Message C
  | .text t => .text t
  | .slot t a rest => .slot t (.message a.boxed) rest.boxed

/-- The referent as a message: a pointer alone, or the sigil of a channel. -/
def Referent.boxed : Referent C → Message C
  | .message m => m.boxed
  | .pointer p => .reference (.pointer p)
  | .channel _ => .text Pointer.Kind.channel.symbol

end

/-- A pointer is displayed as it is written. -/
theorem Pointer.toList_display (p : Pointer) : p.display.toList = p.sourceChars := by
  have hindex : (toString p.index).toList = Decimal.digits p.index := by
    rw [Nat.toString_eq_repr, Nat.repr, String.toList_ofList, Decimal.digits]
  rw [display, symbol, String.toList_append, String.toList_append, hindex, Kind.toList_symbol]
  rfl

namespace Message

theorem fragments_boxed (m : Message C) : m.boxed.fragments = m.fragments := by
  induction m using slotInduct with
  | text t => rfl
  | slot t a rest ih => rw [boxed, fragments, fragments, ih]

theorem size_boxed (m : Message C) : m.boxed.size = m.size := by
  induction m using slotInduct with
  | text t => rfl
  | slot t a rest ih => rw [boxed, size_slot, size_slot, ih]

theorem leaves_boxed (m : Message C) : m.boxed.leaves = m.leaves.filter Referent.isPointer := by
  induction m with
  | text t => rfl
  | nested t m rest ihm ihr =>
    rw [boxed, leaves, leaves, Referent.boxed, Referent.leaves, Referent.leaves, ihm, ihr,
      List.filter_append]
  | pointer t p rest ih | channel t c rest ih =>
    rw [boxed, leaves, leaves, List.filter_append, ih]
    rfl

theorem writable_boxed {m : Message C} (hi : m.Fits) : m.boxed.Writable where
  channels := channelFree_of_leaves_eq (leaves_boxed m)
  indices := (fits_iff_of_leaves_eq (leaves_boxed m)).2 hi

/-- An argument in parentheses falls into tokens of its own. -/
theorem lexes_display_slot {t : String} {a : Referent C} {rest : Message C} {cs : List Char}
    {ts : List Token} (ht : ∀ c ∈ t.toList, isSpecial c = false)
    (ha : ∀ {cs ts}, Lexes cs ts →
      Lexes (a.display.toList ++ ')' :: cs) (a.boxed.tokens ++ .closing :: ts))
    (hrest : Lexes (rest.display.toList ++ cs) (rest.boxed.tokens ++ ts)) :
    Lexes ((slot t a rest).display.toList ++ cs) ((slot t a rest).boxed.tokens ++ ts) := by
  have h := Lexes.fragment t (literal_of_plain ht) (.opening _) (.opening (ha hrest))
  simpa [Message.display, boxed, Message.tokens, Referent.tokens] using h

/-- The display of a message falls into the tokens of the message with its arguments boxed. -/
theorem lexes_display {m : Message C} (hm : m.boxed.Writable)
    (ht : ∀ t ∈ m.texts, ∀ c ∈ t.toList, isSpecial c = false) {cs : List Char}
    {ts : List Token} (hs : Stops cs) (h : Lexes cs ts) :
    Lexes (m.display.toList ++ cs) (m.boxed.tokens ++ ts) := by
  induction m generalizing cs ts with
  | text t => exact .fragment t (literal_of_plain (ht t List.mem_cons_self)) hs h
  | nested t m rest ihm ihr =>
    obtain ⟨hm, hr⟩ := hm.of_nested
    obtain ⟨ht, htexts⟩ := List.forall_mem_cons.1 ht
    obtain ⟨htm, htr⟩ := List.forall_mem_append.1 htexts
    exact lexes_display_slot ht (fun h => ihm hm htm (.closing _) (.closing h)) (ihr hr htr hs h)
  | pointer t p rest ih =>
    obtain ⟨hp, hr⟩ := hm.of_nested
    obtain ⟨ht, htr⟩ := List.forall_mem_cons.1 ht
    refine lexes_display_slot ht (fun {cs ts} h => ?_) (ih hr htr hs h)
    rw [Referent.display, p.toList_display]
    exact .pointer hp.of_pointer.1 (.cons rfl) (.closing h)
  | channel t c rest ih =>
    obtain ⟨-, hr⟩ := hm.of_nested
    obtain ⟨ht, htr⟩ := List.forall_mem_cons.1 ht
    refine lexes_display_slot ht (fun {cs ts} h => ?_) (ih hr htr hs h)
    have hsigil : Literal (')' :: cs) Pointer.Kind.channel.symbol.toList
        Pointer.Kind.channel.symbol.toList := by
      rw [Pointer.Kind.toList_symbol]
      exact .sigil rfl .nil
    exact .fragment Pointer.Kind.channel.symbol hsigil (.closing _) (.closing h)

/-- If no character in the fragments of a message, at any depth, means something in source, and
    the message does not nest too deep with its arguments boxed, then the display reads back as
    the message with its arguments boxed, which has the same fragments and as many arguments. -/
theorem tryParse_display {m : Message C} (hi : m.Fits)
    (ht : ∀ t ∈ m.texts, ∀ c ∈ t.toList, isSpecial c = false)
    (hn : m.boxed.nesting ≤ nestingLimit) :
    tryParse m.display = .ok m.boxed ∧ m.boxed.fragments = m.fragments ∧
      m.boxed.size = m.size := by
  have hm := writable_boxed hi
  have h := lexes_display hm ht .nil .nil
  rw [List.append_nil, List.append_nil] at h
  exact ⟨tryParse_of_lexes hm hn h, fragments_boxed m, size_boxed m⟩

/-- Arguments of all kinds, with text behind them that goes on a pointer or a sigil in source. -/
theorem tryParse_display_digits :
    let m : Message Nat := .slot "is " (.message (.slot "" (.pointer ⟨.any, 3⟩) (.text "7")))
      (.slot "->" (.channel 0) (.text "5"))
    m.Fits ∧ (∀ t ∈ m.texts, ∀ c ∈ t.toList, isSpecial c = false) ∧
      m.boxed.nesting ≤ nestingLimit ∧
      m.display = "is ((?->3)7)->(@)5" ∧
      (tryParse m.display : Except ErrorList (Message Nat)) =
        .ok (.slot "is " (.message (.slot "" (.message (.reference (.pointer ⟨.any, 3⟩)))
          (.text "7"))) (.slot "->" (.message (.text "@")) (.text "5"))) := by
  intro m
  have hi : m.Fits := by simp [m, Fits, leaves, Referent.leaves, Decimal.wordLimit]
  have ht : ∀ t ∈ m.texts, ∀ c ∈ t.toList, isSpecial c = false := by
    simp [m, texts, Referent.texts, isSpecial]
  have hn : m.boxed.nesting ≤ nestingLimit := by decide
  exact ⟨hi, ht, hn, by decide +kernel, (tryParse_display hi ht hn).1⟩

end Message

end Inquiry
