/-!
# Spans

A *span* is a range of bytes in the UTF-8 form of a text, from its first byte
up to the one after its last. Whatever the reader of a text finds in it is
*located* by the span it came from.
-/

namespace Inquiry

/-- A range of byte offsets: `start` is in it, `stop` is not. -/
structure Span where
  start : Nat
  stop : Nat
  deriving DecidableEq, Inhabited

namespace Span

/-- The empty span at an offset. -/
def point (offset : Nat) : Span := ⟨offset, offset⟩

/-- The smallest span that covers both. -/
def merge (a b : Span) : Span :=
  ⟨min a.start b.start, max a.stop b.stop⟩

/-- The number of bytes covered; a span that stops before it starts covers none. -/
def length (s : Span) : Nat := s.stop - s.start

/-- Whether no byte is covered. -/
def isEmpty (s : Span) : Bool := s.length == 0

/-- The written form, such as `3..7`. -/
def display (s : Span) : String :=
  toString s.start ++ ".." ++ toString s.stop

end Span

/-- The number of bytes of a text in UTF-8. -/
def byteLength : List Char → Nat
  | [] => 0
  | c :: cs => c.utf8Size + byteLength cs

@[simp]
theorem byteLength_append (as bs : List Char) :
    byteLength (as ++ bs) = byteLength as + byteLength bs := by
  induction as with
  | nil => simp [byteLength]
  | cons c as ih => simp [byteLength, ih, Nat.add_assoc]

/-- A thing found in a text, with the span it was found at. -/
structure Located (α : Type) where
  item : α
  span : Span
  deriving DecidableEq

end Inquiry
