import Inquiry.Message.Basic
import Inquiry.Text.Decimal

/-!
# Message source

The *source* of a message is text that reads back as it. A nested message
stands in parentheses, a pointer as its sigil, an arrow and its index. In the
fragments a backslash comes before every character that would mean something
else, and before a digit that would go on the index of the pointer before it.
A channel cannot be written and shows as a bare sigil.
-/

namespace Inquiry

variable {C : Type}

/-- Whether a character means something in source text. -/
def isSpecial (c : Char) : Bool :=
  c == '(' || c == ')' || c == '#' || c == '@' || c == '?' || c == '\\'

/-- Whether a backslash makes the character literal: it is special or a digit. -/
def isEscapable (c : Char) : Bool :=
  isSpecial c || c.isDigit

/-- Text with a backslash before each special character. -/
def escape : List Char → List Char
  | [] => []
  | c :: cs => if isSpecial c then '\\' :: c :: escape cs else c :: escape cs

/-- Text without the backslashes that make the character behind them literal. -/
def unescape : List Char → List Char
  | '\\' :: c :: cs => if isEscapable c then c :: unescape cs else '\\' :: unescape (c :: cs)
  | c :: cs => c :: unescape cs
  | [] => []

/-- The source of a fragment; behind a pointer a leading digit is escaped too. -/
def fragmentSource (afterPointer : Bool) (cs : List Char) : List Char :=
  match afterPointer, cs with
  | true, c :: _ => if c.isDigit then '\\' :: escape cs else escape cs
  | _, _ => escape cs

/-- The source of a pointer. -/
def Pointer.sourceChars (p : Pointer) : List Char :=
  p.kind.sigil :: '-' :: '>' :: Decimal.digits p.index

/-- Whether the referent is a pointer, whose index text behind it could go on. -/
def Referent.isPointer : Referent C → Bool
  | .pointer _ => true
  | _ => false

mutual

/-- The source of a message that may stand right behind a pointer. -/
def Message.sourceChars (afterPointer : Bool) : Message C → List Char
  | .text t => fragmentSource afterPointer t.toList
  | .slot t a rest =>
    fragmentSource afterPointer t.toList ++ a.sourceChars ++ rest.sourceChars a.isPointer

/-- The source of a referent. -/
def Referent.sourceChars : Referent C → List Char
  | .message m => '(' :: m.sourceChars false ++ [')']
  | .pointer p => p.sourceChars
  | .channel _ => [Pointer.Kind.channel.sigil]

end

/-- The source of a message. -/
def Message.source (m : Message C) : String :=
  String.ofList (m.sourceChars false)

end Inquiry
