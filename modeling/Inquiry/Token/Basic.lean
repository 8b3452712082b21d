import Inquiry.Message.Basic
import Inquiry.ParseError

/-!
# Tokens

The pieces that a text falls into before it is read. A message is a run of
literal text, references and parentheses. A command starts with a *head*, a
word and modifiers, and goes on as a message.
-/

namespace Inquiry

/-- A piece of a message. -/
inductive Token
  /-- Literal text, in which no escape is left. -/
  | text (content : String)
  | reference (p : Pointer)
  | opening
  | closing
  deriving DecidableEq

/-- The token as text. -/
def Token.display : Token → String
  | .text content => content
  | .reference p => p.display
  | .opening => "("
  | .closing => ")"

/-- What may follow the word of a command directly. -/
inductive Modifier
  /-- Whom to address: an index into the scope. -/
  | recipient (index : Nat)
  /-- How much budget to hand on. -/
  | budget (units : Nat)
  deriving DecidableEq

namespace Modifier

/-- The character a modifier starts with. -/
def marker : Modifier → Char
  | .recipient _ => '@'
  | .budget _ => '$'

/-- The modifier as text, such as `@2`. -/
def display : Modifier → String
  | .recipient index => "@" ++ toString index
  | .budget units => "$" ++ toString units

end Modifier

/-- The tokens of a message. -/
structure MessageTokens where
  tokens : List (Located Token)
  /-- The offset at which scanning ended. -/
  stop : Nat
  errors : ErrorList

/-- The span of the first token, or the point where scanning ended. -/
def MessageTokens.start (m : MessageTokens) : Span :=
  match m.tokens with
  | [] => .point m.stop
  | t :: _ => t.span

/-- What the end of a text is called where a token could stand. -/
def MessageTokens.endDisplay : String := "end of input"

/-- The word of a command, in lower case, and the modifiers directly behind it. -/
structure CommandHead where
  word : Located String
  modifiers : List (Located Modifier)

/-- The tokens of a command; one that does not start with a word has no head. -/
structure CommandTokens where
  head : Option CommandHead
  body : MessageTokens

end Inquiry
