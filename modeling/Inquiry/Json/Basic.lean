import Inquiry.Json.Double

/-!
# JSON values

A document as it was written. Members keep their order and may repeat; a number
keeps its literal, since whole numbers of 64 bits have to come back exactly; and
a string is the text it denotes, or none if its escapes leave half of a
surrogate pair.

Two questions decide what can be done with a value: which whole number it is
(`Json.word?`), and whether it is plain (`Json.isPlain`), that is, can be set
aside and looked at later.
-/

namespace Inquiry

/-- A JSON value. -/
inductive Json
  | null
  | bool (b : Bool)
  | number (literal : List Char)
  | string (text : Option String)
  | array (items : List Json)
  | object (members : List (Option String × Json))

namespace Json

/-- The string with the given text. -/
def text (t : String) : Json := .string (some t)

/-- The number `n`. -/
def nat (n : Nat) : Json := .number (Decimal.digits n)

/-- The array of the values made of a list. -/
def list {α : Type} (encode : α → Json) (l : List α) : Json := .array (l.map encode)

/-- The object with the given members. -/
def record (members : List (String × Json)) : Json :=
  .object (members.map fun m => (some m.1, m.2))

/-- The 64-bit number that a literal of digits alone stands for. -/
def word? : Json → Option Nat
  | .number literal => if literal.all Char.isDigit then Decimal.word? literal else none
  | _ => none

/-- The text of a string. -/
def text? : Json → Option String
  | .string t => t
  | _ => none

/-- The only character of a string. -/
def char? : Json → Option Char
  | .string (some t) =>
    match t.toList with
    | [c] => some c
    | _ => none
  | _ => none

/-- The values of an array, each decoded. -/
def list? {α : Type} (decode : Json → Option α) : Json → Option (List α)
  | .array items => items.mapM decode
  | _ => none

mutual

/-- Whether a value holds no broken string and no number beyond the range of a double,
    and its arrays and objects nest at most `room` deep. -/
def isPlain (room : Nat) : Json → Bool
  | .null => true
  | .bool _ => true
  | .number literal => Double.isFinite literal
  | .string t => t.isSome
  | .array items => 0 < room && isPlainItems (room - 1) items
  | .object members => 0 < room && isPlainMembers (room - 1) members

/-- Whether all values of an array are plain. -/
def isPlainItems (room : Nat) : List Json → Bool
  | [] => true
  | v :: vs => isPlain room v && isPlainItems room vs

/-- Whether all keys and values of an object are plain. -/
def isPlainMembers (room : Nat) : List (Option String × Json) → Bool
  | [] => true
  | (k, v) :: ms => k.isSome && isPlain room v && isPlainMembers room ms

end

end Json

end Inquiry
