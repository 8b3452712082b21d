import Inquiry.Json.Token

/-!
# Reading JSON

A text is read in one pass over its tokens, with the arrays and objects that
are still open on a stack. Every text that follows the grammar is read, at any
depth and with any numbers and keys; what a value has to look like further is
for the one who decodes it to say.
-/

namespace Inquiry.Json

/-- An array or object that is still being read, the last value first. -/
inductive Opened
  | array (items : List Json)
  /-- An object, with the key whose value comes next. -/
  | object (members : List (Option String × Json)) (key : Option String)

mutual

/-- Reads on where a value has to come. -/
def readValue (opened : List Opened) : List Token → Option Json
  | .null :: ts => readOn opened .null ts
  | .bool b :: ts => readOn opened (.bool b) ts
  | .number literal :: ts => readOn opened (.number literal) ts
  | .string t :: ts => readOn opened (.string t) ts
  | .openArray :: .closeArray :: ts => readOn opened (.array []) ts
  | .openArray :: ts => readValue (.array [] :: opened) ts
  | .openObject :: .closeObject :: ts => readOn opened (.object []) ts
  | .openObject :: .string key :: .colon :: ts => readValue (.object [] key :: opened) ts
  | _ => none

/-- Reads on behind a value. -/
def readOn (opened : List Opened) (v : Json) : List Token → Option Json
  | [] =>
    match opened with
    | [] => some v
    | _ :: _ => none
  | .comma :: .string next :: .colon :: ts =>
    match opened with
    | .object members key :: opened =>
      readValue (.object ((key, v) :: members) next :: opened) ts
    | _ => none
  | .comma :: ts =>
    match opened with
    | .array items :: opened => readValue (.array (v :: items) :: opened) ts
    | _ => none
  | .closeArray :: ts =>
    match opened with
    | .array items :: opened => readOn opened (.array (v :: items).reverse) ts
    | _ => none
  | .closeObject :: ts =>
    match opened with
    | .object members key :: opened =>
      readOn opened (.object ((key, v) :: members).reverse) ts
    | _ => none
  | _ :: _ => none

end

/-- The value that a text is. -/
def read (text : String) : Option Json := do
  let ts ← Token.scan text.toList
  readValue [] ts

end Inquiry.Json
