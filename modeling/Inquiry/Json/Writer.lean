import Inquiry.Json.Basic

/-!
# Writing JSON

A value is written without any white space. In strings only quotes, backslashes
and control characters are escaped, the common control characters with a letter
of their own.
-/

namespace Inquiry.Json

/-- A character as it is written in a string. -/
def writeChar (c : Char) : List Char :=
  match c with
  | '"' => ['\\', '"']
  | '\\' => ['\\', '\\']
  | '\n' => ['\\', 'n']
  | '\t' => ['\\', 't']
  | '\r' => ['\\', 'r']
  | '\x08' => ['\\', 'b']
  | '\x0c' => ['\\', 'f']
  | c =>
    if c.toNat < 0x20 then
      ['\\', 'u', '0', '0', Nat.digitChar (c.toNat / 16), Nat.digitChar (c.toNat % 16)]
    else [c]

/-- A string in quotes; one without text is written as half of a surrogate pair. -/
def writeString : Option String → List Char
  | some t => '"' :: t.toList.flatMap writeChar ++ ['"']
  | none => "\"\\ud800\"".toList

mutual

/-- The text of a value. -/
def writeChars : Json → List Char
  | .null => "null".toList
  | .bool true => "true".toList
  | .bool false => "false".toList
  | .number literal => literal
  | .string t => writeString t
  | .array [] => "[]".toList
  | .array (v :: vs) => '[' :: writeChars v ++ writeItems vs ++ [']']
  | .object [] => "\x7b\x7d".toList
  | .object ((k, v) :: ms) =>
    '\x7b' :: writeString k ++ ':' :: writeChars v ++ writeMembers ms ++ ['\x7d']

/-- The further values of an array, each behind a comma. -/
def writeItems : List Json → List Char
  | [] => []
  | v :: vs => ',' :: writeChars v ++ writeItems vs

/-- The further members of an object, each behind a comma. -/
def writeMembers : List (Option String × Json) → List Char
  | [] => []
  | (k, v) :: ms => ',' :: writeString k ++ ':' :: writeChars v ++ writeMembers ms

end

/-- The text of a value. -/
def write (v : Json) : String :=
  String.ofList v.writeChars

end Inquiry.Json
