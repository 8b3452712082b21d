import Inquiry.Json.Reader
import Inquiry.Json.Record
import Inquiry.ParseError

/-!
# Parse errors as documents

Parse errors are stored as JSON. A cause is an object whose member `kind` says
which cause it is, with the details of the cause beside it in any order, or the
array of its kind and its details. Since the kind may come last, the rest of the
object is set aside while it is looked for, and has to be plain even where it
means nothing.
-/

namespace Inquiry

/-- The document of a span. -/
def Span.toJson (s : Span) : Json :=
  .record [("start", .nat s.start), ("end", .nat s.stop)]

/-- The span that a document holds. -/
def Span.ofJson? (v : Json) : Option Span := do
  let f ← v.fields? ["start", "end"]
  return ⟨← f.get? "start" Json.word?, ← f.get? "end" Json.word?⟩

namespace ParseError.Cause

/-- The kind of a cause, and its details by name. -/
def parts : Cause → String × List (String × Json)
  | .unexpectedCharacter found => ("unexpected_character", [("found", .text found.toString)])
  | .unclosedParen => ("unclosed_paren", [])
  | .unmatchedParen => ("unmatched_paren", [])
  | .nestingTooDeep limit => ("nesting_too_deep", [("limit", .nat limit)])
  | .numberTooLarge => ("number_too_large", [])
  | .unknownVerb verb => ("unknown_verb", [("verb", .text verb)])
  | .missingVerb => ("missing_verb", [])
  | .missingArgument verb => ("missing_argument", [("verb", .text verb)])
  | .unexpectedArgument verb => ("unexpected_argument", [("verb", .text verb)])
  | .modifierNotAllowed verb => ("modifier_not_allowed", [("verb", .text verb)])
  | .duplicateModifier modifier =>
    ("duplicate_modifier", [("modifier", .text modifier.toString)])

/-- The document of a cause. -/
def toJson (c : Cause) : Json :=
  .record (("kind", .text c.parts.1) :: c.parts.2)

/-- What a kind has besides its name: nothing, or one detail and how to read it. -/
inductive Shape
  | plain (c : Cause)
  | detailed (name : String) (decode : Json → Option Cause)

/-- The shape of each kind. -/
def shape? : String → Option Shape
  | "unexpected_character" => some (.detailed "found" fun v => v.char?.map .unexpectedCharacter)
  | "unclosed_paren" => some (.plain .unclosedParen)
  | "unmatched_paren" => some (.plain .unmatchedParen)
  | "nesting_too_deep" => some (.detailed "limit" fun v => v.word?.map .nestingTooDeep)
  | "number_too_large" => some (.plain .numberTooLarge)
  | "unknown_verb" => some (.detailed "verb" fun v => v.text?.map .unknownVerb)
  | "missing_verb" => some (.plain .missingVerb)
  | "missing_argument" => some (.detailed "verb" fun v => v.text?.map .missingArgument)
  | "unexpected_argument" => some (.detailed "verb" fun v => v.text?.map .unexpectedArgument)
  | "modifier_not_allowed" => some (.detailed "verb" fun v => v.text?.map .modifierNotAllowed)
  | "duplicate_modifier" =>
    some (.detailed "modifier" fun v => v.char?.map .duplicateModifier)
  | _ => none

/-- How deep the values beside a kind may nest: a document may nest 127 deep, and a
    cause in a list of errors is at depth four. -/
def room : Nat := 123

/-- Whether a member of a cause says its kind. -/
def isKind (m : Option String × Json) : Bool := m.1 == some "kind"

/-- The cause of the given shape with the given details. -/
def Shape.read? : Shape → Json → Option Cause
  | .plain c, .object _ => some c
  | .plain c, .array [] => some c
  | .plain _, _ => none
  | .detailed name decode, details => do
    let f ← details.fields? [name]
    f.get? name decode

/-- The cause that a document holds. -/
def ofJson? : Json → Option Cause
  | .object members => do
    let [(_, kind)] := members.filter isKind | none
    let details := members.filter (!isKind ·)
    if !Json.isPlainMembers room details then none
    else (← shape? (← kind.text?)).read? (.object details)
  | .array (kind :: details) =>
    if !Json.isPlainItems room details then none
    else do (← shape? (← kind.text?)).read? (.array details)
  | _ => none

end ParseError.Cause

/-- The document of an error. -/
def ParseError.toJson (e : ParseError) : Json :=
  .record [("kind", e.cause.toJson), ("span", e.span.toJson)]

/-- The error that a document holds. -/
def ParseError.ofJson? (v : Json) : Option ParseError := do
  let f ← v.fields? ["kind", "span"]
  return ⟨← f.get? "kind" Cause.ofJson?, ← f.get? "span" Span.ofJson?⟩

/-- The document of a list of errors. -/
def ErrorList.toJson (l : ErrorList) : Json :=
  .record [("errors", .list ParseError.toJson l.stored), ("total_errors", .nat l.total)]

/-- The list of errors that a document holds. -/
def ErrorList.ofJson? (v : Json) : Option ErrorList := do
  let f ← v.fields? ["errors", "total_errors"]
  return ⟨← f.get? "errors" (Json.list? ParseError.ofJson?), ← f.get? "total_errors" Json.word?⟩

/-- The list of errors that a text stores. -/
def ErrorList.load? (text : String) : Option ErrorList := do
  ErrorList.ofJson? (← Json.read text)

end Inquiry
