import Inquiry.Json.Basic

/-!
# Records

A record with named fields is stored as an object, or as the array of its
fields in order. In an object the order does not matter, keys that are no field
are ignored with all that stands in them, and a field may come only once. In an
array the last fields may be left out, but nothing may follow them. Whether a
field may be missing is for the one who decodes it to say.
-/

namespace Inquiry.Json

/-- The values of the fields of a record. -/
abbrev Fields := String → Option Json

/-- Whether every key has a text, and no field comes twice. -/
def hasFieldsOnce (names : List String) (members : List (Option String × Json)) : Bool :=
  members.all (·.1.isSome) &&
    names.all fun name => members.countP (·.1 == some name) ≤ 1

/-- The fields of a value that is a record with the given fields. -/
def fields? (names : List String) : Json → Option Fields
  | .object members =>
    if hasFieldsOnce names members then some fun name => members.lookup (some name) else none
  | .array items =>
    if items.length ≤ names.length then some fun name => items[names.idxOf name]? else none
  | _ => none

/-- A field that may be missing; if it is there it has to be right. -/
def Fields.getD {α : Type} (f : Fields) (name : String) (decode : Json → Option α)
    (default : α) : Option α :=
  match f name with
  | none => some default
  | some v => decode v

/-- A field that has to be there. -/
def Fields.get? {α : Type} (f : Fields) (name : String) (decode : Json → Option α) :
    Option α :=
  f name >>= decode

end Inquiry.Json
