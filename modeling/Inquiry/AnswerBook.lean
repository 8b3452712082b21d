import Inquiry.Json.Reader
import Inquiry.Json.Record
import Inquiry.Json.Writer
import Inquiry.Respondent
import Inquiry.Transcript.Document
import Inquiry.Transcript.Fingerprint

/-!
# Answer books

A book of responses to transcripts, kept by fingerprint and in the order of the
fingerprints. It is a policy that has nothing to say to a transcript for which
no response is recorded.

* `AnswerBook.get?_insert`, `AnswerBook.decide_record`: a response recorded is the one
  found, and no other is lost.
-/

namespace Inquiry

/-- Responses by fingerprint, in the order of the fingerprints. -/
structure AnswerBook where
  answers : List (String × Response)
  deriving DecidableEq

namespace AnswerBook

/-- A book without responses. -/
def empty : AnswerBook := ⟨[]⟩

/-- The number of responses. -/
def size (b : AnswerBook) : Nat := b.answers.length

/-- Whether there are no responses. -/
def isEmpty (b : AnswerBook) : Bool := b.answers.isEmpty

/-- The response with a fingerprint. -/
def get? (b : AnswerBook) (key : String) : Option Response := b.answers.lookup key

/-- The answers with one more in its place; it takes the place of one with the same key. -/
def insertSorted (key : String) (r : Response) :
    List (String × Response) → List (String × Response)
  | [] => [(key, r)]
  | (k, v) :: rest =>
    if key < k then (key, r) :: (k, v) :: rest
    else if key = k then (key, r) :: rest
    else (k, v) :: insertSorted key r rest

/-- The book with one more response. -/
def insert (b : AnswerBook) (key : String) (r : Response) : AnswerBook :=
  ⟨insertSorted key r b.answers⟩

/-- The book with a response to what waits in a transcript. -/
def record (b : AnswerBook) (t : Transcript) (r : Response) : AnswerBook :=
  b.insert t.fingerprint r

/-- The response recorded for a transcript. -/
def decide (b : AnswerBook) : Policy := fun t => b.get? t.fingerprint

theorem lookup_insertSorted (key k : String) (r : Response) (answers : List (String × Response)) :
    (insertSorted key r answers).lookup k = if k = key then some r else answers.lookup k := by
  have lookup_cons (a : String × Response) (rest : List (String × Response)) :
      (a :: rest).lookup k = if k = a.1 then some a.2 else rest.lookup k := by
    rw [List.lookup_cons]
    by_cases h : k = a.1
    · simp [h]
    · rw [beq_eq_false_iff_ne.2 h, if_neg h]
  induction answers with
  | nil => exact lookup_cons _ _
  | cons a answers ih =>
    unfold insertSorted
    split
    · exact lookup_cons _ _
    · split
      · subst_vars
        rw [lookup_cons, lookup_cons]
        split <;> rfl
      · rw [lookup_cons, ih, lookup_cons]
        split <;> split <;> simp_all

theorem get?_insert (b : AnswerBook) (key k : String) (r : Response) :
    (b.insert key r).get? k = if k = key then some r else b.get? k :=
  lookup_insertSorted key k r b.answers

theorem decide_record (b : AnswerBook) (t u : Transcript) (r : Response) :
    (b.record t r).decide u = if u.fingerprint = t.fingerprint then some r else b.decide u :=
  b.get?_insert t.fingerprint u.fingerprint r

/-- The document of a book. -/
def toJson (b : AnswerBook) : Json :=
  .record [("answers", .record (b.answers.map fun a => (a.1, a.2.toJson)))]

/-- The book with the responses in the members of an object; the last one with a key
    counts. -/
def ofMembers? (members : List (Option String × Json)) : Option AnswerBook :=
  members.foldlM (fun b m => do return b.insert (← m.1) (← Response.ofJson? m.2)) empty

/-- The book that a document holds. -/
def ofJson? (v : Json) : Option AnswerBook := do
  let f ← v.fields? ["answers"]
  f.get? "answers" fun
    | .object members => ofMembers? members
    | _ => none

/-- The text that stores a book. -/
def store (b : AnswerBook) : String := b.toJson.write

/-- The book that a text stores. -/
def load? (text : String) : Option AnswerBook := do
  ofJson? (← Json.read text)

end AnswerBook

end Inquiry
