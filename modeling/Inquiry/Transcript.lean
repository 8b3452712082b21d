/-!
# Transcripts

What one respondent has been shown and has said, oldest first. While it is
waited for, a transcript holds one observation more than responses.
-/

namespace Inquiry

/-- A text shown to a respondent, with the budget it has left. -/
structure Observation where
  text : String
  budget : Nat
  deriving DecidableEq

/-- What a respondent said, and how long it took. -/
structure Response where
  text : String
  elapsed : Nat := 0
  deriving DecidableEq

/-- Everything a respondent has seen and said. -/
structure Transcript where
  observations : List Observation
  responses : List Response
  deriving DecidableEq

namespace Transcript

/-- Nothing seen or said yet. -/
def empty : Transcript := ⟨[], []⟩

/-- The transcript with one more observation. -/
def observed (t : Transcript) (o : Observation) : Transcript :=
  { t with observations := t.observations ++ [o] }

/-- The transcript with one more response. -/
def answered (t : Transcript) (r : Response) : Transcript :=
  { t with responses := t.responses ++ [r] }

/-- The observation that waits for a response. -/
def pending? (t : Transcript) : Option Observation :=
  if t.responses.length < t.observations.length then t.observations.getLast? else none

/-- One observation with the response to it, if there is one. -/
def displayEntry (o : Observation) : Option Response → String
  | some r => o.text ++ "\n\n>>> " ++ r.text
  | none => o.text

/-- All observations, each with the response to it. -/
def entries : List Observation → List Response → List String
  | [], _ => []
  | o :: os, [] => displayEntry o none :: entries os []
  | o :: os, r :: rs => displayEntry o (some r) :: entries os rs

/-- The conversation as text. -/
def display (t : Transcript) : String :=
  "\n\n".intercalate (entries t.observations t.responses)

end Transcript

end Inquiry
