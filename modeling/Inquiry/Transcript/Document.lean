import Inquiry.Json.Reader
import Inquiry.Json.Record
import Inquiry.Json.Writer
import Inquiry.Transcript

/-!
# Transcripts as documents

Transcripts are stored as JSON records. A response without a time took none.
-/

namespace Inquiry

/-- The document of an observation. -/
def Observation.toJson (o : Observation) : Json :=
  .record [("text", .text o.text), ("budget", .nat o.budget)]

/-- The observation that a document holds. -/
def Observation.ofJson? (v : Json) : Option Observation := do
  let f ← v.fields? ["text", "budget"]
  return ⟨← f.get? "text" Json.text?, ← f.get? "budget" Json.word?⟩

/-- The document of a response. -/
def Response.toJson (r : Response) : Json :=
  .record [("text", .text r.text), ("elapsed", .nat r.elapsed)]

/-- The response that a document holds. -/
def Response.ofJson? (v : Json) : Option Response := do
  let f ← v.fields? ["text", "elapsed"]
  return ⟨← f.get? "text" Json.text?, ← f.getD "elapsed" Json.word? 0⟩

namespace Transcript

/-- The document of a transcript. -/
def toJson (t : Transcript) : Json :=
  .record
    [("observations", .list Observation.toJson t.observations),
     ("responses", .list Response.toJson t.responses)]

/-- The transcript that a document holds. -/
def ofJson? (v : Json) : Option Transcript := do
  let f ← v.fields? ["observations", "responses"]
  return ⟨← f.get? "observations" (Json.list? Observation.ofJson?),
    ← f.get? "responses" (Json.list? Response.ofJson?)⟩

/-- The text that stores a transcript. -/
def store (t : Transcript) : String := t.toJson.write

/-- The transcript that a text stores. -/
def load? (text : String) : Option Transcript := do
  ofJson? (← Json.read text)

end Transcript

end Inquiry
