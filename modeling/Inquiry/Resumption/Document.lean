import Inquiry.Resumption
import Inquiry.Settings.Document

/-!
# Reports as documents

Reports are stored as JSON, as an object whose only key says how the inquiry
has ended. Nothing is checked when a report is loaded: settings that are not
valid show when the inquiry is resumed.
-/

namespace Inquiry

namespace Resumption

/-- The document of a resumption. -/
def toJson (r : Resumption) : Json :=
  .record [("root", .text r.root), ("budget", .nat r.budget), ("config", r.settings.toJson)]

/-- The resumption that a document holds. -/
def ofJson? (v : Json) : Option Resumption := do
  let f ← v.fields? ["root", "budget", "config"]
  return ⟨← f.get? "root" Json.text?, ← f.get? "budget" Json.word?,
    ← f.get? "config" Settings.ofJson?⟩

end Resumption

namespace Suspension

/-- The document of a suspension. -/
def toJson (s : Suspension) : Json :=
  .record [("transcript", s.transcript.toJson), ("resume", s.resume.toJson)]

/-- The suspension that a document holds. -/
def ofJson? (v : Json) : Option Suspension := do
  let f ← v.fields? ["transcript", "resume"]
  return ⟨← f.get? "transcript" Transcript.ofJson?, ← f.get? "resume" Resumption.ofJson?⟩

end Suspension

namespace Report

/-- The document of a report. -/
def toJson : Report → Json
  | .completed text => .record [("Completed", .text text)]
  | .suspended s => .record [("Suspended", s.toJson)]

/-- The report that a document holds. -/
def ofJson? : Json → Option Report
  | .object [(some "Completed", v)] => v.text?.map .completed
  | .object [(some "Suspended", v)] => (Suspension.ofJson? v).map .suspended
  | _ => none

/-- The text that stores a report. -/
def store (r : Report) : String := r.toJson.write

/-- The report that a text stores. -/
def load? (text : String) : Option Report := do
  ofJson? (← Json.read text)

end Report

end Inquiry
