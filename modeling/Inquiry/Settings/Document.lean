import Inquiry.Json.Reader
import Inquiry.Json.Record
import Inquiry.Json.Writer
import Inquiry.Settings

/-!
# Settings as documents

Settings are stored as a JSON record in which every field may be missing and
then has its default. Settings that are loaded have to be valid.
-/

namespace Inquiry

/-- What an accounting is called. -/
def Accounting.name : Accounting → String
  | .steps => "steps"
  | .time => "time"

/-- The accounting of a name. -/
def Accounting.ofName? : String → Option Accounting
  | "steps" => some .steps
  | "time" => some .time
  | _ => none

/-- The accounting that a document holds: its name, or an object with its name as the
    only key and nothing in it. -/
def Accounting.ofJson? : Json → Option Accounting
  | .string name => name >>= ofName?
  | .object [(name, .null)] => name >>= ofName?
  | _ => none

namespace Settings

/-- The document of settings. -/
def toJson (s : Settings) : Json :=
  .record
    [("accounting", .text s.accounting.name),
     ("default_fraction", .nat s.defaultFraction),
     ("ask_surcharge", .nat s.askSurcharge),
     ("command_cost", .nat s.commandCost),
     ("max_depth", .nat s.maxDepth),
     ("max_turns", .nat s.maxTurns)]

/-- The settings that a document holds, valid or not. -/
def ofJson? (v : Json) : Option Settings := do
  let f ← v.fields? ["accounting", "default_fraction", "ask_surcharge", "command_cost",
    "max_depth", "max_turns"]
  let standard : Settings := {}
  return {
    accounting := ← f.getD "accounting" Accounting.ofJson? standard.accounting
    defaultFraction := ← f.getD "default_fraction" Json.word? standard.defaultFraction
    askSurcharge := ← f.getD "ask_surcharge" Json.word? standard.askSurcharge
    commandCost := ← f.getD "command_cost" Json.word? standard.commandCost
    maxDepth := ← f.getD "max_depth" Json.word? standard.maxDepth
    maxTurns := ← f.getD "max_turns" Json.word? standard.maxTurns }

/-- Why settings cannot be loaded. -/
inductive LoadError
  /-- The text holds no settings. -/
  | undecodable
  /-- The settings are not valid. -/
  | invalid (p : Problem)
  deriving DecidableEq

/-- The valid settings that a text stores. -/
def load (text : String) : Except LoadError Settings :=
  match Json.read text >>= ofJson? with
  | none => .error .undecodable
  | some s =>
    match s.problem? with
    | none => .ok s
    | some p => .error (.invalid p)

/-- The text that stores settings. -/
def store (s : Settings) : String := s.toJson.write

end Settings

end Inquiry
