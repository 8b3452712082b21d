import Inquiry.AnswerBook
import Inquiry.Run

/-!
# Suspending and resuming

Where a respondent has nothing to say yet, an inquiry is suspended: it hands
back the transcript that waits for a response, together with all that is needed
to start over. It is resumed by starting over with a respondent who knows more,
an answer book for instance; what was said before is said again.
-/

namespace Inquiry

/-- What is needed to start an inquiry over. -/
structure Resumption where
  root : String
  budget : Nat
  settings : Settings
  deriving DecidableEq

/-- A suspended inquiry. -/
structure Suspension where
  /-- The transcript whose last observation waits for a response. -/
  transcript : Transcript
  resume : Resumption
  deriving DecidableEq

/-- What an inquiry hands back that may be suspended. -/
inductive Report
  | completed (text : String)
  | suspended (s : Suspension)
  deriving DecidableEq

namespace Report

/-- The answer, if the inquiry is completed. -/
def text? : Report → Option String
  | .completed text => some text
  | .suspended _ => none

/-- The suspension, if the inquiry is suspended. -/
def suspension? : Report → Option Suspension
  | .completed _ => none
  | .suspended s => some s

end Report

namespace Resumption

/-- What comes of an outcome. -/
def report (r : Resumption) : Outcome String → Except Failure Report
  | .ready text => .ok (.completed text)
  | .suspended t => .ok (.suspended ⟨t, r⟩)
  | .failed e => .error e

/-- Runs the inquiry from the start, with a respondent that follows an oracle. -/
def run (r : Resumption) (oracle : Oracle) (record : Record) :
    Except Failure Report × Record :=
  let run := (Respondent.ofOracle oracle .empty).inquire r.settings r.root r.budget record
  (r.report run.outcome, run.record)

/-- Runs the inquiry from the start, with a policy and nothing recorded before. -/
def start (r : Resumption) (p : Policy) : Except Failure Report :=
  (r.run p.toOracle #[]).1

end Resumption

end Inquiry
