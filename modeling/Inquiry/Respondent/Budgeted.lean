import Inquiry.Run

/-!
# Inquiries as respondents

An inquiry can answer for a single respondent: every observation is put to the
root of one and the same tree, with the same budget each time, and the text of
the answer is the response. Nothing is remembered between observations. What is
handed over is plain text, so marks such as `#0` in it are read as pointers of
the inner inquiry.

Such respondents can be put on top of each other (`Respondent.layered`).
-/

namespace Inquiry

/-- What an inquiry makes of an observation, as a turn. -/
def Outcome.toTurn : Outcome String → Turn Unit
  | .ready text => .answered { text } ()
  | .suspended t => .unavailable t
  | .failed e => .failed e

namespace Respondent

/-- The respondent that puts every observation to an inquiry of its own. -/
def budgeted (R : Respondent) (s : Settings) (budget : Nat) : Respondent where
  State := Unit
  start := ()
  respond _ o record :=
    let r := R.converseAfresh s (Message.parse o.text) budget 0 record
    ((r.outcome.map (·.value.display)).toTurn, r.record)

/-- The respondent behind some inquiries, the first of them innermost. -/
def layered (R : Respondent) (layers : List (Settings × Nat)) : Respondent :=
  layers.foldl (fun inner l => inner.budgeted l.1 l.2) R

end Respondent

end Inquiry
