import Inquiry.Message.Scope
import Inquiry.Settings

/-!
# Failures

Why an inquiry ends without an answer. Text that cannot be read is no failure,
and neither is a respondent who has nothing to say yet.
-/

namespace Inquiry

/-- Why an inquiry fails. -/
inductive Failure
  /-- A command cites something that is not there. -/
  | referent (e : ReferentError)
  /-- A question is addressed to something that is no channel. -/
  | notAChannel (index : Nat) (found : Referent.Form)
  /-- More was spent than there was. -/
  | overspent (budget spending : Nat)
  /-- Questions nest deeper than allowed. -/
  | tooDeep (depth limit : Nat)
  /-- A conversation goes on longer than allowed. -/
  | tooManyTurns (turns limit : Nat)
  /-- A respondent has nothing to say where an answer is needed at once. -/
  | declined
  /-- The settings are not valid. -/
  | settings (p : Settings.Problem)
  deriving DecidableEq

/-- The wording of a failure. -/
def Failure.message : Failure → String
  | .referent e => e.message
  | .notAChannel index found =>
    "recipient pointer " ++ toString index ++ " resolved to a " ++ found.describe ++
      ", expected a channel"
  | .overspent budget spending =>
    "budget invariant violated: spent " ++ toString spending ++ " of " ++ toString budget
  | .tooDeep depth limit =>
    "ask depth " ++ toString depth ++ " exceeds the limit of " ++ toString limit
  | .tooManyTurns turns limit =>
    "conversation took " ++ toString turns ++ " turns, the limit is " ++ toString limit
  | .declined => "respondent declined to answer"
  | .settings p => "invalid configuration: " ++ p.message

end Inquiry
