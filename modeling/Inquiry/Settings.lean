/-!
# Settings

How budgets are spent in an inquiry: what they count, what share of it a
question gets by default, what commands cost, and how far an inquiry may go.

* `Settings.problem?_eq_none_iff`: settings have no problem exactly if they are
  valid.
-/

namespace Inquiry

/-- What a budget counts. -/
inductive Accounting
  /-- Commands; respondents are told how much budget is left. -/
  | steps
  /-- Milliseconds; the time a response takes is charged. -/
  | time
  deriving DecidableEq

/-- The settings of an inquiry. -/
structure Settings where
  accounting : Accounting := .steps
  /-- A question without a budget of its own asks for this part of the asker's. -/
  defaultFraction : Nat := 3
  /-- What a question costs on top of what its answer has used. -/
  askSurcharge : Nat := 0
  /-- What every other command costs. -/
  commandCost : Nat := 0
  /-- How deep questions may nest. -/
  maxDepth : Nat := 1024
  /-- How many turns in a row a conversation may take. -/
  maxTurns : Nat := 1000
  deriving DecidableEq

/-- What can be wrong with settings. -/
inductive Settings.Problem
  | defaultFraction
  | askSurcharge
  | commandCost
  | maxDepth
  | maxTurns
  deriving DecidableEq

/-- The wording of a problem. -/
def Settings.Problem.message : Settings.Problem → String
  | .defaultFraction => "default_fraction must be at least 1"
  | .askSurcharge => "ask_surcharge must be 0 or 1"
  | .commandCost => "command_cost must be 0 or 1"
  | .maxDepth => "max_depth must be at least 1"
  | .maxTurns => "max_turns must be at least 1"

namespace Settings

/-- Settings under which budgets can be kept: shares, depths and turns are not zero,
    and a command costs at most the unit that every question leaves its asker. -/
structure Valid (s : Settings) : Prop where
  defaultFraction : 1 ≤ s.defaultFraction
  askSurcharge : s.askSurcharge ≤ 1
  commandCost : s.commandCost ≤ 1
  maxDepth : 1 ≤ s.maxDepth
  maxTurns : 1 ≤ s.maxTurns

/-- The first problem of the settings. -/
def problem? (s : Settings) : Option Problem :=
  if s.defaultFraction = 0 then some .defaultFraction
  else if 1 < s.askSurcharge then some .askSurcharge
  else if 1 < s.commandCost then some .commandCost
  else if s.maxDepth = 0 then some .maxDepth
  else if s.maxTurns = 0 then some .maxTurns
  else none

theorem problem?_eq_none_iff (s : Settings) : s.problem? = none ↔ s.Valid := by
  unfold problem?
  constructor
  · intro h
    repeat' split at h
    all_goals first
      | contradiction
      | exact ⟨by omega, by omega, by omega, by omega, by omega⟩
  · rintro ⟨_, _, _, _, _⟩
    repeat' split
    all_goals first
      | omega
      | rfl

instance (s : Settings) : Decidable s.Valid :=
  decidable_of_iff _ s.problem?_eq_none_iff

theorem valid_default : ({} : Settings).Valid := by decide

end Settings

end Inquiry
