import Inquiry.Run

/-!
# Inquiries in direct style

The same inquiry without a stack. A message is put to a node
(`Respondent.putTo`): if it is not nested too deep, the conversation takes its
turns one after the other (`Respondent.takeTurns`). Where a turn asks a
question, the message of the question is put to its recipient, one level
deeper, and the conversation waits in the call: a suspension or a failure inside
is handed up as it is, and an answer is charged against what was granted before
the next turn is taken, with the node, the budget, the depth and the turns that
the conversation had.

The machine keeps on its stack what the calls keep: running a machine is
carrying out its focus in direct style and handing the answer to those that are
parked (`Machine.run_asking`).

* `Respondent.converse_eq_putTo`: the machine and the direct style come to the
  same end, by the same consultations.
-/

namespace Inquiry

/-- Goes on from the value of a run, where the run has ended; a suspension or a failure is
    handed up. -/
def Run.andThen {α β : Type} (r : Run α) (f : α → Nat → Record → Run β) : Run β :=
  match r.outcome with
  | .ready a => f a r.supply r.record
  | .suspended t => ⟨.suspended t, r.supply, r.record⟩
  | .failed e => ⟨.failed e, r.supply, r.record⟩

theorem Run.andThen_assoc {α β γ : Type} (r : Run α) (f : α → Nat → Record → Run β)
    (g : β → Nat → Record → Run γ) :
    (r.andThen f).andThen g =
      r.andThen fun a supply record => (f a supply record).andThen g := by
  rcases r with ⟨_ | _ | _, supply, record⟩ <;> rfl

theorem Run.andThen_ready {α : Type} (r : Run α) :
    (r.andThen fun a supply record => ⟨.ready a, supply, record⟩) = r := by
  rcases r with ⟨_ | _ | _, supply, record⟩ <;> rfl

/-- A question weighs less than the turn that asks it. -/
theorem Settings.weight_question_lt (s : Settings) {granted budget turns : Nat}
    (hg : granted < budget) (ht : turns < s.maxTurns) :
    s.weight granted 0 < s.weight budget turns :=
  Nat.lt_of_le_of_lt (Nat.le_add_right _ _) (s.weight_ask_lt (Nat.le_refl budget) hg ht)

mutual

/-- Puts a message to a node at some depth and carries the conversation to its end. -/
def Respondent.putTo (R : Respondent) (s : Settings) (n : Node R.State)
    (m : Message (Node R.State)) (budget depth supply : Nat) (record : Record) :
    Run (Answer R.State) :=
  if s.maxDepth < depth then ⟨.failed (.tooDeep depth s.maxDepth), supply, record⟩
  else R.takeTurns s ⟨n, m, budget, depth, 0⟩ supply record
termination_by (s.weight budget 0, 1)
decreasing_by exact .right _ Nat.zero_lt_one

/-- Takes the turns of a conversation, one after the other, until it has come to an
    answer. -/
def Respondent.takeTurns (R : Respondent) (s : Settings) (c : Conversation R.State)
    (supply : Nat) (record : Record) : Run (Answer R.State) :=
  if _ht : s.maxTurns ≤ c.turns then
    ⟨.failed (.tooManyTurns c.turns s.maxTurns), supply, record⟩
  else
    match R.respond c.node.state ⟨s.render c.node c.message c.budget, c.budget⟩ record with
    | (.failed e, record) => ⟨.failed e, supply, record⟩
    | (.unavailable t, record) => ⟨.suspended t, supply, record⟩
    | (.answered r state, record) =>
      let n := c.node.successor supply c.message state
      let budget := s.afterResponse c.budget r
      if hb : budget = 0 then ⟨.ready ⟨Message.parse r.text, n, 0⟩, supply + 2, record⟩
      else
        match he : (Command.parse r.text).execute s (supply + 1) n budget with
        | .error e => ⟨.failed e, supply + 2, record⟩
        | .ok (.shown o spending) =>
          if budget < spending then ⟨.failed (.overspent budget spending), supply + 2, record⟩
          else R.takeTurns s ⟨n, o, budget - spending, c.depth, c.turns + 1⟩ (supply + 2) record
        | .ok (.ended value spending) =>
          if budget < spending then ⟨.failed (.overspent budget spending), supply + 2, record⟩
          else ⟨.ready ⟨value, n, budget - spending⟩, supply + 2, record⟩
        | .ok (.delegated recipient m granted) =>
          (R.putTo s recipient m granted (c.depth + 1) (supply + 2) record).andThen
            fun a supply record =>
              if granted < a.remaining then
                ⟨.failed (.overspent granted a.remaining), supply, record⟩
              else
                let spending := granted - a.remaining + s.askSurcharge
                if budget < spending then ⟨.failed (.overspent budget spending), supply, record⟩
                else
                  R.takeTurns s ⟨n, .withSender a.node a.value, budget - spending, c.depth,
                    c.turns + 1⟩ supply record
termination_by (s.weight c.budget c.turns, 0)
decreasing_by
  all_goals
    have hle := s.afterResponse_le c.budget r
    have ht : c.turns < s.maxTurns := Nat.lt_of_not_le _ht
  · exact .left _ _ (s.weight_turn_lt (Nat.le_trans (Nat.sub_le _ _) hle) ht)
  · have hg : granted < c.budget :=
      Nat.lt_of_lt_of_le (Command.granted_lt (Nat.pos_of_ne_zero hb) he) hle
    exact .left _ _ (s.weight_question_lt hg ht)
  · exact .left _ _ (s.weight_turn_lt (Nat.le_trans (Nat.sub_le _ _) hle) ht)

end

namespace Machine

variable {R : Respondent} {s : Settings}

/-- Running a machine is carrying out its focus in direct style and handing the answer to
    those that are parked. -/
theorem run_asking (c : Conversation R.State) (parked : List (Parked R.State)) (supply : Nat)
    (record : Record) :
    run R s ⟨.asking c, parked, supply, record⟩ =
      (R.takeTurns s c supply record).andThen fun a supply record =>
        run R s ⟨.answered a, parked, supply, record⟩ := by
  generalize hw : s.weight c.budget c.turns = w
  induction w using Nat.strongRecOn generalizing c parked supply record with
  | ind w ih =>
    subst hw
    rw [Respondent.takeTurns]
    by_cases ht : s.maxTurns ≤ c.turns
    · rw [dif_pos ht, run_of_step_done (Rule.noTurn rfl ht).step_eq]
      rfl
    rw [dif_neg ht]
    have ht : c.turns < s.maxTurns := Nat.lt_of_not_le ht
    split
    · next e record' hr =>
      rw [run_of_step_done (Rule.failed rfl ht hr).step_eq]
      rfl
    · next t record' hr =>
      rw [run_of_step_done (Rule.unavailable rfl ht hr).step_eq]
      rfl
    · next r q record' hr =>
      have ha : Answered R s ⟨.asking c, parked, supply, record⟩ c r q record' := ⟨rfl, ht, hr⟩
      have hle := s.afterResponse_le c.budget r
      dsimp only
      split
      · next hb =>
        rw [run_of_step_next (Rule.outOfBudget ha hb).step_eq]
        rfl
      · next hb =>
        have hb : 0 < s.afterResponse c.budget r := Nat.pos_of_ne_zero hb
        split
        · next e he =>
          rw [run_of_step_done (Rule.misled ha hb he).step_eq]
          rfl
        · next o spending he =>
          have hx : Executed R s _ c r q record' _ _ := ⟨ha, rfl, hb, he⟩
          split
          · next hs =>
            rw [run_of_step_done (Rule.overspent hx hs).step_eq]
            rfl
          · next hs =>
            rw [run_of_step_next (Rule.shown hx (Nat.le_of_not_lt hs)).step_eq]
            exact ih _ (s.weight_turn_lt (Nat.le_trans (Nat.sub_le _ _) hle) ht) _ _ _ _ rfl
        · next value spending he =>
          have hx : Executed R s _ c r q record' _ _ := ⟨ha, rfl, hb, he⟩
          split
          · next hs =>
            rw [run_of_step_done (Rule.overspent hx hs).step_eq]
            rfl
          · next hs =>
            rw [run_of_step_next (Rule.ended hx (Nat.le_of_not_lt hs)).step_eq]
            rfl
        · next recipient message granted he =>
          have hx : Executed R s _ c r q record' _ _ := ⟨ha, rfl, hb, he⟩
          have hg : granted < c.budget := Nat.lt_of_lt_of_le hx.granted_lt hle
          rw [Respondent.putTo]
          by_cases hd : s.maxDepth < c.depth + 1
          · rw [if_pos hd, run_of_step_done (Rule.tooDeep hx hd).step_eq]
            rfl
          -- The question is carried out above its asker; then the asker goes on.
          rw [if_neg hd, run_of_step_next (Rule.asked hx (Nat.le_of_not_lt hd)).step_eq,
            ih _ (s.weight_question_lt hg ht) _ _ _ _ rfl, Run.andThen_assoc]
          congr 1
          funext a supply' record''
          split
          · next hr =>
            rw [run_of_step_done (Rule.overdrawn rfl rfl hr).step_eq]
            rfl
          · next hr =>
            have hr := Nat.le_of_not_lt hr
            dsimp only
            split
            · next hs =>
              rw [run_of_step_done (Rule.overcharged rfl rfl hr hs).step_eq]
              rfl
            · next hs =>
              rw [run_of_step_next (Rule.settled rfl rfl hr (Nat.le_of_not_lt hs)).step_eq]
              exact ih _ (s.weight_turn_lt (Nat.le_trans (Nat.sub_le _ _) hle) ht) _ _ _ _ rfl

end Machine

/-- The machine with its stack of parked conversations and the calls of the direct style come
    to the same end: the same outcome, the same supply and the same consultations in the same
    order. -/
theorem Respondent.converse_eq_putTo (R : Respondent) (s : Settings) (n : Node R.State)
    (m : Message (Node R.State)) (budget depth supply : Nat) (record : Record) :
    R.converse s n m budget depth supply record = R.putTo s n m budget depth supply record := by
  rw [converse, putTo]
  by_cases hd : s.maxDepth < depth
  · rw [if_pos hd, if_pos hd]
  rw [if_neg hd, if_neg hd, startAt, Machine.run_asking]
  -- Nobody is parked, so the answer is the outcome.
  refine Eq.trans (congrArg _ ?_) (Run.andThen_ready _)
  funext a supply record
  exact Machine.run_of_step_done (Machine.Rule.concluded rfl rfl).step_eq

end Inquiry
