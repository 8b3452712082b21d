import Mathlib
import Inquiry.Proofs.Reserve

/-!
# What an inquiry spends

Every unit of budget that is gone from an answered inquiry was spent in some
turn, in the conversation itself or in one below it, and the turns are all in
the record of consultations: what a turn was charged for can be read off it. A
command other than a question costs its fee; a question costs the surcharge;
where time is counted, a turn costs the time taken, as far as there was budget
for it. A turn that uses up the budget executes no command.

While the inquiry goes on, the conversations hold more than the budget: what is
granted to a question is held by both sides until it is settled. So what all
conversations hold and what is spent add up to the budget and what those parked
have to settle (`Machine.Balanced`). Nobody is parked in the end.

* `Respondent.budget_sub_remaining`: the budget used is what the turns cost.
-/

namespace Inquiry

/-! ## Charges -/

namespace Consultation

/-- The budget that was left when the respondent was consulted. -/
def budget (t : Consultation) : Nat :=
  (t.transcript.observations.getLast?.map (·.budget)).getD 0

/-- How long the respondent took. -/
def elapsed (t : Consultation) : Nat :=
  (t.decision.map (·.elapsed)).getD 0

/-- The command that was executed then: none if nothing was said, or if no budget was left
    to execute it. -/
def command? (s : Settings) (t : Consultation) : Option (Command (Node Transcript)) :=
  match t.decision with
  | some r => if s.afterResponse t.budget r = 0 then none else some (Command.parse r.text)
  | none => none

/-- A question was asked. -/
def asks (s : Settings) (t : Consultation) : Bool :=
  (t.command? s).any (·.isAsk)

/-- A command other than a question was executed. -/
def acts (s : Settings) (t : Consultation) : Bool :=
  (t.command? s).any (! ·.isAsk)

/-- The time charged: no more than there was budget for. -/
def time (s : Settings) (t : Consultation) : Nat :=
  match s.accounting with
  | .steps => 0
  | .time => min t.elapsed t.budget

end Consultation

namespace Settings

/-- What turns cost. -/
def cost (s : Settings) (turns : List Consultation) : Nat :=
  s.commandCost * turns.countP (·.acts s) + s.askSurcharge * turns.countP (·.asks s) +
    (turns.map (·.time s)).sum

theorem cost_concat (s : Settings) (turns : List Consultation) (t : Consultation) :
    s.cost (turns ++ [t]) = s.cost turns + (if t.acts s then s.commandCost else 0) +
      (if t.asks s then s.askSurcharge else 0) + t.time s := by
  simp only [cost, List.countP_append, List.countP_singleton, List.map_append, List.map_cons,
    List.map_nil, List.sum_append, List.sum_singleton, Nat.mul_add]
  split <;> split <;> omega

end Settings

/-- What a command is charged in the account: a question costs the surcharge, even if it is
    only settled later. -/
def Effect.fee {σ : Type} (s : Settings) : Effect σ → Nat
  | .delegated _ _ _ => s.askSurcharge
  | _ => s.commandCost

theorem Command.fee_of_execute {σ : Type} {s : Settings} {serial : Nat}
    {c : Command (Node σ)} {n : Node σ} {budget : Nat} {effect : Effect σ}
    (h : c.execute s serial n budget = .ok effect) :
    effect.fee s = if c.isAsk then s.askSurcharge else s.commandCost := by
  rcases execute_eq_ok h with ⟨_, _, _, _, rfl, rfl⟩ | ⟨hc, _, rfl | rfl⟩
  · rfl
  all_goals
    rw [hc]
    rfl

/-! ### The charge for a turn -/

section

variable {s : Settings} {t : Consultation} {r : Response}

/-- The time charged is what the response takes from the budget. -/
theorem Settings.afterResponse_add_time (hd : t.decision = some r) :
    s.afterResponse t.budget r + t.time s = t.budget := by
  rw [afterResponse, Consultation.time]
  cases s.accounting with
  | steps => rfl
  | time =>
    simp only [Consultation.elapsed, hd, Option.map_some, Option.getD_some]
    omega

theorem Settings.cost_of_outOfBudget (turns : List Consultation) (hd : t.decision = some r)
    (hb : s.afterResponse t.budget r = 0) : s.cost (turns ++ [t]) = s.cost turns + t.budget := by
  -- No command is executed, so only the time counts.
  have hc : t.command? s = none := by
    rw [Consultation.command?, hd]
    exact if_pos hb
  have ht := s.afterResponse_add_time hd
  rw [cost_concat, Consultation.acts, Consultation.asks, hc]
  simp only [Option.any_none, Bool.false_eq_true, if_false]
  omega

theorem Settings.cost_of_command (turns : List Consultation) (hd : t.decision = some r)
    (hb : 0 < s.afterResponse t.budget r) :
    s.cost (turns ++ [t]) + s.afterResponse t.budget r = s.cost turns + t.budget +
      if (Command.parse r.text : Command (Node Transcript)).isAsk then s.askSurcharge
      else s.commandCost := by
  have hc : t.command? s = some (Command.parse r.text) := by
    rw [Consultation.command?, hd]
    exact if_neg (Nat.ne_of_gt hb)
  have ht := s.afterResponse_add_time hd
  rw [cost_concat, Consultation.acts, Consultation.asks, hc]
  by_cases hq : (Command.parse r.text : Command (Node Transcript)).isAsk = true
  · simp only [Option.any_some, hq, Bool.not_true, Bool.false_eq_true, if_false, if_true]
    omega
  · simp only [Option.any_some, hq, Bool.not_false, Bool.false_eq_true, if_false, if_true]
    omega

end

/-! ## Balance -/

/-- The budget that conversations hold that wait. -/
def Parked.held {σ : Type} : List (Parked σ) → Nat
  | [] => 0
  | p :: ps => p.budget + Parked.held ps

/-- What conversations that wait have to settle: what they have granted, and the surcharge. -/
def Parked.owed {σ : Type} (s : Settings) : List (Parked σ) → Nat
  | [] => 0
  | p :: ps => p.granted + s.askSurcharge + Parked.owed s ps

namespace Machine

/-- Since the consultations `before`, some turns were taken, starting with some budget: what is
    held and what was spent add up to the budget and what has to be settled. -/
def Balanced (s : Settings) (before : List Consultation) (budget : Nat)
    (m : Machine Transcript) : Prop :=
  ∃ turns, m.record.toList = before ++ turns ∧
    m.focus.held + Parked.held m.parked + s.cost turns = budget + Parked.owed s m.parked

variable {oracle : Oracle} {history : Transcript} {s : Settings}

theorem Answered.exists_consultation {m : Machine Transcript} {c : Conversation Transcript}
    {r : Response} {q : Transcript} {record : Record}
    (h : Answered (.ofOracle oracle history) s m c r q record) :
    ∃ t : Consultation, record.toList = m.record.toList ++ [t] ∧ t.budget = c.budget ∧
      t.decision = some r := by
  obtain ⟨-, -, rfl⟩ := Respondent.eq_some_of_respond_ofOracle h.respond
  exact ⟨_, Array.toList_push, by simp [Consultation.budget, Transcript.observed], rfl⟩

/-- An executed turn, in the account: the conversation is left with `b`. -/
theorem Executed.exists_consultation {m : Machine Transcript} {c : Conversation Transcript}
    {r : Response} {q : Transcript} {record : Record} {b : Nat} {effect : Effect Transcript}
    (h : Executed (.ofOracle oracle history) s m c r q record b effect)
    (turns : List Consultation) :
    ∃ t : Consultation, record.toList = m.record.toList ++ [t] ∧
      s.cost (turns ++ [t]) + b = s.cost turns + c.budget + effect.fee s := by
  obtain ⟨ha, rfl, hb, he⟩ := h
  obtain ⟨t, hrec, ht, hd⟩ := ha.exists_consultation
  rw [← ht] at hb ⊢
  refine ⟨t, hrec, (s.cost_of_command turns hd hb).trans ?_⟩
  exact congrArg _ (Command.fee_of_execute (σ := Transcript) he).symm

/-- A step keeps the balance. -/
theorem balanced_step {before : List Consultation} {budget : Nat} {m m' : Machine Transcript}
    (h : m.step (.ofOracle oracle history) s = .next m') (hm : m.Balanced s before budget) :
    m'.Balanced s before budget := by
  obtain ⟨turns, hrec, hbal⟩ := hm
  cases rule_iff.2 h with
  | outOfBudget ha hb =>
    obtain ⟨t, ht, hc, hd⟩ := ha.exists_consultation
    have hcost := s.cost_of_outOfBudget turns hd (hc.symm ▸ hb)
    refine ⟨turns ++ [t], by rw [ht, hrec, List.append_assoc], ?_⟩
    rw [ha.focus] at hbal
    simp only [Focus.held] at hbal ⊢
    omega
  | shown hx hs =>
    obtain ⟨t, ht, hcost⟩ := hx.exists_consultation turns
    obtain rfl := Command.spending_of_execute_shown hx.execute
    refine ⟨turns ++ [t], by rw [ht, hrec, List.append_assoc], ?_⟩
    rw [hx.focus] at hbal
    simp only [Focus.held, Effect.fee] at hbal hcost ⊢
    omega
  | ended hx hs =>
    obtain ⟨t, ht, hcost⟩ := hx.exists_consultation turns
    obtain rfl := Command.spending_of_execute_ended hx.execute
    refine ⟨turns ++ [t], by rw [ht, hrec, List.append_assoc], ?_⟩
    rw [hx.focus] at hbal
    simp only [Focus.held, Effect.fee] at hbal hcost ⊢
    omega
  | asked hx hd =>
    -- The grant is held twice and owed once; the surcharge counts as spent from here on.
    obtain ⟨t, ht, hcost⟩ := hx.exists_consultation turns
    refine ⟨turns ++ [t], by rw [ht, hrec, List.append_assoc], ?_⟩
    rw [hx.focus] at hbal
    simp only [Focus.held, Parked.held, Parked.owed, Effect.fee] at hbal hcost ⊢
    omega
  | settled hf hp hg hs =>
    -- The asker is charged what it owes, less what comes back.
    refine ⟨turns, hrec, ?_⟩
    rw [hf, hp] at hbal
    simp only [Focus.held, Parked.held, Parked.owed] at hbal ⊢
    omega

/-- A run that comes to an answer has used what its turns cost. -/
theorem balanced_run {before : List Consultation} {budget : Nat} {m : Machine Transcript}
    {a : Answer Transcript} (hm : m.Balanced s before budget)
    (ha : (m.run (.ofOracle oracle history) s).outcome = .ready a) :
    ∃ turns, (m.run (.ofOracle oracle history) s).record.toList = before ++ turns ∧
      a.remaining + s.cost turns = budget := by
  obtain ⟨m', hr, hd⟩ := exists_reaches_done (.ofOracle oracle history) s m
  obtain ⟨turns, hrec, hbal⟩ := hr.keeps (fun _ _ => balanced_step) hm
  generalize m.run (.ofOracle oracle history) s = r at ha hd ⊢
  cases rule_iff.2 hd with
  | concluded hf hp =>
    obtain rfl := Outcome.ready.inj ha
    refine ⟨turns, hrec, ?_⟩
    -- Nobody waits any more, so nothing is owed.
    rw [hf, hp] at hbal
    exact hbal
  | _ => cases ha

end Machine

/-- Only a machine comes to an answer. -/
theorem Respondent.converse_of_ready {R : Respondent} {s : Settings} {n : Node R.State}
    {m : Message (Node R.State)} {budget depth supply : Nat} {record : Record}
    {a : Answer R.State} (h : (R.converse s n m budget depth supply record).outcome = .ready a) :
    R.converse s n m budget depth supply record =
      (R.startAt n m budget depth supply record).run R s := by
  rw [converse] at h ⊢
  by_cases hd : s.maxDepth < depth
  · rw [if_pos hd] at h
    cases h
  · rw [if_neg hd]

/-- An answer has used of the budget what the turns before it cost, in its conversation and
    in all below it: the fee for each command other than a question, the surcharge for each
    question and, where time is counted, the time taken, as far as there was budget. -/
theorem Respondent.budget_sub_remaining (oracle : Oracle) (history : Transcript) (s : Settings)
    (n : Node Transcript) (m : Message (Node Transcript)) (budget depth supply : Nat)
    (record : Record) (a : Answer Transcript)
    (h : ((ofOracle oracle history).converse s n m budget depth supply record).outcome =
      .ready a) :
    ∃ turns, ((ofOracle oracle history).converse s n m budget depth supply record).record.toList =
        record.toList ++ turns ∧ a.remaining ≤ budget ∧
      budget - a.remaining = s.commandCost * turns.countP (·.acts s) +
        s.askSurcharge * turns.countP (·.asks s) + (turns.map (·.time s)).sum := by
  have hrun := converse_of_ready h
  rw [hrun] at h ⊢
  have hm : (startAt (ofOracle oracle history) n m budget depth supply record).Balanced s
      record.toList budget := ⟨[], (List.append_nil _).symm, rfl⟩
  obtain ⟨turns, hrec, hcost⟩ := Machine.balanced_run hm h
  rw [Settings.cost] at hcost
  exact ⟨turns, hrec, by omega, by omega⟩

/-- A question answered out of budget, and another one to the same conversation: of a budget
    of 100, two surcharges, four fees and 40 ms are spent. -/
theorem Respondent.budget_sub_remaining_followUp :
    let s : Settings := { accounting := .time, askSurcharge := 1, commandCost := 1 }
    let script : List Response := [⟨"ask what is [x]", 3⟩, ⟨"note [y]", 2⟩, ⟨"reply [y]", 100⟩,
      ⟨"ask@0 and then?", 5⟩, ⟨"hm", 1⟩, ⟨"reply ok", 0⟩, ⟨"reply done #1", 0⟩]
    let R := ofOracle (fun record _ => script[record.size]?) .empty
    let run := R.converse s (.root 0 .empty) (Message.parse "?") 100 0 1 #[]
    ∃ a, run.outcome = .ready a ∧ a.remaining = 54 ∧
      ∃ turns, run.record.toList = [] ++ turns ∧ a.remaining ≤ 100 ∧
        100 - a.remaining = s.commandCost * turns.countP (·.acts s) +
          s.askSurcharge * turns.countP (·.asks s) + (turns.map (·.time s)).sum := by
  intro s script R run
  have h : run.outcome.value?.map (·.remaining) = some 54 := by decide +kernel
  obtain ⟨a, ha, hr⟩ := Option.map_eq_some_iff.1 h
  have ha : run.outcome = .ready a := Outcome.value?_eq_some_iff.1 ha
  exact ⟨a, ha, hr, budget_sub_remaining _ _ s _ _ 100 0 1 #[] a ha⟩

end Inquiry
