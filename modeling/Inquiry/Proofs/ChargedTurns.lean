import Inquiry.Proofs.Spending

/-!
# Inquiries in which every turn is charged

Where commands are free and time is not counted, a budget says nothing about how often a
respondent is consulted. It does where every command that is executed costs
something: a unit each, questions included, or the time that the response to it took
(`Settings.ChargesTurns`).

Only a turn without any budget is not charged then, and it ends its conversation. So
a unit pays for two consultations: for one that is charged, and for the one that
ends the conversation which that one may have started. The first conversation is
ended for free (`Machine.PaidFor`). The bound is met by a respondent that always
asks and leaves no budget to those it asks.

A conversation that is charged for each turn cannot take more turns than it has
budget, however often it waits for answers (`Machine.Measured`).

* `Machine.paidFor_step`, `Machine.Reaches.paidFor`: the consultations are paid for in
  every state;
* `Respondent.inquire_charged`: an inquiry with a budget of `b` takes at most `2 * b + 1`
  consultations, and does not run out of turns if more than `b` are allowed.
-/

namespace Inquiry

/-- A command that is executed costs something: every command costs a unit, or every response
    takes some time and time is charged. -/
def Settings.ChargesTurns (s : Settings) (oracle : Oracle) : Prop :=
  (s.askSurcharge = 1 ∧ s.commandCost = 1) ∨
    (s.accounting = .time ∧ ∀ record t r, oracle record t = some r → 1 ≤ r.elapsed)

/-! ## What is left to end -/

/-- One for what is in focus, if it is not an answer. -/
def Focus.unfinished {σ : Type} : Focus σ → Nat
  | .asking _ => 1
  | .answered _ => 0

namespace Machine

/-- How many conversations have not come to their answers. -/
def unfinished {σ : Type} (m : Machine σ) : Nat := m.focus.unfinished + m.parked.length

/-- Since there were `before` consultations, one is free, and two more are paid for with every
    unit of a budget that is not held any more. What is granted to a question is held by both
    sides, and what has to be settled is not held by the asker for long. -/
def PaidFor {σ : Type} (s : Settings) (before budget : Nat) (m : Machine σ) : Prop :=
  m.record.size + m.unfinished + 2 * (m.focus.held + Parked.held m.parked) ≤
    before + 1 + 2 * (budget + Parked.owed s m.parked)

/-- What conversations hold is no more than a budget, less the turns they have taken. A
    conversation that waits has a turn taken that is only charged when the answer is settled. -/
structure Measured {σ : Type} (s : Settings) (budget : Nat) (m : Machine σ) : Prop where
  asking : ∀ c, m.focus = .asking c → c.turns + c.budget ≤ budget
  parked : ∀ p ∈ m.parked, p.turns + p.budget ≤ budget + s.askSurcharge

end Machine

/-- What has to be settled is there. -/
theorem Parked.Backs.owed_le {σ : Type} {s : Settings} {limit held depth : Nat}
    {ps : List (Parked σ)} (h : Parked.Backs s limit held depth ps) (hs : s.askSurcharge ≤ 1) :
    Parked.owed s ps ≤ Parked.held ps := by
  induction ps generalizing held depth with
  | nil => exact Nat.le_refl _
  | cons p ps ih =>
    obtain ⟨-, hlt, -, -, h⟩ := h
    have := ih h
    simp only [Parked.owed, Parked.held]
    omega

/-! ## Respondents that pay -/

/-- A respondent is consulted once in a turn, and if it is not every command that costs a unit,
    each response takes time that is charged. -/
structure Respondent.Pays (R : Respondent) (s : Settings) : Prop where
  once : ∀ q o record, (R.respond q o record).2.size = record.size + 1
  charged : (s.askSurcharge = 1 ∧ s.commandCost = 1) ∨
    (s.accounting = .time ∧ ∀ q o record r q' record',
      R.respond q o record = (.answered r q', record') → 1 ≤ r.elapsed)

theorem Settings.ChargesTurns.pays {s : Settings} {oracle : Oracle} (hs : s.ChargesTurns oracle)
    (history : Transcript) : (Respondent.ofOracle oracle history).Pays s where
  once q o record :=
    (congrArg Array.size (Respondent.record_respond_ofOracle oracle history q o record)).trans
      (Array.size_push _)
  charged := hs.imp_right fun ⟨htime, helapsed⟩ =>
    ⟨htime, fun _ _ _ _ _ _ h => helapsed _ _ _ (Respondent.eq_some_of_respond_ofOracle h).1⟩

namespace Machine

variable {R : Respondent} {s : Settings} {m m' : Machine R.State} {c : Conversation R.State}
  {r : Response} {q : R.State} {record : Record} {b before budget : Nat}

theorem Answered.size_record (h : Answered R s m c r q record) (hR : R.Pays s) :
    record.size = m.record.size + 1 := by
  have hsize := hR.once c.node.state ⟨s.render c.node c.message c.budget, c.budget⟩ m.record
  rwa [h.respond] at hsize

/-- Of the budget before the turn, a unit is gone or will be charged. -/
theorem Executed.lt_add_fee {effect : Effect R.State} (h : Executed R s m c r q record b effect)
    (hR : R.Pays s) : b < c.budget + effect.fee s := by
  rcases hR.charged with ⟨hsurcharge, hcost⟩ | ⟨htime, helapsed⟩
  · -- Every command costs a unit.
    have hle := h.left_le
    have hfee : effect.fee s = 1 := by
      cases effect with
      | delegated _ _ _ => exact hsurcharge
      | _ => exact hcost
    omega
  · -- The response has taken some time, and not all of the budget.
    have hr : 1 ≤ r.elapsed := helapsed _ _ _ _ _ _ h.respond
    have hleft := h.left
    have hpos := h.pos
    rw [Settings.afterResponse, htime] at hleft
    dsimp only at hleft
    omega

/-! ## Consultations -/

/-- A step keeps consultations paid for. -/
theorem paidFor_step (hR : R.Pays s) (h : m.step R s = .next m') (hm : m.PaidFor s before budget) :
    m'.PaidFor s before budget := by
  rw [PaidFor, unfinished] at hm ⊢
  cases rule_iff.2 h with
  | outOfBudget ha hb =>
    -- It need not cost anything, but a conversation comes to its end.
    have hrec := ha.size_record hR
    rw [ha.focus] at hm
    simp only [Focus.unfinished, Focus.held] at hm ⊢
    omega
  | shown hx hle =>
    have hrec := hx.size_record hR
    have hlt := hx.lt_add_fee hR
    obtain rfl := Command.spending_of_execute_shown hx.execute
    rw [hx.focus] at hm
    simp only [Focus.unfinished, Focus.held, Effect.fee] at hm hlt ⊢
    omega
  | ended hx hle =>
    have hrec := hx.size_record hR
    have hlt := hx.lt_add_fee hR
    obtain rfl := Command.spending_of_execute_ended hx.execute
    rw [hx.focus] at hm
    simp only [Focus.unfinished, Focus.held, Effect.fee] at hm hlt ⊢
    omega
  | asked hx hd =>
    -- The unit pays for this consultation and for the end of the new conversation.
    have hrec := hx.size_record hR
    have hlt := hx.lt_add_fee hR
    rw [hx.focus] at hm
    simp only [Focus.unfinished, Focus.held, Effect.fee, Parked.held, Parked.owed,
      List.length_cons] at hm hlt ⊢
    omega
  | settled hf hp hg hle =>
    rw [hf, hp] at hm
    simp only [Focus.unfinished, Focus.held, Parked.held, Parked.owed, List.length_cons] at hm ⊢
    omega

theorem paidFor_startAt (s : Settings) (n : Node R.State) (message : Message (Node R.State))
    (budget depth supply : Nat) (record : Record) :
    (R.startAt n message budget depth supply record).PaidFor s record.size budget :=
  Nat.le_of_eq (by simp [unfinished, Focus.unfinished, Focus.held, Parked.held, Parked.owed,
    Respondent.startAt])

/-- The last step consults at most once, and only if a conversation has not come to its
    answer. -/
theorem size_record_of_step_done {end_ : Run (Answer R.State)} (hR : R.Pays s)
    (h : m.step R s = .done end_) : end_.record.size ≤ m.record.size + m.unfinished := by
  rw [unfinished]
  cases rule_iff.2 h with
  | @failed c _ _ hf _ hr | @unavailable c _ _ hf _ hr =>
    have hsize := hR.once c.node.state ⟨s.render c.node c.message c.budget, c.budget⟩ m.record
    rw [hr] at hsize
    rw [hf, hsize]
    exact Nat.add_le_add_left (Nat.le_add_right _ _) _
  | misled ha _ _ =>
    rw [ha.size_record hR, ha.focus]
    exact Nat.add_le_add_left (Nat.le_add_right _ _) _
  | overspent hx _ | tooDeep hx _ =>
    rw [hx.size_record hR, hx.focus]
    exact Nat.add_le_add_left (Nat.le_add_right _ _) _
  | _ => exact Nat.le_add_right _ _

/-- A run takes no more consultations than its budget pays for. -/
theorem size_record_run_le {limit : Nat} (hs : s.askSurcharge ≤ 1) (hR : R.Pays s)
    (hb : m.Backed s limit) (hm : m.PaidFor s before budget) :
    (m.run R s).record.size ≤ before + (2 * budget + 1) := by
  obtain ⟨m', hr, hd⟩ := exists_reaches_done R s m
  obtain ⟨_, hbacks⟩ := (hr.keeps (fun _ _ => backed_step) hb).exists_backs
  have hpaid : m'.PaidFor s before budget := hr.keeps (fun _ _ => paidFor_step hR) hm
  -- What has to be settled is held, so all that is paid for is paid for by the budget.
  have howed := hbacks.owed_le hs
  have hlast := size_record_of_step_done hR hd
  rw [PaidFor] at hpaid
  omega

/-! ## Turns -/

/-- A step keeps the turns of conversations within what they have spent. -/
theorem measured_step (hR : R.Pays s) (h : m.step R s = .next m') (hm : m.Measured s budget) :
    m'.Measured s budget := by
  cases rule_iff.2 h with
  | outOfBudget ha hb =>
    refine ⟨fun _ hf => ?_, hm.parked⟩
    cases hf
  | shown hx hle =>
    have hc := hm.asking _ hx.focus
    have hlt := hx.lt_add_fee hR
    obtain rfl := Command.spending_of_execute_shown hx.execute
    refine ⟨fun _ hf => ?_, hm.parked⟩
    cases hf
    simp only [Effect.fee] at hlt ⊢
    omega
  | ended hx hle =>
    refine ⟨fun _ hf => ?_, hm.parked⟩
    cases hf
  | asked hx hd =>
    have hc := hm.asking _ hx.focus
    have hlt := hx.lt_add_fee hR
    have hg := Nat.lt_of_lt_of_le hx.granted_lt hx.left_le
    refine ⟨fun _ hf => ?_, fun p hp => ?_⟩
    · cases hf
      dsimp only
      omega
    · rcases List.mem_cons.1 hp with rfl | hp
      · simp only [Effect.fee] at hlt ⊢
        omega
      · exact hm.parked p hp
  | @settled a p ps hf hp hg hle =>
    -- Now the question is charged, with what its answer has used.
    have hmem {p' : Parked R.State} (h : p' ∈ p :: ps) := hm.parked p' (hp ▸ h)
    have hle' := hmem List.mem_cons_self
    refine ⟨fun _ hf => ?_, fun p' hp' => hmem (List.mem_cons_of_mem _ hp')⟩
    cases hf
    dsimp only
    omega

theorem measured_startAt (s : Settings) (n : Node R.State) (message : Message (Node R.State))
    (budget depth supply : Nat) (record : Record) :
    (R.startAt n message budget depth supply record).Measured s budget where
  asking c hf := by
    cases hf
    exact Nat.le_of_eq (Nat.zero_add _)
  parked _ hp := nomatch hp

/-- No conversation takes a turn too many, as long as there are more turns than units, unless it
    is the respondent that says so. -/
theorem ne_tooManyTurns_of_step {end_ : Run (Answer R.State)}
    (hR : ∀ q o e, (R.respond q o m.record).1 ≠ .failed e) (hm : m.Measured s budget)
    (hb : budget < s.maxTurns) (h : m.step R s = .done end_) (turns bound : Nat) :
    end_.outcome ≠ .failed (.tooManyTurns turns bound) := by
  intro ho
  cases rule_iff.2 h with
  | noTurn hf ht =>
    have hc := hm.asking _ hf
    omega
  | failed hf ht hr => exact hR _ _ _ (congrArg Prod.fst hr)
  | misled ha hb' he =>
    cases ho
    cases Command.cited_of_execute he
  | _ => cases ho

end Machine

/-- If every turn is charged, an inquiry by a policy, or an oracle, with a budget of `b` takes at
    most `2 * b + 1` consultations in all its conversations, whatever it comes to. It does not
    fail because of too many turns if more than `b` are allowed. -/
theorem Respondent.inquire_charged (oracle : Oracle) (history : Transcript) (s : Settings)
    (root : String) (budget : Nat) (record : Record) (hs : s.ChargesTurns oracle) :
    let run := (ofOracle oracle history).inquire s root budget record
    run.record.size ≤ record.size + (2 * budget + 1) ∧
      (budget < s.maxTurns → ∀ turns limit,
        run.outcome ≠ .failed (.tooManyTurns turns limit)) := by
  intro run
  have hR := hs.pays history
  constructor
  · by_cases hvalid : s.Valid
    · have hrun : run = _ := inquire_of_valid hvalid
      rw [hrun]
      exact Machine.size_record_run_le hvalid.askSurcharge hR
        (Machine.backed_startAt _ _ budget 0 1 record)
        (Machine.paidFor_startAt s _ _ budget 0 1 record)
    · obtain ⟨p, hp⟩ :=
        exists_inquire_of_not_valid (ofOracle oracle history) root budget record hvalid
      have hrun : run = _ := hp
      rw [hrun]
      exact Nat.le_add_right _ _
  · intro hb turns limit h
    rcases exists_of_inquire_eq_failed h with ⟨-, p, he⟩ | ⟨-, m, r, hr, hd, ho⟩
    · cases he
    · have hm : m.Measured s budget := hr.keeps (fun _ _ => Machine.measured_step hR)
        (Machine.measured_startAt s _ _ budget 0 1 record)
      exact Machine.ne_tooManyTurns_of_step
        (fun q o e => respond_ofOracle_ne_failed oracle history q o m.record e) hm hb hd
        turns limit ho

/-- Whoever asks on and on, and leaves nothing to those asked, is consulted as often as can be:
    with a budget of 3, seven times. -/
theorem Respondent.inquire_charged_asksOn :
    let s : Settings := { askSurcharge := 1, commandCost := 1 }
    let oracle : Oracle := fun _ _ => some ⟨"ask$0 why", 0⟩
    let run := (ofOracle oracle .empty).inquire s "?" 3 #[]
    s.ChargesTurns oracle ∧ run.record.size = 2 * 3 + 1 ∧
      run.record.size ≤ Array.size (#[] : Record) + (2 * 3 + 1) ∧
      (3 < s.maxTurns → ∀ turns limit, run.outcome ≠ .failed (.tooManyTurns turns limit)) := by
  intro s oracle run
  have hs : s.ChargesTurns oracle := .inl ⟨rfl, rfl⟩
  have hsize : run.record.size = 2 * 3 + 1 := by decide +kernel
  exact ⟨hs, hsize, inquire_charged oracle .empty s "?" 3 #[] hs⟩

end Inquiry
