import Mathlib
import Inquiry.Proofs.Nesting

/-!
# Default shares

A question that does not say how much budget it hands on asks for the default share of
what its asker has left. What an asker has only falls, whatever of a share comes back: an
answer returns no more than was granted. So where no question says how much, a
conversation never has more than the default share of a default share of ..., taken once
for each question it is nested in (`Machine.Shares`).

Who asks has some budget, and if the default share is at most the half, halving is what
bounds the depth: a budget that fits a word can be halved 63 times before nothing is left
of it.

* `Machine.shares_step`, `Machine.Reaches.shares`: budgets are at most the shares, in
  every state;
* `Respondent.budget_le_div_pow`: what budgets are at most, and how deep questions nest.
-/

namespace Inquiry

/-- The budget that a command asks to hand on. -/
def Command.requested? {C : Type} : Command C → Option Nat
  | .ask _ options => options.budget
  | _ => none

/-- Whoever follows the oracle never says how much budget a question hands on. -/
def Oracle.AsksByDefault (oracle : Oracle) : Prop :=
  ∀ record t r, oracle record t = some r →
    (Command.parse r.text : Command (Node Transcript)).requested? = none

/-- The budget of a conversation is at most the default share, taken once for each question
    that it is nested in. -/
structure Machine.Shares {σ : Type} (s : Settings) (limit : Nat) (m : Machine σ) : Prop where
  asking : ∀ c, m.focus = .asking c → c.budget ≤ limit / s.defaultFraction ^ c.depth
  parked : ∀ p ∈ m.parked, p.budget ≤ limit / s.defaultFraction ^ p.depth

theorem Settings.grant_none_le_div_pow {s : Settings} {limit budget depth : Nat}
    (h : budget ≤ limit / s.defaultFraction ^ depth) :
    s.grant none budget ≤ limit / s.defaultFraction ^ (depth + 1) := by
  calc s.grant none budget
      ≤ budget / s.defaultFraction := Nat.min_le_left _ _
    _ ≤ limit / s.defaultFraction ^ depth / s.defaultFraction := Nat.div_le_div_right h
    _ = limit / s.defaultFraction ^ (depth + 1) := by rw [Nat.div_div_eq_div_mul, pow_succ]

/-- Something is only left at a depth below 64. -/
theorem Settings.depth_lt_of_pos {s : Settings} {limit budget depth : Nat}
    (hs : 2 ≤ s.defaultFraction) (hlimit : limit < Decimal.wordLimit) (hpos : 0 < budget)
    (h : budget ≤ limit / s.defaultFraction ^ depth) : depth < 64 := by
  have hpow : 2 ^ depth < 2 ^ 64 := by
    calc 2 ^ depth
        ≤ s.defaultFraction ^ depth := Nat.pow_le_pow_left hs depth
      _ ≤ limit := (Nat.div_pos_iff.1 (Nat.lt_of_lt_of_le hpos h)).2
      _ < 2 ^ 64 := hlimit
  exact (Nat.pow_lt_pow_iff_right (by decide)).1 hpow

namespace Machine

section

variable {oracle : Oracle} {history : Transcript} {s : Settings} {limit : Nat}
  {m m' : Machine (Respondent.ofOracle oracle history).State}

/-- A step keeps budgets within the shares. -/
theorem shares_step (hasks : oracle.AsksByDefault)
    (h : m.step (.ofOracle oracle history) s = .next m') (hm : m.Shares s limit) :
    m'.Shares s limit := by
  cases rule_iff.2 h with
  | outOfBudget ha hb => exact ⟨fun _ hf => (nomatch hf), hm.parked⟩
  | shown hx hs =>
    have hc := Nat.le_trans hx.left_le (hm.asking _ hx.focus)
    refine ⟨fun _ hf => ?_, hm.parked⟩
    cases hf
    exact Nat.le_trans (Nat.sub_le _ _) hc
  | ended hx hs => exact ⟨fun _ hf => (nomatch hf), hm.parked⟩
  | asked hx hd =>
    have hc := Nat.le_trans hx.left_le (hm.asking _ hx.focus)
    obtain ⟨_, options, hcommand, rfl⟩ := Command.granted_of_execute hx.execute
    have hasked : options.budget = none :=
      (congrArg Command.requested? hcommand).symm.trans
        (hasks _ _ _ (Respondent.eq_some_of_respond_ofOracle hx.respond).1)
    refine ⟨fun _ hf => ?_, List.forall_mem_cons.2 ⟨hc, hm.parked⟩⟩
    cases hf
    rw [hasked]
    exact Settings.grant_none_le_div_pow hc
  | @settled a p ps hf hp hg hs =>
    have hparked := hm.parked
    rw [hp] at hparked
    obtain ⟨hle, hparked⟩ := List.forall_mem_cons.1 hparked
    refine ⟨fun _ hf => ?_, hparked⟩
    cases hf
    exact Nat.le_trans (Nat.sub_le _ _) hle

theorem shares_startAt (R : Respondent) (s : Settings) (n : Node R.State)
    (message : Message (Node R.State)) (budget supply : Nat) (record : Record) :
    (R.startAt n message budget 0 supply record).Shares s budget where
  asking _ hf := by
    cases hf
    exact Nat.le_of_eq (by rw [pow_zero, Nat.div_one])
  parked := List.forall_mem_nil _

/-- In every state of a conversation that is nested in nothing, budgets are within the
    shares of the budget at the start. -/
theorem Reaches.shares {n : Node (Respondent.ofOracle oracle history).State}
    {message : Message (Node (Respondent.ofOracle oracle history).State)} {budget supply : Nat}
    {record : Record} (hasks : oracle.AsksByDefault)
    (h : Reaches (.ofOracle oracle history) s
      ((Respondent.ofOracle oracle history).startAt n message budget 0 supply record) m) :
    m.Shares s budget :=
  h.keeps (fun _ _ => shares_step hasks) (shares_startAt _ s n message budget supply record)

end

variable {R : Respondent} {s : Settings} {limit : Nat} {m : Machine R.State}

/-- No more than 64 conversations wait, as each of them has some budget. -/
theorem Shares.length_le {bound : Nat} (hs : 2 ≤ s.defaultFraction)
    (hlimit : limit < Decimal.wordLimit) (hm : m.Shares s limit) (hstacked : m.Stacked s)
    (hbacked : m.Backed s bound) : m.parked.length ≤ 64 := by
  obtain ⟨_, hbacks⟩ := hbacked.exists_backs
  have hparked := hstacked.parked
  have hshares := hm.parked
  rcases hp : m.parked with _ | ⟨p, ps⟩
  · exact Nat.zero_le _
  · rw [hp] at hbacks hparked hshares
    have hpos : 0 < p.budget := Nat.zero_lt_of_lt (hbacks.of_mem List.mem_cons_self).1
    have hdepth := Settings.depth_lt_of_pos hs hlimit hpos (hshares p List.mem_cons_self)
    rw [hparked.1] at hdepth
    exact hdepth

end Machine

/-- By an oracle that never says how much budget a question hands on, with a default share that is
    at most the half, and a budget that fits a word: in every state of the inquiry, a conversation
    has at most the budget at the start, divided by the default fraction once for each question
    it is nested in, and these are no more than 64. So questions do not nest too deep if the limit
    on depth is at least 64, as it is by default. -/
theorem Respondent.budget_le_div_pow {oracle : Oracle} (history : Transcript) {s : Settings}
    (root : String) {budget : Nat} (record : Record) (hasks : oracle.AsksByDefault)
    (hs : 2 ≤ s.defaultFraction) (hbudget : budget < Decimal.wordLimit) :
    (∀ m, Machine.Reaches (ofOracle oracle history) s
        ((ofOracle oracle history).startAt (.root 0 history) (Message.parse root) budget 0 1
          record) m →
      (∀ c, m.focus = .asking c →
        c.budget ≤ budget / s.defaultFraction ^ c.depth ∧ c.depth = m.parked.length) ∧
      (∀ p ∈ m.parked, p.budget ≤ budget / s.defaultFraction ^ p.depth) ∧
      m.parked.length ≤ 64) ∧
    (64 ≤ s.maxDepth → ∀ depth bound,
      ((ofOracle oracle history).inquire s root budget record).outcome ≠
        .failed (.tooDeep depth bound)) ∧
    64 ≤ ({} : Settings).maxDepth := by
  refine ⟨fun m hm => ?_, fun hmax depth bound h => ?_, by decide⟩
  · have hshares := hm.shares hasks
    have hstacked := hm.stacked
    exact ⟨fun c hf => ⟨hshares.asking c hf, hstacked.asking c hf⟩, hshares.parked,
      hshares.length_le hs hbudget hstacked hm.backed⟩
  · rcases exists_of_inquire_eq_failed h with ⟨-, p, he⟩ | ⟨-, m, r, hm, hd, ho⟩
    · cases he
    · obtain ⟨c, hf, hpos, hdepth⟩ := Machine.exists_of_step_tooDeep
        (fun q o e => respond_ofOracle_ne_failed oracle history q o m.record e) hd ho
      -- Who asks at the limit on depth has some budget, but below 64 nobody has.
      have hlt := Settings.depth_lt_of_pos hs hbudget hpos ((hm.shares hasks).asking c hf)
      omega

/-- The largest budget that fits a word, of which the half is asked for by default, does not take
    whoever asks on and on below a depth of 64. -/
theorem Respondent.budget_le_div_pow_asksOn :
    let oracle : Oracle := fun _ _ => some ⟨"ask why", 0⟩
    let s : Settings := { defaultFraction := 2, maxDepth := 64 }
    let budget := 18446744073709551615
    oracle.AsksByDefault ∧ budget < Decimal.wordLimit ∧
      ∀ depth bound, ((ofOracle oracle .empty).inquire s "?" budget #[]).outcome ≠
        .failed (.tooDeep depth bound) := by
  intro oracle s budget
  have hasks : oracle.AsksByDefault := by
    rintro _ _ _ ⟨rfl⟩
    decide +kernel
  have hbudget : budget < Decimal.wordLimit := by decide
  exact ⟨hasks, hbudget,
    (budget_le_div_pow .empty "?" #[] hasks (by decide) hbudget).2.1 (Nat.le_refl _)⟩

end Inquiry
