import Inquiry.Machine.Rules

/-!
# Why inquiries end

Commands may be free, so budgets need not shrink, and turns start anew with
every question. What does shrink is the *weight* of a machine. A conversation
weighs as much as all it can still set going: every turn it has left may ask one
question, with a budget below its own, and the conversation asked has all its
turns before it. So the weight grows with the budget and, for a budget, with the
turns left; the weight of a machine is that of its focus and of all
conversations parked.

* `Machine.weight_step_lt`: every step makes the weight smaller.
-/

namespace Inquiry

/-- What one turn weighs with a given budget, if a conversation has `turns` turns. -/
def turnWeight (turns : Nat) : (budget : Nat) → Nat
  | 0 => 1
  | budget + 1 => turns * turnWeight turns budget + 3

theorem turnWeight_pos (turns budget : Nat) : 0 < turnWeight turns budget := by
  cases budget <;> simp [turnWeight]

theorem turnWeight_le_succ (turns budget : Nat) :
    turnWeight turns budget ≤ turnWeight turns (budget + 1) := by
  induction budget with
  | zero => simp [turnWeight]
  | succ budget ih =>
    have := Nat.mul_le_mul_left turns ih
    rw [turnWeight, turnWeight]
    omega

theorem turnWeight_mono {turns a b : Nat} (h : a ≤ b) :
    turnWeight turns a ≤ turnWeight turns b := by
  induction h with
  | refl => exact Nat.le_refl _
  | step _ ih => exact Nat.le_trans ih (turnWeight_le_succ _ _)

namespace Settings

/-- What a conversation weighs with a budget and after some turns. -/
def weight (s : Settings) (budget turns : Nat) : Nat :=
  (s.maxTurns - turns) * turnWeight s.maxTurns budget + 1

theorem weight_mono (s : Settings) {a b : Nat} (turns : Nat) (h : a ≤ b) :
    s.weight a turns ≤ s.weight b turns :=
  Nat.succ_le_succ (Nat.mul_le_mul_left _ (turnWeight_mono h))

theorem weight_eq_add (s : Settings) (budget : Nat) {turns : Nat} (ht : turns < s.maxTurns) :
    s.weight budget turns = s.weight budget (turns + 1) + turnWeight s.maxTurns budget := by
  have hs : s.maxTurns - turns = (s.maxTurns - (turns + 1)) + 1 := by omega
  rw [weight, weight, hs, Nat.succ_mul]
  omega

/-- A turn taken is weight lost. -/
theorem weight_turn_lt (s : Settings) {a b turns : Nat} (h : a ≤ b) (ht : turns < s.maxTurns) :
    s.weight a (turns + 1) < s.weight b turns := by
  have := s.weight_mono (turns + 1) h
  have := s.weight_eq_add b ht
  have := turnWeight_pos s.maxTurns b
  omega

/-- A turn taken outweighs a question with less budget. -/
theorem weight_ask_lt (s : Settings) {a b granted turns : Nat} (h : a ≤ b)
    (hg : granted < b) (ht : turns < s.maxTurns) :
    s.weight granted 0 + (s.weight a (turns + 1) + 1) < s.weight b turns := by
  obtain ⟨b, rfl⟩ : ∃ c, b = c + 1 := ⟨b - 1, by omega⟩
  have := s.weight_mono (turns + 1) h
  have := s.weight_mono 0 (Nat.le_of_lt_succ hg)
  have := s.weight_eq_add (b + 1) ht
  have : turnWeight s.maxTurns (b + 1) = s.maxTurns * turnWeight s.maxTurns b + 3 := rfl
  have : s.weight b 0 = s.maxTurns * turnWeight s.maxTurns b + 1 := rfl
  omega

end Settings

/-- What is in focus weighs: an answer weighs nothing. -/
def Focus.weight {σ : Type} (s : Settings) : Focus σ → Nat
  | .asking c => s.weight c.budget c.turns
  | .answered _ => 0

/-- What conversations weigh that wait. -/
def Parked.weight {σ : Type} (s : Settings) : List (Parked σ) → Nat
  | [] => 0
  | p :: ps => s.weight p.budget p.turns + 1 + Parked.weight s ps

/-- What a machine weighs. -/
def Machine.weight {σ : Type} (s : Settings) (m : Machine σ) : Nat :=
  m.focus.weight s + Parked.weight s m.parked

theorem Settings.afterResponse_le (s : Settings) (budget : Nat) (r : Response) :
    s.afterResponse budget r ≤ budget := by
  rw [afterResponse]
  cases s.accounting with
  | steps => exact Nat.le_refl _
  | time => exact Nat.sub_le _ _

namespace Machine

variable {R : Respondent} {s : Settings} {m m' : Machine R.State}

/-- What is left after a response is no more than there was. -/
theorem Executed.left_le {c : Conversation R.State} {r : Response} {q : R.State}
    {record : Record} {b : Nat} {effect : Effect R.State}
    (h : Executed R s m c r q record b effect) : b ≤ c.budget :=
  h.left ▸ s.afterResponse_le c.budget r

theorem Executed.granted_lt {c : Conversation R.State} {r : Response} {q : R.State}
    {record : Record} {b granted : Nat} {recipient : Node R.State}
    {message : Message (Node R.State)}
    (h : Executed R s m c r q record b (.delegated recipient message granted)) : granted < b :=
  Command.granted_lt h.pos h.execute

/-- Every step makes the weight smaller. -/
theorem weight_step_lt (h : m.step R s = .next m') : m'.weight s < m.weight s := by
  rw [weight, weight]
  cases rule_iff.2 h with
  | outOfBudget ha _ =>
    -- An answer weighs nothing.
    rw [ha.focus]
    exact Nat.add_lt_add_right (Nat.succ_pos _) _
  | shown hx _ =>
    rw [hx.focus]
    refine Nat.add_lt_add_right (s.weight_turn_lt ?_ hx.turns) _
    exact Nat.le_trans (Nat.sub_le _ _) hx.left_le
  | ended hx _ =>
    rw [hx.focus]
    exact Nat.add_lt_add_right (Nat.succ_pos _) _
  | asked hx _ =>
    rw [hx.focus]
    -- The turn taken outweighs the question and the turns that the asker has left.
    have hg := Nat.lt_of_lt_of_le hx.granted_lt hx.left_le
    have hlt := s.weight_ask_lt hx.left_le hg hx.turns
    simp only [Focus.weight, Parked.weight]
    omega
  | @settled a p ps hf hp _ _ =>
    rw [hf, hp]
    have hle := s.weight_mono p.turns
      (Nat.sub_le p.budget (p.granted - a.remaining + s.askSurcharge))
    simp only [Focus.weight, Parked.weight]
    omega

end Machine

end Inquiry
