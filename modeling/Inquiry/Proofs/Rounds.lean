import Inquiry.Run
import Inquiry.Respondent.Budgeted

/-!
# How many rounds an inquiry takes

A step of the machine is a round. Where the respondent is an inquiry itself, its
response takes rounds of its own, and they count as well: the machine ends after
a number of rounds (`Machine.Ends`) only if every response on the way is there
after a number of rounds (`Respondent.Toil`).

Commands may be free and responses may take no time, so neither budgets nor
turns bound the rounds. The weight of the machine does: with responses of at
most `b` rounds, a machine of weight `w` ends after at most `(w + 1) * (b + 1)`
rounds, and this is the bound for the responses of the next layer.

* `Machine.exists_ends`: a machine ends, if its respondent always does;
* `Respondent.converse_ends`: an inquiry ends, by whatever layers of inquiries
  it is answered, and so do the inquiries of all layers.
-/

namespace Inquiry

/-- After how many rounds of its own a respondent has made its response. -/
abbrev Respondent.Toil (R : Respondent) : Type :=
  R.State → Observation → Record → Nat → Prop

namespace Machine

variable {R : Respondent}

/-- A step waits for a response of `j` rounds, or for none. -/
def Waits (toil : R.Toil) (s : Settings) (m : Machine R.State) (j : Nat) : Prop :=
  match m.focus with
  | .asking c =>
    if s.maxTurns ≤ c.turns then j = 0
    else toil c.node.state ⟨s.render c.node c.message c.budget, c.budget⟩ m.record j
  | .answered _ => j = 0

/-- After `k` rounds, those of the responses included, the machine has come to its end. -/
inductive Ends (toil : R.Toil) (s : Settings) :
    Machine R.State → Nat → Run (Answer R.State) → Prop
  | done {m : Machine R.State} {j : Nat} {r : Run (Answer R.State)} (hj : Waits toil s m j)
      (h : m.step R s = .done r) : Ends toil s m (j + 1) r
  | next {m m' : Machine R.State} {j k : Nat} {r : Run (Answer R.State)}
      (hj : Waits toil s m j) (h : m.step R s = .next m') (hk : Ends toil s m' k r) :
    Ends toil s m (j + 1 + k) r

end Machine

namespace Respondent.Toil

variable {R : Respondent}

/-- A policy responds at once. -/
def atOnce (R : Respondent) : R.Toil := fun _ _ _ k => k = 0

/-- An inquiry responds when it has come to its end. -/
def budgeted (toil : R.Toil) (s : Settings) (budget : Nat) : (R.budgeted s budget).Toil :=
  fun _ o record k =>
    Machine.Ends toil s (R.startAt (.root 0 R.start) (Message.parse o.text) budget 0 1 record) k
      (R.converseAfresh s (Message.parse o.text) budget 0 record)

/-- The rounds of all layers. -/
def layered {R : Respondent} (toil : R.Toil) :
    (layers : List (Settings × Nat)) → (R.layered layers).Toil
  | [] => toil
  | l :: ls => (toil.budgeted l.1 l.2).layered ls

/-- The respondent always responds, after at most `b` rounds. -/
def Within (toil : R.Toil) (b : Nat) : Prop :=
  ∀ q o record, ∃ k ≤ b, toil q o record k

/-- How many rounds a response takes at most, behind some layers. -/
def bound (layers : List (Settings × Nat)) (b : Nat) : Nat :=
  layers.foldl (fun b l => (l.1.weight l.2 0 + 1) * (b + 1)) b

end Respondent.Toil

namespace Machine

variable {R : Respondent} {toil : R.Toil} {b : Nat}

theorem exists_waits (ht : toil.Within b) (s : Settings) (m : Machine R.State) :
    ∃ j ≤ b, Waits toil s m j := by
  rcases hf : m.focus with c | a
  · by_cases hn : s.maxTurns ≤ c.turns
    · refine ⟨0, Nat.zero_le _, ?_⟩
      rw [Waits, hf]
      dsimp only
      rw [if_pos hn]
    · obtain ⟨j, hj, hw⟩ := ht c.node.state
        ⟨s.render c.node c.message c.budget, c.budget⟩ m.record
      refine ⟨j, hj, ?_⟩
      rw [Waits, hf]
      dsimp only
      rw [if_neg hn]
      exact hw
  · refine ⟨0, Nat.zero_le _, ?_⟩
    rw [Waits, hf]

/-- A machine ends, if its respondent always does: it takes at most one round more than it
    weighs, and in each of them waits for one response at most. -/
theorem exists_ends (ht : toil.Within b) (s : Settings) (m : Machine R.State) :
    ∃ k ≤ (m.weight s + 1) * (b + 1), Ends toil s m k (m.run R s) := by
  generalize hw : m.weight s = w
  induction w using Nat.strongRecOn generalizing m with
  | ind w ih =>
    obtain ⟨j, hj, hjw⟩ := exists_waits ht s m
    rcases hst : m.step R s with m' | r
    · -- The step is one round besides those it waits for, and the rest is lighter.
      have hlt : m'.weight s < w := hw ▸ weight_step_lt hst
      obtain ⟨k, hk, he⟩ := ih _ hlt m' rfl
      refine ⟨j + 1 + k, ?_, run_of_step_next hst ▸ .next hjw hst he⟩
      calc j + 1 + k ≤ (b + 1) + (m'.weight s + 1) * (b + 1) := by omega
        _ ≤ (b + 1) + w * (b + 1) := by
          exact Nat.add_le_add_left (Nat.mul_le_mul_right _ hlt) _
        _ = (w + 1) * (b + 1) := by rw [Nat.succ_mul, Nat.add_comm]
    · refine ⟨j + 1, ?_, run_of_step_done hst ▸ .done hjw hst⟩
      calc j + 1 ≤ b + 1 := Nat.succ_le_succ hj
        _ ≤ (w + 1) * (b + 1) := Nat.le_mul_of_pos_left _ (Nat.succ_pos _)

end Machine

namespace Respondent

theorem Toil.within_budgeted {R : Respondent} {toil : R.Toil} {b : Nat} (ht : toil.Within b)
    (s : Settings) (budget : Nat) :
    (toil.budgeted s budget).Within ((s.weight budget 0 + 1) * (b + 1)) := by
  intro _ o record
  obtain ⟨k, hk, he⟩ := Machine.exists_ends ht s
    (R.startAt (.root 0 R.start) (Message.parse o.text) budget 0 1 record)
  refine ⟨k, hk, ?_⟩
  rw [budgeted, converseAfresh, converse, if_neg (Nat.not_lt_zero _)]
  exact he

theorem Toil.within_layered {R : Respondent} {toil : R.Toil} {b : Nat} (ht : toil.Within b)
    (layers : List (Settings × Nat)) : (toil.layered layers).Within (bound layers b) := by
  induction layers generalizing R b with
  | nil => exact ht
  | cons l ls ih => exact ih (within_budgeted ht l.1 l.2)

/-- An inquiry ends, and so do the inquiries that answer in it: it is nested too deep from the
    start, or it comes to its end after so many rounds that can be told beforehand. -/
theorem converse_ends (oracle : Oracle) (history : Transcript) (layers : List (Settings × Nat))
    (s : Settings) (n : Node ((ofOracle oracle history).layered layers).State)
    (m : Message (Node ((ofOracle oracle history).layered layers).State))
    (budget depth supply : Nat) (record : Record) :
    (s.maxDepth < depth ∧
      ((ofOracle oracle history).layered layers).converse s n m budget depth supply record =
        ⟨.failed (.tooDeep depth s.maxDepth), supply, record⟩) ∨
    ∃ k ≤ (s.weight budget 0 + 1) * (Toil.bound layers 0 + 1),
      Machine.Ends ((Toil.atOnce (ofOracle oracle history)).layered layers) s
        (((ofOracle oracle history).layered layers).startAt n m budget depth supply record) k
        (((ofOracle oracle history).layered layers).converse s n m budget depth supply record) := by
  by_cases hd : s.maxDepth < depth
  · refine .inl ⟨hd, ?_⟩
    rw [converse, if_pos hd]
  · have h0 : (Toil.atOnce (ofOracle oracle history)).Within 0 :=
      fun _ _ _ => ⟨0, Nat.le_refl _, rfl⟩
    rw [converse, if_neg hd]
    exact .inr (Machine.exists_ends (Toil.within_layered h0 layers) s
      (startAt _ n m budget depth supply record))

end Respondent

end Inquiry
