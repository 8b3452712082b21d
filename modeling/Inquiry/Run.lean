import Inquiry.Machine.Weight

/-!
# Running inquiries

An inquiry is run by taking steps until it ends, which it always does: every
step makes the machine lighter.

* `Machine.run_of_step_next`, `Machine.run_of_step_done`: running goes on step
  by step;
* `Machine.runInduct`: induction along a run, from its end;
* `Machine.exists_reaches_done`: a run ends with a last step;
* `Respondent.inquire_of_valid`, `Respondent.exists_of_inquire_eq_ready`,
  `Respondent.exists_of_inquire_eq_failed`: what an inquiry comes to, and why it fails.
-/

namespace Inquiry

/-- Takes steps until the end. -/
def Machine.run (R : Respondent) (s : Settings) (m : Machine R.State) : Run (Answer R.State) :=
  match _h : m.step R s with
  | .next m' => m'.run R s
  | .done r => r
termination_by m.weight s
decreasing_by exact Machine.weight_step_lt ‹_›

namespace Machine

variable {R : Respondent} {s : Settings}

theorem run_of_step_next {m m' : Machine R.State} (h : m.step R s = .next m') :
    m.run R s = m'.run R s := by
  rw [run]
  split <;> simp_all

theorem run_of_step_done {m : Machine R.State} {r : Run (Answer R.State)}
    (h : m.step R s = .done r) : m.run R s = r := by
  rw [run]
  split <;> simp_all

/-- Induction along a run, from its end: what the last step has, and every step hands back from
    the state it leads to, all states have. -/
@[elab_as_elim]
theorem runInduct {motive : Machine R.State → Prop}
    (next : ∀ m m', m.step R s = .next m' → motive m' → motive m)
    (done : ∀ m r, m.step R s = .done r → motive m) (m : Machine R.State) : motive m := by
  generalize hw : m.weight s = w
  induction w using Nat.strongRecOn generalizing m with
  | ind w ih =>
    rcases hst : m.step R s with m' | r
    · exact next m m' hst (ih _ (hw ▸ weight_step_lt hst) m' rfl)
    · exact done m r hst

/-- A run ends with a step that is the last one. -/
theorem exists_reaches_done (R : Respondent) (s : Settings) (m : Machine R.State) :
    ∃ m', Reaches R s m m' ∧ m'.step R s = .done (m.run R s) := by
  induction m using runInduct (R := R) (s := s) with
  | next m m' hst ih =>
    obtain ⟨m'', hr, hd⟩ := ih
    exact ⟨m'', .step hst hr, run_of_step_next hst ▸ hd⟩
  | done m r hst => exact ⟨m, .refl m, run_of_step_done hst ▸ hst⟩

end Machine

namespace Respondent

/-- The machine that starts by showing a message at a node. -/
def startAt (R : Respondent) (n : Node R.State) (m : Message (Node R.State))
    (budget depth supply : Nat) (record : Record) : Machine R.State where
  focus := .asking ⟨n, m, budget, depth, 0⟩
  parked := []
  supply
  record

/-- Shows a message at a node and carries the conversation to its end. Nodes that arise
    take serial numbers from `supply` on. -/
def converse (R : Respondent) (s : Settings) (n : Node R.State) (m : Message (Node R.State))
    (budget depth supply : Nat) (record : Record) : Run (Answer R.State) :=
  if s.maxDepth < depth then ⟨.failed (.tooDeep depth s.maxDepth), supply, record⟩
  else (R.startAt n m budget depth supply record).run R s

/-- Puts a message to the respondent at the root of a new tree. -/
def converseAfresh (R : Respondent) (s : Settings) (m : Message (Node R.State))
    (budget depth : Nat) (record : Record) : Run (Answer R.State) :=
  R.converse s (.root 0 R.start) m budget depth 1 record

end Respondent

/-- The value of an outcome that is there. -/
def Outcome.value? {α : Type} : Outcome α → Option α
  | .ready a => some a
  | _ => none

theorem Outcome.value?_eq_some_iff {α : Type} {o : Outcome α} {a : α} :
    o.value? = some a ↔ o = .ready a := by
  cases o <;> simp [value?]

/-- Why the outcome is a failure, if it is one. -/
def Outcome.failure? {α : Type} : Outcome α → Option Failure
  | .failed e => some e
  | _ => none

theorem Outcome.failure?_eq_some_iff {α : Type} {o : Outcome α} {e : Failure} :
    o.failure? = some e ↔ o = .failed e := by
  cases o <;> simp [failure?]

/-- The outcome with its value changed. -/
def Outcome.map {α β : Type} (f : α → β) : Outcome α → Outcome β
  | .ready a => .ready (f a)
  | .suspended t => .suspended t
  | .failed e => .failed e

theorem Outcome.eq_failed_of_map {α β : Type} {f : α → β} {o : Outcome α} {e : Failure}
    (h : o.map f = .failed e) : o = .failed e := by
  cases o with
  | failed e' =>
    cases h
    rfl
  | _ => cases h

/-- The run with its value changed. -/
def Run.map {α β : Type} (f : α → β) (r : Run α) : Run β :=
  { r with outcome := r.outcome.map f }

namespace Respondent

/-- Puts a text to the respondent, with a budget: the answer is the text of the last
    message. Nobody is asked anything if the settings are not valid. -/
def inquire (R : Respondent) (s : Settings) (root : String) (budget : Nat)
    (record : Record) : Run String :=
  match s.problem? with
  | some p => ⟨.failed (.settings p), 0, record⟩
  | none => (R.converseAfresh s (Message.parse root) budget 0 record).map (·.value.display)

/-! ### What inquiries come to -/

section

variable {R : Respondent} {s : Settings} {root : String} {budget : Nat} {record : Record}

/-- A conversation at the root is not nested too deep. -/
theorem converseAfresh_eq_run (m : Message (Node R.State)) :
    R.converseAfresh s m budget 0 record =
      (R.startAt (.root 0 R.start) m budget 0 1 record).run R s := by
  rw [converseAfresh, converse, if_neg (Nat.not_lt_zero _)]

theorem exists_inquire_of_not_valid (R : Respondent) (root : String) (budget : Nat)
    (record : Record) (h : ¬ s.Valid) :
    ∃ p, R.inquire s root budget record = ⟨.failed (.settings p), 0, record⟩ := by
  obtain ⟨p, hp⟩ := Option.ne_none_iff_exists'.1 (mt s.problem?_eq_none_iff.1 h)
  refine ⟨p, ?_⟩
  rw [inquire, hp]

theorem inquire_of_valid (h : s.Valid) :
    R.inquire s root budget record =
      ((R.startAt (.root 0 R.start) (Message.parse root) budget 0 1 record).run R s).map
        (·.value.display) := by
  rw [inquire, s.problem?_eq_none_iff.2 h, converseAfresh_eq_run]

/-- An inquiry fails because of its settings, or in a last step. -/
theorem exists_of_inquire_eq_failed {e : Failure}
    (h : (R.inquire s root budget record).outcome = .failed e) :
    (¬ s.Valid ∧ ∃ p, e = .settings p) ∨
      s.Valid ∧ ∃ m r, Machine.Reaches R s
        (R.startAt (.root 0 R.start) (Message.parse root) budget 0 1 record) m ∧
        m.step R s = .done r ∧ r.outcome = .failed e := by
  by_cases hs : s.Valid
  · rw [inquire_of_valid hs] at h
    obtain ⟨m, hr, hd⟩ := Machine.exists_reaches_done R s
      (R.startAt (.root 0 R.start) (Message.parse root) budget 0 1 record)
    exact .inr ⟨hs, m, _, hr, hd, Outcome.eq_failed_of_map h⟩
  · obtain ⟨p, hp⟩ := exists_inquire_of_not_valid R root budget record hs
    rw [hp] at h
    cases h
    exact .inl ⟨hs, p, rfl⟩

/-- What an inquiry comes to is the display of an answer that was in focus at the end. -/
theorem exists_of_inquire_eq_ready {text : String}
    (h : (R.inquire s root budget record).outcome = .ready text) :
    ∃ m a, Machine.Reaches R s
        (R.startAt (.root 0 R.start) (Message.parse root) budget 0 1 record) m ∧
      m.focus = .answered a ∧ text = a.value.display := by
  by_cases hs : s.Valid
  · rw [inquire_of_valid hs] at h
    obtain ⟨m, hr, hd⟩ := Machine.exists_reaches_done R s
      (R.startAt (.root 0 R.start) (Message.parse root) budget 0 1 record)
    generalize Machine.run R s _ = r at h hd
    cases Machine.rule_iff.2 hd with
    | concluded hf _ =>
      cases h
      exact ⟨m, _, hr, hf, rfl⟩
    | _ => cases h
  · obtain ⟨p, hp⟩ := exists_inquire_of_not_valid R root budget record hs
    rw [hp] at h
    cases h

end

/-- Puts a text to the respondent with default settings, and fails where it has nothing
    to say. -/
def inquireAtOnce (R : Respondent) (root : String) (budget : Nat) (record : Record) :
    Run String :=
  let r := R.inquire {} root budget record
  match r.outcome with
  | .suspended _ => { r with outcome := .failed .declined }
  | _ => r

end Respondent

end Inquiry
