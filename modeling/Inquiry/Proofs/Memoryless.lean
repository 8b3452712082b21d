import Inquiry.Machine.Map
import Inquiry.Proofs.Knowledge
import Inquiry.Respondent.Budgeted

/-!
# An inquiry behind an inquiry has no memory

A respondent that puts every observation to an inquiry of its own starts that inquiry
over each time. With a policy behind it, it can only say what the policy leads to from
the text at hand. So there is a policy that says the same, from the last observation
alone (`Policy.afresh`), and whoever follows it instead cannot be told from the
inquiry: not by what is shown to it, and not by what comes of it.

The two respondents have different states. The inquiry keeps none, while whoever
follows the policy keeps a transcript, in every node, also in those that channels lead
to. But nothing that is done with a node depends on these states, and no inquiry
depends on what has been recorded before it.

* `Respondent.alike_answerAfresh`: inquiries do not depend on the record;
* `Respondent.lastObservations_inquire`: what an inquiry shows is what is recorded;
* `Respondent.inquire_budgeted`: the inquiry behind another one and its policy come to
  the same.
-/

namespace Inquiry

namespace Outcome.Alike

/-- What is displayed in the end is the same, whatever the states are. -/
theorem display {σ τ : Type} {f : σ → τ} {o : Outcome (Answer σ)} {o' : Outcome (Answer τ)}
    (h : Alike (Answer.map f) o o') :
    Alike id (o.map (·.value.display)) (o'.map (·.value.display)) := by
  cases h with
  | ready a =>
    have hdisplay : (a.map f).value.display = a.value.display :=
      Message.display_map (Node.map f) a.value
    rw [Outcome.map, Outcome.map, hdisplay]
    exact .ready a.value.display
  | suspended t t' => exact .suspended t t'
  | failed e => exact .failed e

/-- What is alike is not told apart by more than the transcript that waits. -/
theorem ends {α : Type} {o o' : Outcome α} (h : Alike id o o') :
    (∀ a, o = .ready a ↔ o' = .ready a) ∧ (∀ e, o = .failed e ↔ o' = .failed e) ∧
      ((∃ t, o = .suspended t) ↔ ∃ t, o' = .suspended t) := by
  cases h <;> simp

end Outcome.Alike

/-! ## Policies afresh -/

namespace Policy

/-- What an inquiry with the policy comes to for a text, with nothing said or recorded before. -/
def answerAfresh (p : Policy) (s : Settings) (budget : Nat) (text : String) : Outcome String :=
  ((Respondent.ofPolicy p .empty).converseAfresh s (Message.parse text) budget 0 #[]).outcome.map
    (·.value.display)

/-- The policy that puts the last observation to an inquiry of its own, and looks at nothing
    else. It has nothing to say if the inquiry has no answer. -/
def afresh (p : Policy) (s : Settings) (budget : Nat) : Policy := fun t => do
  let o ← t.observations.getLast?
  let text ← (p.answerAfresh s budget o.text).value?
  return ⟨text, 0⟩

theorem afresh_observed (p : Policy) (s : Settings) (budget : Nat) (t : Transcript)
    (o : Observation) : p.afresh s budget (t.observed o) =
      (p.answerAfresh s budget o.text).value?.map fun text => ⟨text, 0⟩ := by
  rw [afresh, Transcript.observed, List.getLast?_concat]
  simp only [Option.bind_eq_bind, Option.bind_some, Option.pure_def]
  cases (p.answerAfresh s budget o.text).value? <;> rfl

end Policy

namespace Respondent

/-- Whoever follows a policy does not look at the record. -/
theorem alike_respond_ofPolicy (p : Policy) (q : Transcript) (o : Observation)
    (before before' : Record) :
    Turn.Alike id ((ofPolicy p .empty).respond q o before).1
      ((ofPolicy p .empty).respond q o before').1 := by
  change Turn.Alike id ((ofOracle p.toOracle .empty).respond q o before).1
    ((ofOracle p.toOracle .empty).respond q o before').1
  rcases hp : p (q.observed o) with _ | r
  · rw [respond_ofOracle_of_eq_none .empty hp, respond_ofOracle_of_eq_none .empty hp]
    exact .unavailable _ _
  · rw [respond_ofOracle_of_eq_some .empty hp, respond_ofOracle_of_eq_some .empty hp]
    exact .answered r _

/-- What an inquiry comes to does not depend on what is recorded before. -/
theorem alike_answerAfresh (p : Policy) (s : Settings) (budget : Nat) (text : String)
    (record : Record) :
    Outcome.Alike id (p.answerAfresh s budget text)
      (((ofPolicy p .empty).converseAfresh s (Message.parse text) budget 0 record).outcome.map
        (·.value.display)) := by
  exact (alike_converseAfresh id rfl s text budget #[] record
    fun o _ q before before' => alike_respond_ofPolicy p q o before before').2.display

/-- The inquiry and its policy make the same of what is shown, unless the inquiry fails. -/
theorem alike_respond_afresh (p : Policy) (s : Settings) (budget : Nat) {o : Observation}
    (ho : ∀ e, p.answerAfresh s budget o.text ≠ .failed e) (q : Transcript)
    (before before' : Record) :
    Turn.Alike (fun _ => ()) ((ofPolicy (p.afresh s budget) .empty).respond q o before).1
      (((ofPolicy p .empty).budgeted s budget).respond () o before').1 := by
  have h := alike_answerAfresh p s budget o.text before'
  have hafresh := p.afresh_observed s budget q o
  change Turn.Alike _ ((ofOracle (p.afresh s budget).toOracle .empty).respond q o before).1
    (Outcome.toTurn (((ofPolicy p .empty).converseAfresh s (Message.parse o.text) budget 0
      before').outcome.map (·.value.display)))
  generalize p.answerAfresh s budget o.text = x at h ho hafresh
  generalize ((ofPolicy p .empty).converseAfresh s (Message.parse o.text) budget 0
    before').outcome.map (·.value.display) = y at h
  cases h with
  | ready text =>
    rw [respond_ofOracle_of_eq_some .empty hafresh]
    exact .answered ⟨text, 0⟩ _
  | suspended t t' =>
    rw [respond_ofOracle_of_eq_none .empty hafresh]
    exact .unavailable _ t'
  | failed e => exact absurd rfl (ho e)

/-! ## Inquiries -/

/-- All that an inquiry shows, one observation after the other. Nothing is shown if the settings
    are not valid. -/
def shown (R : Respondent) (s : Settings) (root : String) (budget : Nat) (record : Record) :
    List Observation :=
  if s.Valid then
    (R.startAt (.root 0 R.start) (Message.parse root) budget 0 1 record).shown R s
  else []

end Respondent

/-- What was shown last in each consultation. -/
def Record.lastObservations (record : Record) : List (Option Observation) :=
  record.toList.map (·.transcript.observations.getLast?)

theorem Record.lastObservations_push (record : Record) (t : Transcript) (o : Observation)
    (d : Option Response) :
    Record.lastObservations (record.push ⟨t.observed o, d⟩) =
      record.lastObservations ++ [some o] := by
  rw [lastObservations, Array.toList_push, List.map_append, List.map_singleton,
    Transcript.observed, List.getLast?_concat]
  rfl

namespace Machine

variable {oracle : Oracle} {history : Transcript}

/-- A step records what it shows. -/
theorem lastObservations_step (s : Settings)
    (m : Machine (Respondent.ofOracle oracle history).State) :
    Record.lastObservations (m.step _ s).view.2 =
      m.record.lastObservations ++ (m.observation? s).toList.map some := by
  rcases hf : m.focus with c | a
  · by_cases ht : s.maxTurns ≤ c.turns
    · rw [(Rule.noTurn hf ht).step_eq, observation?, hf]
      dsimp only
      rw [if_neg (Nat.not_lt.2 ht)]
      exact (List.append_nil _).symm
    · have ht : c.turns < s.maxTurns := Nat.lt_of_not_le ht
      rw [view_step hf ht, observation?_eq_some hf ht]
      have hrecord := Respondent.record_respond_ofOracle oracle history c.node.state
        ⟨s.render c.node c.message c.budget, c.budget⟩ m.record
      exact (congrArg Record.lastObservations hrecord).trans (Record.lastObservations_push ..)
  · rw [step_eq_deliver hf, view_deliver, observation?, hf]
    exact (List.append_nil _).symm

theorem lastObservations_run (s : Settings)
    (m : Machine (Respondent.ofOracle oracle history).State) :
    (m.run _ s).record.lastObservations =
      m.record.lastObservations ++ (m.shown _ s).map some := by
  induction m using runInduct (R := .ofOracle oracle history) (s := s) with
  | next m m' hst ih =>
    have hstep := lastObservations_step s m
    rw [hst] at hstep
    rw [run_of_step_next hst, shown_of_step_next hst, ih, List.map_append, ← List.append_assoc]
    exact congrArg (· ++ _) hstep
  | done m r hst =>
    have hstep := lastObservations_step s m
    rw [hst] at hstep
    rw [run_of_step_done hst, shown_of_step_done hst]
    exact hstep

end Machine

namespace Respondent

/-- For whoever follows an oracle, an observation that is shown is the last one in a transcript
    that is consulted on. -/
theorem lastObservations_inquire (oracle : Oracle) (history : Transcript) (s : Settings)
    (root : String) (budget : Nat) (record : Record) :
    ((ofOracle oracle history).inquire s root budget record).record.lastObservations =
      record.lastObservations ++
        ((ofOracle oracle history).shown s root budget record).map some := by
  by_cases hs : s.Valid
  · rw [inquire_of_valid hs, shown, if_pos hs]
    exact Machine.lastObservations_run ..
  · obtain ⟨p, hp⟩ := exists_inquire_of_not_valid (ofOracle oracle history) root budget record hs
    rw [hp, shown, if_neg hs, List.map_nil, List.append_nil]

/-- A respondent that is an inquiry with a policy behind it is as good as the policy that looks at
    the last observation alone and puts it to an inquiry of its own: as long as no such inquiry
    fails, the same is shown to both, and what is asked of them comes to the same text, fails for
    the same reason or is suspended with both. The policy is consulted on what is shown to it, one
    after the other. -/
theorem inquire_budgeted (p : Policy) (inner : Settings) (innerBudget : Nat) (s : Settings)
    (root : String) (budget : Nat) (record record' : Record) :
    let R := (ofPolicy p .empty).budgeted inner innerBudget
    let Q := ofPolicy (p.afresh inner innerBudget) .empty
    (∀ o ∈ R.shown s root budget record, ∀ e,
      p.answerAfresh inner innerBudget o.text ≠ .failed e) →
    (Q.inquire s root budget record').record.lastObservations =
        record'.lastObservations ++ (Q.shown s root budget record').map some ∧
      R.shown s root budget record = Q.shown s root budget record' ∧
      (∀ text, (R.inquire s root budget record).outcome = .ready text ↔
        (Q.inquire s root budget record').outcome = .ready text) ∧
      (∀ e, (R.inquire s root budget record).outcome = .failed e ↔
        (Q.inquire s root budget record').outcome = .failed e) ∧
      ((∃ t, (R.inquire s root budget record).outcome = .suspended t) ↔
        ∃ t, (Q.inquire s root budget record').outcome = .suspended t) := by
  intro R Q hok
  refine ⟨lastObservations_inquire .., ?_⟩
  by_cases hs : s.Valid
  · rw [shown, if_pos hs] at hok
    have hsame : ∀ o ∈ (R.startAt (.root 0 R.start) (Message.parse root) budget 0 1
        record).shown R s, ∀ q before before',
        Turn.Alike (fun _ => ()) (Q.respond q o before).1 (R.respond () o before').1 :=
      fun o ho q before before' =>
        alike_respond_afresh p inner innerBudget (hok o ho) q before before'
    obtain ⟨hshown, hend⟩ :=
      @alike_converseAfresh Q R (fun _ => ()) rfl s root budget record' record hsame
    rw [shown, shown, if_pos hs, if_pos hs, inquire, inquire, s.problem?_eq_none_iff.2 hs]
    obtain ⟨hready, hfailed, hsuspended⟩ := hend.display.ends
    exact ⟨hshown, fun text => (hready text).symm, fun e => (hfailed e).symm, hsuspended.symm⟩
  · obtain ⟨e, he⟩ := Option.ne_none_iff_exists'.1 (mt s.problem?_eq_none_iff.1 hs)
    rw [shown, shown, if_neg hs, if_neg hs, inquire, inquire, he]
    exact ⟨rfl, fun _ => .rfl, fun _ => .rfl, .rfl⟩

/-- Two questions, each put to an inquiry that has not seen the other one. -/
theorem inquire_budgeted_twice :
    let p : Policy := fun t =>
      if t.observations.head?.any (·.text.startsWith "q") then some ⟨"reply note step", 0⟩
      else some ⟨"reply reply done", 0⟩
    let R := (ofPolicy p .empty).budgeted {} 5
    let Q := ofPolicy (p.afresh {} 5) .empty
    R.shown {} "q" 10 #[] =
        [⟨"q\n[Remaining budget is 10]", 10⟩, ⟨"step\n[Remaining budget is 10]", 10⟩] ∧
      R.shown {} "q" 10 #[] = Q.shown {} "q" 10 #[] ∧
      (Q.inquire {} "q" 10 #[]).outcome = .ready "done" := by
  intro p R Q
  have hshown : R.shown {} "q" 10 #[] =
      [⟨"q\n[Remaining budget is 10]", 10⟩, ⟨"step\n[Remaining budget is 10]", 10⟩] := by
    decide +kernel
  have hok : ∀ o ∈ R.shown {} "q" 10 #[], ∀ e, p.answerAfresh {} 5 o.text ≠ .failed e := by
    have hnone : ∀ o ∈ R.shown {} "q" 10 #[], (p.answerAfresh {} 5 o.text).failure? = none := by
      decide +kernel
    intro o ho e he
    have h := hnone o ho
    rw [Outcome.failure?_eq_some_iff.2 he] at h
    cases h
  have hready : (R.inquire {} "q" 10 #[]).outcome.value? = some "done" := by decide +kernel
  obtain ⟨-, hsame, hends, -⟩ := inquire_budgeted p {} 5 {} "q" 10 #[] #[] hok
  exact ⟨hshown, hsame, (hends "done").1 (Outcome.value?_eq_some_iff.1 hready)⟩

end Respondent

end Inquiry
