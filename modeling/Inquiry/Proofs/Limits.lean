import Inquiry.Proofs.Knowledge

/-!
# Raising the limits

The limits on depth and on turns cut inquiries off and do nothing else: no budget, no
text and no command depends on them. So if they are raised, a step is the same as
before, except for the one at which a limit was met. An inquiry that
does not end there is the same with raised limits, consultation by consultation; one
that does has only more consultations with them.

* `Machine.step_of_raises`: the steps of a machine whose limits are raised;
* `Respondent.inquire_of_raises`: what becomes of an inquiry.
-/

namespace Inquiry

/-- An inquiry is cut off at a limit. -/
inductive Failure.CutOff : Failure → Prop
  | tooDeep (depth limit : Nat) : CutOff (.tooDeep depth limit)
  | tooManyTurns (turns limit : Nat) : CutOff (.tooManyTurns turns limit)

namespace Settings

/-- The settings differ from the others in nothing but the limits on depth and on turns, which
    are no lower. -/
structure Raises (t s : Settings) : Prop where
  accounting : t.accounting = s.accounting
  defaultFraction : t.defaultFraction = s.defaultFraction
  askSurcharge : t.askSurcharge = s.askSurcharge
  commandCost : t.commandCost = s.commandCost
  maxDepth : s.maxDepth ≤ t.maxDepth
  maxTurns : s.maxTurns ≤ t.maxTurns

namespace Raises

variable {s t : Settings} {σ : Type}

theorem valid (h : t.Raises s) (hs : s.Valid) : t.Valid where
  defaultFraction := h.defaultFraction ▸ hs.defaultFraction
  askSurcharge := h.askSurcharge ▸ hs.askSurcharge
  commandCost := h.commandCost ▸ hs.commandCost
  maxDepth := Nat.le_trans hs.maxDepth h.maxDepth
  maxTurns := Nat.le_trans hs.maxTurns h.maxTurns

theorem render_eq (h : t.Raises s) (n : Node σ) (m : Message (Node σ)) (budget : Nat) :
    t.render n m budget = s.render n m budget := by
  rw [render, render, h.accounting]

theorem afterResponse_eq (h : t.Raises s) (budget : Nat) (r : Response) :
    t.afterResponse budget r = s.afterResponse budget r := by
  rw [afterResponse, afterResponse, h.accounting]

theorem execute_eq (h : t.Raises s) (serial : Nat) (c : Command (Node σ)) (n : Node σ)
    (budget : Nat) : c.execute t serial n budget = c.execute s serial n budget := by
  cases c with
  | ask m options =>
    simp only [Command.execute, Node.ask, grant, h.defaultFraction]
  | _ => simp only [Command.execute, h.commandCost]

end Raises

end Settings

namespace Machine

variable {R : Respondent} {s t : Settings} {m : Machine R.State}

theorem Answered.raise {c : Conversation R.State} {r : Response} {q : R.State} {record : Record}
    (ha : Answered R s m c r q record) (h : t.Raises s) : Answered R t m c r q record where
  focus := ha.focus
  turns := Nat.lt_of_lt_of_le ha.turns h.maxTurns
  respond := by
    rw [h.render_eq]
    exact ha.respond

theorem Executed.raise {c : Conversation R.State} {r : Response} {q : R.State} {record : Record}
    {b : Nat} {effect : Effect R.State} (hx : Executed R s m c r q record b effect)
    (h : t.Raises s) : Executed R t m c r q record b effect where
  toAnswered := hx.toAnswered.raise h
  left := by
    rw [h.afterResponse_eq]
    exact hx.left
  pos := hx.pos
  execute := by
    rw [h.execute_eq]
    exact hx.execute

/-- With raised limits a step is the same, unless it was cut off. -/
theorem step_of_raises (hR : R.Adds) (h : t.Raises s) (m : Machine R.State) :
    m.step R t = m.step R s ∨ ∃ run e, m.step R s = .done run ∧ run.outcome = .failed e ∧
      e.CutOff ∧ run.record.toList <+: (m.step R t).view.2.toList := by
  have hrule := rule_step R s m
  generalize m.step R s = st at hrule
  cases hrule with
  | noTurn hf ht =>
    -- Nobody has been consulted in the step.
    exact .inr ⟨_, _, rfl, rfl, .tooManyTurns _ _, isPrefix_record_step hR t m⟩
  | failed hf ht hr =>
    rw [← h.render_eq] at hr
    exact .inl (Rule.failed hf (Nat.lt_of_lt_of_le ht h.maxTurns) hr).step_eq
  | unavailable hf ht hr =>
    rw [← h.render_eq] at hr
    exact .inl (Rule.unavailable hf (Nat.lt_of_lt_of_le ht h.maxTurns) hr).step_eq
  | outOfBudget ha hb =>
    rw [← h.afterResponse_eq] at hb
    exact .inl (Rule.outOfBudget (ha.raise h) hb).step_eq
  | misled ha hb he =>
    rw [← h.afterResponse_eq] at hb
    rw [← h.afterResponse_eq, ← h.execute_eq] at he
    exact .inl (Rule.misled (ha.raise h) hb he).step_eq
  | overspent hx hs => exact .inl (Rule.overspent (hx.raise h) hs).step_eq
  | shown hx hs => exact .inl (Rule.shown (hx.raise h) hs).step_eq
  | ended hx hs => exact .inl (Rule.ended (hx.raise h) hs).step_eq
  | @tooDeep c r q record _ _ _ _ hx hd =>
    -- The respondent has been consulted on the same transcript.
    refine .inr ⟨_, _, rfl, rfl, .tooDeep _ _, ?_⟩
    have ha := hx.toAnswered.raise h
    rw [view_step ha.focus ha.turns, ha.respond]
    exact List.prefix_rfl
  | asked hx hd => exact .inl (Rule.asked (hx.raise h) (Nat.le_trans hd h.maxDepth)).step_eq
  | concluded hf hp => exact .inl (Rule.concluded hf hp).step_eq
  | overdrawn hf hp hg => exact .inl (Rule.overdrawn hf hp hg).step_eq
  | overcharged hf hp hg hs =>
    rw [← h.askSurcharge] at hs ⊢
    exact .inl (Rule.overcharged hf hp hg hs).step_eq
  | settled hf hp hg hs =>
    rw [← h.askSurcharge] at hs ⊢
    exact .inl (Rule.settled hf hp hg hs).step_eq

/-- With raised limits a run is the same, unless it was cut off. -/
theorem run_of_raises (hR : R.Adds) (h : t.Raises s) (m : Machine R.State) :
    m.run R t = m.run R s ∨ ∃ e, (m.run R s).outcome = .failed e ∧ e.CutOff ∧
      (m.run R s).record.toList <+: (m.run R t).record.toList := by
  induction m using runInduct (R := R) (s := s) with
  | next m m' hst ih =>
    rcases step_of_raises hR h m with heq | ⟨_, _, hd, -⟩
    · rw [run_of_step_next hst, run_of_step_next (heq.trans hst)]
      exact ih
    · rw [hst] at hd
      cases hd
  | done m r hst =>
    rcases step_of_raises hR h m with heq | ⟨r', e, hd, ho, he, hrec⟩
    · exact .inl (run_of_step_done (heq.trans hst) ▸ (run_of_step_done hst).symm)
    · rw [run_of_step_done hd]
      exact .inr ⟨e, ho, he, hrec.trans (isPrefix_record_run hR t m)⟩

end Machine

namespace Respondent

theorem adds_ofOracle (oracle : Oracle) (history : Transcript) :
    (ofOracle oracle history).Adds := by
  intro q o record
  have hr := record_respond_ofOracle oracle history q o record
  rw [show ((ofOracle oracle history).respond q o record).2 = _ from hr, Array.toList_push]
  exact List.prefix_append _ _

/-- If the limits are raised, an inquiry by a policy, or an oracle, that is not cut off is the
    same, with the same consultations. One that is cut off goes through the same
    consultations up to there. -/
theorem inquire_of_raises (oracle : Oracle) (history : Transcript) {s t : Settings}
    (hs : s.Valid) (ht : t.Raises s) (root : String) (budget : Nat) (record : Record) :
    let run (s : Settings) := (ofOracle oracle history).inquire s root budget record
    ((∀ depth limit, (run s).outcome ≠ .failed (.tooDeep depth limit)) →
      (∀ turns limit, (run s).outcome ≠ .failed (.tooManyTurns turns limit)) →
      run t = run s) ∧
    (run s).record.toList <+: (run t).record.toList := by
  intro run
  have hrun : ∀ s : Settings, s.Valid → run s = _ := fun s hs => inquire_of_valid hs
  rw [hrun s hs, hrun t (ht.valid hs)]
  rcases Machine.run_of_raises (adds_ofOracle oracle history) ht
    (startAt (ofOracle oracle history) (.root 0 history) (Message.parse root) budget 0 1 record)
    with heq | ⟨e, ho, he, hrec⟩
  · exact ⟨fun _ _ => congrArg _ heq, heq ▸ List.prefix_rfl⟩
  · have hfailed := congrArg (Outcome.map (·.value.display)) ho
    refine ⟨fun hdepth hturns => ?_, hrec⟩
    cases he with
    | tooDeep depth limit => exact absurd hfailed (hdepth depth limit)
    | tooManyTurns turns limit => exact absurd hfailed (hturns turns limit)

/-- An answer in the third turn is the same if nine turns are allowed. If two are, the inquiry is
    cut off after the first two consultations. -/
theorem inquire_of_raises_thirdTurn :
    let oracle : Oracle := fun record _ =>
      if record.size < 2 then some ⟨"note x", 0⟩ else some ⟨"reply done", 0⟩
    let run (s : Settings) := (ofOracle oracle .empty).inquire s "?" 5 #[]
    let s (turns : Nat) : Settings := { maxTurns := turns }
    (s 9).Raises (s 3) ∧ (run (s 3)).outcome = .ready "done" ∧ run (s 9) = run (s 3) ∧
      (s 9).Raises (s 2) ∧ (run (s 2)).outcome = .failed (.tooManyTurns 2 2) ∧
      (run (s 2)).record.toList <+: (run (s 9)).record.toList := by
  intro oracle run s
  have hraises (k : Nat) (hk : k ≤ 9) : (s 9).Raises (s k) :=
    ⟨rfl, rfl, rfl, rfl, Nat.le_refl _, hk⟩
  have h3 : (run (s 3)).outcome.value? = some "done" := by decide +kernel
  have h3 : (run (s 3)).outcome = .ready "done" := Outcome.value?_eq_some_iff.1 h3
  have h2 : (run (s 2)).outcome.failure? = some (.tooManyTurns 2 2) := by decide +kernel
  refine ⟨hraises 3 (by decide), h3, ?_, hraises 2 (by decide),
    Outcome.failure?_eq_some_iff.1 h2, ?_⟩
  · refine (inquire_of_raises oracle .empty (by decide) (hraises 3 (by decide)) "?" 5 #[]).1
      (fun _ _ h => ?_) (fun _ _ h => ?_)
    · cases h3.symm.trans h
    · cases h3.symm.trans h
  · exact (inquire_of_raises oracle .empty (by decide) (hraises 2 (by decide)) "?" 5 #[]).2

end Respondent

end Inquiry
