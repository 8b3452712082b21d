import Inquiry.Machine

/-!
# The rules of the machine

What a step can do, as rules: when a rule applies and what it leads to. In a
turn the respondent answers (`Machine.Answered`); if budget is left, the command
in its response has an effect (`Machine.Executed`), and the effect decides what
comes into focus. An answer is settled with the conversation parked last. There
is nothing else that a step can do, so what every rule keeps, every step keeps.

* `Machine.rule_iff`: the rules are those of `Machine.step`;
* `Machine.Reaches.keeps`: what every step keeps holds of all states on the way.
-/

namespace Inquiry

namespace Settings

variable {σ : Type} {s : Settings} {n : Node σ} {budget depth turns : Nat}
  {parked : List (Parked σ)}

theorem advance_overspent {effect : Effect σ} (h : budget < effect.spending) :
    s.advance n effect budget depth turns parked = .error (.overspent budget effect.spending) := by
  rw [advance, if_pos h]

theorem advance_shown {o : Message (Node σ)} {spending : Nat} (h : spending ≤ budget) :
    s.advance n (.shown o spending) budget depth turns parked =
      .ok (.asking ⟨n, o, budget - spending, depth, turns⟩, parked) := by
  rw [advance]
  exact if_neg (Nat.not_lt.2 h)

theorem advance_ended {value : Message (Node σ)} {spending : Nat} (h : spending ≤ budget) :
    s.advance n (.ended value spending) budget depth turns parked =
      .ok (.answered ⟨value, n, budget - spending⟩, parked) := by
  rw [advance]
  exact if_neg (Nat.not_lt.2 h)

theorem advance_tooDeep {recipient : Node σ} {message : Message (Node σ)} {granted : Nat}
    (h : s.maxDepth < depth + 1) :
    s.advance n (.delegated recipient message granted) budget depth turns parked =
      .error (.tooDeep (depth + 1) s.maxDepth) := by
  rw [advance]
  exact (if_neg (Nat.not_lt_zero _)).trans (if_pos h)

theorem advance_delegated {recipient : Node σ} {message : Message (Node σ)} {granted : Nat}
    (h : depth + 1 ≤ s.maxDepth) :
    s.advance n (.delegated recipient message granted) budget depth turns parked =
      .ok (.asking ⟨recipient, message, granted, depth + 1, 0⟩,
        ⟨n, budget, depth, turns, granted⟩ :: parked) := by
  rw [advance]
  exact (if_neg (Nat.not_lt_zero _)).trans (if_neg (Nat.not_lt.2 h))

end Settings

namespace Machine

/-! ## Rules -/

section

variable (R : Respondent) (s : Settings) (m : Machine R.State)

/-- The conversation `c` in focus takes a turn: its respondent says `r` and goes on from
    the state `q`, and `record` holds the consultations after it. -/
structure Answered (c : Conversation R.State) (r : Response) (q : R.State)
    (record : Record) : Prop where
  focus : m.focus = .asking c
  turns : c.turns < s.maxTurns
  respond : R.respond c.node.state ⟨s.render c.node c.message c.budget, c.budget⟩ m.record =
    (.answered r q, record)

variable {R} in
/-- The node that a turn leads to. -/
def successor (c : Conversation R.State) (q : R.State) : Node R.State :=
  c.node.successor m.supply c.message q

/-- A turn is answered and what it leaves of the budget, `b`, is not nothing, so the command
    in the response is executed and has an effect. -/
structure Executed (c : Conversation R.State) (r : Response) (q : R.State) (record : Record)
    (b : Nat) (effect : Effect R.State) : Prop extends Answered R s m c r q record where
  left : b = s.afterResponse c.budget r
  pos : 0 < b
  execute : (Command.parse r.text).execute s (m.supply + 1) (m.successor c q) b = .ok effect

/-- The steps of the machine. -/
inductive Rule : Step R.State → Prop
  /-- No turn is left. -/
  | noTurn {c : Conversation R.State} (hf : m.focus = .asking c) (ht : s.maxTurns ≤ c.turns) :
    Rule (.done ⟨.failed (.tooManyTurns c.turns s.maxTurns), m.supply, m.record⟩)
  /-- The respondent fails. -/
  | failed {c : Conversation R.State} {e : Failure} {record : Record}
      (hf : m.focus = .asking c) (ht : c.turns < s.maxTurns)
      (hr : R.respond c.node.state ⟨s.render c.node c.message c.budget, c.budget⟩ m.record =
        (.failed e, record)) :
    Rule (.done ⟨.failed e, m.supply, record⟩)
  /-- The respondent has nothing to say yet. -/
  | unavailable {c : Conversation R.State} {t : Transcript} {record : Record}
      (hf : m.focus = .asking c) (ht : c.turns < s.maxTurns)
      (hr : R.respond c.node.state ⟨s.render c.node c.message c.budget, c.budget⟩ m.record =
        (.unavailable t, record)) :
    Rule (.done ⟨.suspended t, m.supply, record⟩)
  /-- Out of budget, the response itself is the answer. -/
  | outOfBudget {c : Conversation R.State} {r : Response} {q : R.State} {record : Record}
      (ha : Answered R s m c r q record) (hb : s.afterResponse c.budget r = 0) :
    Rule (.next ⟨.answered ⟨Message.parse r.text, m.successor c q, 0⟩, m.parked,
      m.supply + 2, record⟩)
  /-- The command cites something that is not there. -/
  | misled {c : Conversation R.State} {r : Response} {q : R.State} {record : Record}
      {e : Failure} (ha : Answered R s m c r q record) (hb : 0 < s.afterResponse c.budget r)
      (he : (Command.parse r.text).execute s (m.supply + 1) (m.successor c q)
        (s.afterResponse c.budget r) = .error e) :
    Rule (.done ⟨.failed e, m.supply + 2, record⟩)
  /-- The command costs more than is left. -/
  | overspent {c : Conversation R.State} {r : Response} {q : R.State} {record : Record}
      {b : Nat} {effect : Effect R.State} (hx : Executed R s m c r q record b effect)
      (hs : b < effect.spending) :
    Rule (.done ⟨.failed (.overspent b effect.spending), m.supply + 2, record⟩)
  /-- An observation is shown next. -/
  | shown {c : Conversation R.State} {r : Response} {q : R.State} {record : Record} {b : Nat}
      {o : Message (Node R.State)} {spending : Nat}
      (hx : Executed R s m c r q record b (.shown o spending)) (hs : spending ≤ b) :
    Rule (.next ⟨.asking ⟨m.successor c q, o, b - spending, c.depth, c.turns + 1⟩, m.parked,
      m.supply + 2, record⟩)
  /-- The conversation has come to its answer. -/
  | ended {c : Conversation R.State} {r : Response} {q : R.State} {record : Record} {b : Nat}
      {value : Message (Node R.State)} {spending : Nat}
      (hx : Executed R s m c r q record b (.ended value spending)) (hs : spending ≤ b) :
    Rule (.next ⟨.answered ⟨value, m.successor c q, b - spending⟩, m.parked,
      m.supply + 2, record⟩)
  /-- A question nests too deep. -/
  | tooDeep {c : Conversation R.State} {r : Response} {q : R.State} {record : Record} {b : Nat}
      {recipient : Node R.State} {message : Message (Node R.State)} {granted : Nat}
      (hx : Executed R s m c r q record b (.delegated recipient message granted))
      (hd : s.maxDepth < c.depth + 1) :
    Rule (.done ⟨.failed (.tooDeep (c.depth + 1) s.maxDepth), m.supply + 2, record⟩)
  /-- A question is asked, and the conversation is parked. -/
  | asked {c : Conversation R.State} {r : Response} {q : R.State} {record : Record} {b : Nat}
      {recipient : Node R.State} {message : Message (Node R.State)} {granted : Nat}
      (hx : Executed R s m c r q record b (.delegated recipient message granted))
      (hd : c.depth + 1 ≤ s.maxDepth) :
    Rule (.next ⟨.asking ⟨recipient, message, granted, c.depth + 1, 0⟩,
      ⟨m.successor c q, b, c.depth, c.turns + 1, granted⟩ :: m.parked, m.supply + 2, record⟩)
  /-- The answer is the outcome. -/
  | concluded {a : Answer R.State} (hf : m.focus = .answered a) (hp : m.parked = []) :
    Rule (.done ⟨.ready a, m.supply, m.record⟩)
  /-- An answer has more budget left than was granted. -/
  | overdrawn {a : Answer R.State} {p : Parked R.State} {ps : List (Parked R.State)}
      (hf : m.focus = .answered a) (hp : m.parked = p :: ps) (hg : p.granted < a.remaining) :
    Rule (.done ⟨.failed (.overspent p.granted a.remaining), m.supply, m.record⟩)
  /-- An answer has used more than its asker holds. -/
  | overcharged {a : Answer R.State} {p : Parked R.State} {ps : List (Parked R.State)}
      (hf : m.focus = .answered a) (hp : m.parked = p :: ps) (hg : a.remaining ≤ p.granted)
      (hs : p.budget < p.granted - a.remaining + s.askSurcharge) :
    Rule (.done ⟨.failed (.overspent p.budget (p.granted - a.remaining + s.askSurcharge)),
      m.supply, m.record⟩)
  /-- An answer is settled and shown to its asker. -/
  | settled {a : Answer R.State} {p : Parked R.State} {ps : List (Parked R.State)}
      (hf : m.focus = .answered a) (hp : m.parked = p :: ps) (hg : a.remaining ≤ p.granted)
      (hs : p.granted - a.remaining + s.askSurcharge ≤ p.budget) :
    Rule (.next ⟨.asking ⟨p.node, .withSender a.node a.value,
      p.budget - (p.granted - a.remaining + s.askSurcharge), p.depth, p.turns⟩, ps,
      m.supply, m.record⟩)

end

variable {R : Respondent} {s : Settings} {m : Machine R.State} {st : Step R.State}

/-! ## What a rule says -/

theorem step_eq_turn {c : Conversation R.State} (hf : m.focus = .asking c) :
    m.step R s = m.turn R s c := by
  rw [step, hf]

theorem step_eq_deliver {a : Answer R.State} (hf : m.focus = .answered a) :
    m.step R s = m.deliver s a := by
  rw [step, hf]

theorem step_of_answered {c : Conversation R.State} {r : Response} {q : R.State}
    {record : Record} (h : Answered R s m c r q record) (hb : 0 < s.afterResponse c.budget r) :
    m.step R s = refocus ⟨m.focus, m.parked, m.supply + 2, record⟩ (do
      let effect ← (Command.parse r.text).execute s (m.supply + 1) (m.successor c q)
        (s.afterResponse c.budget r)
      s.advance (m.successor c q) effect (s.afterResponse c.budget r) c.depth (c.turns + 1)
        m.parked) := by
  rw [step_eq_turn h.focus, turn, if_neg (Nat.not_le.2 h.turns), h.respond]
  exact if_neg (Nat.ne_of_gt hb)

theorem step_of_executed {c : Conversation R.State} {r : Response} {q : R.State}
    {record : Record} {b : Nat} {effect : Effect R.State}
    (h : Executed R s m c r q record b effect) :
    m.step R s = refocus ⟨m.focus, m.parked, m.supply + 2, record⟩
      (s.advance (m.successor c q) effect b c.depth (c.turns + 1) m.parked) := by
  obtain ⟨ha, rfl, hb, he⟩ := h
  rw [step_of_answered ha hb, he]
  rfl

theorem step_of_parked {a : Answer R.State} {p : Parked R.State} {ps : List (Parked R.State)}
    (hf : m.focus = .answered a) (hp : m.parked = p :: ps) :
    m.step R s = m.refocus (do
      let effect ← a.settle s p.granted
      s.advance p.node effect p.budget p.depth p.turns ps) := by
  rw [step_eq_deliver hf, deliver, hp]

theorem step_of_settled {a : Answer R.State} {p : Parked R.State} {ps : List (Parked R.State)}
    (hf : m.focus = .answered a) (hp : m.parked = p :: ps) (hg : a.remaining ≤ p.granted) :
    m.step R s = m.refocus (s.advance p.node
      (.shown (.withSender a.node a.value) (p.granted - a.remaining + s.askSurcharge))
      p.budget p.depth p.turns ps) := by
  rw [step_of_parked hf hp, Answer.settle, if_neg (Nat.not_lt.2 hg)]
  rfl

/-- A step is what a rule says it is. -/
theorem Rule.step_eq (h : Rule R s m st) : m.step R s = st := by
  cases h with
  | noTurn hf ht => rw [step_eq_turn hf, turn, if_pos ht]
  | failed hf ht hr => rw [step_eq_turn hf, turn, if_neg (Nat.not_le.2 ht), hr]
  | unavailable hf ht hr => rw [step_eq_turn hf, turn, if_neg (Nat.not_le.2 ht), hr]
  | outOfBudget h hb =>
    rw [step_eq_turn h.focus, turn, if_neg (Nat.not_le.2 h.turns), h.respond]
    exact if_pos hb
  | misled h hb he => rw [step_of_answered h hb, he]; rfl
  | overspent h hs => rw [step_of_executed h, Settings.advance_overspent hs]; rfl
  | shown h hs => rw [step_of_executed h, Settings.advance_shown hs]; rfl
  | ended h hs => rw [step_of_executed h, Settings.advance_ended hs]; rfl
  | tooDeep h hd => rw [step_of_executed h, Settings.advance_tooDeep hd]; rfl
  | asked h hd => rw [step_of_executed h, Settings.advance_delegated hd]; rfl
  | concluded hf hp => rw [step_eq_deliver hf, deliver, hp]
  | overdrawn hf hp hg => rw [step_of_parked hf hp, Answer.settle, if_pos hg]; rfl
  | overcharged hf hp hg hs =>
    rw [step_of_settled hf hp hg, Settings.advance_overspent hs]
    rfl
  | settled hf hp hg hs =>
    rw [step_of_settled hf hp hg, Settings.advance_shown hs]
    rfl

/-! ## There are no other steps -/

theorem exists_rule_of_asking {c : Conversation R.State} (hf : m.focus = .asking c) :
    ∃ st, Rule R s m st := by
  by_cases ht : s.maxTurns ≤ c.turns
  · exact ⟨_, .noTurn hf ht⟩
  have ht : c.turns < s.maxTurns := Nat.lt_of_not_le ht
  rcases hr : R.respond c.node.state ⟨s.render c.node c.message c.budget, c.budget⟩ m.record
    with ⟨r | t | e, record⟩
  · next r q =>
    have ha : Answered R s m c r q record := ⟨hf, ht, hr⟩
    rcases Nat.eq_zero_or_pos (s.afterResponse c.budget r) with hb | hb
    · exact ⟨_, .outOfBudget ha hb⟩
    rcases he : (Command.parse r.text).execute s (m.supply + 1) (m.successor c q)
      (s.afterResponse c.budget r) with e | effect
    · exact ⟨_, .misled ha hb he⟩
    have hx : Executed R s m c r q record _ effect := ⟨ha, rfl, hb, he⟩
    by_cases hs : s.afterResponse c.budget r < effect.spending
    · exact ⟨_, .overspent hx hs⟩
    cases effect with
    | shown o spending => exact ⟨_, .shown hx (Nat.le_of_not_lt hs)⟩
    | ended value spending => exact ⟨_, .ended hx (Nat.le_of_not_lt hs)⟩
    | delegated recipient message granted =>
      by_cases hd : s.maxDepth < c.depth + 1
      · exact ⟨_, .tooDeep hx hd⟩
      · exact ⟨_, .asked hx (Nat.le_of_not_lt hd)⟩
  · exact ⟨_, .unavailable hf ht hr⟩
  · exact ⟨_, .failed hf ht hr⟩

theorem exists_rule_of_answered {a : Answer R.State} (hf : m.focus = .answered a) :
    ∃ st, Rule R s m st := by
  rcases hp : m.parked with _ | ⟨p, ps⟩
  · exact ⟨_, .concluded hf hp⟩
  by_cases hg : p.granted < a.remaining
  · exact ⟨_, .overdrawn hf hp hg⟩
  have hg : a.remaining ≤ p.granted := Nat.le_of_not_lt hg
  by_cases hs : p.budget < p.granted - a.remaining + s.askSurcharge
  · exact ⟨_, .overcharged hf hp hg hs⟩
  · exact ⟨_, .settled hf hp hg (Nat.le_of_not_lt hs)⟩

/-- Every step is made by a rule. -/
theorem rule_step (R : Respondent) (s : Settings) (m : Machine R.State) :
    Rule R s m (m.step R s) := by
  obtain ⟨st, h⟩ : ∃ st, Rule R s m st := by
    rcases hf : m.focus with c | a
    · exact exists_rule_of_asking hf
    · exact exists_rule_of_answered hf
  exact h.step_eq ▸ h

/-- The rules are those of the machine. -/
theorem rule_iff : Rule R s m st ↔ m.step R s = st :=
  ⟨Rule.step_eq, fun h => h ▸ rule_step R s m⟩

/-! ## Runs -/

/-- One more step, at the end. -/
theorem Reaches.tail {m m' m'' : Machine R.State} (h : Reaches R s m m')
    (hst : m'.step R s = .next m'') : Reaches R s m m'' := by
  induction h with
  | refl m => exact .step hst (.refl m'')
  | step h _ ih => exact .step h (ih hst)

/-- What every step keeps holds of all states on the way. -/
theorem Reaches.keeps {P : Machine R.State → Prop} {m m' : Machine R.State}
    (h : Reaches R s m m')
    (hP : ∀ m m' : Machine R.State, m.step R s = .next m' → P m → P m') (hm : P m) : P m' := by
  induction h with
  | refl => exact hm
  | step h _ ih => exact ih (hP _ _ h hm)

end Machine

end Inquiry
