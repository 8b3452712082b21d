import Inquiry.Proofs.Reserve
import Inquiry.Word

/-!
# Inquiries in machine words

The machine counts in numbers without bound. Here it counts in words: where a sum or
a quotient of words has no result, the step has none. Differences are taken only
after a check, or stop at zero, so they never fail.

From the first state on, no step is without a result: what is held and the
depth stay within the budget at the start, because they are backed, and
the turns within their limit.

* `Machine.step?_eq_some`: a step in words is a step of the machine;
* `Respondent.inquire_inOrder`: the budgets of an inquiry are in order in every
  state, and nothing is ever overspent.
-/

namespace Inquiry

/-! ## Steps in words -/

/-- What is handed on with a question, in words. The default part is taken in any case. -/
def Settings.grant? (s : Settings) (requested : Option Nat) (budget : Nat) : Option Nat := do
  let part ← Word.div? budget s.defaultFraction
  return min (requested.getD part) (budget - 1)

/-- What comes of a question, in words. -/
def Node.ask? {σ : Type} (n : Node σ) (s : Settings) (serial : Nat) (m : Message (Node σ))
    (options : AskOptions) (budget : Nat) : Option (Except Failure (Effect σ)) :=
  let recipient :=
    match options.recipient with
    | some p => p.addressee n.scope
    | none => .ok (n.child serial)
  match recipient with
  | .error e => some (.error e)
  | .ok recipient => do
    let granted ← s.grant? options.budget budget
    match Failure.ofReferent (m.instantiate n.scope) with
    | .error e => some (.error e)
    | .ok m => some (.ok (.delegated recipient (.withSender n m) granted))

/-- What comes of a command, in words. -/
def Command.execute? {σ : Type} (s : Settings) (serial : Nat) (c : Command (Node σ))
    (n : Node σ) (budget : Nat) : Option (Except Failure (Effect σ)) :=
  match c with
  | .ask m options => n.ask? s serial m options budget
  | c => some (c.execute s serial n budget)

/-- Charges an effect, in words. -/
def Settings.advance? {σ : Type} (s : Settings) (n : Node σ) (effect : Effect σ)
    (budget depth turns : Nat) (parked : List (Parked σ)) :
    Option (Except Failure (Focus σ × List (Parked σ))) :=
  match Word.sub? budget effect.spending with
  | none => some (.error (.overspent budget effect.spending))
  | some left =>
    match effect with
    | .shown m _ => some (.ok (.asking ⟨n, m, left, depth, turns⟩, parked))
    | .ended value _ => some (.ok (.answered ⟨value, n, left⟩, parked))
    | .delegated recipient m granted => do
      let deeper ← Word.add? depth 1
      if s.maxDepth < deeper then some (.error (.tooDeep deeper s.maxDepth))
      else
        some (.ok (.asking ⟨recipient, m, granted, deeper, 0⟩,
          ⟨n, left, depth, turns, granted⟩ :: parked))

/-- What comes of an answer, in words. -/
def Answer.settle? {σ : Type} (s : Settings) (granted : Nat) (a : Answer σ) :
    Option (Except Failure (Effect σ)) :=
  match Word.sub? granted a.remaining with
  | none => some (.error (.overspent granted a.remaining))
  | some used => do
    let spending ← Word.add? used s.askSurcharge
    some (.ok (.shown (.withSender a.node a.value) spending))

namespace Machine

/-- A turn in words. -/
def turn? (R : Respondent) (s : Settings) (m : Machine R.State) (c : Conversation R.State) :
    Option (Step R.State) :=
  if s.maxTurns ≤ c.turns then
    some (.done ⟨.failed (.tooManyTurns c.turns s.maxTurns), m.supply, m.record⟩)
  else
    match R.respond c.node.state ⟨s.render c.node c.message c.budget, c.budget⟩ m.record with
    | (.failed e, record) => some (.done ⟨.failed e, m.supply, record⟩)
    | (.unavailable t, record) => some (.done ⟨.suspended t, m.supply, record⟩)
    | (.answered r state, record) =>
      let n := c.node.successor m.supply c.message state
      let budget := s.afterResponse c.budget r
      let m' := { m with supply := m.supply + 2, record }
      if budget = 0 then
        some (.next { m' with focus := .answered ⟨Message.parse r.text, n, 0⟩ })
      else do
        match ← (Command.parse r.text).execute? s (m.supply + 1) n budget with
        | .error e => some (m'.refocus (.error e))
        | .ok effect =>
          let turns ← Word.add? c.turns 1
          m'.refocus <$> s.advance? n effect budget c.depth turns m.parked

/-- An answer, given to the conversation that was parked last, in words. -/
def deliver? {σ : Type} (s : Settings) (m : Machine σ) (a : Answer σ) : Option (Step σ) :=
  match m.parked with
  | [] => some (.done ⟨.ready a, m.supply, m.record⟩)
  | p :: parked => do
    match ← a.settle? s p.granted with
    | .error e => some (m.refocus (.error e))
    | .ok effect => m.refocus <$> s.advance? p.node effect p.budget p.depth p.turns parked

/-- A step in words. -/
def step? (R : Respondent) (s : Settings) (m : Machine R.State) : Option (Step R.State) :=
  match m.focus with
  | .asking c => m.turn? R s c
  | .answered a => m.deliver? s a

/-- All numbers of the machine fit a word. -/
structure Fits {σ : Type} (m : Machine σ) : Prop where
  held : m.focus.held < Decimal.wordLimit
  asking : ∀ c, m.focus = .asking c → c.depth < Decimal.wordLimit ∧ c.turns < Decimal.wordLimit
  parked : ∀ p ∈ m.parked, p.budget < Decimal.wordLimit ∧ p.granted < Decimal.wordLimit ∧
    p.depth < Decimal.wordLimit ∧ p.turns < Decimal.wordLimit

end Machine

/-! ## Words suffice -/

section

variable {σ : Type} {s : Settings}

theorem Settings.grant?_eq_some (hs : s.Valid) (requested : Option Nat) (budget : Nat) :
    s.grant? requested budget = some (s.grant requested budget) := by
  have hf : s.defaultFraction ≠ 0 := Nat.ne_of_gt hs.defaultFraction
  rw [grant?, Word.div?, if_neg hf]
  rfl

theorem Command.execute?_eq_some (hs : s.Valid) (serial : Nat) (c : Command (Node σ))
    (n : Node σ) (budget : Nat) :
    c.execute? s serial n budget = some (c.execute s serial n budget) := by
  cases c with
  | ask m options =>
    rw [execute?, execute, Node.ask?, Node.ask]
    simp only [Settings.grant?_eq_some hs]
    cases options.recipient with
    | none => cases Failure.ofReferent (m.instantiate n.scope) <;> rfl
    | some p =>
      dsimp only
      cases p.addressee n.scope with
      | error e => rfl
      | ok recipient => cases Failure.ofReferent (m.instantiate n.scope) <;> rfl
  | _ => rfl

theorem Settings.advance?_eq_some (n : Node σ) (effect : Effect σ) (budget turns : Nat)
    {depth : Nat} (hd : depth + 1 < Decimal.wordLimit) (parked : List (Parked σ)) :
    s.advance? n effect budget depth turns parked =
      some (s.advance n effect budget depth turns parked) := by
  rw [advance?, advance, Word.sub?]
  by_cases h : budget < effect.spending
  · rw [if_pos h, if_neg (Nat.not_le.2 h)]
  rw [if_neg h, if_pos (Nat.le_of_not_lt h)]
  cases effect with
  | shown m spending => rfl
  | ended value spending => rfl
  | delegated recipient m granted =>
    dsimp only
    rw [Word.add?, if_pos hd]
    exact (apply_ite some _ _ _).symm

theorem Answer.settle?_eq_some {granted : Nat} (hg : granted + s.askSurcharge < Decimal.wordLimit)
    (a : Answer σ) : a.settle? s granted = some (a.settle s granted) := by
  rw [settle?, settle, Word.sub?]
  by_cases h : granted < a.remaining
  · rw [if_pos h, if_neg (Nat.not_le.2 h)]
  have hu : granted - a.remaining + s.askSurcharge < Decimal.wordLimit := by omega
  rw [if_neg h, if_pos (Nat.le_of_not_lt h)]
  dsimp only
  rw [Word.add?, if_pos hu]
  rfl

end

namespace Machine

variable {R : Respondent} {s : Settings} {limit : Nat} {m : Machine R.State}

theorem turn?_eq_some (hs : s.Valid) (ht : s.maxTurns < Decimal.wordLimit)
    {c : Conversation R.State} (hc : c.budget + c.depth < Decimal.wordLimit) :
    m.turn? R s c = some (m.turn R s c) := by
  rw [turn?, turn]
  by_cases hturns : s.maxTurns ≤ c.turns
  · rw [if_pos hturns, if_pos hturns]
  rw [if_neg hturns, if_neg hturns]
  rcases R.respond c.node.state ⟨s.render c.node c.message c.budget, c.budget⟩ m.record
    with ⟨⟨r, q⟩ | t | e, record⟩
  · dsimp only
    by_cases hb : s.afterResponse c.budget r = 0
    · rw [if_pos hb, if_pos hb]
    -- Some budget is left, so the depth is not at its limit yet.
    have hle := s.afterResponse_le c.budget r
    have hd : c.depth + 1 < Decimal.wordLimit := by omega
    have hn : c.turns + 1 < Decimal.wordLimit := by omega
    rw [if_neg hb, if_neg hb, Command.execute?_eq_some hs]
    cases Command.execute s (m.supply + 1) (Command.parse r.text)
        (c.node.successor m.supply c.message q) (s.afterResponse c.budget r) with
    | error e => rfl
    | ok effect =>
      simp only [Word.add?, if_pos hn, Settings.advance?_eq_some _ _ _ _ hd, Option.bind_eq_bind,
        Option.bind_some]
      rfl
  · rfl
  · rfl

theorem deliver?_eq_some (hs : s.Valid) (hl : limit < Decimal.wordLimit)
    {a : Answer R.State} (hm : m.Backed s limit) (hf : m.focus = .answered a) :
    m.deliver? s a = some (m.deliver s a) := by
  rw [deliver?, deliver]
  rcases hp : m.parked with _ | ⟨p, ps⟩
  · rfl
  obtain ⟨-, hkept, -, hps⟩ := hm.answered hf hp
  -- The unit kept makes room for the surcharge.
  have hle := hps.add_depth_le
  have hsur := hs.askSurcharge
  have hg : p.granted + s.askSurcharge < Decimal.wordLimit := by omega
  have hd : p.depth + 1 < Decimal.wordLimit := by omega
  dsimp only
  rw [Answer.settle?_eq_some hg]
  cases a.settle s p.granted with
  | error e => rfl
  | ok effect =>
    simp only [Settings.advance?_eq_some _ _ _ _ hd, Option.bind_eq_bind, Option.bind_some]
    rfl

/-- As long as the focus is backed by less than a word holds, a step in words is a step of the
    machine. -/
theorem step?_eq_some (hs : s.Valid) (ht : s.maxTurns < Decimal.wordLimit)
    (hl : limit < Decimal.wordLimit) (hm : m.Backed s limit) :
    m.step? R s = some (m.step R s) := by
  rw [step?, step]
  rcases hf : m.focus with c | a
  · exact turn?_eq_some hs ht (Nat.lt_of_le_of_lt (hm.asking hf).add_depth_le hl)
  · exact deliver?_eq_some hs hl hm hf

theorem Backed.fits (ht : s.maxTurns < Decimal.wordLimit) (hl : limit < Decimal.wordLimit)
    (hm : m.Backed s limit) : m.Fits := by
  obtain ⟨depth, hb⟩ := hm.exists_backs
  refine ⟨?_, ?_, ?_⟩
  · have := hb.add_depth_le
    omega
  · intro c hf
    rw [Backed, hf] at hm
    have := hm.2.add_depth_le
    exact ⟨by omega, Nat.lt_of_le_of_lt hm.1 ht⟩
  · intro p hp
    obtain ⟨hg, hd, hn⟩ := hb.of_mem hp
    exact ⟨by omega, by omega, by omega, by omega⟩

/-- Budgets are in order in a state. -/
structure InOrder (R : Respondent) (s : Settings) (m : Machine R.State) : Prop where
  /-- Whoever waits holds more than was granted. -/
  kept : ∀ p ∈ m.parked, p.granted + 1 ≤ p.budget
  /-- Whoever answers, or has answered, holds no more than was granted. -/
  within : ∀ p ∈ m.parked.head?, m.focus.held ≤ p.granted
  /-- A question that is asked now is granted less than its asker has now. -/
  granted : ∀ c r q record b recipient message granted,
    Executed R s m c r q record b (.delegated recipient message granted) →
      granted < b ∧ b ≤ c.budget
  /-- What was granted is what the question starts with, and its asker keeps the rest. -/
  handedOn : ∀ m' p, m.step R s = .next m' → m'.parked = p :: m.parked →
    m'.focus.held = p.granted ∧ p.granted < p.budget ∧ p.budget ≤ m.focus.held
  /-- The budget of a conversation does not grow as long as it goes on. -/
  falling : ∀ k m' b b', Continues R s k m m' → m.levels[k]? = some b →
    m'.levels[k]? = some b' → b' ≤ b
  /-- Nothing is overspent now. -/
  covered : ∀ r budget spending, m.step R s = .done r →
    r.outcome ≠ .failed (.overspent budget spending)
  fits : m.Fits
  inWords : m.step? R s = some (m.step R s)

theorem handedOn_of_step {m' : Machine R.State} {p : Parked R.State} (h : m.step R s = .next m')
    (hp : m'.parked = p :: m.parked) :
    m'.focus.held = p.granted ∧ p.granted < p.budget ∧ p.budget ≤ m.focus.held := by
  cases rule_iff.2 h with
  | asked hx _ =>
    obtain rfl := (List.cons.inj hp).1
    rw [hx.focus]
    exact ⟨rfl, hx.granted_lt, hx.left_le⟩
  | settled _ hq _ _ =>
    rw [hq] at hp
    have := congrArg List.length hp
    simp only [List.length_cons] at this
    omega
  | _ => exact absurd hp (List.ne_cons_self)

end Machine

theorem Machine.Backed.inOrder {oracle : Oracle} {history : Transcript} {s : Settings}
    {limit : Nat} {m : Machine (Respondent.ofOracle oracle history).State} (hs : s.Valid)
    (ht : s.maxTurns < Decimal.wordLimit) (hl : limit < Decimal.wordLimit)
    (hm : m.Backed s limit) : m.InOrder (.ofOracle oracle history) s where
  kept p hp := by
    obtain ⟨_, hb⟩ := hm.exists_backs
    exact (hb.of_mem hp).1
  within p hp := by
    obtain ⟨_, hb⟩ := hm.exists_backs
    obtain ⟨ps, hps⟩ := List.head?_eq_some_iff.1 hp
    rw [hps] at hb
    exact hb.1
  granted _ _ _ _ _ _ _ _ hx := ⟨hx.granted_lt, hx.left_le⟩
  handedOn _ _ := handedOn_of_step
  falling _ _ _ _ := Continues.levels_le
  covered r budget spending h ho := by
    obtain ⟨q, o, hr⟩ := respond_of_step_overspent hs hm h ho
    exact Respondent.respond_ofOracle_ne_failed oracle history q o m.record _ hr
  fits := hm.fits ht hl
  inWords := step?_eq_some hs ht hl hm

/-- No conversation ends because something was overspent. -/
theorem Respondent.converse_ne_overspent (oracle : Oracle) (history : Transcript) {s : Settings}
    (hs : s.Valid) (n : Node Transcript) (m : Message (Node Transcript))
    (budget depth supply : Nat) (record : Record) (held spending : Nat) :
    ((ofOracle oracle history).converse s n m budget depth supply record).outcome ≠
      .failed (.overspent held spending) := by
  intro h
  simp only [converse] at h
  split at h
  · cases h
  · obtain ⟨m', hr, hd⟩ := Machine.exists_reaches_done (ofOracle oracle history) s
      ((ofOracle oracle history).startAt n m budget depth supply record)
    obtain ⟨q, o, hf⟩ := Machine.respond_of_step_overspent hs hr.backed hd h
    exact respond_ofOracle_ne_failed oracle history q o m'.record _ hf

/-- In an inquiry by a policy, or an oracle, with valid settings and a budget that fits a word,
    budgets are in order in every state, and it does not end because something was
    overspent. -/
theorem Respondent.inquire_inOrder (oracle : Oracle) (history : Transcript) (s : Settings)
    (root : String) (budget : Nat) (record : Record) (hs : s.Valid)
    (ht : s.maxTurns < Decimal.wordLimit) (hl : budget < Decimal.wordLimit) :
    (∀ m, Machine.Reaches (ofOracle oracle history) s
        ((ofOracle oracle history).startAt (.root 0 history) (Message.parse root) budget 0 1
          record) m →
      m.InOrder (ofOracle oracle history) s) ∧
    ∀ held spending, ((ofOracle oracle history).inquire s root budget record).outcome ≠
      .failed (.overspent held spending) := by
  constructor
  · intro m hm
    have hb : m.Backed s (budget + 0) := hm.backed
    exact hb.inOrder hs ht hl
  · intro held spending h
    rw [inquire, s.problem?_eq_none_iff.2 hs] at h
    exact converse_ne_overspent oracle history hs _ _ _ _ _ _ _ _ (Outcome.eq_failed_of_map h)

/-- With the largest budget there is, a question is granted a third of it, and its asker keeps
    the rest. -/
theorem Respondent.inquire_inOrder_largest :
    let R := ofOracle (fun _ _ => some ⟨"ask why", 0⟩) .empty
    let s : Settings := { askSurcharge := 1, commandCost := 1 }
    ∃ m p, Machine.Reaches R s
        (R.startAt (.root 0 .empty) (Message.parse "?") 18446744073709551615 0 1 #[]) m ∧
      m.parked = [p] ∧ p.granted = 6148914691236517205 ∧ m.InOrder R s ∧
      ∀ held spending, (R.inquire s "?" 18446744073709551615 #[]).outcome ≠
        .failed (.overspent held spending) := by
  intro R s
  have hall := inquire_inOrder (fun _ _ => some ⟨"ask why", 0⟩) .empty s "?" 18446744073709551615
    #[] (by decide) (by decide) (by decide)
  have h : (match (R.startAt (.root 0 .empty) (Message.parse "?") 18446744073709551615 0 1
      #[]).step R s with
    | .next m => m.parked.map (·.granted)
    | .done _ => []) = [6148914691236517205] := by decide +kernel
  split at h
  · next m hst =>
    obtain ⟨p, hp, hg⟩ := List.map_eq_singleton_iff.1 h
    have hm := Machine.Reaches.step hst (.refl m)
    exact ⟨m, p, hm, hp, hg, hall.1 m hm, hall.2⟩
  · cases h

end Inquiry
