import Inquiry.Message.Map
import Inquiry.Run

/-!
# Machines with other states

An inquiry does not look into the states of its respondents. If they are exchanged for
others, in all nodes that a machine leads to (`Node.map`), every step commutes with the
exchange, as long as the respondents make the same of what they are shown. So do runs:
they show the same observations and come to the same end, but for what is recorded.

* `Node.map_eq`: the states in a node, in all nodes in its scope, and so on are exchanged;
* `Command.execute_map`, `Settings.advance_map`: what comes of a command changes along with
  its node;
* `Machine.shown`: all that a run shows;
* `Machine.alike_step`, `Machine.alike_run`: respondents that make the same of what is shown
  take the same steps, are shown the same and come to the same end.
-/

namespace Inquiry

variable {σ τ : Type} (f : σ → τ)

/-! ## Nodes -/

mutual

/-- The node with other states in it and in all nodes it leads to. -/
def Node.map : Node σ → Node τ
  | ⟨serial, state, scope, start⟩ => ⟨serial, f state, mapScope scope, f start⟩

/-- A scope with other states in its nodes. -/
def Node.mapScope : List (Referent (Node σ)) → List (Referent (Node τ))
  | [] => []
  | a :: as => mapReferent a :: mapScope as

/-- A referent with other states in its nodes. -/
def Node.mapReferent : Referent (Node σ) → Referent (Node τ)
  | .message m => .message (mapMessage m)
  | .pointer p => .pointer p
  | .channel n => .channel n.map

/-- A message with other states in its nodes. -/
def Node.mapMessage : Message (Node σ) → Message (Node τ)
  | .text t => .text t
  | .slot t a rest => .slot t (mapReferent a) (mapMessage rest)

end

namespace Node

theorem mapMessage_eq (m : Message (Node σ)) : mapMessage f m = m.map (Node.map f) := by
  induction m with
  | text t => rfl
  | nested t m rest ihm ihr => rw [mapMessage, mapReferent, ihm, ihr]; rfl
  | pointer t p rest ih | channel t n rest ih => rw [mapMessage, mapReferent, ih]; rfl

theorem mapReferent_eq (r : Referent (Node σ)) : mapReferent f r = r.map (Node.map f) := by
  cases r with
  | message m => rw [mapReferent, mapMessage_eq]; rfl
  | pointer p => rfl
  | channel n => rfl

theorem mapScope_eq (scope : Scope (Node σ)) :
    mapScope f scope = Scope.map (Node.map f) scope := by
  induction scope with
  | nil => rfl
  | cons a scope ih => rw [mapScope, mapReferent_eq, ih]; rfl

theorem map_eq (n : Node σ) :
    n.map f = ⟨n.serial, f n.state, Scope.map (Node.map f) n.scope, f n.start⟩ := by
  cases n
  rw [Node.map, mapScope_eq]

theorem state_map (n : Node σ) : (n.map f).state = f n.state := by rw [map_eq]

theorem scope_map (n : Node σ) : (n.map f).scope = Scope.map (Node.map f) n.scope := by rw [map_eq]

theorem map_root (serial : Nat) (start : σ) : (root serial start).map f = root serial (f start) :=
  rfl

theorem map_child (serial : Nat) (n : Node σ) :
    (n.child serial).map f = (n.map f).child serial := by
  rw [child, child, map_root, n.map_eq]

theorem map_successor (serial : Nat) (n : Node σ) (shown : Message (Node σ)) (state : σ) :
    (n.successor serial shown state).map f =
      (n.map f).successor serial (shown.map (Node.map f)) (f state) := by
  rw [map_eq, n.map_eq, successor, successor, Message.args_map, Scope.map, List.map_append]

end Node

/-! ## Commands -/

/-- The effect with other states in its nodes. -/
def Effect.map : Effect σ → Effect τ
  | .shown o spending => .shown (o.map (Node.map f)) spending
  | .ended value spending => .ended (value.map (Node.map f)) spending
  | .delegated recipient m granted => .delegated (recipient.map f) (m.map (Node.map f)) granted

theorem Effect.spending_map (e : Effect σ) : (e.map f).spending = e.spending := by
  cases e <;> rfl

theorem Failure.ofReferent_map {α β : Type} (g : α → β) (x : Except ReferentError α) :
    ofReferent (x.map g) = (ofReferent x).map g := by
  cases x <;> rfl

theorem Message.view_map {C D : Type} (g : C → D) (scope : Scope C) (m : Message C) :
    (m.map g).view (scope.map g) = (m.view scope).map (Message.map g) := by
  rw [view, view, reference?_map]
  rcases m.reference? with _ | _ | p | _
  · exact m.instantiate_map g scope
  · exact m.instantiate_map g scope
  · change ((p.resolve (scope.map g)) >>= _) = _
    dsimp only
    rw [Pointer.resolve_map]
    rcases p.resolve scope with e | m' | q | c
    · rfl
    · rfl
    · exact m.instantiate_map g scope
    · exact m.instantiate_map g scope
  · exact m.instantiate_map g scope

theorem Pointer.addressee_map (scope : Scope (Node σ)) (p : Pointer) :
    p.addressee (scope.map (Node.map f)) = (p.addressee scope).map (Node.map f) := by
  rw [addressee, addressee, resolve_map, Failure.ofReferent_map]
  rcases p.resolve scope with e | m | q | n <;> rfl

theorem Node.ask_map (s : Settings) (serial : Nat) (n : Node σ) (m : Message (Node σ))
    (options : AskOptions) (budget : Nat) :
    (n.map f).ask s serial (m.map (Node.map f)) options budget =
      (n.ask s serial m options budget).map (Effect.map f) := by
  have hm : Failure.ofReferent ((m.map (Node.map f)).instantiate (n.map f).scope) =
      (Failure.ofReferent (m.instantiate n.scope)).map (Message.map (Node.map f)) := by
    rw [n.scope_map, Message.instantiate_map, Failure.ofReferent_map]
  have hsent (recipient : Node σ) (m' : Message (Node σ)) (granted : Nat) :
      Effect.delegated (recipient.map f) ((m'.map (Node.map f)).withSender (n.map f)) granted =
        (Effect.delegated recipient (m'.withSender n) granted).map f := by
    rw [Effect.map, Message.map_withSender]
  rw [ask, ask, hm]
  rcases options with ⟨requested, _ | p⟩
  · rw [← n.map_child]
    cases Failure.ofReferent (m.instantiate n.scope) with
    | error e => rfl
    | ok m' => exact congrArg Except.ok (hsent _ m' _)
  · dsimp only
    rw [n.scope_map, p.addressee_map]
    cases p.addressee n.scope with
    | error e => rfl
    | ok recipient =>
      cases Failure.ofReferent (m.instantiate n.scope) with
      | error e => rfl
      | ok m' => exact congrArg Except.ok (hsent recipient m' _)

theorem Command.execute_map (s : Settings) (serial : Nat) (c : Command (Node σ)) (n : Node σ)
    (budget : Nat) :
    (c.map (Node.map f)).execute s serial (n.map f) budget =
      (c.execute s serial n budget).map (Effect.map f) := by
  cases c with
  | malformed => rfl
  | reflect => rfl
  | view m =>
    rw [Command.map, execute, execute, n.scope_map, Message.view_map, Failure.ofReferent_map]
    cases Failure.ofReferent (m.view n.scope) <;> rfl
  | note m => rfl
  | reply m =>
    rw [Command.map, execute, execute, n.scope_map, Message.instantiate_map, Failure.ofReferent_map]
    cases Failure.ofReferent (m.instantiate n.scope) <;> rfl
  | ask m options => exact n.ask_map f s serial m options budget

/-! ## Conversations -/

/-- The answer with other states in its nodes. -/
def Answer.map (a : Answer σ) : Answer τ := ⟨a.value.map (Node.map f), a.node.map f, a.remaining⟩

/-- The conversation with other states in its nodes. -/
def Conversation.map (c : Conversation σ) : Conversation τ :=
  ⟨c.node.map f, c.message.map (Node.map f), c.budget, c.depth, c.turns⟩

/-- The conversation with other states in its node. -/
def Parked.map (p : Parked σ) : Parked τ := ⟨p.node.map f, p.budget, p.depth, p.turns, p.granted⟩

/-- The focus with other states in its nodes. -/
def Focus.map : Focus σ → Focus τ
  | .asking c => .asking (c.map f)
  | .answered a => .answered (a.map f)

/-- The machine with other states in its nodes, and with another record. -/
def Machine.map (record : Record) (m : Machine σ) : Machine τ :=
  ⟨m.focus.map f, m.parked.map (Parked.map f), m.supply, record⟩

theorem Answer.settle_map (s : Settings) (granted : Nat) (a : Answer σ) :
    (a.map f).settle s granted = (a.settle s granted).map (Effect.map f) := by
  have hremaining : (a.map f).remaining = a.remaining := rfl
  rw [settle, settle, hremaining]
  split
  · rfl
  · rw [Except.map, Effect.map, Message.map_withSender]
    rfl

namespace Settings

variable (s : Settings)

theorem render_map (n : Node σ) (m : Message (Node σ)) (budget : Nat) :
    s.render (n.map f) (m.map (Node.map f)) budget = s.render n m budget := by
  rw [render, render, Message.renderFrom_map, n.scope_map, Scope.map, List.length_map]

theorem advance_map (n : Node σ) (e : Effect σ) (budget depth turns : Nat)
    (parked : List (Parked σ)) :
    s.advance (n.map f) (e.map f) budget depth turns (parked.map (Parked.map f)) =
      (s.advance n e budget depth turns parked).map
        fun x => (x.1.map f, x.2.map (Parked.map f)) := by
  rw [advance, advance, e.spending_map]
  split
  · rfl
  · cases e with
    | shown o spending => rfl
    | ended value spending => rfl
    | delegated recipient m granted =>
      dsimp only [Effect.map]
      split <;> rfl

end Settings

/-! ## Steps and runs -/

/-- Two turns come to the same, but for the transcript that waits; the one respondent goes on
    from the state that takes the place of the other's. -/
inductive Turn.Alike : Turn σ → Turn τ → Prop
  | answered (r : Response) (q : σ) : Alike (.answered r q) (.answered r (f q))
  | unavailable (t t' : Transcript) : Alike (.unavailable t) (.unavailable t')
  | failed (e : Failure) : Alike (.failed e) (.failed e)

/-- Two inquiries come to the same, but for the transcript that waits; `g` makes the one value
    of the other. -/
inductive Outcome.Alike {α β : Type} (g : α → β) : Outcome α → Outcome β → Prop
  | ready (a : α) : Alike g (.ready a) (.ready (g a))
  | suspended (t t' : Transcript) : Alike g (.suspended t) (.suspended t')
  | failed (e : Failure) : Alike g (.failed e) (.failed e)

/-- Two steps lead to the same, but for what is recorded. -/
inductive Step.Alike : Step σ → Step τ → Prop
  | next (m : Machine σ) (record : Record) : Alike (.next m) (.next (m.map f record))
  | done {r : Run (Answer σ)} {r' : Run (Answer τ)}
    (h : Outcome.Alike (Answer.map f) r.outcome r'.outcome) : Alike (.done r) (.done r')

namespace Machine

/-- An effect that comes of something leads to the same with other states. -/
theorem alike_refocus (s : Settings) (m : Machine σ) (record : Record) (n : Node σ)
    (x : Except Failure (Effect σ)) (budget depth turns : Nat) (parked : List (Parked σ)) :
    Step.Alike f
      (m.refocus (do
        let effect ← x
        s.advance n effect budget depth turns parked))
      ((m.map f record).refocus (do
        let effect ← x.map (Effect.map f)
        s.advance (n.map f) effect budget depth turns (parked.map (Parked.map f)))) := by
  cases x with
  | error e => exact .done (.failed e)
  | ok effect =>
    change Step.Alike f (m.refocus (s.advance n effect budget depth turns parked))
      ((m.map f record).refocus
        (s.advance (n.map f) (effect.map f) budget depth turns (parked.map (Parked.map f))))
    rw [s.advance_map]
    cases s.advance n effect budget depth turns parked with
    | error e => exact .done (.failed e)
    | ok x => exact .next { m with focus := x.1, parked := x.2 } record

theorem alike_deliver (s : Settings) (m : Machine σ) (record : Record) (a : Answer σ) :
    Step.Alike f (m.deliver s a) ((m.map f record).deliver s (a.map f)) := by
  obtain ⟨focus, parked, supply, before⟩ := m
  cases parked with
  | nil => exact .done (.ready a)
  | cons p ps =>
    have h := alike_refocus f s ⟨focus, p :: ps, supply, before⟩ record p.node
      (a.settle s p.granted) p.budget p.depth p.turns ps
    rw [← a.settle_map] at h
    exact h

/-- What is shown in the next turn, if there is one. -/
def observation? (s : Settings) (m : Machine σ) : Option Observation :=
  match m.focus with
  | .asking c =>
    if c.turns < s.maxTurns then some ⟨s.render c.node c.message c.budget, c.budget⟩ else none
  | .answered _ => none

theorem observation?_eq_some {s : Settings} {m : Machine σ} {c : Conversation σ}
    (hf : m.focus = .asking c) (ht : c.turns < s.maxTurns) :
    m.observation? s = some ⟨s.render c.node c.message c.budget, c.budget⟩ := by
  rw [observation?, hf]
  exact if_pos ht

theorem observation?_map (s : Settings) (m : Machine σ) (record : Record) :
    (m.map f record).observation? s = m.observation? s := by
  rcases m with ⟨c | a, parked, supply, before⟩
  · have hrender := s.render_map f c.node c.message c.budget
    simp only [observation?, Machine.map, Focus.map, Conversation.map, hrender]
  · rfl

variable {R R' : Respondent} (f : R.State → R'.State) {s : Settings} {m : Machine R.State}
  {c : Conversation R.State} {r : Response} {q : R.State} {record after after' : Record}

theorem respond_map {x : Turn R'.State}
    (h : R'.respond (f c.node.state) ⟨s.render c.node c.message c.budget, c.budget⟩ record =
      (x, after)) :
    R'.respond (c.map f).node.state
      ⟨s.render (c.map f).node (c.map f).message (c.map f).budget, (c.map f).budget⟩
      (m.map f record).record = (x, after) := by
  rw [← c.node.state_map f, ← s.render_map f] at h
  exact h

theorem map_successor : (m.map f record).successor (c.map f) (f q) = (m.successor c q).map f :=
  (c.node.map_successor f m.supply c.message q).symm

/-- If a turn is answered alike, the steps are alike. -/
theorem alike_of_answered (h : Answered R s m c r q after)
    (h' : Answered R' s (m.map f record) (c.map f) r (f q) after') :
    Step.Alike f (m.step R s) ((m.map f record).step R' s) := by
  rcases Nat.eq_zero_or_pos (s.afterResponse c.budget r) with hb | hb
  · rw [(Rule.outOfBudget h hb).step_eq, (Rule.outOfBudget h' hb).step_eq, map_successor,
      ← Message.map_parse (Node.map f) r.text]
    exact .next ⟨.answered ⟨Message.parse r.text, m.successor c q, 0⟩, m.parked, m.supply + 2,
      after⟩ after'
  · rw [step_of_answered h hb, step_of_answered h' hb, map_successor,
      ← Command.map_parse (Node.map f), Command.execute_map]
    exact alike_refocus f s ⟨m.focus, m.parked, m.supply + 2, after⟩ after' ..

/-- Respondents that make the same of what is shown next take the same step. -/
theorem alike_step (record : Record)
    (h : ∀ q o, m.observation? s = some o →
      Turn.Alike f (R.respond q o m.record).1 (R'.respond (f q) o record).1) :
    Step.Alike f (m.step R s) ((m.map f record).step R' s) := by
  rcases hf : m.focus with c | a
  · have hf' : (m.map f record).focus = .asking (c.map f) := congrArg (Focus.map f) hf
    by_cases ht : s.maxTurns ≤ c.turns
    · rw [(Rule.noTurn hf ht).step_eq, (Rule.noTurn hf' ht).step_eq]
      exact .done (.failed _)
    · have ht : c.turns < s.maxTurns := Nat.lt_of_not_le ht
      have halike := h c.node.state _ (observation?_eq_some hf ht)
      rcases hr : R.respond c.node.state ⟨s.render c.node c.message c.budget, c.budget⟩ m.record
        with ⟨x, after⟩
      rcases hr' : R'.respond (f c.node.state) ⟨s.render c.node c.message c.budget, c.budget⟩
        record with ⟨x', after'⟩
      rw [hr, hr'] at halike
      have hr' := respond_map f (m := m) hr'
      cases halike with
      | answered r q => exact alike_of_answered f ⟨hf, ht, hr⟩ ⟨hf', ht, hr'⟩
      | unavailable t t' =>
        rw [(Rule.unavailable hf ht hr).step_eq, (Rule.unavailable hf' ht hr').step_eq]
        exact .done (.suspended t t')
      | failed e =>
        rw [(Rule.failed hf ht hr).step_eq, (Rule.failed hf' ht hr').step_eq]
        exact .done (.failed e)
  · have hf' : (m.map f record).focus = .answered (a.map f) := congrArg (Focus.map f) hf
    rw [step_eq_deliver hf, step_eq_deliver hf']
    exact alike_deliver f s m record a

/-- All that is shown until the end. -/
def shown (R : Respondent) (s : Settings) (m : Machine R.State) : List Observation :=
  (m.observation? s).toList ++
    match _h : m.step R s with
    | .next m' => m'.shown R s
    | .done _ => []
termination_by m.weight s
decreasing_by exact weight_step_lt ‹_›

theorem shown_of_step_next {m' : Machine R.State} (h : m.step R s = .next m') :
    m.shown R s = (m.observation? s).toList ++ m'.shown R s := by
  rw [shown]
  split <;> simp_all

theorem shown_of_step_done {x : Run (Answer R.State)} (h : m.step R s = .done x) :
    m.shown R s = (m.observation? s).toList := by
  rw [shown]
  split <;> simp_all

theorem mem_shown {o : Observation} (h : m.observation? s = some o) : o ∈ m.shown R s := by
  rw [shown, h]
  exact List.mem_append_left _ (List.mem_singleton_self o)

/-- Respondents that make the same of all that is shown to the second one are shown the same and
    come to the same end. -/
theorem alike_run (s : Settings) (m : Machine R.State) (record : Record)
    (h : ∀ o ∈ (m.map f record).shown R' s, ∀ q before before',
      Turn.Alike f (R.respond q o before).1 (R'.respond (f q) o before').1) :
    (m.map f record).shown R' s = m.shown R s ∧
      Outcome.Alike (Answer.map f) (m.run R s).outcome ((m.map f record).run R' s).outcome := by
  have hstep (m : Machine R.State) (record : Record)
      (h : ∀ o ∈ (m.map f record).shown R' s, ∀ q before before',
        Turn.Alike f (R.respond q o before).1 (R'.respond (f q) o before').1) :
      Step.Alike f (m.step R s) ((m.map f record).step R' s) :=
    alike_step f record fun q o ho =>
      h o (mem_shown ((m.observation?_map f s record).trans ho)) q m.record record
  induction m using runInduct (R := R) (s := s) generalizing record with
  | next m m' hst ih =>
    have halike := hstep m record h
    rw [hst] at halike
    generalize hst' : (m.map f record).step R' s = st' at halike
    cases halike with
    | next _ record' =>
      obtain ⟨hshown, hend⟩ := ih record' fun o ho => h o (by
        rw [shown_of_step_next hst']
        exact List.mem_append_right _ ho)
      rw [shown_of_step_next hst', shown_of_step_next hst, m.observation?_map, hshown,
        run_of_step_next hst', run_of_step_next hst]
      exact ⟨rfl, hend⟩
  | done m x hst =>
    have halike := hstep m record h
    rw [hst] at halike
    generalize hst' : (m.map f record).step R' s = st' at halike
    cases halike with
    | done hend =>
      rw [shown_of_step_done hst', shown_of_step_done hst, m.observation?_map,
        run_of_step_done hst', run_of_step_done hst]
      exact ⟨rfl, hend⟩

end Machine

/-! ## Inquiries -/

namespace Respondent

variable {R R' : Respondent} (f : R.State → R'.State) (hstart : f R.start = R'.start)
include hstart

theorem map_startAt (text : String) (budget : Nat) (before record : Record) :
    (R.startAt (.root 0 R.start) (Message.parse text) budget 0 1 before).map f record =
      R'.startAt (.root 0 R'.start) (Message.parse text) budget 0 1 record := by
  rw [startAt, startAt, Machine.map, Focus.map, Conversation.map, Node.map_root, hstart,
    Message.map_parse]
  rfl

/-- Respondents that start alike and make the same of all that is shown to the second one are
    shown the same in a conversation about a text, and come to the same end. -/
theorem alike_converseAfresh (s : Settings) (text : String) (budget : Nat)
    (record record' : Record)
    (h : ∀ o ∈ (R'.startAt (.root 0 R'.start) (Message.parse text) budget 0 1 record').shown R' s,
      ∀ q before before', Turn.Alike f (R.respond q o before).1 (R'.respond (f q) o before').1) :
    (R'.startAt (.root 0 R'.start) (Message.parse text) budget 0 1 record').shown R' s =
        (R.startAt (.root 0 R.start) (Message.parse text) budget 0 1 record).shown R s ∧
      Outcome.Alike (Answer.map f)
        (R.converseAfresh s (Message.parse text) budget 0 record).outcome
        (R'.converseAfresh s (Message.parse text) budget 0 record').outcome := by
  rw [converseAfresh_eq_run, converseAfresh_eq_run]
  rw [← map_startAt f hstart text budget record record'] at h ⊢
  exact Machine.alike_run f s _ record' h

end Respondent

end Inquiry
