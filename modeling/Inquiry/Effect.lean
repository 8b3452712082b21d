import Inquiry.Command.Basic
import Inquiry.Failure
import Inquiry.Node

/-!
# The effects of commands

What a command does to the conversation it is given in. Most commands have
something shown to the respondent next; `reply` ends the conversation; `ask`
leaves it waiting while someone else is asked. A question leaves at least one
unit of budget with the asker, and what it costs is only settled when the
answer is there.

* `Command.execute_eq_ok`: what a command is charged at once, and what a question
  is granted;
* `Command.granted_lt`: a question is given less budget than its asker has.
-/

namespace Inquiry

variable {σ : Type}

/-- What is shown after text that is no command. -/
def helpText : String :=
  "the valid commands are 'reply', 'ask', 'note', 'reflect', 'view', and 'ask@N'"

/-- What comes of a command. -/
inductive Effect (σ : Type)
  /-- The conversation goes on with an observation. -/
  | shown (observation : Message (Node σ)) (spending : Nat)
  /-- The conversation ends with a value. -/
  | ended (value : Message (Node σ)) (spending : Nat)
  /-- The conversation waits while the recipient answers a message. -/
  | delegated (recipient : Node σ) (message : Message (Node σ)) (granted : Nat)

namespace Effect

/-- What is charged at once. -/
def spending : Effect σ → Nat
  | .shown _ spending => spending
  | .ended _ spending => spending
  | .delegated _ _ _ => 0

/-- Whether the conversation is over. -/
def isFinal : Effect σ → Bool
  | .ended _ _ => true
  | _ => false

end Effect

/-- What a conversation has come to: its last message, where it stands and the budget
    it has left. -/
structure Answer (σ : Type) where
  value : Message (Node σ)
  node : Node σ
  remaining : Nat

/-- What is shown for a message to look at: a pointer alone shows the message that it
    points at, which need not be one that can be instantiated. -/
def Message.view {C : Type} (scope : Scope C) (m : Message C) :
    Except ReferentError (Message C) :=
  match m.reference? with
  | some (.pointer p) => do
    match ← p.resolve scope with
    | .message target => return target
    | _ => m.instantiate scope
  | _ => m.instantiate scope

/-- A referent error is why the inquiry fails. -/
def Failure.ofReferent {α : Type} : Except ReferentError α → Except Failure α
  | .ok a => .ok a
  | .error e => .error (.referent e)

/-- The node that a pointer to a channel leads to. -/
def Pointer.addressee (scope : Scope (Node σ)) (p : Pointer) : Except Failure (Node σ) := do
  match ← Failure.ofReferent (p.resolve scope) with
  | .channel n => return n
  | r => throw (.notAChannel p.index r.form)

/-- The budget handed on with a question: what it asks for, or the default part of what
    there is, but always less than that. -/
def Settings.grant (s : Settings) (requested : Option Nat) (budget : Nat) : Nat :=
  min (requested.getD (budget / s.defaultFraction)) (budget - 1)

/-- What comes of a question put at a node. If it is not addressed to anyone, a new
    conversation with the given serial number is started for it. -/
def Node.ask (n : Node σ) (s : Settings) (serial : Nat) (m : Message (Node σ))
    (options : AskOptions) (budget : Nat) : Except Failure (Effect σ) := do
  let recipient ←
    match options.recipient with
    | some p => p.addressee n.scope
    | none => .ok (n.child serial)
  let m ← Failure.ofReferent (m.instantiate n.scope)
  return .delegated recipient (.withSender n m) (s.grant options.budget budget)

/-- What comes of a command given at a node with some budget. -/
def Command.execute (s : Settings) (serial : Nat) (c : Command (Node σ)) (n : Node σ)
    (budget : Nat) : Except Failure (Effect σ) :=
  match c with
  | .malformed => .ok (.shown (.text helpText) s.commandCost)
  | .reflect => .ok (.shown (.slot "you are " (.channel n) (.text "")) s.commandCost)
  | .view m => do
    return .shown (← Failure.ofReferent (m.view n.scope)) s.commandCost
  | .note m => .ok (.shown m s.commandCost)
  | .reply m => do
    return .ended (← Failure.ofReferent (m.instantiate n.scope)) s.commandCost
  | .ask m options => n.ask s serial m options budget

/-- What comes of an answer to a question, for the asker: the answer is shown, and what
    it has used of the budget granted is charged. -/
def Answer.settle (s : Settings) (granted : Nat) (a : Answer σ) : Except Failure (Effect σ) :=
  if granted < a.remaining then .error (.overspent granted a.remaining)
  else .ok (.shown (.withSender a.node a.value) (granted - a.remaining + s.askSurcharge))

/-! ## What comes of commands -/

/-- Why a command has no effect: it cites something that is not there, or asks something
    that is no channel. -/
inductive Failure.Cited : Failure → Prop
  | referent (e : ReferentError) : Cited (.referent e)
  | notAChannel (index : Nat) (found : Referent.Form) : Cited (.notAChannel index found)

theorem Failure.cited_of_ofReferent {α : Type} {x : Except ReferentError α} {e : Failure}
    (h : ofReferent x = .error e) : e.Cited := by
  cases x with
  | error e' =>
    cases h
    exact .referent e'
  | ok a => cases h

theorem Pointer.cited_of_addressee {scope : Scope (Node σ)} {p : Pointer}
    {e : Failure} (h : p.addressee scope = .error e) : e.Cited := by
  rcases bind_eq_error_iff.1 h with h | ⟨r, _, h⟩
  · exact Failure.cited_of_ofReferent h
  · cases r with
    | channel n => cases h
    | message m =>
      cases h
      exact .notAChannel _ _
    | pointer q =>
      cases h
      exact .notAChannel _ _

/-- What is handed on is less than what there is. -/
theorem Settings.grant_lt (s : Settings) (requested : Option Nat) {budget : Nat}
    (h : 0 < budget) : s.grant requested budget < budget := by
  rw [grant]
  exact Nat.lt_of_le_of_lt (Nat.min_le_right _ _) (Nat.sub_lt h Nat.one_pos)

/-- Whether the command puts a question to someone. -/
def Command.isAsk {C : Type} : Command C → Bool
  | .ask _ _ => true
  | _ => false

namespace Command

variable {s : Settings} {serial : Nat} {c : Command (Node σ)} {n : Node σ}
  {budget : Nat} {effect : Effect σ}

theorem execute_ask_eq_ok {m : Message (Node σ)} {options : AskOptions}
    (h : (Command.ask m options).execute s serial n budget = .ok effect) :
    ∃ recipient message, effect = .delegated recipient message (s.grant options.budget budget) := by
  rw [execute, Node.ask] at h
  split at h
  all_goals
    obtain ⟨recipient, _, h⟩ := bind_eq_ok_iff.1 h
    obtain ⟨message, _, h⟩ := bind_eq_ok_iff.1 h
    cases h
    exact ⟨recipient, _, rfl⟩

/-- A question is delegated, with a grant as the settings say; every other command is
    charged its cost at once. -/
theorem execute_eq_ok (h : c.execute s serial n budget = .ok effect) :
    (∃ m options recipient message, c = .ask m options ∧
      effect = .delegated recipient message (s.grant options.budget budget)) ∨
    (c.isAsk = false ∧ ∃ m, effect = .shown m s.commandCost ∨ effect = .ended m s.commandCost) := by
  cases c with
  | malformed => cases h; exact .inr ⟨rfl, _, .inl rfl⟩
  | reflect => cases h; exact .inr ⟨rfl, _, .inl rfl⟩
  | view m =>
    obtain ⟨o, _, h⟩ := bind_eq_ok_iff.1 h
    cases h
    exact .inr ⟨rfl, o, .inl rfl⟩
  | note m => cases h; exact .inr ⟨rfl, _, .inl rfl⟩
  | reply m =>
    obtain ⟨value, _, h⟩ := bind_eq_ok_iff.1 h
    cases h
    exact .inr ⟨rfl, value, .inr rfl⟩
  | ask m options =>
    obtain ⟨recipient, message, he⟩ := execute_ask_eq_ok h
    exact .inl ⟨m, options, recipient, message, rfl, he⟩

theorem cited_of_execute {e : Failure} (h : c.execute s serial n budget = .error e) :
    e.Cited := by
  cases c with
  | malformed => cases h
  | reflect => cases h
  | view m =>
    rcases bind_eq_error_iff.1 h with h | ⟨_, _, h⟩
    · exact Failure.cited_of_ofReferent h
    · cases h
  | note m => cases h
  | reply m =>
    rcases bind_eq_error_iff.1 h with h | ⟨_, _, h⟩
    · exact Failure.cited_of_ofReferent h
    · cases h
  | ask m options =>
    rw [execute, Node.ask] at h
    split at h
    all_goals
      rcases bind_eq_error_iff.1 h with h | ⟨_, _, h⟩
      · first
          | exact Pointer.cited_of_addressee h
          | cases h
      · rcases bind_eq_error_iff.1 h with h | ⟨_, _, h⟩
        · exact Failure.cited_of_ofReferent h
        · cases h

theorem spending_of_execute_shown {o : Message (Node σ)} {spending : Nat}
    (h : c.execute s serial n budget = .ok (.shown o spending)) : spending = s.commandCost := by
  rcases execute_eq_ok h with ⟨_, _, _, _, _, he⟩ | ⟨_, _, he | he⟩ <;> cases he
  rfl

theorem spending_of_execute_ended {value : Message (Node σ)} {spending : Nat}
    (h : c.execute s serial n budget = .ok (.ended value spending)) :
    spending = s.commandCost := by
  rcases execute_eq_ok h with ⟨_, _, _, _, _, he⟩ | ⟨_, _, he | he⟩ <;> cases he
  rfl

theorem granted_of_execute {recipient : Node σ} {message : Message (Node σ)} {granted : Nat}
    (h : c.execute s serial n budget = .ok (.delegated recipient message granted)) :
    ∃ m options, c = .ask m options ∧ granted = s.grant options.budget budget := by
  rcases execute_eq_ok h with ⟨m, options, _, _, hc, he⟩ | ⟨_, _, he | he⟩ <;> cases he
  exact ⟨m, options, hc, rfl⟩

/-- A question is given less budget than its asker has. -/
theorem granted_lt {recipient : Node σ} {m : Message (Node σ)} {granted : Nat} (hb : 0 < budget)
    (h : c.execute s serial n budget = .ok (.delegated recipient m granted)) :
    granted < budget := by
  obtain ⟨_, options, _, rfl⟩ := granted_of_execute h
  exact s.grant_lt _ hb

end Command

end Inquiry
