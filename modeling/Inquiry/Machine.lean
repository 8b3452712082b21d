import Inquiry.Command.Reader
import Inquiry.Effect
import Inquiry.Respondent

/-!
# The machine

An inquiry is carried out step by step. One conversation is in focus: it is
shown a message, or it has come to an answer. A conversation that asks is
*parked* with what it has handed on, below the conversation that answers it, so
the state of an inquiry is the focus and a stack.

A turn shows the message in focus, with its slots numbered behind those of the
scope and a notice of the budget, lets the respondent answer, and executes the
command in its response. Out of budget, the response itself is the answer. An
answer is settled with the conversation parked last, or is the outcome.

* `Machine.step`: one step of an inquiry;
* `Machine.Reaches`: the states that an inquiry goes through.
-/

namespace Inquiry

/-- A conversation in progress. -/
structure Conversation (σ : Type) where
  node : Node σ
  /-- What is shown next. -/
  message : Message (Node σ)
  budget : Nat
  /-- How many questions it is nested in. -/
  depth : Nat
  /-- How many turns it has taken. -/
  turns : Nat

/-- A conversation that waits for an answer. -/
structure Parked (σ : Type) where
  node : Node σ
  budget : Nat
  depth : Nat
  turns : Nat
  /-- The budget handed on with the question. -/
  granted : Nat

/-- What is in focus. -/
inductive Focus (σ : Type)
  | asking (c : Conversation σ)
  | answered (a : Answer σ)

/-- The state of an inquiry. -/
structure Machine (σ : Type) where
  focus : Focus σ
  /-- The conversations that wait, the last one first. -/
  parked : List (Parked σ)
  /-- The first serial number that no node has. -/
  supply : Nat
  record : Record

/-- How an inquiry ends. -/
inductive Outcome (α : Type)
  | ready (value : α)
  /-- A respondent has nothing to say yet to the end of this transcript. -/
  | suspended (t : Transcript)
  | failed (e : Failure)

/-- The end of an inquiry: the outcome, the first serial number not used and all
    consultations. -/
structure Run (α : Type) where
  outcome : Outcome α
  supply : Nat
  record : Record

/-- What a step leads to. -/
inductive Step (σ : Type)
  | next (m : Machine σ)
  | done (r : Run (Answer σ))

namespace Settings

/-- What a respondent is told about its budget. -/
def budgetNotice (budget : Nat) : String :=
  if budget = 0 then "\n[You have no budget, your next message is returned as-is]"
  else "\n[Remaining budget is " ++ toString budget ++ "]"

/-- What a respondent is shown for a message: the slots are numbered behind those it has
    been shown before, and if commands are counted, the budget is told. -/
def render {σ : Type} (s : Settings) (n : Node σ) (m : Message (Node σ)) (budget : Nat) :
    String :=
  m.renderFrom n.scope.length ++
    match s.accounting with
    | .steps => budgetNotice budget
    | .time => ""

/-- What is left of a budget after a response. -/
def afterResponse (s : Settings) (budget : Nat) (r : Response) : Nat :=
  match s.accounting with
  | .steps => budget
  | .time => budget - r.elapsed

/-- Charges an effect and says what comes into focus next, above which conversations. -/
def advance {σ : Type} (s : Settings) (n : Node σ) (effect : Effect σ)
    (budget depth turns : Nat) (parked : List (Parked σ)) :
    Except Failure (Focus σ × List (Parked σ)) :=
  if budget < effect.spending then .error (.overspent budget effect.spending)
  else
    let left := budget - effect.spending
    match effect with
    | .shown m _ => .ok (.asking ⟨n, m, left, depth, turns⟩, parked)
    | .ended value _ => .ok (.answered ⟨value, n, left⟩, parked)
    | .delegated recipient m granted =>
      if s.maxDepth < depth + 1 then .error (.tooDeep (depth + 1) s.maxDepth)
      else
        .ok (.asking ⟨recipient, m, granted, depth + 1, 0⟩,
          ⟨n, left, depth, turns, granted⟩ :: parked)

end Settings

namespace Machine

/-- The machine with a new focus, or the end of the inquiry if there is none. -/
def refocus {σ : Type} (m : Machine σ) :
    Except Failure (Focus σ × List (Parked σ)) → Step σ
  | .ok (focus, parked) => .next { m with focus, parked }
  | .error e => .done ⟨.failed e, m.supply, m.record⟩

/-- A turn of the conversation in focus. The node it leads to and the node of a new
    conversation, if one is asked, take the next two serial numbers. -/
def turn (R : Respondent) (s : Settings) (m : Machine R.State) (c : Conversation R.State) :
    Step R.State :=
  if s.maxTurns ≤ c.turns then
    .done ⟨.failed (.tooManyTurns c.turns s.maxTurns), m.supply, m.record⟩
  else
    match R.respond c.node.state ⟨s.render c.node c.message c.budget, c.budget⟩ m.record with
    | (.failed e, record) => .done ⟨.failed e, m.supply, record⟩
    | (.unavailable t, record) => .done ⟨.suspended t, m.supply, record⟩
    | (.answered r state, record) =>
      let n := c.node.successor m.supply c.message state
      let asked := m.supply + 1
      let budget := s.afterResponse c.budget r
      let m := { m with supply := m.supply + 2, record }
      if budget = 0 then .next { m with focus := .answered ⟨Message.parse r.text, n, 0⟩ }
      else
        m.refocus do
          let effect ← (Command.parse r.text).execute s asked n budget
          s.advance n effect budget c.depth (c.turns + 1) m.parked

/-- An answer, given to the conversation that was parked last. -/
def deliver {σ : Type} (s : Settings) (m : Machine σ) (a : Answer σ) : Step σ :=
  match m.parked with
  | [] => .done ⟨.ready a, m.supply, m.record⟩
  | p :: parked =>
    m.refocus do
      let effect ← a.settle s p.granted
      s.advance p.node effect p.budget p.depth p.turns parked

/-- One step of an inquiry. -/
def step (R : Respondent) (s : Settings) (m : Machine R.State) : Step R.State :=
  match m.focus with
  | .asking c => m.turn R s c
  | .answered a => m.deliver s a

/-- The states that steps lead to. -/
inductive Reaches (R : Respondent) (s : Settings) : Machine R.State → Machine R.State → Prop
  | refl (m : Machine R.State) : Reaches R s m m
  | step {m m' m'' : Machine R.State} (h : m.step R s = .next m') (r : Reaches R s m' m'') :
    Reaches R s m m''

end Machine

end Inquiry
