import Inquiry.Failure
import Inquiry.Transcript

/-!
# Respondents

A *respondent* answers what it is shown. It is a transition system: from a
state, an observation leads to a response and the next state, so that a state
kept from earlier can be taken up again at any time.

The respondents of interest follow a *policy*, a function of the transcript so
far that may have nothing to say. An *oracle* may look besides at every
consultation made before, in any conversation. All consultations are recorded,
in the order in which they are made.

* `Respondent.record_respond_ofOracle`: a respondent that follows an oracle
  consults it once in a turn;
* `Respondent.eq_some_of_respond_ofOracle`: its transcript goes on with what it has seen
  and said.
-/

namespace Inquiry

/-- What a respondent makes of an observation. -/
inductive Turn (σ : Type)
  /-- It responds, and goes on from the next state. -/
  | answered (response : Response) (next : σ)
  /-- It has nothing to say yet to the end of this transcript. -/
  | unavailable (t : Transcript)
  | failed (e : Failure)

/-- One consultation: what was asked and what was decided. -/
structure Consultation where
  transcript : Transcript
  decision : Option Response
  deriving DecidableEq

/-- All consultations, oldest first. -/
abbrev Record := Array Consultation

/-- Says something to a transcript, or nothing yet. -/
abbrev Policy := Transcript → Option Response

/-- A policy that knows what has been asked before. -/
abbrev Oracle := Record → Transcript → Option Response

/-- A policy as an oracle that does not look back. -/
def Policy.toOracle (p : Policy) : Oracle := fun _ t => p t

/-- Whoever answers what it is shown. -/
structure Respondent where
  State : Type
  start : State
  respond : State → Observation → Record → Turn State × Record

/-- The respondent that follows an oracle, from the given transcript on. Its state is
    the transcript. -/
def Respondent.ofOracle (oracle : Oracle) (history : Transcript) : Respondent where
  State := Transcript
  start := history
  respond t o record :=
    let seen := t.observed o
    match oracle record seen with
    | some r => (.answered r (seen.answered r), record.push ⟨seen, some r⟩)
    | none => (.unavailable seen, record.push ⟨seen, none⟩)

/-- The respondent that follows a policy, from the given transcript on. -/
def Respondent.ofPolicy (p : Policy) (history : Transcript) : Respondent :=
  ofOracle p.toOracle history

namespace Respondent

theorem record_respond_ofOracle (oracle : Oracle) (history t : Transcript)
    (o : Observation) (record : Record) :
    ((ofOracle oracle history).respond t o record).2 =
      record.push ⟨t.observed o, oracle record (t.observed o)⟩ := by
  simp only [ofOracle]
  split <;> simp_all

variable {oracle : Oracle} {t : Transcript} {o : Observation} {record : Record} {r : Response}

theorem respond_ofOracle_of_eq_some (history : Transcript)
    (h : oracle record (t.observed o) = some r) :
    (ofOracle oracle history).respond t o record =
      (.answered r ((t.observed o).answered r), record.push ⟨t.observed o, some r⟩) := by
  simp only [ofOracle, h]

theorem respond_ofOracle_of_eq_none (history : Transcript)
    (h : oracle record (t.observed o) = none) :
    (ofOracle oracle history).respond t o record =
      (.unavailable (t.observed o), record.push ⟨t.observed o, none⟩) := by
  simp only [ofOracle, h]

/-- A response is what the oracle says. The transcript goes on with it, and it is recorded. -/
theorem eq_some_of_respond_ofOracle {history q : Transcript} {record' : Record}
    (h : (ofOracle oracle history).respond t o record = (.answered r q, record')) :
    oracle record (t.observed o) = some r ∧ q = (t.observed o).answered r ∧
      record' = record.push ⟨t.observed o, some r⟩ := by
  cases hd : oracle record (t.observed o) with
  | none =>
    rw [respond_ofOracle_of_eq_none history hd] at h
    cases h
  | some r' =>
    rw [respond_ofOracle_of_eq_some history hd] at h
    cases h
    exact ⟨rfl, rfl, rfl⟩

/-- Whoever follows an oracle does not fail. -/
theorem respond_ofOracle_ne_failed (oracle : Oracle) (history t : Transcript)
    (o : Observation) (record : Record) (e : Failure) :
    ((ofOracle oracle history).respond t o record).1 ≠ .failed e := by
  intro h
  simp only [ofOracle] at h
  split at h <;> cases h

end Respondent

end Inquiry
