import Inquiry.Proofs.Knowledge
import Inquiry.Respondent.Budgeted

/-!
# Policies that know more, behind layers

What is decided once stays decided. If an inquiry with a policy comes to an answer
or fails, it comes to the same with every policy that knows the first one, and if
it is suspended, the other policy is consulted on all that the first one was
consulted on, and has at least that much to say.

This holds behind any inquiries that answer for one another: in a turn, such an
inquiry makes of an observation what its own run comes to, and it is suspended
where that run is, with the same transcript. So respondents that compare in every
turn (`Respondent.ForetellsTurns`) do so behind one more layer.

* `Respondent.foretellsTurns_layered`: policies compare behind layers;
* `Respondent.inquire_of_knows`: what an inquiry with more knowledge comes to.
-/

namespace Inquiry

/-- The transcripts that were consulted on, one after the other. -/
def Record.transcripts (record : Record) : List Transcript :=
  record.toList.map (·.transcript)

theorem Record.transcripts_eq_append {record record' : Record} {p : Policy} {ts : List Transcript}
    (h : record'.toList = record.toList ++ p.consult ts) :
    record'.transcripts = record.transcripts ++ ts := by
  rw [transcripts, h, List.map_append, Policy.transcripts_consult, transcripts]

theorem Record.append_isPrefix_transcripts {record record' : Record} {p : Policy}
    {ts : List Transcript} (h : record.toList ++ p.consult ts <+: record'.toList) :
    record.transcripts ++ ts <+: record'.transcripts := by
  have hmap := h.map (·.transcript)
  rwa [List.map_append, Policy.transcripts_consult] at hmap

namespace Respondent

/-- In a turn, an inquiry waits for what its run waits for. -/
theorem view_respond_budgeted (R : Respondent) (s : Settings) (budget : Nat)
    (state : (R.budgeted s budget).State) (o : Observation) (record : Record) :
    Turn.view ((R.budgeted s budget).respond state o record) =
      (R.converseAfresh s (Message.parse o.text) budget 0 record).view := by
  simp only [budgeted]
  obtain ⟨_ | _ | _, _, _⟩ := R.converseAfresh s (Message.parse o.text) budget 0 record <;> rfl

/-- With the policy `p` behind it, the one respondent makes something of what it is shown that
    tells what the other one makes of it, with `q` behind it, in every state and turn. -/
inductive ForetellsTurns (p q : Policy) : Respondent → Respondent → Prop
  | intro {σ : Type} {start : σ} {f g : σ → Observation → Record → Turn σ × Record}
    (h : ∀ state o record,
      Foretells p q Turn.view record.toList (f state o record) (g state o record)) :
    ForetellsTurns p q ⟨σ, start, f⟩ ⟨σ, start, g⟩

section

variable {p q : Policy} (hqp : q.Knows p) {R R' : Respondent}

include hqp

theorem foretellsTurns_ofPolicy (history : Transcript) :
    ForetellsTurns p q (ofPolicy p history) (ofPolicy q history) :=
  .intro (foretells_respond hqp history)

/-- An inquiry of its own adds nothing that depends on a policy. -/
theorem foretellsTurns_budgeted (h : ForetellsTurns p q R R') (s : Settings) (budget : Nat) :
    ForetellsTurns p q (R.budgeted s budget) (R'.budgeted s budget) := by
  obtain @⟨σ, start, f, g, hfg⟩ := h
  refine .intro fun state o record => ?_
  refine (foretells_converseAfresh hqp start hfg s (Message.parse o.text) budget record).transfer
    (view_respond_budgeted _ s budget state o record)
    (view_respond_budgeted _ s budget state o record) fun heq => ?_
  rw [heq]

theorem foretellsTurns_layered (layers : List (Settings × Nat)) (h : ForetellsTurns p q R R') :
    ForetellsTurns p q (R.layered layers) (R'.layered layers) := by
  induction layers generalizing R R' with
  | nil => exact h
  | cons l ls ih => exact ih (foretellsTurns_budgeted hqp h l.1 l.2)

/-- What an inquiry with a policy behind layers comes to tells what it comes to with one that
    knows it. -/
theorem foretells_inquire_layered (history : Transcript) (layers : List (Settings × Nat))
    (s : Settings) (root : String) (budget : Nat) (record : Record) :
    Foretells p q Run.view record.toList
      (((ofPolicy p history).layered layers).inquire s root budget record)
      (((ofPolicy q history).layered layers).inquire s root budget record) := by
  have h := foretellsTurns_layered hqp layers (foretellsTurns_ofPolicy hqp history)
  generalize (ofPolicy p history).layered layers = R at h ⊢
  generalize (ofPolicy q history).layered layers = R' at h ⊢
  obtain @⟨σ, start, f, g, hfg⟩ := h
  exact foretells_inquire hqp start hfg s root budget record

end

/-- An inquiry with a policy, behind any layers, that is not suspended is the same with every
    policy that knows it. If it is suspended, at the first transcript that the policy has
    nothing to say to, the other policy is consulted on the same transcripts up to this one;
    and if it has nothing to say to it either, the inquiries are the same. -/
theorem inquire_of_knows {p q : Policy} (hqp : q.Knows p) (history : Transcript)
    (layers : List (Settings × Nat)) (s : Settings) (root : String) (budget : Nat)
    (record : Record) :
    let run (p : Policy) := ((ofPolicy p history).layered layers).inquire s root budget record
    ((∀ t, (run p).outcome ≠ .suspended t) → run q = run p) ∧
      ∀ t, (run p).outcome = .suspended t →
        (∃ ts, (run p).record.transcripts = record.transcripts ++ ts ++ [t] ∧
          p.Answers ts ∧ p t = none) ∧
        (run p).record.transcripts <+: (run q).record.transcripts ∧
        (q t = none → run q = run p) := by
  intro run
  have h : Foretells p q Run.view record.toList (run p) (run q) :=
    foretells_inquire_layered hqp history layers s root budget record
  constructor
  · intro hne
    exact h.eq_of_none (Outcome.awaited?_eq_none_iff.2 hne)
  · intro t ht
    have hview : (run p).view.1 = some t := Outcome.awaited?_eq_some_iff.2 ht
    obtain ⟨hpt, ts, hts, hp, hq⟩ := h.exists_of_some hview
    have hrecord := Record.transcripts_eq_append hp
    have hmore := Record.append_isPrefix_transcripts hq
    refine ⟨⟨ts, ?_, hts, hpt⟩, ?_, h.eq_of_some hview⟩
    · rw [List.append_assoc]
      exact hrecord
    · rw [← hrecord] at hmore
      exact hmore

/-- Behind one layer, a policy that has something to say to the first observation alone is
    suspended at the second one. A policy that knows more comes to an answer, and has been
    consulted on both. -/
theorem inquire_of_knows_oneMore :
    let p : Policy := fun t => if t.responses = [] then some ⟨"note x", 0⟩ else none
    let q : Policy := fun t =>
      if t.responses = [] then some ⟨"note x", 0⟩ else some ⟨"reply reply done", 0⟩
    let run (p : Policy) := ((ofPolicy p .empty).layered [({}, 5)]).inquire {} "?" 9 #[]
    q.Knows p ∧ ∃ t, (run p).outcome = .suspended t ∧ t.observations.length = 2 ∧
      (∃ ts, (run p).record.transcripts = Record.transcripts #[] ++ ts ++ [t] ∧ p.Answers ts ∧
        p t = none) ∧
      (run p).record.transcripts <+: (run q).record.transcripts ∧
      (run q).outcome = .ready "done" := by
  intro p q run
  have hqp : q.Knows p := by
    intro t r h
    rw [show p t = if t.responses = [] then some ⟨"note x", 0⟩ else none from rfl] at h
    split at h
    · next ht => exact (if_pos ht).trans h
    · cases h
  refine ⟨hqp, ?_⟩
  have hp : (run p).outcome.awaited?.map (·.observations.length) = some 2 := by decide +kernel
  have hq : (run q).outcome.value? = some "done" := by decide +kernel
  obtain ⟨t, ht, hlength⟩ := Option.map_eq_some_iff.1 hp
  have ht : (run p).outcome = .suspended t := Outcome.awaited?_eq_some_iff.1 ht
  obtain ⟨hts, hmore, -⟩ := (inquire_of_knows hqp .empty [({}, 5)] {} "?" 9 #[]).2 t ht
  exact ⟨t, ht, hlength, hts, hmore, Outcome.value?_eq_some_iff.1 hq⟩

end Respondent

end Inquiry
