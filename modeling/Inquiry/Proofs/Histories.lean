import Inquiry.Machine.Nodes
import Inquiry.Proofs.LayeredKnowledge

/-!
# Transcripts as histories

A policy is consulted on transcripts that have come about with it: whatever they
say was responded, the policy says when it is consulted on what came before
(`Policy.Wrote`). So a transcript that waits for a response can be replayed, from
nothing, with the policy alone.

This is known of every state of a respondent that is kept anywhere in an inquiry,
since it goes from a node to its successors and to its children, and the
respondent of an inquiry that answers for another one starts anew each time. What a
respondent keeps to, and what it is consulted on as long as it does
(`Respondent.Keeps`), is therefore the same behind layers.

* `Machine.mem_record_run`, `Respondent.Keeps.layered`: what a respondent is consulted on in
  a run, and behind layers;
* `Respondent.inquire_wrote`: all transcripts that a policy is consulted on in an inquiry
  are histories of it, and so is the one that the inquiry is suspended at.
-/

namespace Inquiry

/-! ## Histories of a policy -/

/-- What there was when the `i`-th response was made: the observations up to the one it
    answers, and the responses before it. -/
def Transcript.upTo (t : Transcript) (i : Nat) : Transcript :=
  ⟨t.observations.take (i + 1), t.responses.take i⟩

namespace Policy

/-- All responses in the transcript are what the policy says to what came before. -/
def Wrote (p : Policy) (t : Transcript) : Prop :=
  ∀ (i : Nat) (r : Response), t.responses[i]? = some r → p (t.upTo i) = some r

/-- The policy has made the responses in the transcript, one to each observation. -/
structure HasAnswered (p : Policy) (t : Transcript) : Prop where
  length_eq : t.observations.length = t.responses.length
  wrote : p.Wrote t

/-- The policy has made the responses in the transcript, and the last observation waits for
    one. -/
structure IsAwaited (p : Policy) (t : Transcript) : Prop where
  length_eq : t.observations.length = t.responses.length + 1
  wrote : p.Wrote t

variable {p : Policy} {t : Transcript}

theorem hasAnswered_empty (p : Policy) : p.HasAnswered .empty := ⟨rfl, fun _ _ h => nomatch h⟩

theorem HasAnswered.observed (h : p.HasAnswered t) (o : Observation) :
    p.IsAwaited (t.observed o) where
  length_eq := by
    rw [Transcript.observed, List.length_append, h.length_eq]
    rfl
  wrote := by
    intro i r hr
    -- The new observation comes behind those that any response was made to.
    have hi : i + 1 ≤ t.observations.length :=
      h.length_eq ▸ (List.getElem?_eq_some_iff.1 hr).choose
    have htake : (t.observed o).upTo i = t.upTo i := by
      rw [Transcript.upTo, Transcript.observed, List.take_append_of_le_length hi, Transcript.upTo]
    rw [htake]
    exact h.wrote i r hr

theorem IsAwaited.answered (h : p.IsAwaited t) {r : Response} (hr : p t = some r) :
    p.HasAnswered (t.answered r) where
  length_eq := by
    rw [Transcript.answered, List.length_append, h.length_eq]
    rfl
  wrote := by
    intro i r' hr'
    rcases Nat.lt_trichotomy i t.responses.length with hi | rfl | hi
    · have htake : (t.answered r).upTo i = t.upTo i := by
        rw [Transcript.upTo, Transcript.answered, List.take_append_of_le_length (Nat.le_of_lt hi),
          Transcript.upTo]
      rw [Transcript.answered, List.getElem?_append_left hi] at hr'
      rw [htake]
      exact h.wrote i r' hr'
    · -- The new response is the one to all there was before.
      have htake : (t.answered r).upTo t.responses.length = t := by
        rw [Transcript.upTo, Transcript.answered, ← h.length_eq, List.take_length, List.take_left]
      rw [Transcript.answered, List.getElem?_concat_length] at hr'
      rw [htake, hr, hr']
    · have hlen : (t.responses ++ [r]).length ≤ i := by
        rw [List.length_append]
        exact hi
      rw [Transcript.answered, List.getElem?_eq_none hlen] at hr'
      cases hr'

/-- What waits in a history is the last observation. -/
theorem IsAwaited.exists_pending (h : p.IsAwaited t) :
    ∃ o, t.pending? = some o ∧ t.observations.getLast? = some o := by
  have hlt : t.responses.length < t.observations.length := h.length_eq ▸ Nat.lt_succ_self _
  rw [Transcript.pending?, if_pos hlt]
  have hne : t.observations ≠ [] :=
    List.ne_nil_of_length_pos (Nat.lt_of_le_of_lt (Nat.zero_le _) hlt)
  exact ⟨_, List.getLast?_eq_some_getLast hne, List.getLast?_eq_some_getLast hne⟩

end Policy

/-! ## What respondents keep to -/

/-- From the start, the states of the respondent have a property, and as long as they do, the
    consultations that it adds have another one. -/
structure Respondent.Keeps (R : Respondent) (P : R.State → Prop) (Q : Consultation → Prop) :
    Prop where
  start : P R.start
  next : ∀ {q o record r q' record'}, P q →
    R.respond q o record = (.answered r q', record') → P q'
  record : ∀ {q o record c}, P q → c ∈ (R.respond q o record).2 → c ∈ record ∨ Q c

namespace Machine

variable {R : Respondent} {P : R.State → Prop} {Q : Consultation → Prop} {s : Settings}
  {m m' : Machine R.State} {c : Consultation}

/-- The states of the respondent have the property at all nodes, those where new conversations
    start included. -/
def Keeps (P : R.State → Prop) (m : Machine R.State) : Prop :=
  ∀ n, m.Holds n → P n.state ∧ P n.start

theorem keeps_step (hR : R.Keeps P Q) (h : m.step R s = .next m') (hm : m.Keeps P) :
    m'.Keeps P := by
  intro n hn
  refine Reaches.meets (P := fun n => P n.state ∧ P n.start) ?_ ?_ hm (.step h (.refl m'))
    (.held hn)
  · intro m c r q record ha hc
    exact ⟨hR.next hc.1 ha.respond, hc.2⟩
  · intro n serial hn
    exact ⟨hn.2, hn.2⟩

theorem mem_record_step (hR : R.Keeps P Q) (hm : m.Keeps P)
    (hc : c ∈ (m.step R s).view.2) : c ∈ m.record ∨ Q c := by
  rcases hf : m.focus with conv | a
  · by_cases ht : s.maxTurns ≤ conv.turns
    · rw [(Rule.noTurn hf ht).step_eq] at hc
      exact .inl hc
    · rw [view_step hf (Nat.lt_of_not_le ht)] at hc
      exact hR.record (hm _ (holds_of_asking hf)).1 hc
  · rw [step_eq_deliver hf, view_deliver] at hc
    exact .inl hc

/-- What is consulted on in a run. -/
theorem mem_record_run (hR : R.Keeps P Q) (hm : m.Keeps P) (hc : c ∈ (m.run R s).record) :
    c ∈ m.record ∨ Q c := by
  induction m using runInduct (R := R) (s := s) with
  | next m m' hst ih =>
    rw [run_of_step_next hst] at hc
    rcases ih (keeps_step hR hst hm) hc with hc | hc
    · exact mem_record_step (s := s) hR hm (hst ▸ hc)
    · exact .inr hc
  | done m r hst =>
    rw [run_of_step_done hst] at hc
    exact mem_record_step (s := s) hR hm (hst ▸ hc)

end Machine

namespace Respondent

variable {R : Respondent} {P : R.State → Prop} {Q : Consultation → Prop} {c : Consultation}

theorem Keeps.mem_record_converseAfresh (h : R.Keeps P Q) {s : Settings}
    {m : Message (Node R.State)} (hm : m.ChannelFree) {budget : Nat} {record : Record}
    (hc : c ∈ (R.converseAfresh s m budget 0 record).record) : c ∈ record ∨ Q c := by
  rw [converseAfresh, converse, if_neg (Nat.not_lt_zero _)] at hc
  refine Machine.mem_record_run h (fun n hn => ?_) hc
  rw [Machine.eq_root_of_holds_startAt hm hn]
  exact ⟨h.start, h.start⟩

/-- An inquiry that answers for another one starts anew each time. -/
theorem Keeps.budgeted (h : R.Keeps P Q) (s : Settings) (budget : Nat) :
    (R.budgeted s budget).Keeps (fun _ => True) Q where
  start := trivial
  next _ _ := trivial
  record _ hc := h.mem_record_converseAfresh (Message.channelFree_parse _) hc

theorem Keeps.layered (h : R.Keeps P Q) (layers : List (Settings × Nat)) :
    ∃ P, (R.layered layers).Keeps P Q := by
  induction layers generalizing R with
  | nil => exact ⟨P, h⟩
  | cons l ls ih => exact ih (h.budgeted l.1 l.2)

theorem Keeps.mem_record_inquire (h : R.Keeps P Q) {s : Settings} {root : String} {budget : Nat}
    {record : Record} (hc : c ∈ (R.inquire s root budget record).record) : c ∈ record ∨ Q c := by
  rw [inquire] at hc
  split at hc
  · exact .inl hc
  · exact h.mem_record_converseAfresh (Message.channelFree_parse root) hc

/-- A turn leads from what a policy has answered to what it has answered. -/
theorem hasAnswered_of_respond {p : Policy} {history t q : Transcript} {o : Observation}
    {record record' : Record} {r : Response} (ht : p.HasAnswered t)
    (h : (ofOracle p.toOracle history).respond t o record = (.answered r q, record')) :
    p.HasAnswered q := by
  obtain ⟨hd, rfl, -⟩ := eq_some_of_respond_ofOracle h
  exact (ht.observed o).answered hd

theorem mem_record_respond {p : Policy} {history t : Transcript} {o : Observation}
    {record : Record} (ht : p.HasAnswered t)
    (hc : c ∈ ((ofOracle p.toOracle history).respond t o record).2) :
    c ∈ record ∨ c.decision = p c.transcript ∧ p.IsAwaited c.transcript := by
  rw [record_respond_ofOracle, Array.mem_push] at hc
  rcases hc with hc | rfl
  · exact .inl hc
  · exact .inr ⟨rfl, ht.observed o⟩

/-- Whoever follows a policy from nothing keeps to its histories. -/
theorem keeps_ofPolicy (p : Policy) :
    (ofPolicy p .empty).Keeps p.HasAnswered
      (fun c => c.decision = p c.transcript ∧ p.IsAwaited c.transcript) where
  start := p.hasAnswered_empty
  next ht h := hasAnswered_of_respond ht h
  record ht hc := mem_record_respond ht hc

/-- What a policy is consulted on in an inquiry, behind any layers, are transcripts with one
    observation more than responses, in which each response is what the policy says to what
    came before. The transcript that the inquiry is suspended at, if it is, is one of these;
    the policy has nothing to say to it, and its last observation waits for a response. -/
theorem inquire_wrote (p : Policy) (layers : List (Settings × Nat)) (s : Settings)
    (root : String) (budget : Nat) :
    let run := ((ofPolicy p .empty).layered layers).inquire s root budget #[]
    (∀ c ∈ run.record, c.decision = p c.transcript ∧
      c.transcript.observations.length = c.transcript.responses.length + 1 ∧
      ∀ (i : Nat) (r : Response), c.transcript.responses[i]? = some r →
        p (c.transcript.upTo i) = some r) ∧
    ∀ t, run.outcome = .suspended t → t ∈ run.record.transcripts ∧ p t = none ∧
      ∃ o, t.pending? = some o ∧ t.observations.getLast? = some o := by
  intro run
  obtain ⟨_, hkeeps⟩ := (keeps_ofPolicy p).layered layers
  have hrecord : ∀ c ∈ run.record, c.decision = p c.transcript ∧ p.IsAwaited c.transcript :=
    fun c hc => (hkeeps.mem_record_inquire hc).resolve_left (by simp)
  constructor
  · intro c hc
    obtain ⟨hd, hlength, hwrote⟩ := hrecord c hc
    exact ⟨hd, hlength, hwrote⟩
  · intro t ht
    -- Compared with itself, the policy has nothing to say to what waits in the end.
    have hself : Foretells p p Run.view [] run run :=
      foretells_inquire_layered (fun _ _ h => h) .empty layers s root budget #[]
    obtain ⟨hpt, ts, -, hts, -⟩ := hself.exists_of_some (Outcome.awaited?_eq_some_iff.2 ht)
    have hts : run.record.transcripts = Record.transcripts #[] ++ (ts ++ [t]) :=
      Record.transcripts_eq_append hts
    have hmem : t ∈ run.record.transcripts := by
      rw [hts]
      exact List.mem_append_right _ (List.mem_append_right _ List.mem_cons_self)
    obtain ⟨c, hc, rfl⟩ := List.mem_map.1 hmem
    exact ⟨hmem, hpt, (hrecord c (Array.mem_toList_iff.1 hc)).2.exists_pending⟩

end Respondent

end Inquiry
