import Inquiry.Run

/-!
# Policies that know more

A policy need not say something to every transcript. Another policy *knows* it if
it says the same wherever the first one says something. What an inquiry with the
first comes to tells then what it comes to with the second (`Foretells`). If the
first is never at a loss, the inquiries are the same, consultation by
consultation. If it is, at some transcript, the second is consulted on the same
transcripts up to that one, and where it has nothing to say to it either, the
inquiries are the same again.

A step consults at most once, and behind a consultation that both answer the
machines are in the same state. So the comparison of two respondents in a turn
is one of steps, and by induction one of runs.

* `Foretells.behind`: comparisons add up, as long as the first policy answers;
* `Machine.foretells_run`, `Respondent.foretells_inquire`: respondents that compare
  in every turn compare in runs and inquiries.
-/

namespace Inquiry

namespace Policy

/-- The policy says what the other one says. -/
def Knows (q p : Policy) : Prop := ∀ t r, p t = some r → q t = some r

/-- The policy has something to say to each of the transcripts. -/
def Answers (p : Policy) (ts : List Transcript) : Prop := ∀ t ∈ ts, (p t).isSome

/-- The consultations on some transcripts, one after the other. -/
def consult (p : Policy) (ts : List Transcript) : List Consultation :=
  ts.map fun t => ⟨t, p t⟩

variable {p q : Policy} {ts us : List Transcript}

theorem consult_append (p : Policy) (ts us : List Transcript) :
    p.consult (ts ++ us) = p.consult ts ++ p.consult us :=
  List.map_append

theorem consult_singleton (p : Policy) (t : Transcript) : p.consult [t] = [⟨t, p t⟩] := rfl

theorem transcripts_consult (p : Policy) (ts : List Transcript) :
    (p.consult ts).map (·.transcript) = ts := by
  rw [consult, List.map_map]
  exact List.map_id _

theorem answers_nil (p : Policy) : p.Answers [] := fun _ h => nomatch h

theorem answers_singleton {t : Transcript} {r : Response} (h : p t = some r) : p.Answers [t] := by
  intro u hu
  rw [List.mem_singleton.1 hu, h]
  rfl

theorem Answers.append (hts : p.Answers ts) (hus : p.Answers us) : p.Answers (ts ++ us) :=
  fun t ht => (List.mem_append.1 ht).elim (hts t) (hus t)

theorem Knows.answers (h : q.Knows p) (hts : p.Answers ts) : q.Answers ts := by
  intro t ht
  obtain ⟨r, hr⟩ := Option.isSome_iff_exists.1 (hts t ht)
  rw [h t r hr]
  rfl

theorem Knows.consult_eq (h : q.Knows p) (hts : p.Answers ts) : q.consult ts = p.consult ts := by
  refine List.map_congr_left fun t ht => ?_
  obtain ⟨r, hr⟩ := Option.isSome_iff_exists.1 (hts t ht)
  rw [hr, h t r hr]

end Policy

/-! ## Comparing two policies -/

section

variable {α β : Type}

/-- With the policy `p` it comes to the first value and with `q` to the second, after the same
    consultations. The `view` of a value are the transcript that waits for a response, if there
    is one, and all consultations. -/
inductive Foretells (p q : Policy) (view : α → Option Transcript × Record)
    (before : List Consultation) : α → α → Prop
  /-- `p` is never at a loss. -/
  | throughout {x : α} {record : Record} {ts : List Transcript} (hx : view x = (none, record))
      (hts : p.Answers ts) (hr : record.toList = before ++ p.consult ts) :
    Foretells p q view before x x
  /-- `p` has nothing to say to `t`. -/
  | upTo {x y : α} {record : Record} {ts : List Transcript} {t : Transcript}
      (hx : view x = (some t, record)) (hts : p.Answers ts) (ht : p t = none)
      (hr : record.toList = before ++ p.consult (ts ++ [t]))
      (hy : before ++ q.consult (ts ++ [t]) <+: (view y).2.toList) (hq : q t = none → y = x) :
    Foretells p q view before x y

namespace Foretells

variable {p q : Policy} {view : α → Option Transcript × Record}
  {view' : β → Option Transcript × Record} {before : List Consultation} {x y : α}

/-- Nothing happens that depends on a policy. -/
theorem refl {record : Record} (hx : view x = (none, record)) :
    Foretells p q view record.toList x x :=
  .throughout hx p.answers_nil (List.append_nil _).symm

/-- If nothing waits with `p`, nothing changes with `q`. -/
theorem eq_of_none (h : Foretells p q view before x y) (hx : (view x).1 = none) : y = x := by
  cases h with
  | throughout _ _ _ => rfl
  | upTo hx' _ _ _ _ _ =>
    rw [hx'] at hx
    cases hx

/-- Nor does it if `q` has nothing to say to what waits. -/
theorem eq_of_some (h : Foretells p q view before x y) {t : Transcript}
    (hx : (view x).1 = some t) (ht : q t = none) : y = x := by
  cases h with
  | throughout _ _ _ => rfl
  | upTo hx' _ _ _ _ hq =>
    rw [hx'] at hx
    cases hx
    exact hq ht

/-- What waits with `p` is what it has nothing to say to. It has answered all transcripts before,
    and with `q` they are consulted on as well. -/
theorem exists_of_some (h : Foretells p q view before x y) {t : Transcript}
    (hx : (view x).1 = some t) :
    p t = none ∧ ∃ ts, p.Answers ts ∧ (view x).2.toList = before ++ p.consult (ts ++ [t]) ∧
      before ++ q.consult (ts ++ [t]) <+: (view y).2.toList := by
  cases h with
  | throughout hx' _ _ =>
    rw [hx'] at hx
    cases hx
  | @upTo y record ts t' hx' hts ht hr hy _ =>
    rw [hx'] at hx ⊢
    cases hx
    exact ⟨ht, ts, hts, hr, hy⟩

/-- What two other values come to may depend on no more than these. -/
theorem transfer (h : Foretells p q view before x y) {x' y' : β} (hx : view' x' = view x)
    (hy : view' y' = view y) (heq : y = x → y' = x') : Foretells p q view' before x' y' := by
  cases h with
  | throughout hv hts hr =>
    rw [heq rfl]
    exact .throughout (hx.trans hv) hts hr
  | upTo hv hts ht hr hmore hq =>
    exact .upTo (hx.trans hv) hts ht hr (hy ▸ hmore) fun h => heq (hq h)

/-- Consultations are only added. -/
theorem isPrefix (h : Foretells p q view before x y) : before <+: (view y).2.toList := by
  cases h with
  | throughout hx _ hr =>
    rw [hx]
    exact hr ▸ List.prefix_append _ _
  | upTo _ _ _ _ hy _ => exact (List.prefix_append _ _).trans hy

/-- Consultations that `p` has an answer for may come first. -/
theorem behind (hqp : q.Knows p) {ts : List Transcript} (hts : p.Answers ts)
    (h : Foretells p q view (before ++ p.consult ts) x y) : Foretells p q view before x y := by
  cases h with
  | throughout hx hus hr =>
    refine .throughout hx (hts.append hus) ?_
    rw [hr, Policy.consult_append, List.append_assoc]
  | @upTo y _ us t hx hus ht hr hy hq =>
    refine .upTo hx (hts.append hus) ht ?_ ?_ hq
    · rw [hr, List.append_assoc, List.append_assoc, Policy.consult_append _ ts]
    · rwa [List.append_assoc, Policy.consult_append, hqp.consult_eq hts, ← List.append_assoc]

end Foretells

end

/-! ## What waits for a response -/

variable {σ : Type}

/-- The transcript that waits for a response. -/
def Turn.awaited? : Turn σ → Option Transcript
  | .unavailable t => some t
  | .answered _ _ => none
  | .failed _ => none

/-- The transcript that waits for a response. -/
def Outcome.awaited? {α : Type} : Outcome α → Option Transcript
  | .suspended t => some t
  | .ready _ => none
  | .failed _ => none

theorem Outcome.awaited?_eq_some_iff {α : Type} {o : Outcome α} {t : Transcript} :
    o.awaited? = some t ↔ o = .suspended t := by
  cases o <;> simp [awaited?]

theorem Outcome.awaited?_eq_none_iff {α : Type} {o : Outcome α} :
    o.awaited? = none ↔ ∀ t, o ≠ .suspended t := by
  cases o <;> simp [awaited?]

/-- What waits for a response in the end, and all consultations. -/
def Run.view {α : Type} (r : Run α) : Option Transcript × Record :=
  (r.outcome.awaited?, r.record)

/-- What waits for a response behind a step, and all consultations. -/
def Step.view : Step σ → Option Transcript × Record
  | .next m => (none, m.record)
  | .done r => r.view

/-- What waits for a response in a turn, and all consultations. -/
def Turn.view (x : Turn σ × Record) : Option Transcript × Record :=
  (x.1.awaited?, x.2)

/-- A respondent adds consultations to those that are recorded, and takes none away. -/
def Respondent.Adds (R : Respondent) : Prop :=
  ∀ q o record, record.toList <+: (R.respond q o record).2.toList

namespace Machine

theorem view_refocus (m : Machine σ) (x : Except Failure (Focus σ × List (Parked σ))) :
    (m.refocus x).view = (none, m.record) := by
  cases x <;> rfl

theorem view_deliver (s : Settings) (m : Machine σ) (a : Answer σ) :
    (m.deliver s a).view = (none, m.record) := by
  rw [deliver]
  split
  · rfl
  · exact view_refocus _ _

/-- A step that takes a turn adds what the turn adds, and waits for what the turn waits for. -/
theorem view_step {R : Respondent} {s : Settings} {m : Machine R.State}
    {c : Conversation R.State} (hf : m.focus = .asking c) (ht : c.turns < s.maxTurns) :
    (m.step R s).view = Turn.view (R.respond c.node.state
      ⟨s.render c.node c.message c.budget, c.budget⟩ m.record) := by
  have h := rule_step R s m
  generalize m.step R s = st at h
  cases h with
  | noTurn hf' ht' =>
    cases hf.symm.trans hf'
    exact absurd ht' (Nat.not_le.2 ht)
  | failed hf' _ hr | unavailable hf' _ hr =>
    cases hf.symm.trans hf'
    rw [hr]
    rfl
  | outOfBudget ha _ | misled ha _ _ =>
    cases hf.symm.trans ha.focus
    rw [ha.respond]
    rfl
  | overspent hx _ | shown hx _ | ended hx _ | tooDeep hx _ | asked hx _ =>
    cases hf.symm.trans hx.focus
    rw [hx.respond]
    rfl
  | concluded hf' _ | overdrawn hf' _ _ | overcharged hf' _ _ _ | settled hf' _ _ _ =>
    cases hf.symm.trans hf'

/-- Respondents that make the same of what is shown take the same step. -/
theorem step_congr {start : σ} {f g : σ → Observation → Record → Turn σ × Record}
    {s : Settings} {m : Machine σ} {c : Conversation σ} (hf : m.focus = .asking c)
    (h : g c.node.state ⟨s.render c.node c.message c.budget, c.budget⟩ m.record =
      f c.node.state ⟨s.render c.node c.message c.budget, c.budget⟩ m.record) :
    m.step ⟨σ, start, g⟩ s = m.step ⟨σ, start, f⟩ s := by
  rw [step_eq_turn hf, step_eq_turn hf]
  simp only [turn, h]
  obtain ⟨_ | _ | _, record⟩ := f c.node.state
    ⟨s.render c.node c.message c.budget, c.budget⟩ m.record <;> rfl

/-! ## Consultations are only added -/

section

variable {R : Respondent} (hR : R.Adds)

include hR

theorem isPrefix_record_step (s : Settings) (m : Machine R.State) :
    m.record.toList <+: (m.step R s).view.2.toList := by
  rcases hf : m.focus with c | a
  · by_cases ht : s.maxTurns ≤ c.turns
    · rw [(Rule.noTurn hf ht).step_eq]
      exact List.prefix_rfl
    · rw [view_step hf (Nat.lt_of_not_le ht)]
      exact hR _ _ _
  · rw [step_eq_deliver hf]
    exact view_deliver s m a ▸ List.prefix_rfl

theorem isPrefix_record_run (s : Settings) (m : Machine R.State) :
    (m.step R s).view.2.toList <+: (m.run R s).record.toList := by
  induction m using runInduct (R := R) (s := s) with
  | next m m' hst ih =>
    rw [run_of_step_next hst, hst]
    exact (isPrefix_record_step hR s m').trans ih
  | done m r hst =>
    rw [run_of_step_done hst, hst]
    exact List.prefix_rfl

end

/-! ## From turns to inquiries -/

section

variable {p q : Policy} (start : σ) {f g : σ → Observation → Record → Turn σ × Record}
  (hfg : ∀ state o record,
    Foretells p q Turn.view record.toList (f state o record) (g state o record))

include hfg

theorem foretells_step (s : Settings) (m : Machine σ) :
    Foretells p q Step.view m.record.toList (m.step ⟨σ, start, f⟩ s) (m.step ⟨σ, start, g⟩ s) := by
  rcases hf : m.focus with c | a
  · by_cases ht : s.maxTurns ≤ c.turns
    · rw [(Rule.noTurn hf ht).step_eq, (Rule.noTurn hf ht).step_eq]
      exact .refl rfl
    · have ht := Nat.lt_of_not_le ht
      exact (hfg _ _ _).transfer (view_step hf ht) (view_step hf ht) (step_congr hf)
  · rw [step_eq_deliver hf, step_eq_deliver hf]
    exact .refl (view_deliver s m a)

/-- Where one turn with `p` tells what it is with `q`, a run does. -/
theorem foretells_run (hqp : q.Knows p) (s : Settings) (m : Machine σ) :
    Foretells p q Run.view m.record.toList (m.run ⟨σ, start, f⟩ s) (m.run ⟨σ, start, g⟩ s) := by
  induction m using runInduct (R := ⟨σ, start, f⟩) (s := s) with
  | next m m' hf ih =>
    have hstep := foretells_step start hfg s m
    rw [hf] at hstep
    generalize hg : m.step ⟨σ, start, g⟩ s = y at hstep
    -- Nothing waits for a response, so both machines go on from the same state.
    cases hstep with
    | throughout hx hts hr =>
      rw [run_of_step_next hf, run_of_step_next hg]
      cases hx
      rw [hr] at ih
      exact ih.behind hqp hts
    | upTo hx _ _ _ _ _ => cases hx
  | done m r hf =>
    have hstep := foretells_step start hfg s m
    rw [hf] at hstep
    generalize hg : m.step ⟨σ, start, g⟩ s = y at hstep
    rw [run_of_step_done hf]
    cases hstep with
    | throughout hx hts hr =>
      rw [run_of_step_done hg]
      exact .throughout hx hts hr
    | upTo hx hts ht hr hy hq =>
      -- With `p` that is the end. With `q` it may go on, which only adds consultations.
      have hadds : Respondent.Adds ⟨σ, start, g⟩ := fun q o record => (hfg q o record).isPrefix
      have hmore := isPrefix_record_run hadds s m
      rw [hg] at hmore
      exact .upTo hx hts ht hr (hy.trans hmore) fun h => run_of_step_done (hg.trans (hq h))

end

end Machine

theorem Run.view_map {α β : Type} (φ : α → β) (r : Run α) : (r.map φ).view = r.view := by
  obtain ⟨_ | _ | _, supply, record⟩ := r <;> rfl

namespace Respondent

section

variable {p q : Policy} (hqp : q.Knows p) (start : σ)
  {f g : σ → Observation → Record → Turn σ × Record}
  (hfg : ∀ state o record,
    Foretells p q Turn.view record.toList (f state o record) (g state o record))

include hqp hfg

/-- Where one turn with `p` tells what it is with `q`, a conversation does. -/
theorem foretells_converseAfresh (s : Settings) (m : Message (Node σ)) (budget : Nat)
    (record : Record) :
    Foretells p q Run.view record.toList (converseAfresh ⟨σ, start, f⟩ s m budget 0 record)
      (converseAfresh ⟨σ, start, g⟩ s m budget 0 record) := by
  rw [converseAfresh, converseAfresh, converse, converse, if_neg (Nat.not_lt_zero _),
    if_neg (Nat.not_lt_zero _)]
  exact Machine.foretells_run start hfg hqp s
    (startAt ⟨σ, start, f⟩ (.root 0 start) m budget 0 1 record)

/-- Where one turn with `p` tells what it is with `q`, an inquiry does. -/
theorem foretells_inquire (s : Settings) (root : String) (budget : Nat) (record : Record) :
    Foretells p q Run.view record.toList (inquire ⟨σ, start, f⟩ s root budget record)
      (inquire ⟨σ, start, g⟩ s root budget record) := by
  rw [inquire, inquire]
  split
  · exact .refl rfl
  · exact (foretells_converseAfresh hqp start hfg s (Message.parse root) budget record).transfer
      (Run.view_map _ _) (Run.view_map _ _) (congrArg _)

end

/-- In a turn a policy is consulted once. -/
theorem foretells_respond {p q : Policy} (hqp : q.Knows p) (history t : Transcript)
    (o : Observation) (record : Record) :
    Foretells p q Turn.view record.toList ((ofOracle p.toOracle history).respond t o record)
      ((ofOracle q.toOracle history).respond t o record) := by
  cases hp : p (t.observed o) with
  | some r =>
    have hq : q.toOracle record (t.observed o) = some r := hqp _ _ hp
    rw [respond_ofOracle_of_eq_some history hp, respond_ofOracle_of_eq_some history hq]
    refine .throughout rfl (Policy.answers_singleton hp) ?_
    rw [Array.toList_push, Policy.consult_singleton, hp]
  | none =>
    rw [respond_ofOracle_of_eq_none history hp]
    refine .upTo rfl p.answers_nil hp ?_ ?_ fun (hq : q.toOracle record (t.observed o) = none) => ?_
    · rw [Array.toList_push, List.nil_append, Policy.consult_singleton, hp]
    · change _ <+: ((ofOracle q.toOracle history).respond t o record).2.toList
      rw [record_respond_ofOracle, Array.toList_push]
      exact List.prefix_rfl
    · exact respond_ofOracle_of_eq_none history hq

/-- What an inquiry with a policy comes to tells what it comes to with one that knows it. -/
theorem foretells_inquire_ofOracle {p q : Policy} (hqp : q.Knows p) (history : Transcript)
    (s : Settings) (root : String) (budget : Nat) (record : Record) :
    Foretells p q Run.view record.toList
      ((ofOracle p.toOracle history).inquire s root budget record)
      ((ofOracle q.toOracle history).inquire s root budget record) :=
  foretells_inquire hqp history (foretells_respond hqp history) s root budget record

end Respondent

end Inquiry
