import Inquiry.Proofs.Knowledge
import Inquiry.Resumption

/-!
# Resuming

An inquiry can be carried out with an answer book alone, by someone who knows
what to say: whenever the inquiry is suspended, the response to what waits is put
into the book and the inquiry is started over. This comes to the same as
following what is known from the start (`Resumption.drives_iff`).

Each time the inquiry starts over, it is suspended at the first of the
transcripts met that the book has nothing to say to. For that the book need only
be right about the transcripts met (`Policy.Right`): it may give wrong answers to
others, whose fingerprints happen to be in it. What it says about those met alone
is known both to the book and to whoever knows what to say.

* `Resumption.start_of_right`: where an inquiry is suspended;
* `Resumption.drives_iff`: the transcripts that it is suspended at when it is driven by
  a book are those met, each of them once, in the order in which they are first met.
-/

namespace Inquiry

namespace Policy

/-- The policy that has something to say to every transcript. -/
def total (h : Transcript → Response) : Policy := fun t => some (h t)

/-- The policy on some transcripts alone. -/
def only (p : Policy) (ts : List Transcript) : Policy := fun t => if t ∈ ts then p t else none

/-- The policy says what `h` says to these transcripts, as far as it says something. -/
def Right (p : Policy) (h : Transcript → Response) (ts : List Transcript) : Prop :=
  ∀ t ∈ ts, ∀ r, p t = some r → r = h t

variable {p : Policy} {h : Transcript → Response} {ts : List Transcript}

theorem only_of_mem {t : Transcript} (ht : t ∈ ts) : p.only ts t = p t := if_pos ht

theorem only_eq_some_iff {t : Transcript} {r : Response} :
    p.only ts t = some r ↔ t ∈ ts ∧ p t = some r := by
  rw [only]
  split
  · next ht => exact (and_iff_right ht).symm
  · next ht => exact ⟨fun h => (nomatch h), fun h => absurd h.1 ht⟩

theorem knows_only (p : Policy) (ts : List Transcript) : p.Knows (p.only ts) :=
  fun _ _ hr => (only_eq_some_iff.1 hr).2

theorem Right.knows_only (hp : p.Right h ts) : (total h).Knows (p.only ts) := by
  intro t r hr
  obtain ⟨ht, hr⟩ := only_eq_some_iff.1 hr
  rw [total, hp t ht r hr]

end Policy

namespace Resumption

/-- The transcripts that a policy is consulted on that has something to say to all of them. -/
def met (r : Resumption) (h : Transcript → Response) : List Transcript :=
  (r.run (Policy.total h).toOracle #[]).2.toList.map (·.transcript)

/-- The inquiry is carried out with an answer book: whenever it is suspended, it is resumed with
    the response `h` recorded for what waits. It is suspended at these transcripts and ends with
    this report. -/
inductive Drives (h : Transcript → Response) :
    Resumption → AnswerBook → List Transcript → Except Failure Report → Prop
  | completed {r : Resumption} {book : AnswerBook} {text : String}
      (hr : r.start book.decide = .ok (.completed text)) :
    Drives h r book [] (.ok (.completed text))
  | failed {r : Resumption} {book : AnswerBook} {e : Failure}
      (hr : r.start book.decide = .error e) : Drives h r book [] (.error e)
  | suspended {r : Resumption} {book : AnswerBook} {s : Suspension} {ts : List Transcript}
      {report : Except Failure Report} (hr : r.start book.decide = .ok (.suspended s))
      (hd : Drives h s.resume (book.record s.transcript (h s.transcript)) ts report) :
    Drives h r book (s.transcript :: ts) report

/-- The inquiry with a policy, from the start. -/
def inquiry (r : Resumption) (p : Policy) : Run String :=
  (Respondent.ofOracle p.toOracle .empty).inquire r.settings r.root r.budget #[]

theorem start_eq_report (r : Resumption) (p : Policy) :
    r.start p = r.report (r.inquiry p).outcome := rfl

variable {r : Resumption} {h : Transcript → Response} {p : Policy}

theorem foretells_inquiry {q : Policy} (hqp : q.Knows p) :
    Foretells p q Run.view [] (r.inquiry p) (r.inquiry q) :=
  Respondent.foretells_inquire_ofOracle hqp .empty r.settings r.root r.budget #[]

theorem report_ne_suspended {o : Outcome String} (ho : o.awaited? = none) (s : Suspension) :
    r.report o ≠ .ok (.suspended s) := by
  cases o with
  | ready text => exact fun h => nomatch h
  | suspended t => cases ho
  | failed e => exact fun h => nomatch h

theorem report_of_awaited {o : Outcome String} {t : Transcript} (ho : o.awaited? = some t) :
    r.report o = .ok (.suspended ⟨t, r⟩) := by
  cases o with
  | ready text => cases ho
  | suspended t' =>
    cases ho
    rfl
  | failed e => cases ho

/-! ## The first transcript that a policy has nothing to say to -/

/-- The inquiry with a policy that says nothing but what `h` says is the one with `h`, or it is
    suspended at the first of the transcripts met that the policy has nothing to say to. -/
theorem inquiry_of_known (hp : (Policy.total h).Knows p) :
    (p.Answers (r.met h) ∧ r.inquiry p = r.inquiry (.total h) ∧
      (r.inquiry p).outcome.awaited? = none) ∨
    ∃ before t after, r.met h = before ++ t :: after ∧ p.Answers before ∧ p t = none ∧
      (r.inquiry p).outcome.awaited? = some t := by
  have hmet : r.met h = (r.inquiry (.total h)).view.2.toList.map (·.transcript) := rfl
  have hf := foretells_inquiry (r := r) hp
  generalize r.inquiry (.total h) = y at hmet hf
  cases hf with
  | @throughout record ts hx hts hr =>
    rw [hx, hr, List.nil_append, Policy.transcripts_consult] at hmet
    exact .inl ⟨hmet ▸ hts, rfl, congrArg Prod.fst hx⟩
  | @upTo _ record ts t hx hts ht hr hy hq =>
    obtain ⟨more, hmore⟩ := hy
    rw [← hmore, List.map_append, List.nil_append, Policy.transcripts_consult, List.append_assoc]
      at hmet
    exact .inr ⟨ts, t, _, hmet, hts, ht, congrArg Prod.fst hx⟩

/-- A policy that is right about the transcripts met comes to the same as `h`, or it is
    suspended at the first of them that it has nothing to say to. -/
theorem start_of_right (hp : p.Right h (r.met h)) :
    (p.Answers (r.met h) ∧ r.start p = r.start (.total h) ∧
      ∀ s, r.start p ≠ .ok (.suspended s)) ∨
    ∃ before t after, r.met h = before ++ t :: after ∧ p.Answers before ∧ p t = none ∧
      r.start p = .ok (.suspended ⟨t, r⟩) := by
  -- The policy on the transcripts met is known both to the policy and to `h`. Compared with `h`
  -- it tells where it is at a loss, and there, or if it is not, the policy does as it does.
  have honly := p.knows_only (r.met h)
  have hf := foretells_inquiry (r := r) honly
  rcases inquiry_of_known hp.knows_only with
    ⟨hall, heq, hnone⟩ | ⟨before, t, after, hmet, hbefore, ht, hsome⟩
  · have hk := hf.eq_of_none hnone
    refine .inl ⟨honly.answers hall, ?_, ?_⟩
    · rw [start_eq_report, start_eq_report, hk, heq]
    · rw [start_eq_report, hk]
      exact report_ne_suspended hnone
  · have hm : t ∈ r.met h := hmet ▸ List.mem_append_right _ List.mem_cons_self
    rw [Policy.only_of_mem hm] at ht
    refine .inr ⟨before, t, after, hmet, honly.answers hbefore, ht, ?_⟩
    rw [start_eq_report, hf.eq_of_some hsome ht]
    exact report_of_awaited hsome

/-! ## Driving an inquiry -/

/-- The transcripts met that a policy has nothing to say to. -/
def undecided (r : Resumption) (h : Transcript → Response) (p : Policy) : List Transcript :=
  (r.met h).filter fun t => (p t).isNone

theorem filter_isNone_of_answers {ts : List Transcript} (hts : p.Answers ts) :
    ts.filter (fun t => (p t).isNone) = [] := by
  refine List.filter_eq_nil_iff.2 fun t ht => ?_
  rw [Bool.not_eq_true, Option.isNone_eq_false_iff]
  exact hts t ht

theorem undecided_of_append {before after : List Transcript} {t : Transcript}
    (hmet : r.met h = before ++ t :: after) (hbefore : p.Answers before) (ht : p t = none) :
    ∃ rest, r.undecided h p = t :: rest := by
  refine ⟨after.filter fun t => (p t).isNone, ?_⟩
  rw [undecided, hmet, List.filter_append, filter_isNone_of_answers hbefore, List.nil_append]
  exact List.filter_cons_of_pos (Option.isNone_iff_eq_none.2 ht)

section

variable (hinj : ∀ t ∈ r.met h, ∀ u ∈ r.met h, t.fingerprint = u.fingerprint → t = u)

include hinj

/-- A book stays right about the transcripts met if one of them is recorded. -/
theorem right_record {book : AnswerBook} {t : Transcript}
    (hbook : Policy.Right book.decide h (r.met h))
    (ht : t ∈ r.met h) : Policy.Right (book.record t (h t)).decide h (r.met h) := by
  intro u hu res hres
  rw [book.decide_record] at hres
  split at hres
  · next hf =>
    rw [hinj u hu t ht hf]
    exact (Option.some.inj hres).symm
  · exact hbook u hu res hres

/-- A transcript recorded is not undecided any more. -/
theorem undecided_record {book : AnswerBook} {t : Transcript} (ht : t ∈ r.met h) :
    r.undecided h (book.record t (h t)).decide =
      (r.undecided h book.decide).filter (! · == t) := by
  rw [undecided, undecided, List.filter_filter]
  refine List.filter_congr fun u hu => ?_
  rw [book.decide_record]
  by_cases hut : u = t
  · rw [if_pos (congrArg _ hut), hut, beq_self_eq_true]
    rfl
  · rw [if_neg fun hf => hut (hinj u hu t ht hf), beq_false_of_ne hut]
    rfl

/-- With a book that is right about the transcripts met, the inquiry is suspended at those
    that are undecided, each of them once. -/
theorem drives_iff_of_right {book : AnswerBook} (hbook : Policy.Right book.decide h (r.met h))
    {ts : List Transcript} {report : Except Failure Report} :
    Drives h r book ts report ↔
      ts = (r.undecided h book.decide).eraseDups ∧ report = r.start (.total h) := by
  generalize hn : (r.undecided h book.decide).length = n
  induction n using Nat.strongRecOn generalizing book ts with
  | ind n ih =>
    rcases start_of_right hbook with
      ⟨hall, hstart, hne⟩ | ⟨before, t, after, hmet, hbefore, ht, hstart⟩
    · rw [undecided, filter_isNone_of_answers hall, List.eraseDups_nil, ← hstart]
      constructor
      · intro hd
        cases hd with
        | completed hr => exact ⟨rfl, hr.symm⟩
        | failed hr => exact ⟨rfl, hr.symm⟩
        | suspended hr _ => exact absurd hr (hne _)
      · rintro ⟨rfl, rfl⟩
        rcases hs : r.start book.decide with e | text | s
        · exact .failed hs
        · exact .completed hs
        · exact absurd hs (hne s)
    · -- The first undecided transcript is recorded and is not undecided from then on.
      have hm : t ∈ r.met h := hmet ▸ List.mem_append_right _ List.mem_cons_self
      obtain ⟨rest, hrest⟩ := undecided_of_append hmet hbefore ht
      have hund : r.undecided h (book.record t (h t)).decide = rest.filter (! · == t) := by
        rw [undecided_record hinj hm, hrest, List.filter_cons_of_neg]
        rw [beq_self_eq_true]
        decide
      have hlt : (r.undecided h (book.record t (h t)).decide).length < n := by
        rw [hund, ← hn, hrest]
        exact Nat.lt_succ_of_le (List.length_filter_le _ _)
      have hrec (us : List Transcript) : Drives h r (book.record t (h t)) us report ↔
          us = (r.undecided h (book.record t (h t)).decide).eraseDups ∧
            report = r.start (.total h) := ih _ hlt (right_record hinj hbook hm) rfl
      rw [hrest, List.eraseDups_cons, ← hund]
      constructor
      · intro hd
        cases hd with
        | completed hr => cases hstart.symm.trans hr
        | failed hr => cases hstart.symm.trans hr
        | suspended hr hd =>
          cases hstart.symm.trans hr
          obtain ⟨hts, hreport⟩ := (hrec _).1 hd
          exact ⟨congrArg _ hts, hreport⟩
      · rintro ⟨rfl, rfl⟩
        exact .suspended hstart ((hrec _).2 ⟨rfl, rfl⟩)

end

theorem nodup_eraseDups {α : Type} [BEq α] [LawfulBEq α] : (l : List α) → l.eraseDups.Nodup
  | [] => List.nodup_nil
  | a :: l => by
    rw [List.eraseDups_cons, List.nodup_cons, List.mem_eraseDups, List.mem_filter]
    refine ⟨fun ⟨_, ha⟩ => ?_, nodup_eraseDups (l.filter fun b => !b == a)⟩
    rw [beq_self_eq_true] at ha
    cases ha
termination_by l => l.length
decreasing_by exact Nat.lt_succ_of_le (List.length_filter_le _ _)

/-- Driven with an answer book that is empty at first, the inquiry is suspended at the
    transcripts that `h` is consulted on when it is followed from the start, in the order in
    which they come first and at none of them twice, and its end is the same. -/
theorem drives_iff (r : Resumption) (h : Transcript → Response)
    (hinj : ∀ t ∈ r.met h, ∀ u ∈ r.met h, t.fingerprint = u.fingerprint → t = u)
    (ts : List Transcript) (report : Except Failure Report) :
    (Drives h r .empty ts report ↔
        ts = (r.met h).eraseDups ∧ report = r.start (.total h)) ∧
      (r.met h).eraseDups.Nodup := by
  refine ⟨?_, nodup_eraseDups _⟩
  have hbook : Policy.Right AnswerBook.empty.decide h (r.met h) := fun _ _ _ h => nomatch h
  have hall : r.undecided h AnswerBook.empty.decide = r.met h :=
    List.filter_eq_self.2 fun _ _ => rfl
  rw [drives_iff_of_right hinj hbook, hall]

/-- A question is asked twice, so the inquiry is suspended four times for five consultations. -/
theorem drives_iff_askedTwice :
    let r : Resumption := ⟨"?", 9, { accounting := .time }⟩
    let h : Transcript → Response := fun t =>
      match t.observations.map (·.budget) with
      | [0] => { text := "" }
      | [_, _, _] => { text := "reply done" }
      | _ => { text := "ask$0 a" }
    (r.met h).length = 5 ∧ ∃ ts, ts.length = 4 ∧ ts.Nodup ∧
      Drives h r .empty ts (.ok (.completed "done")) := by
  intro r h
  have hlength : (r.met h).length = 5 ∧ (r.met h).eraseDups.length = 4 := by decide +kernel
  have hinj : ∀ t ∈ r.met h, ∀ u ∈ r.met h, t.fingerprint = u.fingerprint → t = u := by
    decide +kernel
  have hstart : r.start (.total h) = .ok (.completed "done") := by
    have htext : (match r.start (.total h) with
      | .ok report => report.text?
      | .error _ => none) = some "done" := by decide +kernel
    split at htext
    · next report hr =>
      cases report with
      | completed text =>
        cases htext
        exact hr
      | suspended s => cases htext
    · cases htext
  obtain ⟨hdrives, hnodup⟩ :=
    drives_iff r h hinj (r.met h).eraseDups (.ok (.completed "done"))
  exact ⟨hlength.1, _, hlength.2, hnodup, hdrives.2 ⟨rfl, hstart.symm⟩⟩

end Resumption

end Inquiry
