import Inquiry.Machine.Nodes
import Inquiry.Proofs.Reserve

/-!
# Visits

A conversation is addressed, takes turns, waits while others answer what it asks in them,
and comes to an answer: this is a *visit*. Where an answer has come from is a node, and so is
every place on the way there, so a conversation can be addressed again, by whoever holds a
channel to one of them, and goes on from there in another visit.

Turns are counted in each visit anew, while the transcript goes on from one visit to the next.
So the limit on turns is one on what a visit adds to a transcript (`Machine.Visiting`), and a
transcript is as long as the visits allow that it has come about in (`Machine.Visits`).

* `Machine.visiting_step`, `Machine.Continues.visiting`: what a visit has added to a transcript
  are the responses of its turns;
* `Machine.visited_step`, `Machine.Reaches.visited`: all nodes have come about in visits;
* `Respondent.length_responses_le`: how many responses a visit adds, and visits add up to;
* `Respondent.exists_maxTurns_lt`: in several visits they are more than one visit allows.
-/

namespace Inquiry

/-- The transcript goes on with this many responses. -/
def Transcript.GoesOn (t t' : Transcript) (count : Nat) : Prop :=
  ∃ rs, t'.responses = t.responses ++ rs ∧ rs.length = count

namespace Machine

/-! ## What visits are -/

theorem lt_length_levels_iff {σ : Type} {m : Machine σ} {k : Nat} :
    k < m.levels.length ↔ k ≤ m.parked.length := by
  rw [levels, List.length_append, List.length_map, List.length_reverse, List.length_singleton,
    Nat.lt_succ_iff]

/-- A visit starts: the conversation in focus is shown its first message in it. -/
structure Opens {σ : Type} (m : Machine σ) (c : Conversation σ) : Prop where
  focus : m.focus = .asking c
  turns : c.turns = 0

section

variable (R : Respondent) (s : Settings)

/-- The nodes where the conversation at level `k` stands, or comes to in its turn. -/
inductive Stands (m : Machine R.State) (k : Nat) : Node R.State → Prop
  | focus (hk : m.parked.length = k) : Stands m k m.focus.node
  | parked {above below : List (Parked R.State)} {p : Parked R.State}
    (hp : m.parked = above ++ p :: below) (hk : below.length = k) : Stands m k p.node
  | successor {c : Conversation R.State} {r : Response} {q : R.State} {record : Record}
    (h : Answered R s m c r q record) (hk : m.parked.length = k) : Stands m k (m.successor c q)

/-- In an inquiry from `start` on, the node has come about in this many visits, each of which
    goes on where the one before it has come to. -/
inductive Visits (start : Machine R.State) : Node R.State → Nat → Prop
  | fresh (serial : Nat) : Visits start (.root serial R.start) 0
  | visit {m m' : Machine R.State} {c : Conversation R.State} {n : Node R.State} {k : Nat}
    (hm : Reaches R s start m) (hc : m.Opens c) (hv : Visits start c.node k)
    (h : Continues R s m.parked.length m m') (hn : Stands R s m' m.parked.length n) :
    Visits start n (k + 1)

end

/-! ## What a visit adds -/

section

variable {oracle : Oracle} {history : Transcript} {s : Settings} {t : Transcript} {k : Nat}
  {m m' : Machine (Respondent.ofOracle oracle history).State}
  {n : Node (Respondent.ofOracle oracle history).State}

/-- The conversation at level `k` has gone on from the transcript `t` with the responses of its
    turns, and these are no more than allowed. -/
inductive Visiting (s : Settings) (t : Transcript) (k : Nat)
    (m : Machine (Respondent.ofOracle oracle history).State) : Prop
  | asking {c : Conversation (Respondent.ofOracle oracle history).State}
    (hf : m.focus = .asking c) (hk : m.parked.length = k) (ht : c.turns ≤ s.maxTurns)
    (hg : t.GoesOn c.node.state c.turns)
  | answered {a : Answer (Respondent.ofOracle oracle history).State} {turns : Nat}
    (hf : m.focus = .answered a) (hk : m.parked.length = k) (ht : turns ≤ s.maxTurns)
    (hg : t.GoesOn a.node.state turns)
  | parked (above : List (Parked (Respondent.ofOracle oracle history).State))
    {below : List (Parked (Respondent.ofOracle oracle history).State)}
    {p : Parked (Respondent.ofOracle oracle history).State}
    (hp : m.parked = above ++ p :: below) (hk : below.length = k) (ht : p.turns ≤ s.maxTurns)
    (hg : t.GoesOn p.node.state p.turns)

/-- A turn adds its response. -/
theorem Answered.goesOn {c : Conversation (Respondent.ofOracle oracle history).State}
    {r : Response} {q : (Respondent.ofOracle oracle history).State} {record : Record} {turns : Nat}
    (h : Answered (.ofOracle oracle history) s m c r q record)
    (hg : t.GoesOn c.node.state turns) : t.GoesOn (m.successor c q).state (turns + 1) := by
  obtain ⟨rs, heq, hlength⟩ := hg
  obtain ⟨-, rfl, -⟩ := Respondent.eq_some_of_respond_ofOracle h.respond
  refine ⟨rs ++ [r], ?_, by rw [List.length_append, hlength]; rfl⟩
  rw [← List.append_assoc, ← heq]
  rfl

/-- A step goes on with the visit at level `k`, unless it ends with it. -/
theorem visiting_step (h : m.step (.ofOracle oracle history) s = .next m')
    (hk' : k ≤ m'.parked.length) (hm : Visiting s t k m) : Visiting s t k m' := by
  have hrule := rule_iff.2 h
  cases hm with
  | asking hf hk ht hg =>
    have hturn {c r q record} (ha : Answered (.ofOracle oracle history) s m c r q record) :
        c.turns + 1 ≤ s.maxTurns ∧ t.GoesOn (m.successor c q).state (c.turns + 1) := by
      cases hf.symm.trans ha.focus
      exact ⟨ha.turns, ha.goesOn hg⟩
    cases hrule with
    | outOfBudget ha _ => exact .answered rfl hk (hturn ha).1 (hturn ha).2
    | shown hx _ => exact .asking rfl hk (hturn hx.toAnswered).1 (hturn hx.toAnswered).2
    | ended hx _ => exact .answered rfl hk (hturn hx.toAnswered).1 (hturn hx.toAnswered).2
    | asked hx _ =>
      exact .parked [] rfl hk (hturn hx.toAnswered).1 (hturn hx.toAnswered).2
    | settled hf' _ _ _ => cases hf.symm.trans hf'
  | answered hf hk ht hg =>
    cases hrule with
    | settled _ hp _ _ =>
      rw [hp] at hk
      exact absurd hk' (by simp [← hk])
    | outOfBudget ha _ => cases hf.symm.trans ha.focus
    | shown hx _ => cases hf.symm.trans hx.focus
    | ended hx _ => cases hf.symm.trans hx.focus
    | asked hx _ => cases hf.symm.trans hx.focus
  | @parked above below p hp hk ht hg =>
    cases hrule with
    | outOfBudget _ _ => exact .parked above hp hk ht hg
    | shown _ _ => exact .parked above hp hk ht hg
    | ended _ _ => exact .parked above hp hk ht hg
    | asked _ _ => exact .parked (_ :: above) (congrArg _ hp) hk ht hg
    | settled _ hp' _ _ =>
      rw [hp] at hp'
      cases above with
      | nil =>
        obtain ⟨rfl, rfl⟩ := List.cons.inj hp'
        exact .asking rfl hk ht hg
      | cons p' above => exact .parked above (List.cons.inj hp').2.symm hk ht hg

/-- While a conversation goes on, it is the same visit. -/
theorem Continues.visiting (h : Continues (.ofOracle oracle history) s k m m')
    (hm : Visiting s t k m) : Visiting s t k m' := by
  induction h with
  | refl => exact hm
  | step _ hst r ih => exact ih (visiting_step hst (lt_length_levels_iff.1 r.lt_length) hm)

theorem Opens.visiting {c : Conversation (Respondent.ofOracle oracle history).State}
    (h : m.Opens c) : Visiting s c.node.state m.parked.length m :=
  .asking h.focus rfl (h.turns ▸ Nat.zero_le _) ⟨[], (List.append_nil _).symm, h.turns.symm⟩

/-- Where the conversation stands, or comes to in its turn, no more is added than allowed. -/
theorem Visiting.goesOn (hm : Visiting s t k m)
    (hn : Stands (.ofOracle oracle history) s m k n) :
    ∃ turns ≤ s.maxTurns, t.GoesOn n.state turns := by
  cases hm with
  | asking hf hk ht hg =>
    cases hn with
    | focus => exact ⟨_, ht, by rwa [hf]⟩
    | parked hp hk' =>
      rw [hp, List.length_append, List.length_cons] at hk
      omega
    | successor ha _ =>
      cases hf.symm.trans ha.focus
      exact ⟨_, ha.turns, ha.goesOn hg⟩
  | answered hf hk ht hg =>
    cases hn with
    | focus => exact ⟨_, ht, by rwa [hf]⟩
    | parked hp hk' =>
      rw [hp, List.length_append, List.length_cons] at hk
      omega
    | successor ha _ => cases hf.symm.trans ha.focus
  | parked above hp hk ht hg =>
    have hlt : k < m.parked.length := by
      rw [hp, List.length_append, List.length_cons]
      omega
    cases hn with
    | focus hk' => exact absurd hk' (Nat.ne_of_gt hlt)
    | parked hp' hk' =>
      -- At one level there is one conversation.
      obtain ⟨-, heq⟩ := List.append_inj' (hp.symm.trans hp') (by simp [hk, hk'])
      obtain ⟨rfl, -⟩ := List.cons.inj heq
      exact ⟨_, ht, hg⟩
    | successor _ hk' => exact absurd hk' (Nat.ne_of_gt hlt)

/-- A visit adds as many responses as turns are allowed, or less. -/
theorem Opens.goesOn {c : Conversation (Respondent.ofOracle oracle history).State}
    (hc : m.Opens c) (h : Continues (.ofOracle oracle history) s m.parked.length m m')
    (hn : Stands (.ofOracle oracle history) s m' m.parked.length n) :
    ∃ rs, n.state.responses = c.node.state.responses ++ rs ∧ rs.length ≤ s.maxTurns := by
  obtain ⟨turns, hle, rs, heq, rfl⟩ := (h.visiting hc.visiting).goesOn hn
  exact ⟨rs, heq, hle⟩

theorem Visits.length_le
    {start : Machine (Respondent.ofOracle oracle history).State} {count : Nat}
    (h : Visits (.ofOracle oracle history) s start n count) :
    n.state.responses.length ≤ history.responses.length + count * s.maxTurns := by
  induction h with
  | fresh serial => exact Nat.le_add_right _ _
  | visit hm hc hv h hn ih =>
    obtain ⟨rs, heq, hle⟩ := hc.goesOn h hn
    rw [heq, List.length_append, Nat.succ_mul, ← Nat.add_assoc]
    exact Nat.add_le_add ih hle

end

/-! ## All nodes have come about in visits -/

section

variable {R : Respondent} {s : Settings} {start m m' : Machine R.State} {n : Node R.State}

/-- At level `k` a visit goes on, of a conversation that stood at a node that has come about in
    visits itself. -/
def Opened (R : Respondent) (s : Settings) (start m : Machine R.State) (k : Nat) : Prop :=
  ∃ m₀ c count, Reaches R s start m₀ ∧ m₀.Opens c ∧ Visits R s start c.node count ∧
    m₀.parked.length = k ∧ Continues R s k m₀ m

/-- In a reachable state, a visit goes on at every level, and the nodes have come about in
    visits. -/
structure Visited (R : Respondent) (s : Settings) (start m : Machine R.State) : Prop where
  reaches : Reaches R s start m
  opened : ∀ k ≤ m.parked.length, Opened R s start m k
  held : ∀ n, m.Holds n → n.start = R.start ∧ ∃ count, Visits R s start n count

theorem Visited.of_meets (h : Visited R s start m) (hn : Meets R s m n) :
    n.start = R.start ∧ ∃ count, Visits R s start n count := by
  cases hn with
  | held hn => exact h.held n hn
  | @successor c r q record ha =>
    have hstart : c.node.start = R.start := (h.held _ (holds_of_asking ha.focus)).1
    obtain ⟨m₀, _, count, hm₀, hc, hv, hk, hgoes⟩ := h.opened _ (Nat.le_refl _)
    exact ⟨hstart, count + 1, .visit hm₀ hc hv (hk ▸ hgoes) (.successor ha hk.symm)⟩
  | @recipient c r q record b granted n message hx =>
    rcases Command.recipient_of_execute hx.execute with rfl | hn
    · have hstart : c.node.start = R.start := (h.held _ (holds_of_asking hx.focus)).1
      have hchild : Node.child (m.supply + 1) (m.successor c q) = .root (m.supply + 1) R.start :=
        congrArg (Node.root _) hstart
      rw [hchild]
      exact ⟨rfl, 0, .fresh _⟩
    · exact h.held n (hx.toAnswered.holds hn)

/-- If one more conversation waits after a step, a visit starts. -/
theorem exists_opens_of_step (h : m.step R s = .next m')
    (hlt : m.parked.length < m'.parked.length) :
    m'.parked.length = m.parked.length + 1 ∧ ∃ c, m'.Opens c := by
  cases rule_iff.2 h with
  | outOfBudget _ _ => exact absurd hlt (Nat.lt_irrefl _)
  | shown _ _ => exact absurd hlt (Nat.lt_irrefl _)
  | ended _ _ => exact absurd hlt (Nat.lt_irrefl _)
  | asked _ _ => exact ⟨rfl, _, rfl, rfl⟩
  | settled _ hp _ _ =>
    rw [hp] at hlt
    exact absurd hlt (Nat.not_lt.2 (Nat.le_succ _))

theorem visited_step (hst : m.step R s = .next m') (h : Visited R s start m) :
    Visited R s start m' := by
  have hreaches := h.reaches.tail hst
  have hheld : ∀ n, m'.Holds n → n.start = R.start ∧ ∃ count, Visits R s start n count :=
    fun n hn => h.of_meets (meets_of_holds_next hst hn)
  refine ⟨hreaches, fun k hk => ?_, hheld⟩
  have hlevel : k < m'.levels.length := lt_length_levels_iff.2 hk
  rcases Nat.lt_or_ge m.parked.length k with hlt | hle
  · obtain ⟨hlength, c, hc⟩ := exists_opens_of_step hst (Nat.lt_of_lt_of_le hlt hk)
    obtain rfl : m'.parked.length = k := by omega
    obtain ⟨-, count, hv⟩ := hheld c.node (holds_of_asking hc.focus)
    exact ⟨m', c, count, hreaches, hc, hv, rfl, .refl m' hlevel⟩
  · obtain ⟨m₀, c, count, hm₀, hc, hv, hk₀, hgoes⟩ := h.opened k hle
    exact ⟨m₀, c, count, hm₀, hc, hv, hk₀, hgoes.tail hst hlevel⟩

theorem visited_startAt {message : Message (Node R.State)} (hm : message.ChannelFree)
    (s : Settings) (serial budget depth supply : Nat) (record : Record) :
    Visited R s (R.startAt (.root serial R.start) message budget depth supply record)
      (R.startAt (.root serial R.start) message budget depth supply record) where
  reaches := .refl _
  opened k hk := by
    obtain rfl := Nat.le_zero.1 hk
    exact ⟨_, _, 0, .refl _, ⟨rfl, rfl⟩, .fresh serial, rfl, .refl _ (Nat.zero_lt_succ _)⟩
  held n hn := by
    rw [eq_root_of_holds_startAt hm hn]
    exact ⟨rfl, 0, .fresh serial⟩

/-- All nodes that come up in an inquiry have come about in visits. -/
theorem Reaches.visited {message : Message (Node R.State)} (hm : message.ChannelFree)
    {serial budget depth supply : Nat} {record : Record}
    (h : Reaches R s (R.startAt (.root serial R.start) message budget depth supply record) m) :
    Visited R s (R.startAt (.root serial R.start) message budget depth supply record) m :=
  h.keeps (fun _ _ => visited_step) (visited_startAt hm s serial budget depth supply record)

end

end Machine

/-- In an inquiry by a policy, or an oracle, a visit to a conversation adds no more responses to
    its transcript than `maxTurns`, from the first message in it up to the answer. All nodes that
    come up in the inquiry have come about in visits, and each node that has come about in some
    visits has no more responses in its transcript than these can add, besides those of the history
    that conversations start from. -/
theorem Respondent.length_responses_le (oracle : Oracle) (history : Transcript) (s : Settings)
    (root : String) (budget : Nat) (record : Record) :
    let R := ofOracle oracle history
    let start := R.startAt (.root 0 history) (Message.parse root) budget 0 1 record
    (∀ m c m' n, m.Opens c → Machine.Continues R s m.parked.length m m' →
      Machine.Stands R s m' m.parked.length n →
      ∃ rs, n.state.responses = c.node.state.responses ++ rs ∧ rs.length ≤ s.maxTurns) ∧
    (∀ m n, Machine.Reaches R s start m → Machine.Meets R s m n →
      ∃ count, Machine.Visits R s start n count) ∧
    ∀ n count, Machine.Visits R s start n count →
      n.state.responses.length ≤ history.responses.length + count * s.maxTurns := by
  intro R start
  refine ⟨fun m c m' n hc h hn => hc.goesOn h hn, fun m n hm hn => ?_,
    fun n count h => h.length_le⟩
  exact ((hm.visited (Message.channelFree_parse root)).of_meets hn).2

/-- In two visits, a conversation can take more turns than one visit may have: where three are
    allowed, whoever is asked `a` takes three turns to answer, and two more when addressed again,
    the second of them to a transcript with four responses. -/
theorem Respondent.exists_maxTurns_lt :
    let s : Settings := { maxTurns := 3 }
    let policy : Policy := fun t =>
      let script :=
        if t.observations.head? = some ⟨"?\n[Remaining budget is 9]", 9⟩ then
          ["ask a", "ask@0 b", "reply done"]
        else ["note x", "note x", "reply one", "note x", "reply two"]
      script[t.responses.length]?.map (⟨·, 0⟩)
    let run := (ofPolicy policy .empty).inquire s "?" 9 #[]
    s.Valid ∧ run.outcome = .ready "done" ∧
      ∃ c ∈ run.record, s.maxTurns < c.transcript.responses.length := by
  intro s policy run
  have hvalue : run.outcome.value? = some "done" := by decide +kernel
  have hmany : ∃ c ∈ run.record.toList, s.maxTurns < c.transcript.responses.length := by
    decide +kernel
  obtain ⟨c, hc, hlt⟩ := hmany
  exact ⟨by decide, Outcome.value?_eq_some_iff.1 hvalue, c, Array.mem_toList_iff.1 hc, hlt⟩

end Inquiry
