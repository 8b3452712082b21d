import Inquiry.Proofs.SlotNumbers

/-!
# Closedness

A pointer means something only in the scope that it is resolved against. What a
respondent views, answers or asks is instantiated before anyone else sees it, and
whatever is put in place of a pointer is closed if the scope is. Two things are
taken as they are, with the pointers in them: the message of a note, and a response
that is returned because no budget is left. As long as these have no pointers
(`Settings.Literal`) and the root has none, there are none anywhere else: not in
any scope, not in what is shown or asked, and not in any answer.

A channel in a message leads to another scope, so this has to be known of the
scopes of all nodes that can be reached, and of the message in focus at the same
time (`Machine.Closed`).

* `Machine.Executed.isClosed`: from closed scopes, only a note brings in pointers;
* `Machine.closed_step`: a step keeps a machine closed;
* `Machine.closed_of_reaches`: in a closed inquiry everything is closed, and slots
  are shown without arrows.
-/

namespace Inquiry

variable {C σ : Type}

/-! ## Closed messages -/

/-- Every slot of a closed message is shown as the mark of a message or of a channel, and its
    number. -/
theorem Message.renderFrom_of_isClosed {m : Message C} (h : m.isClosed) (start : Nat) :
    ∃ names : List String, names.length = m.size ∧ m.renderFrom start = m.render names ∧
      ∀ i name, names[i]? = some name →
        name = "#" ++ toString (start + i) ∨ name = "@" ++ toString (start + i) := by
  refine ⟨(m.slotsFrom start).map slotName, ?_, m.renderFrom_eq_render start, ?_⟩
  · rw [List.length_map, slotsFrom, List.length_zipIdx, size]
  · intro i name hi
    rw [slotsFrom, List.getElem?_map, List.getElem?_zipIdx] at hi
    cases ha : m.args[i]? with
    | none =>
      rw [ha] at hi
      cases hi
    | some a =>
      rw [ha] at hi
      cases hi
      have hclosed := isClosed_iff_args.1 h a (List.mem_of_getElem? ha)
      cases a with
      | message m => exact .inl rfl
      | channel c => exact .inr rfl
      | pointer p => cases hclosed

namespace Node

/-- Everything in scope is closed. -/
def Closed (n : Node σ) : Prop := ∀ a ∈ n.scope, a.isClosed

theorem closed_child (serial : Nat) (n : Node σ) : (n.child serial).Closed :=
  fun _ ha => nomatch ha

theorem Closed.successor {n : Node σ} (h : n.Closed) {shown : Message (Node σ)}
    (hshown : shown.isClosed) (serial : Nat) (state : σ) :
    (n.successor serial shown state).Closed := by
  intro a ha
  rcases List.mem_append.1 ha with ha | ha
  · exact h a ha
  · exact Message.isClosed_iff_args.1 hshown a ha

end Node

/-- There are no pointers in what is taken as it is from a response to a conversation with some
    budget: in a note, or in the response itself if no budget is left. -/
structure Settings.Literal (s : Settings) (C : Type) (budget : Nat) (r : Response) : Prop where
  returned : s.afterResponse budget r = 0 → (Message.parse r.text : Message C).isClosed
  noted : 0 < s.afterResponse budget r →
    ∀ m : Message C, Command.parse r.text = .note m → m.isClosed

namespace Machine

/-- There are no pointers in the scopes of any nodes and in the message in focus. -/
structure Closed (m : Machine σ) : Prop where
  scope : ∀ n, m.Holds n → n.Closed
  message : m.focus.message.isClosed

variable {R : Respondent} {s : Settings} {m m' : Machine R.State} {c : Conversation R.State}
  {r : Response} {q : R.State} {record : Record} {n : Node R.State}

/-! ## Steps -/

theorem Closed.isClosed_of_asking {m : Machine σ} {c : Conversation σ} (h : m.Closed)
    (hf : m.focus = .asking c) : c.message.isClosed := by
  have hm := h.message
  rwa [hf] at hm

/-- The nodes that come up in a turn have closed scopes too. -/
theorem Closed.of_meets (h : m.Closed) (hn : Meets R s m n) : n.Closed :=
  hn.inherits (fun ha hc => hc.successor (h.isClosed_of_asking ha.focus) _ _)
    (fun _ => Node.closed_child _ _) h.scope

/-- What comes of a command is closed if everything in scope is, and if a note is. -/
theorem Executed.isClosed {b : Nat} {effect : Effect R.State}
    (hx : Executed R s m c r q record b effect) (h : m.Closed)
    (hr : s.Literal (Node R.State) c.budget r) : effect.message.isClosed := by
  rw [Message.isClosed_iff]
  intro p hp
  rcases Command.mem_leaves_of_execute hx.execute hp with hp | ⟨a, ha, hp⟩ | ⟨note, hc, hp⟩
  · cases hp
  · have hscope := h.of_meets (.successor hx.toAnswered) a ha
    exact Referent.isClosed_iff.1 hscope p hp
  · have hnote := hr.noted (hx.left ▸ hx.pos) note hc
    exact Message.isClosed_iff.1 hnote p hp

/-- A step keeps a machine closed if what it takes as it is from a response has no pointers. -/
theorem closed_step (h : m.Closed) (hst : m.step R s = .next m')
    (hr : ∀ {c r q record}, Answered R s m c r q record → s.Literal (Node R.State) c.budget r) :
    m'.Closed := by
  refine ⟨fun n hn => h.of_meets (meets_of_holds_next hst hn), ?_⟩
  generalize hst' : Step.next m' = st at hst
  cases rule_iff.2 hst with
  | outOfBudget ha hb =>
    cases hst'
    exact (hr ha).returned hb
  | shown hx _ | ended hx _ | asked hx _ =>
    cases hst'
    exact hx.isClosed h (hr hx.toAnswered)
  | @settled a p ps hf _ _ _ =>
    cases hst'
    have hvalue := h.message
    rw [hf, Focus.message, Message.isClosed_iff] at hvalue
    -- The sender is a channel, and the value was in focus.
    rw [Focus.message, Message.isClosed_iff, Message.leaves_withSender]
    intro p hp
    rcases List.mem_cons.1 hp with hp | hp
    · cases hp
    · exact hvalue p hp
  | _ => cases hst'

/-! ## Runs -/

/-- In no turn from here on is a pointer taken as it is. -/
def Literal (R : Respondent) (s : Settings) (m : Machine R.State) : Prop :=
  ∀ {m' c r q record}, Reaches R s m m' → Answered R s m' c r q record →
    s.Literal (Node R.State) c.budget r

theorem Reaches.closed (h : Reaches R s m m') (hm : m.Closed) (hR : m.Literal R s) :
    m'.Closed ∧ m'.Literal R s := by
  refine h.keeps (P := fun m => m.Closed ∧ m.Literal R s) ?_ ⟨hm, hR⟩
  rintro m m' hst ⟨hm, hR⟩
  exact ⟨closed_step hm hst fun ha => hR (.refl m) ha, fun hr ha => hR (.step hst hr) ha⟩

theorem closed_startAt {msg : Message (Node R.State)} (hfree : msg.ChannelFree)
    (hmsg : msg.isClosed) (budget : Nat) (record : Record) :
    (R.startAt (.root 0 R.start) msg budget 0 1 record).Closed where
  scope n hn := by
    rw [eq_root_of_holds_startAt hfree hn]
    exact fun _ ha => nomatch ha
  message := hmsg

/-- If the root has no pointers, and neither has any note or any response that is returned out
    of budget, then in every state of the inquiry every scope is closed, and so is every message
    that is shown or asked and every answer. What is shown has the mark of a message or of a
    channel in each slot and no arrow. -/
theorem closed_of_reaches (R : Respondent) (s : Settings) (root : String) (budget : Nat)
    (record : Record) (hroot : (Message.parse root : Message (Node R.State)).isClosed)
    (hR : (R.startAt (.root 0 R.start) (Message.parse root) budget 0 1 record).Literal R s)
    {m : Machine R.State} (h : Reaches R s
      (R.startAt (.root 0 R.start) (Message.parse root) budget 0 1 record) m) :
    (∀ n, Meets R s m n → ∀ a ∈ n.scope, a.isClosed) ∧
    (∀ a, m.focus = .answered a → a.value.isClosed) ∧
    (∀ c r q record' b n message granted,
      Executed R s m c r q record' b (.delegated n message granted) → message.isClosed) ∧
    ∀ c, m.focus = .asking c → c.message.isClosed ∧
      ∃ names : List String, names.length = c.message.size ∧
        s.render c.node c.message c.budget = c.message.render names ++ s.notice c.budget ∧
        ∀ i name, names[i]? = some name →
          name = "#" ++ toString (c.node.scope.length + i) ∨
          name = "@" ++ toString (c.node.scope.length + i) := by
  obtain ⟨hm, hliteral⟩ :=
    h.closed (closed_startAt (Message.channelFree_parse root) hroot budget record) hR
  refine ⟨fun n hn => hm.of_meets hn, fun a hf => ?_, fun _ _ _ _ _ _ _ _ hx =>
    hx.isClosed hm (hliteral (.refl m) hx.toAnswered), fun c hf => ?_⟩
  · have hvalue := hm.message
    rwa [hf] at hvalue
  · have hmessage := hm.isClosed_of_asking hf
    obtain ⟨names, hsize, hrender, hnames⟩ :=
      Message.renderFrom_of_isClosed hmessage c.node.scope.length
    refine ⟨hmessage, names, hsize, ?_, hnames⟩
    rw [← hrender]
    rfl

/-- A respondent that asks about what is in its first slot, and answers with a text without
    references when no budget is left, brings in no pointers. Its question is shown with the
    sender in the one slot and what it asks about in the other. -/
theorem closed_of_reaches_ask :
    let oracle : Oracle := fun _ t => t.observations.getLast?.map fun o =>
      ⟨if o.budget = 0 then "so (it) is" else "ask$2 what of #0", 0⟩
    let R := Respondent.ofOracle oracle .empty
    let start := R.startAt (.root 0 .empty) (Message.parse "is (a) so") 4 0 1 #[]
    start.Literal R {} ∧ ∃ m c, Reaches R {} start m ∧ m.focus = .asking c ∧
      Settings.render {} c.node c.message c.budget =
        "@0: what of #1\n[Remaining budget is 2]" ∧ c.message.isClosed := by
  intro oracle R start
  have h : (match start.step R {} with
    | .next ⟨.asking c, _, _, _⟩ => Settings.render {} c.node c.message c.budget
    | _ => "") = "@0: what of #1\n[Remaining budget is 2]" := by decide +kernel
  have hask : (Command.parse "ask$2 what of #0" : Command (Node Transcript)).isAsk = true := by
    decide +kernel
  have hroot : (Message.parse "is (a) so" : Message (Node Transcript)).isClosed = true := by
    decide +kernel
  have hlast : (Message.parse "so (it) is" : Message (Node Transcript)).isClosed = true := by
    decide +kernel
  have hR : start.Literal R {} := by
    intro m c r q record _ ha
    obtain ⟨hr, -, -⟩ := Respondent.eq_some_of_respond_ofOracle ha.respond
    have hr : r.text = if c.budget = 0 then "so (it) is" else "ask$2 what of #0" := by
      simp only [oracle, Transcript.observed, List.getLast?_concat] at hr
      cases hr
      rfl
    -- Only commands are charged, so the response leaves the budget as it was shown.
    refine ⟨fun (hb : c.budget = 0) => ?_, fun (hb : 0 < c.budget) note hnote => ?_⟩
    · rw [hr, if_pos hb]
      exact hlast
    · rw [hr, if_neg (Nat.ne_of_gt hb)] at hnote
      cases (congrArg Command.isAsk hnote).symm.trans hask
  split at h
  · next c _ _ _ hst =>
    have hr : Reaches R {} start _ := .step hst (.refl _)
    obtain ⟨-, -, -, hshown⟩ := closed_of_reaches R {} "is (a) so" 4 #[] hroot hR hr
    exact ⟨hR, _, c, hr, rfl, h, (hshown c rfl).1⟩
  · exact absurd h (by decide)

end Machine

end Inquiry
