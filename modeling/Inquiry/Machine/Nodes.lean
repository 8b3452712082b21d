import Inquiry.Message.Leaves
import Inquiry.Run

/-!
# The nodes of an inquiry

A node is reached through a conversation that stands at it or through a channel,
in a message or in the scope of another node. Text that is read has no channels,
and an instance of a message has only those of the scope. So a step leads to no
nodes but those that the machine held before, the one its turn leads to, and the
one that a question starts a new conversation at. What the successors and the
children of a node inherit, all nodes of an inquiry have.

* `Machine.Holds`: the nodes that a state leads to;
* `Machine.Meets`: these, and those that come up in its next turn;
* `Command.mem_leaves_of_execute`: where the leaves of what comes of a command are from;
* `Machine.meets_of_holds_next`: a step leads to no others;
* `Machine.Reaches.meets`: what is inherited, all nodes have that are met.
-/

namespace Inquiry

variable {σ : Type}

/-! ## Where channels lead -/

theorem Failure.ofReferent_eq_ok_iff {α : Type} {x : Except ReferentError α} {a : α} :
    ofReferent x = .ok a ↔ x = .ok a := by
  cases x with
  | error e => exact ⟨fun h => (nomatch h), fun h => nomatch h⟩
  | ok b => exact ⟨fun h => congrArg _ (Except.ok.inj h), fun h => congrArg _ (Except.ok.inj h)⟩

namespace Node

/-- There is a channel to the other node in scope, at any depth. -/
def Cites (n n' : Node σ) : Prop := ∃ a ∈ n.scope, .channel n' ∈ a.leaves

theorem cites_successor_iff {serial : Nat} {n n' : Node σ} {shown : Message (Node σ)}
    {state : σ} : (n.successor serial shown state).Cites n' ↔
      n.Cites n' ∨ .channel n' ∈ shown.leaves := by
  rw [Message.mem_leaves_iff]
  constructor
  · rintro ⟨a, ha, hn⟩
    rcases List.mem_append.1 ha with ha | ha
    · exact .inl ⟨a, ha, hn⟩
    · exact .inr ⟨a, ha, hn⟩
  · rintro (⟨a, ha, hn⟩ | ⟨a, ha, hn⟩)
    · exact ⟨a, List.mem_append_left _ ha, hn⟩
    · exact ⟨a, List.mem_append_right _ ha, hn⟩

theorem not_cites_root {serial : Nat} {start : σ} {n : Node σ} : ¬ (root serial start).Cites n :=
  fun ⟨_, ha, _⟩ => nomatch ha

theorem cites_of_addressee {n n' : Node σ} {p : Pointer} (h : p.addressee n.scope = .ok n') :
    n.Cites n' := by
  obtain ⟨r, hr, h⟩ := bind_eq_ok_iff.1 h
  cases r with
  | message m => cases h
  | pointer q => cases h
  | channel n'' =>
    cases h
    exact ⟨_, Pointer.mem_of_resolve (Failure.ofReferent_eq_ok_iff.1 hr), List.mem_cons_self⟩

/-- A question goes to a new conversation or to a node that is cited, and its message is an
    instance. -/
theorem ask_eq_ok {n : Node σ} {s : Settings} {serial budget : Nat} {m : Message (Node σ)}
    {options : AskOptions} {effect : Effect σ}
    (h : n.ask s serial m options budget = .ok effect) :
    ∃ recipient question, (recipient = n.child serial ∨ n.Cites recipient) ∧
      m.instantiate n.scope = .ok question ∧
      effect = .delegated recipient (.withSender n question) (s.grant options.budget budget) := by
  rw [ask] at h
  split at h
  · obtain ⟨recipient, hto, h⟩ := bind_eq_ok_iff.1 h
    obtain ⟨question, hq, h⟩ := bind_eq_ok_iff.1 h
    cases h
    exact ⟨recipient, question, .inr (cites_of_addressee hto),
      Failure.ofReferent_eq_ok_iff.1 hq, rfl⟩
  · obtain ⟨recipient, hto, h⟩ := bind_eq_ok_iff.1 h
    obtain ⟨question, hq, h⟩ := bind_eq_ok_iff.1 h
    cases hto
    cases h
    exact ⟨_, question, .inl rfl, Failure.ofReferent_eq_ok_iff.1 hq, rfl⟩

end Node

/-- The message in an effect. -/
def Effect.message : Effect σ → Message (Node σ)
  | .shown o _ => o
  | .ended value _ => value
  | .delegated _ m _ => m

namespace Message

variable {C : Type}

theorem mem_leaves_unwrap {m : Message C} {r : Referent C} (hr : r ∈ m.unwrap.leaves) :
    r ∈ m.leaves := by
  rw [unwrap] at hr
  split at hr
  · next inner h =>
    rw [reference?_eq_some_iff] at h
    rw [h, leaves_reference]
    exact hr
  · exact hr

theorem mem_leaves_view {scope : Scope C} {m o : Message C} (h : m.view scope = .ok o)
    {r : Referent C} (hr : r ∈ o.leaves) : ∃ a ∈ scope, r ∈ a.leaves := by
  rw [view] at h
  split at h
  · next p _ =>
    obtain ⟨a, ha, h⟩ := bind_eq_ok_iff.1 h
    split at h
    · cases h
      exact ⟨_, Pointer.mem_of_resolve ha, hr⟩
    · exact mem_leaves_instantiate h hr
  · exact mem_leaves_instantiate h hr

end Message

namespace Command

variable {s : Settings} {serial budget : Nat} {c : Command (Node σ)} {n n' : Node σ}
  {effect : Effect σ}

theorem channelFree_of_readArgument {C : Type} {word : String} {body : MessageTokens}
    {m : Message C} (h : readArgument word body = .ok m) : m.ChannelFree := by
  unfold readArgument at h
  split at h
  · cases h
  obtain ⟨m', hm, h⟩ := bind_eq_ok_iff.1 h
  cases h
  exact fun c hc => Message.channelFree_ofTokens hm c (Message.mem_leaves_unwrap hc)

/-- The message of a command that is read is the argument of its word. -/
theorem exists_readArgument_of_ofTokens {C : Type} {t : CommandTokens} {c : Command C}
    (h : ofTokens t = .ok c) {m : Message C} (hm : c.message? = some m) :
    ∃ word, readArgument word t.body = .ok m := by
  rw [ofTokens] at h
  split at h
  · cases h
  · obtain ⟨options, _, h⟩ := bind_eq_ok_iff.1 h
    split at h
    · split at h
      · cases h
        cases hm
      · cases h
    all_goals first
      | cases h
      | obtain ⟨m', hr, h⟩ := bind_eq_ok_iff.1 h
        cases h
        cases hm
        exact ⟨_, hr⟩

/-- A command that is read has no channels. -/
theorem channelFree_parse {C : Type} (text : String) {m : Message C}
    (h : (parse text : Command C).message? = some m) : m.ChannelFree := by
  rw [parse] at h
  split at h
  · next hc =>
    obtain ⟨word, hr⟩ := exists_readArgument_of_ofTokens (ErrorList.eq_ok_of_conclude hc) h
    exact channelFree_of_readArgument hr
  · cases h

/-- The leaves of what comes of a command are from the scope, unless it is the node itself or the
    command is a note, which is shown as it is. -/
theorem mem_leaves_of_execute (h : c.execute s serial n budget = .ok effect)
    {r : Referent (Node σ)} (hr : r ∈ effect.message.leaves) :
    r = .channel n ∨ (∃ a ∈ n.scope, r ∈ a.leaves) ∨ ∃ m, c = .note m ∧ r ∈ m.leaves := by
  cases c with
  | malformed =>
    cases h
    cases hr
  | reflect =>
    cases h
    exact .inl (List.mem_singleton.1 hr)
  | view m =>
    obtain ⟨o, ho, h⟩ := bind_eq_ok_iff.1 h
    cases h
    exact .inr (.inl (Message.mem_leaves_view (Failure.ofReferent_eq_ok_iff.1 ho) hr))
  | note m =>
    cases h
    exact .inr (.inr ⟨m, rfl, hr⟩)
  | reply m =>
    obtain ⟨value, hv, h⟩ := bind_eq_ok_iff.1 h
    cases h
    exact .inr (.inl (Message.mem_leaves_instantiate (Failure.ofReferent_eq_ok_iff.1 hv) hr))
  | ask m options =>
    obtain ⟨_, question, _, hq, rfl⟩ := Node.ask_eq_ok h
    rw [Effect.message, Message.leaves_withSender] at hr
    rcases List.mem_cons.1 hr with hr | hr
    · exact .inl hr
    · exact .inr (.inl (Message.mem_leaves_instantiate hq hr))

/-- The channels in what comes of a command lead to the node itself and to those it cites. -/
theorem cites_of_execute (hc : ∀ m, c.message? = some m → m.ChannelFree)
    (h : c.execute s serial n budget = .ok effect) (hn : .channel n' ∈ effect.message.leaves) :
    n' = n ∨ n.Cites n' := by
  rcases mem_leaves_of_execute h hn with hn | hn | ⟨m, rfl, hn⟩
  · exact .inl (Referent.channel.inj hn)
  · exact .inr hn
  · exact absurd hn (hc m rfl n')

/-- A question goes to a new conversation or to a node that is cited. -/
theorem recipient_of_execute {recipient : Node σ} {message : Message (Node σ)} {granted : Nat}
    (h : c.execute s serial n budget = .ok (.delegated recipient message granted)) :
    recipient = n.child serial ∨ n.Cites recipient := by
  obtain ⟨m, options, rfl, _⟩ := granted_of_execute h
  obtain ⟨_, _, hr, _, he⟩ := Node.ask_eq_ok h
  cases he
  exact hr

end Command

/-! ## The nodes of a state -/

namespace Focus

/-- Where the conversation in focus stands. -/
def node : Focus σ → Node σ
  | .asking c => c.node
  | .answered a => a.node

/-- What is shown next, or what the conversation has come to. -/
def message : Focus σ → Message (Node σ)
  | .asking c => c.message
  | .answered a => a.value

end Focus

namespace Machine

/-- The nodes that a state of an inquiry leads to. -/
inductive Holds (m : Machine σ) : Node σ → Prop
  /-- The conversation in focus stands there. -/
  | focus : Holds m m.focus.node
  /-- There is a channel to it in the message in focus. -/
  | message {n : Node σ} (h : .channel n ∈ m.focus.message.leaves) : Holds m n
  /-- A conversation that waits stands there. -/
  | parked {p : Parked σ} (h : p ∈ m.parked) : Holds m p.node
  /-- There is a channel to it in the scope of another. -/
  | cited {n n' : Node σ} (h : Holds m n) (hc : n.Cites n') : Holds m n'

/-- The nodes that come up in a state of an inquiry. -/
inductive Meets (R : Respondent) (s : Settings) (m : Machine R.State) : Node R.State → Prop
  | held {n : Node R.State} (h : m.Holds n) : Meets R s m n
  /-- The turn leads there. -/
  | successor {c : Conversation R.State} {r : Response} {q : R.State} {record : Record}
      (h : Answered R s m c r q record) : Meets R s m (m.successor c q)
  /-- The turn puts a question there. -/
  | recipient {c : Conversation R.State} {r : Response} {q : R.State} {record : Record}
      {b granted : Nat} {n : Node R.State} {message : Message (Node R.State)}
      (h : Executed R s m c r q record b (.delegated n message granted)) : Meets R s m n

theorem holds_of_asking {m : Machine σ} {c : Conversation σ} (hf : m.focus = .asking c) :
    m.Holds c.node := by
  have h := Holds.focus (m := m)
  rwa [hf] at h

theorem holds_of_answered {m : Machine σ} {a : Answer σ} (hf : m.focus = .answered a) :
    m.Holds a.node := by
  have h := Holds.focus (m := m)
  rwa [hf] at h

variable {R : Respondent} {s : Settings} {m m' : Machine R.State} {c : Conversation R.State}
  {r : Response} {q : R.State} {record : Record} {n n' : Node R.State}

/-- The node that a turn leads to cites only nodes held before. -/
theorem Answered.holds (h : Answered R s m c r q record) (hn : (m.successor c q).Cites n) :
    m.Holds n := by
  rcases Node.cites_successor_iff.1 hn with hn | hn
  · exact (holds_of_asking h.focus).cited hn
  · refine .message ?_
    rwa [h.focus]

theorem Executed.meets {b : Nat} {effect : Effect R.State}
    (h : Executed R s m c r q record b effect) (hn : .channel n ∈ effect.message.leaves) :
    Meets R s m n := by
  rcases Command.cites_of_execute (fun _ => Command.channelFree_parse r.text) h.execute hn
    with rfl | hn
  · exact .successor h.toAnswered
  · exact .held (h.toAnswered.holds hn)

theorem Meets.cited (h : Meets R s m n) (hc : n.Cites n') : Meets R s m n' := by
  cases h with
  | held h => exact .held (h.cited hc)
  | successor h => exact .held (h.holds hc)
  | recipient h =>
    -- A new conversation has nothing in scope.
    rcases Command.recipient_of_execute h.execute with rfl | hn
    · exact absurd hc Node.not_cites_root
    · exact .held ((h.toAnswered.holds hn).cited hc)

/-- What a step brings into focus and parks has been met before. -/
theorem meets_of_step (h : m.step R s = .next m') :
    Meets R s m m'.focus.node ∧ (∀ n, .channel n ∈ m'.focus.message.leaves → Meets R s m n) ∧
      ∀ p ∈ m'.parked, Meets R s m p.node := by
  have hparked : ∀ p ∈ m.parked, Meets R s m p.node := fun p hp => .held (.parked hp)
  generalize hst : Step.next m' = st at h
  cases rule_iff.2 h with
  | outOfBudget ha _ =>
    cases hst
    exact ⟨.successor ha, fun n hn => absurd hn (Message.channelFree_parse _ n), hparked⟩
  | shown hx _ =>
    cases hst
    exact ⟨.successor hx.toAnswered, fun n hn => hx.meets hn, hparked⟩
  | ended hx _ =>
    cases hst
    exact ⟨.successor hx.toAnswered, fun n hn => hx.meets hn, hparked⟩
  | asked hx _ =>
    cases hst
    refine ⟨.recipient hx, fun n hn => hx.meets hn, fun p hp => ?_⟩
    rcases List.mem_cons.1 hp with rfl | hp
    · exact .successor hx.toAnswered
    · exact hparked p hp
  | @settled a p ps hf hp _ _ =>
    cases hst
    refine ⟨hparked p (hp ▸ List.mem_cons_self), fun n hn => .held ?_,
      fun p' hp' => hparked p' (hp ▸ List.mem_cons_of_mem _ hp')⟩
    -- The answer comes from the node in focus and is the message in focus.
    rw [Focus.message, Message.leaves_withSender] at hn
    rcases List.mem_cons.1 hn with hn | hn
    · cases hn
      exact holds_of_answered hf
    · refine .message ?_
      rwa [hf]
  | _ => cases hst

/-- A step leads to no nodes but those met before. -/
theorem meets_of_holds_next (h : m.step R s = .next m') (hn : m'.Holds n) : Meets R s m n := by
  obtain ⟨hfocus, hmessage, hparked⟩ := meets_of_step h
  induction hn with
  | focus => exact hfocus
  | message hn => exact hmessage _ hn
  | parked hp => exact hparked _ hp
  | cited _ hc ih => exact ih.cited hc

/-- A new inquiry holds its root alone. -/
theorem eq_root_of_holds_startAt {m : Message (Node R.State)} (hm : m.ChannelFree)
    {serial budget depth supply : Nat}
    (hn : (R.startAt (.root serial R.start) m budget depth supply record).Holds n) :
    n = .root serial R.start := by
  induction hn with
  | focus => rfl
  | message hn => exact absurd hn (hm _)
  | parked hp => cases hp
  | cited _ hc ih =>
    subst ih
    exact absurd hc Node.not_cites_root

/-- What the nodes have that a state holds, those that come up in its next turn have too, if
    successors and children inherit it. -/
theorem Meets.inherits {P : Node R.State → Prop}
    (successor : ∀ {c : Conversation R.State} {r : Response} {q : R.State} {record : Record},
      Answered R s m c r q record → P c.node → P (m.successor c q))
    (child : ∀ {n : Node R.State} {serial : Nat}, P n → P (n.child serial))
    (hm : ∀ n, m.Holds n → P n) (hn : Meets R s m n) : P n := by
  have hsuccessor {c : Conversation R.State} {r : Response} {q : R.State} {record : Record}
      (ha : Answered R s m c r q record) : P (m.successor c q) :=
    successor ha (hm _ (holds_of_asking ha.focus))
  cases hn with
  | held hn => exact hm n hn
  | successor ha => exact hsuccessor ha
  | recipient hx =>
    rcases Command.recipient_of_execute hx.execute with rfl | hn
    · exact child (hsuccessor hx.toAnswered)
    · exact hm n (hx.toAnswered.holds hn)

/-- What nodes have that a state holds, and successors and children inherit, all nodes have
    that are met from there on. -/
theorem Reaches.meets {P : Node R.State → Prop}
    (successor : ∀ {m : Machine R.State} {c : Conversation R.State} {r : Response} {q : R.State}
      {record : Record}, Answered R s m c r q record → P c.node → P (m.successor c q))
    (child : ∀ {n : Node R.State} {serial : Nat}, P n → P (n.child serial))
    (hm : ∀ n, m.Holds n → P n) (h : Reaches R s m m') (hn : Meets R s m' n) : P n := by
  have hm' : ∀ n, m'.Holds n → P n :=
    h.keeps (fun m m' hst hm n hn => (meets_of_holds_next hst hn).inherits successor child hm) hm
  exact hn.inherits successor child hm'

end Machine

end Inquiry
