import Inquiry.Machine.Nodes
import Inquiry.Proofs.Reserve

/-!
# What a respondent can make fail

Text that cannot be read is no reason to fail, and neither is a respondent that has
nothing to say. What is left is a command that can be read and cites what is not
there (`Command.Faulty`): a question is addressed past the end of the scope or to
something that is no channel, or a message has a pointer past the end of the scope.
The address comes first, then the pointers from left to right.

What is read has no channels, so no instance fails because of one, although there
are channels in every scope; what is taken from the scope is not instantiated
again. Nor is anything overspent. So besides such a command, only the limits can
end an inquiry without an answer (`Failure.Foreseen`).

* `Command.execute_eq_error_iff`: when a command has no effect, and why;
* `Machine.Answered.fails_iff`: when an inquiry fails in a turn, and why;
* `Respondent.inquire_failures`: how inquiries fail.
-/

namespace Inquiry

variable {σ : Type}

theorem Failure.ofReferent_eq_error_iff {α : Type} {x : Except ReferentError α} {e : Failure} :
    ofReferent x = .error e ↔ ∃ e', x = .error e' ∧ e = .referent e' := by
  cases x <;> simp [ofReferent, eq_comm]

/-- A message to look at fails as its instance does. -/
theorem Message.view_eq_error_iff {C : Type} {scope : Scope C} {m : Message C}
    {e : ReferentError} : m.view scope = .error e ↔ m.instantiate scope = .error e := by
  rw [view]
  split
  · next p hp =>
    obtain rfl := reference?_eq_some_iff.1 hp
    rw [reference, Message.instantiate, Referent.instantiate]
    cases p.resolve scope with
    | error e' => rfl
    | ok a =>
      cases a with
      | message m =>
        constructor <;> intro h <;> cases h
      | _ => exact Iff.rfl
  · exact Iff.rfl

namespace Pointer

variable {scope : Scope (Node σ)} {p : Pointer}

theorem addressee_eq_ok_iff {n : Node σ} :
    p.addressee scope = .ok n ↔ scope[p.index]? = some (.channel n) := by
  rw [addressee, resolve]
  cases scope[p.index]? with
  | none =>
    constructor <;> intro h <;> cases h
  | some r => cases r <;> simp [Failure.ofReferent, bind, Except.bind, pure, Except.pure, throw,
      throwThe, MonadExceptOf.throw]

theorem addressee_eq_error_iff {e : Failure} : p.addressee scope = .error e ↔
    (scope.length ≤ p.index ∧ e = .referent (.outOfRange p.index scope.length)) ∨
      ∃ r, scope[p.index]? = some r ∧ (∀ n, r ≠ .channel n) ∧ e = .notAChannel p.index r.form := by
  rw [← List.getElem?_eq_none_iff, addressee, resolve]
  cases scope[p.index]? with
  | none => simp [Failure.ofReferent, bind, Except.bind, eq_comm]
  | some r => cases r <;> simp [Failure.ofReferent, bind, Except.bind, pure, Except.pure, throw,
      throwThe, MonadExceptOf.throw, eq_comm]

end Pointer

/-- A question fails because of whom it is addressed to, or else because of its message. -/
theorem Node.ask_eq_error_iff {n : Node σ} {s : Settings} {serial budget : Nat}
    {m : Message (Node σ)} {options : AskOptions} {e : Failure} :
    n.ask s serial m options budget = .error e ↔
      (∃ p, options.recipient = some p ∧ p.addressee n.scope = .error e) ∨
      (∀ p, options.recipient = some p → ∃ n', p.addressee n.scope = .ok n') ∧
        ∃ e', m.instantiate n.scope = .error e' ∧ e = .referent e' := by
  have hmessage (recipient : Node σ) : (do
      let m ← Failure.ofReferent (m.instantiate n.scope)
      return Effect.delegated recipient (.withSender n m) (s.grant options.budget budget)) =
        .error e ↔ ∃ e', m.instantiate n.scope = .error e' ∧ e = .referent e' :=
    bind_ok_eq_error_iff.trans Failure.ofReferent_eq_error_iff
  rw [ask]
  cases options.recipient with
  | none =>
    refine (hmessage _).trans ⟨fun h => .inr ⟨fun p hp => ?_, h⟩, ?_⟩
    · cases hp
    · rintro (⟨p, hp, -⟩ | ⟨-, h⟩)
      · cases hp
      · exact h
  | some p =>
    refine bind_eq_error_iff.trans ⟨?_, ?_⟩
    · rintro (h | ⟨n', hn', h⟩)
      · exact .inl ⟨p, rfl, h⟩
      · refine .inr ⟨fun q hq => ?_, (hmessage n').1 h⟩
        cases hq
        exact ⟨n', hn'⟩
    · rintro (⟨q, hq, h⟩ | ⟨hto, h⟩)
      · cases hq
        exact .inl h
      · obtain ⟨n', hn'⟩ := hto p rfl
        exact .inr ⟨n', hn', (hmessage n').2 h⟩

/-! ## Faulty commands -/

/-- Whether someone is asked. -/
def Effect.isQuestion : Effect σ → Bool
  | .delegated _ _ _ => true
  | _ => false

namespace Command

/-- A command cites what is not there, and how it fails. -/
inductive Faulty (scope : Scope (Node σ)) : Command (Node σ) → Failure → Prop
  /-- A question is addressed past the end of the scope. -/
  | unaddressed {m : Message (Node σ)} {options : AskOptions} {p : Pointer}
      (hp : options.recipient = some p) (hi : scope.length ≤ p.index) :
    Faulty scope (.ask m options) (.referent (.outOfRange p.index scope.length))
  /-- A question is addressed to something that is no channel. -/
  | misaddressed {m : Message (Node σ)} {options : AskOptions} {p : Pointer}
      {r : Referent (Node σ)} (hp : options.recipient = some p) (hr : scope[p.index]? = some r)
      (hc : ∀ n, r ≠ .channel n) : Faulty scope (.ask m options) (.notAChannel p.index r.form)
  /-- The question itself has a pointer past the end of the scope. -/
  | ask {m : Message (Node σ)} {options : AskOptions} {p : Pointer}
      (hto : ∀ q, options.recipient = some q → ∃ n, scope[q.index]? = some (.channel n))
      (h : m.Dangling scope p) :
    Faulty scope (.ask m options) (.referent (.outOfRange p.index scope.length))
  /-- The message to look at has one. -/
  | view {m : Message (Node σ)} {p : Pointer} (h : m.Dangling scope p) :
    Faulty scope (.view m) (.referent (.outOfRange p.index scope.length))
  /-- The answer has one. -/
  | reply {m : Message (Node σ)} {p : Pointer} (h : m.Dangling scope p) :
    Faulty scope (.reply m) (.referent (.outOfRange p.index scope.length))

variable {s : Settings} {serial budget : Nat} {c : Command (Node σ)} {n : Node σ} {e : Failure}
  {effect : Effect σ}

theorem isAsk_of_execute (h : c.execute s serial n budget = .ok effect) :
    c.isAsk = effect.isQuestion := by
  rcases execute_eq_ok h with ⟨_, _, _, _, rfl, rfl⟩ | ⟨hc, _, rfl | rfl⟩
  · rfl
  · exact hc
  · exact hc

/-- A command without channels has no effect exactly if it is faulty. -/
theorem execute_eq_error_iff (hc : ∀ m, c.message? = some m → m.ChannelFree) :
    c.execute s serial n budget = .error e ↔ c.Faulty n.scope e := by
  have hmessage {m : Message (Node σ)} (hm : c.message? = some m) :
      (∃ e', m.instantiate n.scope = .error e' ∧ e = .referent e') ↔
        ∃ p, m.Dangling n.scope p ∧ e = .referent (.outOfRange p.index n.scope.length) := by
    constructor
    · rintro ⟨e', h, rfl⟩
      obtain ⟨p, hp, rfl⟩ := (hc m hm).instantiate_eq_error_iff.1 h
      exact ⟨p, hp, rfl⟩
    · rintro ⟨p, hp, rfl⟩
      exact ⟨_, (hc m hm).instantiate_eq_error_iff.2 ⟨p, hp, rfl⟩, rfl⟩
  cases c with
  | malformed => exact ⟨fun h => (nomatch h), fun h => nomatch h⟩
  | reflect => exact ⟨fun h => (nomatch h), fun h => nomatch h⟩
  | note m => exact ⟨fun h => (nomatch h), fun h => nomatch h⟩
  | view m =>
    rw [execute]
    refine (bind_ok_eq_error_iff.trans Failure.ofReferent_eq_error_iff).trans ?_
    simp only [Message.view_eq_error_iff]
    rw [hmessage rfl]
    constructor
    · rintro ⟨p, hp, rfl⟩
      exact .view hp
    · intro h
      cases h with
      | view hp => exact ⟨_, hp, rfl⟩
  | reply m =>
    rw [execute]
    refine (bind_ok_eq_error_iff.trans Failure.ofReferent_eq_error_iff).trans ?_
    rw [hmessage rfl]
    constructor
    · rintro ⟨p, hp, rfl⟩
      exact .reply hp
    · intro h
      cases h with
      | reply hp => exact ⟨_, hp, rfl⟩
  | ask m options =>
    rw [execute, Node.ask_eq_error_iff, hmessage rfl]
    simp only [Pointer.addressee_eq_ok_iff, Pointer.addressee_eq_error_iff]
    constructor
    · rintro (⟨p, hp, ⟨hi, rfl⟩ | ⟨r, hr, hc, rfl⟩⟩ | ⟨hto, p, hp, rfl⟩)
      · exact .unaddressed hp hi
      · exact .misaddressed hp hr hc
      · exact .ask hto hp
    · rintro (⟨hp, hi⟩ | ⟨hp, hr, hc⟩ | ⟨hto, hp⟩)
      · exact .inl ⟨_, hp, .inl ⟨hi, rfl⟩⟩
      · exact .inl ⟨_, hp, .inr ⟨_, hr, hc, rfl⟩⟩
      · exact .inr ⟨hto, _, hp, rfl⟩

end Command

/-! ## Failing inquiries -/

/-- How inquiries can fail whose settings are valid. -/
inductive Failure.Foreseen : Failure → Prop
  | outOfRange (index length : Nat) : Foreseen (.referent (.outOfRange index length))
  | notAChannel (index : Nat) (found : Referent.Form) : Foreseen (.notAChannel index found)
  | tooDeep (depth limit : Nat) : Foreseen (.tooDeep depth limit)
  | tooManyTurns (turns limit : Nat) : Foreseen (.tooManyTurns turns limit)

theorem Command.Faulty.foreseen {scope : Scope (Node σ)} {c : Command (Node σ)} {e : Failure}
    (h : c.Faulty scope e) : e.Foreseen := by
  cases h with
  | misaddressed _ _ _ => exact .notAChannel _ _
  | _ => exact .outOfRange _ _

namespace Machine

variable {R : Respondent} {s : Settings} {limit : Nat} {m : Machine R.State}
  {c : Conversation R.State} {r : Response} {q : R.State} {record : Record}

theorem execute_parse_eq_error_iff {budget serial : Nat} {n : Node R.State} {e : Failure} :
    (Command.parse r.text).execute s serial n budget = .error e ↔
      (Command.parse r.text).Faulty n.scope e :=
  Command.execute_eq_error_iff fun _ => Command.channelFree_parse r.text

/-- A faulty command is why the inquiry fails. -/
theorem Answered.step_of_faulty (h : Answered R s m c r q record)
    (hb : 0 < s.afterResponse c.budget r) {e : Failure}
    (he : (Command.parse r.text).Faulty (m.successor c q).scope e) :
    m.step R s = .done ⟨.failed e, m.supply + 2, record⟩ :=
  (Rule.misled h hb (execute_parse_eq_error_iff.2 he)).step_eq

/-- A command that is not faulty has an effect. -/
theorem Answered.exists_executed (h : Answered R s m c r q record)
    (hb : 0 < s.afterResponse c.budget r)
    (hno : ∀ e, ¬ (Command.parse r.text).Faulty (m.successor c q).scope e) :
    ∃ effect, Executed R s m c r q record (s.afterResponse c.budget r) effect := by
  cases he : (Command.parse r.text).execute s (m.supply + 1) (m.successor c q)
      (s.afterResponse c.budget r) with
  | error e => exact absurd (execute_parse_eq_error_iff.1 he) (hno e)
  | ok effect => exact ⟨effect, h, rfl, hb, he⟩

/-- An effect leads on unless it is a question that nests too deep. -/
theorem Executed.step_eq_done_iff {b : Nat} {effect : Effect R.State}
    (hx : Executed R s m c r q record b effect) (hs : s.Valid) {run : Run (Answer R.State)} :
    m.step R s = .done run ↔
      (Command.parse r.text : Command (Node R.State)).isAsk ∧ s.maxDepth ≤ c.depth ∧
        run = ⟨.failed (.tooDeep (c.depth + 1) s.maxDepth), m.supply + 2, record⟩ := by
  rw [Command.isAsk_of_execute hx.execute]
  have hle := hx.spending_le hs
  cases effect with
  | shown o spending =>
    rw [(Rule.shown hx hle).step_eq]
    exact iff_of_false (fun h => (nomatch h)) fun h => nomatch h.1
  | ended value spending =>
    rw [(Rule.ended hx hle).step_eq]
    exact iff_of_false (fun h => (nomatch h)) fun h => nomatch h.1
  | delegated recipient message granted =>
    by_cases hd : s.maxDepth < c.depth + 1
    · rw [(Rule.tooDeep hx hd).step_eq]
      refine ⟨fun h => ?_, fun ⟨_, _, h⟩ => h ▸ rfl⟩
      cases h
      exact ⟨rfl, Nat.le_of_lt_succ hd, rfl⟩
    · rw [(Rule.asked hx (Nat.le_of_not_lt hd)).step_eq]
      exact iff_of_false (fun h => (nomatch h)) fun h => hd (Nat.lt_succ_of_le h.2.1)

/-- A turn in which some budget is left fails if its command is faulty. If it is not, and only
    then, it fails if it is a question that nests too deep. -/
theorem Answered.fails_iff (h : Answered R s m c r q record)
    (hb : 0 < s.afterResponse c.budget r) (hs : s.Valid) {e : Failure} :
    (∃ run, m.step R s = .done run ∧ run.outcome = .failed e) ↔
      (Command.parse r.text).Faulty (m.successor c q).scope e ∨
      (∀ e', ¬ (Command.parse r.text).Faulty (m.successor c q).scope e') ∧
        (Command.parse r.text : Command (Node R.State)).isAsk ∧ s.maxDepth ≤ c.depth ∧
        e = .tooDeep (c.depth + 1) s.maxDepth := by
  by_cases hfaulty : ∃ e', (Command.parse r.text).Faulty (m.successor c q).scope e'
  · obtain ⟨e', he'⟩ := hfaulty
    constructor
    · rintro ⟨run, hd, ho⟩
      rw [h.step_of_faulty hb he'] at hd
      cases hd
      cases ho
      exact .inl he'
    · rintro (he | ⟨hno, -⟩)
      · exact ⟨_, h.step_of_faulty hb he, rfl⟩
      · exact absurd he' (hno e')
  · have hno := not_exists.1 hfaulty
    obtain ⟨effect, hx⟩ := h.exists_executed hb hno
    constructor
    · rintro ⟨run, hd, ho⟩
      obtain ⟨hask, hdeep, rfl⟩ := (hx.step_eq_done_iff hs).1 hd
      cases ho
      exact .inr ⟨hno, hask, hdeep, rfl⟩
    · rintro (he | ⟨-, hask, hdeep, rfl⟩)
      · exact absurd he (hno e)
      · exact ⟨_, (hx.step_eq_done_iff hs).2 ⟨hask, hdeep, rfl⟩, rfl⟩

/-- Where nothing that was granted is missing, and respondents do not fail, a last step fails for
    the reasons foreseen. -/
theorem foreseen_of_step {r : Run (Answer R.State)} {e : Failure} (hs : s.Valid)
    (hR : ∀ q o e, (R.respond q o m.record).1 ≠ .failed e) (hm : m.Backed s limit)
    (h : m.step R s = .done r) (ho : r.outcome = .failed e) : e.Foreseen := by
  have hcovered (budget spending : Nat) : r.outcome ≠ .failed (.overspent budget spending) := by
    intro ho
    obtain ⟨q, o, hf⟩ := respond_of_step_overspent hs hm h ho
    exact hR q o _ hf
  cases rule_iff.2 h with
  | noTurn _ _ =>
    cases ho
    exact .tooManyTurns _ _
  | failed hf ht hr => exact absurd (congrArg Prod.fst hr) (hR _ _ _)
  | unavailable _ _ _ => cases ho
  | misled _ _ he =>
    cases ho
    exact (execute_parse_eq_error_iff.1 he).foreseen
  | tooDeep _ _ =>
    cases ho
    exact .tooDeep _ _
  | concluded _ _ => cases ho
  | overspent _ _ | overdrawn _ _ _ | overcharged _ _ _ _ => exact absurd rfl (hcovered _ _)

end Machine

/-- An inquiry by a policy, or an oracle, fails because of its settings exactly if they are not
    valid, and consults nobody then. If they are valid, it fails only because something is
    not in scope or no channel, or because of a limit. In every turn in which some budget is
    left, it fails if the command in the response is faulty, and else only if the command is a
    question that nests too deep. -/
theorem Respondent.inquire_failures (oracle : Oracle) (history : Transcript) (s : Settings)
    (root : String) (budget : Nat) (record : Record) :
    let R := ofOracle oracle history
    let run := R.inquire s root budget record
    ((∃ p, run.outcome = .failed (.settings p)) ↔ ¬ s.Valid) ∧
    (¬ s.Valid → run.record = record) ∧
    (s.Valid → ∀ e, run.outcome = .failed e → e.Foreseen) ∧
    (s.Valid → ∀ (m : Machine R.State) (c : Conversation R.State) (r : Response) (q : R.State)
      (record' : Record), Machine.Reaches R s
        (R.startAt (.root 0 history) (Message.parse root) budget 0 1 record) m →
      Machine.Answered R s m c r q record' → 0 < s.afterResponse c.budget r → ∀ e,
      ((∃ run, m.step R s = .done run ∧ run.outcome = .failed e) ↔
        (Command.parse r.text).Faulty (c.node.scope ++ c.message.args) e ∨
        (∀ e', ¬ (Command.parse r.text).Faulty (c.node.scope ++ c.message.args) e') ∧
          (Command.parse r.text : Command (Node R.State)).isAsk ∧ s.maxDepth ≤ c.depth ∧
          e = .tooDeep (c.depth + 1) s.maxDepth)) := by
  intro R run
  have hrefused (hs : ¬ s.Valid) : ∃ p, run = ⟨.failed (.settings p), 0, record⟩ :=
    exists_inquire_of_not_valid R root budget record hs
  have hforeseen (hs : s.Valid) (e : Failure) (h : run.outcome = .failed e) : e.Foreseen := by
    rcases exists_of_inquire_eq_failed h with ⟨hno, -⟩ | ⟨-, m, r, hr, hd, ho⟩
    · exact absurd hs hno
    · exact Machine.foreseen_of_step hs
        (fun q o e => respond_ofOracle_ne_failed oracle history q o m.record e) hr.backed hd ho
  refine ⟨⟨fun ⟨p, hp⟩ hs => ?_, fun hs => ?_⟩, fun hs => ?_, hforeseen, ?_⟩
  · cases hforeseen hs _ hp
  · obtain ⟨p, hp⟩ := hrefused hs
    exact ⟨p, congrArg _ hp⟩
  · obtain ⟨p, hp⟩ := hrefused hs
    exact congrArg _ hp
  · intro hs m c r q record' _ ha hb e
    exact ha.fails_iff hb hs

/-- A question that is addressed to a slot with a message in it fails because of that, although
    it has a pointer past the end of the scope too. -/
theorem Respondent.inquire_failures_misaddressed :
    let s : Settings := {}
    let oracle : Oracle := fun _ _ => some ⟨"ask@0 what of #7", 0⟩
    let R := ofOracle oracle .empty
    let m := R.startAt (.root 0 .empty) (Message.parse "is (a)") 9 0 1 #[]
    let e : Failure := .notAChannel 0 .message
    s.Valid ∧ (R.inquire s "is (a)" 9 #[]).outcome = .failed e ∧ e.Foreseen ∧
      ∃ c r q record, Machine.Answered R s m c r q record ∧ 0 < s.afterResponse c.budget r ∧
        (Command.parse r.text).Faulty (c.node.scope ++ c.message.args) e := by
  intro s oracle R m e
  have hs : s.Valid := by decide
  have ho : (R.inquire s "is (a)" 9 #[]).outcome.failure? = some e := by decide +kernel
  have ho : (R.inquire s "is (a)" 9 #[]).outcome = .failed e := Outcome.failure?_eq_some_iff.1 ho
  have ha : Machine.Answered R s m ⟨.root 0 .empty, Message.parse "is (a)", 9, 0, 0⟩
      ⟨"ask@0 what of #7", 0⟩ _ _ := ⟨rfl, by decide, rfl⟩
  have hstep : (match m.step R s with
    | .done run => run.outcome.failure?
    | .next _ => none) = some e := by decide +kernel
  obtain ⟨-, -, hforeseen, hturn⟩ := inquire_failures oracle .empty s "is (a)" 9 #[]
  split at hstep
  · next run hd =>
    refine ⟨hs, ho, hforeseen hs e ho, _, _, _, _, ha, by decide, ?_⟩
    have hfails := hturn hs m _ _ _ _ (.refl m) ha (by decide) e
    rcases hfails.1 ⟨run, hd, Outcome.failure?_eq_some_iff.1 hstep⟩ with hfaulty | ⟨-, -, -, he⟩
    · exact hfaulty
    · exact absurd he (by decide)
  · cases hstep

end Inquiry
