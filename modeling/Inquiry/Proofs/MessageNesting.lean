import Inquiry.Machine.Nodes
import Inquiry.Proofs.SourceText

/-!
# How deep messages nest

Text that is read nests no deeper than the limit of the reader, but messages can be put
into messages: an instance has the entries of a scope inside the parentheses of the
message, and may then be in a scope itself. So it is at most as deep as both together,
and since no response is read as a message deeper than the limit, each adds no more than
that to what there is. What is sent, viewed or settled is passed on as it is.

Whatever is made of a message by recursion into the messages in its slots opens as many
of them inside one another as the message nests deep, and no more
(`Message.foldWithin_eq`). So this is also a bound for the calls that are open at once
when a message is instantiated, displayed or looked at for pointers.

* `Message.nesting_instantiate_le`: an instance nests as deep as the message and the scope
  together;
* `Machine.nestsWithin_step`: a response adds no more than the limit;
* `Message.foldWithin_eq`: recursion goes as deep as messages nest;
* `Machine.nesting_le_of_reachesAfter`: after `n` responses nothing nests deeper than
  `n + 1` times the limit.
-/

namespace Inquiry

variable {C σ : Type}

/-! ## Instances -/

/-- How deep the deepest entry of a scope nests, its own parentheses counted. -/
def Scope.nesting : Scope C → Nat
  | [] => 0
  | a :: scope => max a.nesting (nesting scope)

namespace Scope

theorem nesting_le_iff {scope : Scope C} {k : Nat} :
    nesting scope ≤ k ↔ ∀ a ∈ scope, a.nesting ≤ k := by
  induction scope with
  | nil => exact iff_of_true (Nat.zero_le k) (List.forall_mem_nil _)
  | cons a scope ih => rw [nesting, Nat.max_le, ih, List.forall_mem_cons]

theorem nesting_le_of_mem {scope : Scope C} {a : Referent C} (h : a ∈ scope) :
    a.nesting ≤ nesting scope :=
  nesting_le_iff.1 (Nat.le_refl _) a h

theorem nesting_append (scope scope' : Scope C) :
    nesting (scope ++ scope') = max (nesting scope) (nesting scope') := by
  induction scope with
  | nil => exact (Nat.zero_max _).symm
  | cons a scope ih => rw [List.cons_append, nesting, nesting, ih, Nat.max_assoc]

end Scope

namespace Message

/-- A message is as deep as what it holds in its slots. -/
theorem nesting_args (m : Message C) : Scope.nesting m.args = m.nesting := by
  induction m using slotInduct with
  | text t => rfl
  | slot t a rest ih => rw [args, Scope.nesting, ih, Message.nesting]

/-- An instance nests as deep as the message and the scope together. -/
theorem nesting_instantiate_le {scope : Scope C} {m m' : Message C}
    (h : m.instantiate scope = .ok m') : m'.nesting ≤ m.nesting + Scope.nesting scope := by
  induction m generalizing m' with
  | text t =>
    cases h
    exact Nat.zero_le _
  | nested t m rest ihm ihr =>
    obtain ⟨a', rest', ha, hrest, rfl⟩ := instantiate_slot_eq_ok h
    obtain ⟨n, hm, rfl⟩ := Referent.instantiate_message_eq_ok ha
    have hm := ihm hm
    have hr := ihr hrest
    simp only [Message.nesting, Referent.nesting]
    omega
  | pointer t p rest ih =>
    obtain ⟨a', rest', ha, hrest, rfl⟩ := instantiate_slot_eq_ok h
    have ha := Scope.nesting_le_of_mem (Pointer.mem_of_resolve ha)
    have hr := ih hrest
    simp only [Message.nesting, Referent.nesting]
    omega
  | channel t c rest ih => cases h

theorem nesting_view_le {scope : Scope C} {m o : Message C} (h : m.view scope = .ok o) :
    o.nesting ≤ m.nesting + Scope.nesting scope := by
  rw [view] at h
  split at h
  · obtain ⟨a, ha, h⟩ := bind_eq_ok_iff.1 h
    split at h
    · cases h
      have ha := Scope.nesting_le_of_mem (Pointer.mem_of_resolve ha)
      rw [Referent.nesting] at ha
      omega
    · exact nesting_instantiate_le h
  · exact nesting_instantiate_le h

@[simp]
theorem nesting_withSender (sender : C) (m : Message C) :
    (m.withSender sender).nesting = m.nesting := by
  rw [withSender, nesting_concat]
  exact Nat.zero_max _

theorem nesting_unwrap_le (m : Message C) : m.unwrap.nesting ≤ m.nesting := by
  rw [unwrap]
  split
  · next inner h =>
    rw [reference?_eq_some_iff] at h
    rw [h, reference, Message.nesting, Referent.nesting]
    omega
  · exact Nat.le_refl _

/-! ## What is read -/

theorem nesting_le_of_ofTokens {ts : List (Located Token)} {m : Message C}
    (h : ofTokens ts = .ok m) : m.nesting ≤ nestingLimit :=
  nesting_le_of_readTokens (Nat.zero_le _) h

theorem nesting_parse_le (text : String) : (parse text : Message C).nesting ≤ nestingLimit := by
  rw [parse]
  split
  · next h => exact nesting_le_of_ofTokens (ErrorList.eq_ok_of_conclude h)
  · exact Nat.zero_le _

end Message

namespace Command

theorem nesting_le_of_readArgument {word : String} {body : MessageTokens} {m : Message C}
    (h : readArgument word body = .ok m) : m.nesting ≤ Message.nestingLimit := by
  unfold readArgument at h
  split at h
  · cases h
  obtain ⟨m', hm, h⟩ := bind_eq_ok_iff.1 h
  cases h
  exact Nat.le_trans m'.nesting_unwrap_le (Message.nesting_le_of_ofTokens hm)

theorem nesting_le_of_parse {text : String} {m : Message C}
    (h : (parse text : Command C).message? = some m) : m.nesting ≤ Message.nestingLimit := by
  rw [parse] at h
  split at h
  · next hc =>
    obtain ⟨word, hr⟩ := exists_readArgument_of_ofTokens (ErrorList.eq_ok_of_conclude hc) h
    exact nesting_le_of_readArgument hr
  · cases h

/-- What comes of a command nests as deep as its message and the scope together. -/
theorem nesting_le_of_execute {s : Settings} {serial budget : Nat} {c : Command (Node σ)}
    {n : Node σ} {effect : Effect σ} (h : c.execute s serial n budget = .ok effect)
    {k : Nat} (hc : ∀ m, c.message? = some m → m.nesting ≤ k) :
    effect.message.nesting ≤ k + Scope.nesting n.scope := by
  cases c with
  | malformed =>
    cases h
    exact Nat.zero_le _
  | reflect =>
    cases h
    exact Nat.zero_le _
  | view m =>
    obtain ⟨o, ho, h⟩ := bind_eq_ok_iff.1 h
    cases h
    have hm := hc m rfl
    have ho := Message.nesting_view_le (Failure.ofReferent_eq_ok_iff.1 ho)
    exact Nat.le_trans ho (Nat.add_le_add_right hm _)
  | note m =>
    cases h
    exact Nat.le_trans (hc m rfl) (Nat.le_add_right _ _)
  | reply m =>
    obtain ⟨value, hv, h⟩ := bind_eq_ok_iff.1 h
    cases h
    have hv := Message.nesting_instantiate_le (Failure.ofReferent_eq_ok_iff.1 hv)
    exact Nat.le_trans hv (Nat.add_le_add_right (hc m rfl) _)
  | ask m options =>
    obtain ⟨_, question, _, hq, rfl⟩ := Node.ask_eq_ok h
    rw [Effect.message, Message.nesting_withSender]
    exact Nat.le_trans (Message.nesting_instantiate_le hq) (Nat.add_le_add_right (hc m rfl) _)

end Command

/-! ## Recursion -/

/-- What is made of a message from what is made of the messages in its slots. -/
structure Message.Fold (C α β : Type) where
  text : String → α
  slot : String → β → α → α
  message : α → β
  pointer : Pointer → β
  channel : C → β

section

variable {α β : Type} (f : Message.Fold C α β)

mutual

/-- What is made of a message. -/
def Message.fold : Message C → α
  | .text t => f.text t
  | .slot t a rest => f.slot t a.fold rest.fold

/-- What is made of a referent. -/
def Referent.fold : Referent C → β
  | .message m => f.message m.fold
  | .pointer p => f.pointer p
  | .channel c => f.channel c

end

mutual

/-- What is made of a message, if no more than `room` messages have to be opened inside it at the
    same time. -/
def Message.foldWithin (room : Nat) : Message C → Option α
  | .text t => some (f.text t)
  | .slot t a rest => do return f.slot t (← a.foldWithin room) (← rest.foldWithin room)

/-- What is made of a referent, if no more than `room` messages have to be opened for it at the
    same time. -/
def Referent.foldWithin (room : Nat) : Referent C → Option β
  | .message m =>
    match room with
    | 0 => none
    | room + 1 => do return f.message (← m.foldWithin room)
  | .pointer p => some (f.pointer p)
  | .channel c => some (f.channel c)

end

/-- What keeps to the equations of the recursion is made of messages in this way. -/
theorem Message.fold_eq (g : Message C → α) (g' : Referent C → β)
    (text : ∀ t, g (.text t) = f.text t)
    (slot : ∀ t a rest, g (.slot t a rest) = f.slot t (g' a) (g rest))
    (message : ∀ m, g' (.message m) = f.message (g m))
    (pointer : ∀ p, g' (.pointer p) = f.pointer p)
    (channel : ∀ c, g' (.channel c) = f.channel c) (m : Message C) : m.fold f = g m := by
  induction m with
  | text t => exact (text t).symm
  | nested t m rest ihm ihr => rw [slot, message, ← ihm, ← ihr, fold, Referent.fold]
  | pointer t p rest ih => rw [slot, pointer, ← ih, fold, Referent.fold]
  | channel t c rest ih => rw [slot, channel, ← ih, fold, Referent.fold]

/-- A slot is opened like the rest of the message, one after the other. -/
theorem Message.foldWithin_slot {room : Nat} {a : Referent C} {rest : Message C}
    (ha : a.foldWithin f room = if a.nesting ≤ room then some (a.fold f) else none)
    (hr : rest.foldWithin f room = if rest.nesting ≤ room then some (rest.fold f) else none)
    (t : String) : (slot t a rest).foldWithin f room =
      if (slot t a rest).nesting ≤ room then some ((slot t a rest).fold f) else none := by
  rw [foldWithin, ha, hr, Message.nesting, fold]
  by_cases h : a.nesting ≤ room
  · by_cases h' : rest.nesting ≤ room
    · rw [if_pos h, if_pos h', if_pos (Nat.max_le.2 ⟨h, h'⟩)]
      rfl
    · rw [if_pos h, if_neg h', if_neg fun hmax => h' (Nat.max_le.1 hmax).2]
      rfl
  · rw [if_neg h, if_neg fun hmax => h (Nat.max_le.1 hmax).1]
    rfl

/-- As many messages have to be opened at the same time as a message nests deep, and no more. -/
theorem Message.foldWithin_eq (room : Nat) (m : Message C) :
    m.foldWithin f room = if m.nesting ≤ room then some (m.fold f) else none := by
  induction m generalizing room with
  | text t => exact (if_pos (Nat.zero_le room)).symm
  | nested t m rest ihm ihr =>
    refine foldWithin_slot f ?_ (ihr room) t
    rw [Referent.nesting, Referent.fold]
    cases room with
    | zero => rfl
    | succ room =>
      simp only [Referent.foldWithin, ihm, Nat.add_le_add_iff_right]
      split <;> rfl
  | pointer t p rest ih | channel t c rest ih =>
    exact foldWithin_slot f (if_pos (Nat.zero_le room)).symm (ih room) t

end

namespace Message.Fold

/-- Resolves all pointers. -/
def instantiate (scope : Scope C) :
    Fold C (Except ReferentError (Message C)) (Except ReferentError (Referent C)) where
  text t := .ok (.text t)
  slot t a rest := do return .slot t (← a) (← rest)
  message m := do return .message (← m)
  pointer p := p.resolve scope
  channel _ := .error .channelInstantiation

/-- Shows what the slots hold. -/
def display : Fold C String String where
  text t := t
  slot t a rest := t ++ ("(" ++ a ++ ")") ++ rest
  message m := m
  pointer p := p.display
  channel _ := Pointer.Kind.channel.symbol

/-- Looks for pointers. -/
def isClosed : Fold C Bool Bool where
  text _ := true
  slot _ a rest := a && rest
  message m := m
  pointer _ := false
  channel _ := true

theorem fold_instantiate (scope : Scope C) (m : Message C) :
    m.fold (instantiate scope) = m.instantiate scope :=
  fold_eq (instantiate scope) (Message.instantiate scope) (Referent.instantiate scope)
    (fun _ => rfl) (fun _ _ _ => rfl) (fun _ => rfl) (fun _ => rfl) (fun _ => rfl) m

theorem fold_display (m : Message C) : m.fold display = m.display :=
  fold_eq display Message.display Referent.display
    (fun _ => rfl) (fun _ _ _ => rfl) (fun _ => rfl) (fun _ => rfl) (fun _ => rfl) m

theorem fold_isClosed (m : Message C) : m.fold isClosed = m.isClosed :=
  fold_eq isClosed Message.isClosed Referent.isClosed
    (fun _ => rfl) (fun _ _ _ => rfl) (fun _ => rfl) (fun _ => rfl) (fun _ => rfl) m

end Message.Fold

/-! ## Steps -/

/-- How many responses a step takes: one if it is a turn. -/
def Focus.responses : Focus σ → Nat
  | .asking _ => 1
  | .answered _ => 0

namespace Machine

/-- Nothing in the scopes of any nodes nests deeper than `k`, and neither does what is in focus. -/
structure NestsWithin (k : Nat) (m : Machine σ) : Prop where
  scope : ∀ n, m.Holds n → Scope.nesting n.scope ≤ k
  message : m.focus.message.nesting ≤ k

variable {R : Respondent} {s : Settings} {k : Nat} {m m' : Machine R.State}
  {c : Conversation R.State} {r : Response} {q : R.State} {record : Record} {n : Node R.State}

/-- What is shown goes into the scope of the next node, so nothing gets deeper there. -/
theorem NestsWithin.of_meets (h : m.NestsWithin k) (hn : Meets R s m n) :
    Scope.nesting n.scope ≤ k := by
  refine hn.inherits (fun ha hc => ?_) (fun _ => Nat.zero_le k) h.scope
  have hshown := h.message
  rw [ha.focus] at hshown
  rw [successor, Node.scope_successor, Scope.nesting_append, Message.nesting_args]
  exact Nat.max_le.2 ⟨hc, hshown⟩

theorem Executed.nesting_le {b : Nat} {effect : Effect R.State}
    (hx : Executed R s m c r q record b effect) (h : m.NestsWithin k) :
    effect.message.nesting ≤ k + Message.nestingLimit := by
  have hscope := h.of_meets (.successor hx.toAnswered)
  have heffect := Command.nesting_le_of_execute hx.execute fun _ => Command.nesting_le_of_parse
  omega

/-- A response adds no more than the limit to what there is, and a step without one adds nothing. -/
theorem nestsWithin_step (h : m.NestsWithin k) (hst : m.step R s = .next m') :
    m'.NestsWithin (k + Message.nestingLimit * m.focus.responses) := by
  refine ⟨fun n hn => Nat.le_trans (h.of_meets (meets_of_holds_next hst hn)) (Nat.le_add_right _ _),
    ?_⟩
  cases rule_iff.2 hst with
  | outOfBudget ha hb =>
    rw [ha.focus]
    exact Nat.le_trans (Message.nesting_parse_le _) (Nat.le_add_left _ _)
  | shown hx _ | ended hx _ | asked hx _ =>
    rw [hx.focus]
    exact hx.nesting_le h
  | settled hf _ _ _ =>
    have hvalue := h.message
    rw [hf] at hvalue ⊢
    rw [Focus.message, Message.nesting_withSender]
    exact hvalue

/-! ## Runs -/

/-- The states that steps lead to, with so many responses on the way. -/
inductive ReachesAfter (R : Respondent) (s : Settings) (m : Machine R.State) :
    Nat → Machine R.State → Prop
  | refl : ReachesAfter R s m 0 m
  | step {n : Nat} {m' m'' : Machine R.State} (h : ReachesAfter R s m n m')
      (hst : m'.step R s = .next m'') : ReachesAfter R s m (n + m'.focus.responses) m''

theorem reaches_iff : Reaches R s m m' ↔ ∃ n, ReachesAfter R s m n m' := by
  constructor
  · intro h
    refine h.keeps (P := fun m' => ∃ n, ReachesAfter R s m n m') ?_ ⟨0, .refl⟩
    rintro m' m'' hst ⟨n, hn⟩
    exact ⟨_, hn.step hst⟩
  · rintro ⟨n, h⟩
    induction h with
    | refl => exact .refl m
    | step _ hst ih => exact ih.tail hst

theorem ReachesAfter.nestsWithin {n : Nat} (h : ReachesAfter R s m n m')
    (hm : m.NestsWithin k) : m'.NestsWithin (k + Message.nestingLimit * n) := by
  induction h with
  | refl => exact hm
  | step _ hst ih =>
    rw [Nat.mul_add, ← Nat.add_assoc]
    exact nestsWithin_step ih hst

theorem nestsWithin_startAt {msg : Message (Node R.State)} (hfree : msg.ChannelFree)
    (hmsg : msg.nesting ≤ k) (budget : Nat) (record : Record) :
    (R.startAt (.root 0 R.start) msg budget 0 1 record).NestsWithin k where
  scope n hn := by
    rw [eq_root_of_holds_startAt hfree hn]
    exact Nat.zero_le k
  message := hmsg

/-- A policy and an oracle are consulted once for each response. -/
theorem ReachesAfter.size_record {oracle : Oracle} {history : Transcript}
    {m m' : Machine (Respondent.ofOracle oracle history).State} {n : Nat}
    (h : ReachesAfter (.ofOracle oracle history) s m n m') :
    m'.record.size = m.record.size + n := by
  induction h with
  | refl => rfl
  | @step n m' m'' _ hst ih =>
    have hanswered {c : Conversation Transcript} {r : Response} {q : Transcript} {record : Record}
        (ha : Answered (.ofOracle oracle history) s m' c r q record) :
        record.size = m.record.size + (n + m'.focus.responses) := by
      obtain ⟨-, -, hrecord⟩ := Respondent.eq_some_of_respond_ofOracle ha.respond
      rw [ha.focus, hrecord, Array.size_push, ih]
      rfl
    cases rule_iff.2 hst with
    | outOfBudget ha _ => exact hanswered ha
    | shown hx _ | ended hx _ | asked hx _ => exact hanswered hx.toAnswered
    | settled hf _ _ _ =>
      rw [hf]
      exact ih

/-- Nothing that comes up nests deeper than `k`: no entry of a scope, its own parentheses counted,
    and no message that is shown, asked or answered. -/
structure Nests (R : Respondent) (s : Settings) (k : Nat) (m : Machine R.State) : Prop where
  scope : ∀ n, Meets R s m n → ∀ a ∈ n.scope, a.nesting ≤ k
  message : m.focus.message.nesting ≤ k

theorem NestsWithin.nests (h : m.NestsWithin k) : Nests R s k m where
  scope _ hn := Scope.nesting_le_iff.1 (h.of_meets hn)
  message := h.message

theorem ReachesAfter.nests {root : String} {budget n : Nat} (h : ReachesAfter R s
    (R.startAt (.root 0 R.start) (Message.parse root) budget 0 1 record) n m) :
    Nests R s (Message.nestingLimit * (n + 1)) m := by
  have hstart := nestsWithin_startAt (R := R) (Message.channelFree_parse root)
    (Message.nesting_parse_le root) budget record
  have hm := h.nestsWithin hstart
  rw [Nat.mul_succ, Nat.add_comm]
  exact hm.nests

/-- An instance nests as deep as the message and the deepest entry of the scope together. So in
    an inquiry, after `n` responses, nothing nests deeper than `n + 1` times the limit of the
    reader, and neither does the answer that the inquiry comes to. If the respondent follows a
    policy, the responses are its consultations. And recursion over a message, such as
    instantiating, displaying and looking for pointers, goes just as deep as the message nests. -/
theorem nesting_le_of_reachesAfter :
    (∀ (C : Type) (scope : Scope C) (m m' : Message C), m.instantiate scope = .ok m' →
      m'.nesting ≤ m.nesting + Scope.nesting scope) ∧
    (∀ (R : Respondent) (s : Settings) (root : String) (budget : Nat) (record : Record),
      let start := R.startAt (.root 0 R.start) (Message.parse root) budget 0 1 record
      (∀ m, Reaches R s start m ↔ ∃ n, ReachesAfter R s start n m) ∧
      (∀ n m, ReachesAfter R s start n m → Nests R s (Message.nestingLimit * (n + 1)) m) ∧
      ∀ text, (R.inquire s root budget record).outcome = .ready text → ∃ n m a,
        ReachesAfter R s start n m ∧ m.focus = .answered a ∧ text = a.value.display ∧
        a.value.nesting ≤ Message.nestingLimit * (n + 1)) ∧
    (∀ (oracle : Oracle) (history : Transcript) (s : Settings) (n : Nat)
      (m m' : Machine (Respondent.ofOracle oracle history).State),
      ReachesAfter (.ofOracle oracle history) s m n m' → m'.record.size = m.record.size + n) ∧
    ∀ (C : Type) (m : Message C),
      (∀ (α β : Type) (f : Message.Fold C α β) (room : Nat), m.foldWithin f room =
        if m.nesting ≤ room then some (m.fold f) else none) ∧
      (∀ scope, m.fold (.instantiate scope) = m.instantiate scope) ∧
      m.fold .display = m.display ∧ m.fold .isClosed = m.isClosed := by
  refine ⟨fun C scope m m' => Message.nesting_instantiate_le, fun R s root budget record =>
    ⟨fun m => reaches_iff, fun n m h => h.nests, fun text h => ?_⟩,
    fun oracle history s n m m' h => h.size_record, fun C m => ⟨fun α β f room =>
    m.foldWithin_eq f room, fun scope => Message.Fold.fold_instantiate scope m,
    Message.Fold.fold_display m, Message.Fold.fold_isClosed m⟩⟩
  obtain ⟨m, a, hr, hf, rfl⟩ := Respondent.exists_of_inquire_eq_ready h
  obtain ⟨n, hn⟩ := reaches_iff.1 hr
  have hmessage := hn.nests.message
  rw [hf] at hmessage
  exact ⟨n, m, a, hn, hf, rfl, hmessage⟩

end Machine

end Inquiry
