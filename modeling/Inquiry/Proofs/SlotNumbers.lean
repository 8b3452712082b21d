import Inquiry.Machine.Nodes

/-!
# Slot numbers

A respondent is shown its slots with numbers and cites them by these numbers
later. On the way to a node some messages have been shown, one in each turn, and
each with its slots numbered behind those of the messages before it; at the same
time their arguments have been put into scope. So a number is the place in scope
of what stands in the slot that shows it, and stays so in every node after.

This is true not only of the conversation in focus but of every node that a
channel leads to, since nodes arise only by turns and by new conversations, which
have been shown nothing.

* `Message.renderFrom_eq_render`: a slot is shown by its mark and its number;
* `Node.HasSeen`: the messages shown on the way to a node;
* `Node.Numbers`: where their numbers are shown, and what they mean there;
* `Machine.slots_resolve`: every node of an inquiry has seen some messages, and the
  numbers in them mean what they showed.
-/

namespace Inquiry

variable {C σ : Type}

/-! ## Numbers -/

namespace Message

/-- What stands in the slots of a message and the numbers they show, if they are counted from
    `start`. -/
def slotsFrom (start : Nat) (m : Message C) : List (Referent C × Nat) :=
  m.args.zipIdx start

theorem slotsFrom_slot (start : Nat) (t : String) (a : Referent C) (rest : Message C) :
    (slot t a rest).slotsFrom start = (a, start) :: rest.slotsFrom (start + 1) := by
  rw [slotsFrom, args, List.zipIdx_cons, slotsFrom]

/-- What a slot is named: the mark of what stands in it, and its number. -/
def slotName (slot : Referent C × Nat) : String := slot.1.symbol ++ toString slot.2

/-- A message shows its slots by these names. -/
theorem renderFrom_eq_render (start : Nat) (m : Message C) :
    m.renderFrom start = m.render ((m.slotsFrom start).map slotName) := by
  induction m using slotInduct generalizing start with
  | text t => rfl
  | slot t a rest ih =>
    rw [renderFrom, ih, slotsFrom_slot, List.map_cons, render, slotName]

/-- The number of slots of some messages. -/
def totalSize : List (Message C) → Nat
  | [] => 0
  | m :: ms => m.size + totalSize ms

theorem length_flatMap_args (ms : List (Message C)) :
    (ms.flatMap args).length = totalSize ms := by
  induction ms with
  | nil => rfl
  | cons m ms ih => rw [List.flatMap_cons, List.length_append, ih, totalSize, size]

/-- The slots of messages shown one after the other, numbered throughout from `start`. -/
def shownSlots (start : Nat) : List (Message C) → List (Referent C × Nat)
  | [] => []
  | m :: ms => m.slotsFrom start ++ shownSlots (start + m.size) ms

/-- Numbered throughout, slots are numbered by the places of their arguments among all. -/
theorem shownSlots_eq_zipIdx (start : Nat) (ms : List (Message C)) :
    shownSlots start ms = (ms.flatMap args).zipIdx start := by
  induction ms generalizing start with
  | nil => rfl
  | cons m ms ih => rw [shownSlots, ih, List.flatMap_cons, List.zipIdx_append, slotsFrom, size]

/-- Numbered behind those of the messages before it, the slots of a message are a piece of these. -/
theorem isInfix_shownSlots {ms : List (Message C)} {i : Nat} {m : Message C}
    (h : ms[i]? = some m) (start : Nat) :
    m.slotsFrom (start + totalSize (ms.take i)) <:+: shownSlots start ms := by
  induction ms generalizing i start with
  | nil => cases h
  | cons m' ms ih =>
    cases i with
    | zero =>
      cases h
      exact (List.prefix_append _ _).isInfix
    | succ i =>
      rw [List.take_succ_cons, totalSize, ← Nat.add_assoc]
      exact (ih h _).trans (List.suffix_append _ _).isInfix

end Message

namespace Node

/-- Turns lead from the one node to the other. -/
inductive Precedes : Node σ → Node σ → Prop
  | refl (n : Node σ) : Precedes n n
  | successor {n n' : Node σ} (h : Precedes n n') (serial : Nat) (shown : Message (Node σ))
      (state : σ) : Precedes n (n'.successor serial shown state)

/-- Entries of a scope keep their places. -/
theorem Precedes.getElem?_scope {n n' : Node σ} (h : n.Precedes n') {k : Nat}
    {a : Referent (Node σ)} (ha : n.scope[k]? = some a) : n'.scope[k]? = some a := by
  induction h with
  | refl => exact ha
  | @successor n' _ serial shown state ih =>
    obtain ⟨hk, _⟩ := List.getElem?_eq_some_iff.1 ih
    rw [scope_successor, List.getElem?_append_left hk]
    exact ih

end Node

/-! ## What nodes have seen -/

/-- What is told about the budget in an observation, if it is told. -/
def Settings.notice (s : Settings) (budget : Nat) : String :=
  match s.accounting with
  | .steps => budgetNotice budget
  | .time => ""

namespace Node

/-- The messages are those shown on the way to a node, each in a turn of its own, which was
    answered: the transcript holds what was shown for them and the responses, and the scope
    holds their arguments. -/
structure HasSeen (s : Settings) (n : Node Transcript) (ms : List (Message (Node Transcript))) :
    Prop where
  observations : n.state.observations.length = ms.length
  responses : n.state.responses.length = ms.length
  /-- Slots are numbered behind those of all messages before. -/
  text : ∀ (i : Nat) (o : Observation) (m : Message (Node Transcript)),
    n.state.observations[i]? = some o → ms[i]? = some m →
    o.text = m.renderFrom (Message.totalSize (ms.take i)) ++ s.notice o.budget
  scope : n.scope = ms.flatMap Message.args

theorem hasSeen_root (s : Settings) (serial : Nat) :
    (root serial Transcript.empty).HasSeen s [] where
  observations := rfl
  responses := rfl
  text := fun _ _ _ ho => nomatch ho
  scope := rfl

namespace HasSeen

variable {s : Settings} {n : Node Transcript} {ms : List (Message (Node Transcript))}

theorem length_scope (h : n.HasSeen s ms) : n.scope.length = Message.totalSize ms := by
  rw [h.scope, Message.length_flatMap_args]

theorem mem_shownSlots_iff (h : n.HasSeen s ms) {a : Referent (Node Transcript)} {k : Nat} :
    (a, k) ∈ Message.shownSlots 0 ms ↔ n.scope[k]? = some a := by
  rw [Message.shownSlots_eq_zipIdx, ← h.scope, List.mk_mem_zipIdx_iff_getElem?]

/-- A turn shows one message more. -/
theorem successor (h : n.HasSeen s ms) (serial : Nat) (m : Message (Node Transcript))
    (budget : Nat) (r : Response) :
    (n.successor serial m ((n.state.observed ⟨s.render n m budget, budget⟩).answered r)).HasSeen s
      (ms ++ [m]) where
  observations := by
    rw [List.length_append, ← h.observations]
    exact List.length_append
  responses := by
    rw [List.length_append, ← h.responses]
    exact List.length_append
  text := by
    intro i o m' ho hm
    change (n.state.observations ++ [⟨s.render n m budget, budget⟩])[i]? = some o at ho
    -- The message has been shown before, or it is the one shown now.
    obtain ⟨hi, _⟩ := List.getElem?_eq_some_iff.1 hm
    rw [List.length_append, List.length_singleton] at hi
    rcases Nat.lt_succ_iff_lt_or_eq.1 hi with hi | rfl
    · rw [List.getElem?_append_left (h.observations ▸ hi)] at ho
      rw [List.getElem?_append_left hi] at hm
      rw [List.take_append_of_le_length (Nat.le_of_lt hi)]
      exact h.text i o m' ho hm
    · rw [← h.observations, List.getElem?_concat_length] at ho
      rw [List.getElem?_concat_length] at hm
      cases ho
      cases hm
      rw [List.take_left, ← h.length_scope]
      rfl
  scope := by
    rw [scope_successor, h.scope, List.flatMap_append, List.flatMap_singleton]

end HasSeen

/-- The numbers that the slots of the messages show, one after the other, stand for what is in
    these slots. -/
structure Numbers (s : Settings) (n : Node Transcript) (ms : List (Message (Node Transcript))) :
    Prop where
  /-- In the text shown for a message, its slots have their names by these numbers. -/
  named : ∀ (i : Nat) (o : Observation) (m : Message (Node Transcript)),
    n.state.observations[i]? = some o → ms[i]? = some m →
    let slots := m.slotsFrom (Message.totalSize (ms.take i))
    slots <:+: Message.shownSlots 0 ms ∧
      o.text = m.render (slots.map Message.slotName) ++ s.notice o.budget
  /-- No number is shown for two slots. -/
  nodup : ((Message.shownSlots 0 ms).map (·.2)).Nodup
  /-- A number stands for what is in its slot, at this node and at all that follow. -/
  resolve : ∀ a k, (a, k) ∈ Message.shownSlots 0 ms → ∀ n', n.Precedes n' →
    ∀ kind, Pointer.resolve n'.scope ⟨kind, k⟩ = .ok a
  /-- All of the scope has been shown. -/
  shown : ∀ k < n.scope.length, ∃ a, (a, k) ∈ Message.shownSlots 0 ms

theorem HasSeen.numbers {s : Settings} {n : Node Transcript}
    {ms : List (Message (Node Transcript))} (h : n.HasSeen s ms) : n.Numbers s ms where
  named := by
    intro i o m ho hm slots
    have hslots := Message.isInfix_shownSlots hm 0
    rw [Nat.zero_add] at hslots
    refine ⟨hslots, ?_⟩
    rw [h.text i o m ho hm, Message.renderFrom_eq_render]
  nodup := by
    rw [Message.shownSlots_eq_zipIdx, List.zipIdx_map_snd]
    exact List.nodup_range'
  resolve := by
    intro a k ha n' hn kind
    have hk : n'.scope[k]? = some a := hn.getElem?_scope (h.mem_shownSlots_iff.1 ha)
    rw [Pointer.resolve, hk]
  shown k hk := ⟨n.scope[k], h.mem_shownSlots_iff.2 (List.getElem?_eq_getElem hk)⟩

end Node

/-! ## The nodes of an inquiry -/

namespace Machine

variable {oracle : Oracle} {history : Transcript} {s : Settings} {m : Machine Transcript}
  {c : Conversation Transcript} {r : Response} {q : Transcript} {record : Record}
  {ms : List (Message (Node Transcript))}

/-- The node that a turn leads to has seen the message of the turn. -/
theorem Answered.hasSeen (h : Answered (.ofOracle oracle history) s m c r q record)
    (hc : c.node.HasSeen s ms) :
    (c.node.successor m.supply c.message q).HasSeen s (ms ++ [c.message]) := by
  have hq : q = (c.node.state.observed ⟨s.render c.node c.message c.budget, c.budget⟩).answered r :=
    (Respondent.eq_some_of_respond_ofOracle h.respond).2.1
  subst hq
  exact hc.successor m.supply c.message c.budget r

/-- Every node that comes up in an inquiry has seen some messages, in texts that name their slots
    by numbers, and there, and at all nodes that follow, a number means what is in the slot that
    it names. -/
theorem slots_resolve (oracle : Oracle) (s : Settings) (root : String) (budget : Nat)
    (record : Record) {m : Machine Transcript} {n : Node Transcript}
    (h : Reaches (.ofOracle oracle .empty) s ((Respondent.ofOracle oracle .empty).startAt
      (.root 0 Transcript.empty) (Message.parse root) budget 0 1 record) m)
    (hn : Meets (.ofOracle oracle .empty) s m n) : ∃ ms, n.HasSeen s ms ∧ n.Numbers s ms := by
  -- A new conversation starts with nothing seen, which is known of every node.
  have hseen : n.start = .empty ∧ ∃ ms, n.HasSeen s ms := by
    refine h.meets (P := fun n => n.start = Transcript.empty ∧ ∃ ms, n.HasSeen s ms) ?_ ?_ ?_ hn
    · rintro m c r q record' ha ⟨hstart, ms, hms⟩
      exact ⟨hstart, _, ha.hasSeen hms⟩
    · rintro n serial ⟨hstart, _⟩
      refine ⟨hstart, [], ?_⟩
      rw [Node.child, hstart]
      exact Node.hasSeen_root s serial
    · intro n hn
      rw [eq_root_of_holds_startAt (Message.channelFree_parse root) hn]
      exact ⟨rfl, [], Node.hasSeen_root s 0⟩
  obtain ⟨_, ms, hms⟩ := hseen
  exact ⟨ms, hms, hms.numbers⟩

/-- A message with two slots and then one with a channel in it: there are three slots, and the
    numbers in them mean what they showed. -/
theorem slots_resolve_reflect :
    let R := Respondent.ofOracle (fun _ _ => some ⟨"reflect", 0⟩) .empty
    let s : Settings := {}
    ∃ m, Reaches R s (R.startAt (.root 0 .empty) (Message.parse "is (a) like (b)") 9 0 1 #[]) m ∧
      m.focus.node.scope.length = 3 ∧
      ∃ ms, Node.HasSeen s m.focus.node ms ∧ Node.Numbers s m.focus.node ms := by
  intro R s
  have h : (match (R.startAt (.root 0 .empty) (Message.parse "is (a) like (b)") 9 0 1 #[]).step
      R s with
    | .next m =>
      match m.step R s with
      | .next m => m.focus.node.scope.length
      | .done _ => 0
    | .done _ => 0) = 3 := by decide +kernel
  split at h
  · next m hm =>
    split at h
    · next m' hm' =>
      have hr := Reaches.step hm (.step hm' (.refl m'))
      exact ⟨m', hr, h, slots_resolve _ s _ 9 #[] hr (.held .focus)⟩
    · cases h
  · cases h

end Machine

end Inquiry
