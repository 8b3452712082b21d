import Inquiry.Message.Reader
import Inquiry.Message.Scope

/-!
# Leaves

The *leaves* of a message are the pointers and channels in its slots and in the
messages nested there, from left to right. Nothing else in a message refers to
anything outside of it.

* `Message.leaves_concat`: joined messages have the leaves of both;
* `Message.mem_leaves_instantiate`: the leaves of an instance come from the scope;
* `Message.isClosed_iff`: a message is closed if no leaf of it is a pointer;
* `Message.error?_instantiate`: the first leaf that has no instance is why the message
  has none;
* `Message.mem_leaves_readTokens`: the leaves of a message that is read are the references
  among its tokens, so there are no channels;
* `Message.nesting_concat`: joined messages nest as deep as the deeper one.
-/

namespace Inquiry

variable {C : Type}

mutual

/-- The pointers and channels in a message, at any depth. -/
def Message.leaves : Message C → List (Referent C)
  | .text _ => []
  | .slot _ a rest => a.leaves ++ rest.leaves

/-- The pointers and channels in a referent, which may be one itself. -/
def Referent.leaves : Referent C → List (Referent C)
  | .message m => m.leaves
  | .pointer p => [.pointer p]
  | .channel handle => [.channel handle]

end

namespace Message

theorem leaves_text (t : String) : (text t : Message C).leaves = [] := rfl

theorem leaves_eq_flatMap (m : Message C) : m.leaves = m.args.flatMap Referent.leaves := by
  induction m using slotInduct with
  | text t => rfl
  | slot t a rest ih => rw [leaves, args, List.flatMap_cons, ih]

theorem mem_leaves_iff {m : Message C} {r : Referent C} :
    r ∈ m.leaves ↔ ∃ a ∈ m.args, r ∈ a.leaves := by
  rw [leaves_eq_flatMap, List.mem_flatMap]

@[simp]
theorem leaves_concat (a b : Message C) : (a.concat b).leaves = a.leaves ++ b.leaves := by
  rw [leaves_eq_flatMap, args_concat, List.flatMap_append, ← leaves_eq_flatMap,
    ← leaves_eq_flatMap]

@[simp]
theorem leaves_reference (r : Referent C) : (reference r).leaves = r.leaves :=
  List.append_nil _

@[simp]
theorem leaves_withSender (sender : C) (m : Message C) :
    (m.withSender sender).leaves = .channel sender :: m.leaves := by
  rw [withSender, leaves_concat]
  rfl

@[simp]
theorem nesting_concat (a b : Message C) :
    (a.concat b).nesting = max a.nesting b.nesting := by
  induction a using slotInduct with
  | text t => cases b <;> simp [concat, Message.nesting]
  | slot t r rest ih => rw [concat_slot, Message.nesting, Message.nesting, ih, Nat.max_assoc]

end Message

theorem Pointer.mem_of_resolve {scope : Scope C} {p : Pointer} {r : Referent C}
    (h : p.resolve scope = .ok r) : r ∈ scope := by
  rw [resolve] at h
  split at h
  · next r' hr =>
    cases h
    exact List.mem_of_getElem? hr
  · cases h

theorem Message.instantiate_slot_eq_ok {scope : Scope C} {t : String} {a : Referent C}
    {rest m : Message C} (h : (slot t a rest).instantiate scope = .ok m) :
    ∃ a' rest', a.instantiate scope = .ok a' ∧ rest.instantiate scope = .ok rest' ∧
      m = .slot t a' rest' := by
  rw [Message.instantiate] at h
  obtain ⟨a', ha, h⟩ := bind_eq_ok_iff.1 h
  obtain ⟨rest', hrest, h⟩ := bind_eq_ok_iff.1 h
  exact ⟨a', rest', ha, hrest, (Except.ok.inj h).symm⟩

theorem Referent.instantiate_message_eq_ok {scope : Scope C} {m : Message C} {a : Referent C}
    (h : (Referent.message m).instantiate scope = .ok a) :
    ∃ m', m.instantiate scope = .ok m' ∧ a = .message m' := by
  rw [Referent.instantiate] at h
  obtain ⟨m', hm, h⟩ := bind_eq_ok_iff.1 h
  exact ⟨m', hm, (Except.ok.inj h).symm⟩

/-- The leaves of an instance are leaves of entries of the scope. -/
theorem Message.mem_leaves_instantiate {scope : Scope C} {m m' : Message C}
    (h : m.instantiate scope = .ok m') {r : Referent C} (hr : r ∈ m'.leaves) :
    ∃ a ∈ scope, r ∈ a.leaves := by
  induction m generalizing m' with
  | text t =>
    cases h
    cases hr
  | nested t m rest ihm ihr =>
    obtain ⟨a', rest', ha, hrest, rfl⟩ := instantiate_slot_eq_ok h
    obtain ⟨n, hm, rfl⟩ := Referent.instantiate_message_eq_ok ha
    rcases List.mem_append.1 hr with hr | hr
    · exact ihm hm hr
    · exact ihr hrest hr
  | pointer t p rest ih =>
    obtain ⟨a', rest', ha, hrest, rfl⟩ := instantiate_slot_eq_ok h
    rcases List.mem_append.1 hr with hr | hr
    · exact ⟨a', Pointer.mem_of_resolve ha, hr⟩
    · exact ih hrest hr
  | channel t c rest ih => cases h

/-! ### Closed messages -/

theorem Message.isClosed_iff {m : Message C} : m.isClosed ↔ ∀ p, .pointer p ∉ m.leaves := by
  induction m with
  | text t => simp [isClosed, leaves]
  | nested t m rest ihm ihr =>
    simp [isClosed, leaves, Referent.isClosed, Referent.leaves, ihm, ihr, forall_and]
  | pointer t p rest ih =>
    simp [isClosed, leaves, Referent.isClosed, Referent.leaves, forall_and]
  | channel t c rest ih => simp [isClosed, leaves, Referent.isClosed, Referent.leaves, ih]

theorem Referent.isClosed_iff {r : Referent C} : r.isClosed ↔ ∀ p, .pointer p ∉ r.leaves := by
  cases r with
  | message m => exact Message.isClosed_iff
  | pointer p => simp [isClosed, leaves]
  | channel c => simp [isClosed, leaves]

theorem Message.isClosed_iff_args {m : Message C} : m.isClosed ↔ ∀ a ∈ m.args, a.isClosed := by
  simp only [isClosed_iff, Referent.isClosed_iff, mem_leaves_iff]
  exact ⟨fun h a ha p hp => h p ⟨a, ha, hp⟩, fun h p ⟨a, ha, hp⟩ => h a ha p hp⟩

namespace Message

/-- There is no channel in the message, at any depth. -/
def ChannelFree (m : Message C) : Prop := ∀ c, .channel c ∉ m.leaves

/-! ### Leaves without an instance -/

theorem error?_instantiate_slot (scope : Scope C) (t : String) (a : Referent C)
    (rest : Message C) : error? ((slot t a rest).instantiate scope) =
      (error? (a.instantiate scope)).or (error? (rest.instantiate scope)) := by
  rw [Message.instantiate]
  cases a.instantiate scope with
  | error e => rfl
  | ok a' => cases rest.instantiate scope <;> rfl

/-- A message has no instance because of its first leaf that has none. -/
theorem error?_instantiate (scope : Scope C) (m : Message C) :
    error? (m.instantiate scope) = m.leaves.findSome? fun r => error? (r.instantiate scope) := by
  induction m with
  | text t => rfl
  | nested t m rest ihm ihr =>
    have hm : error? ((Referent.message m).instantiate scope) = error? (m.instantiate scope) := by
      rw [Referent.instantiate]
      cases m.instantiate scope <;> rfl
    rw [error?_instantiate_slot, Message.leaves, List.findSome?_append, hm, ihm, ihr]
    rfl
  | pointer t p rest ih | channel t p rest ih =>
    rw [error?_instantiate_slot, Message.leaves, List.findSome?_append, ih, Referent.leaves,
      List.findSome?_singleton]

theorem message_notMem_leaves {m m' : Message C} : .message m' ∉ m.leaves := by
  induction m with
  | text t => exact List.not_mem_nil
  | nested t m rest ihm ihr => exact fun h => (List.mem_append.1 h).elim ihm ihr
  | pointer t p rest ih | channel t p rest ih =>
    intro h
    rcases List.mem_append.1 h with h | h
    · cases List.mem_singleton.1 h
    · exact ih h

/-- The pointer is the first one in the message, from left to right, that points past the end of
    the scope. -/
def Dangling (scope : Scope C) (m : Message C) (p : Pointer) : Prop :=
  ∃ before after, m.leaves = before ++ .pointer p :: after ∧ scope.length ≤ p.index ∧
    ∀ q, .pointer q ∈ before → q.index < scope.length

/-- Without channels, a pointer past the end of the scope is the only reason for a message not to
    have an instance, and the first one is the reason given. -/
theorem ChannelFree.instantiate_eq_error_iff {scope : Scope C} {m : Message C}
    (hm : m.ChannelFree) {e : ReferentError} : m.instantiate scope = .error e ↔
      ∃ p, m.Dangling scope p ∧ e = .outOfRange p.index scope.length := by
  rw [← error?_eq_some_iff, error?_instantiate, List.findSome?_eq_some_iff]
  constructor
  · rintro ⟨before, r, after, hl, hr, hbefore⟩
    have hmem : r ∈ m.leaves := hl ▸ List.mem_append_right _ List.mem_cons_self
    cases r with
    | message m' => exact absurd hmem message_notMem_leaves
    | channel c => exact absurd hmem (hm c)
    | pointer p =>
      obtain ⟨hp, he⟩ := Pointer.resolve_eq_error_iff.1 (error?_eq_some_iff.1 hr)
      refine ⟨p, ⟨before, after, hl, hp, fun q hq => Nat.lt_of_not_le fun hle => ?_⟩, he⟩
      have hnone := hbefore _ hq
      rw [Referent.instantiate, Pointer.resolve_eq_error_iff.2 ⟨hle, rfl⟩] at hnone
      cases hnone
  · rintro ⟨p, ⟨before, after, hl, hp, hbefore⟩, he⟩
    refine ⟨before, .pointer p, after, hl,
      error?_eq_some_iff.2 (Pointer.resolve_eq_error_iff.2 ⟨hp, he⟩), fun r hr => ?_⟩
    have hmem : r ∈ m.leaves := hl ▸ List.mem_append_left _ hr
    cases r with
    | message m' => exact absurd hmem message_notMem_leaves
    | channel c => exact absurd hmem (hm c)
    | pointer q =>
      rw [Referent.instantiate,
        Pointer.resolve_eq_ok_iff.2 (List.getElem?_eq_getElem (hbefore q hr))]
      rfl

/-! ### Leaves of what is read -/

/-- The leaves of what is read have been read before or are references among the tokens. -/
theorem mem_leaves_readTokens {opened : List (Span × Draft C)} {draft : Draft C}
    {ts : List (Located Token)} {m : Message C} (h : readTokens opened draft ts = .ok m)
    {r : Referent C} (hr : r ∈ m.leaves) :
    (∃ o ∈ opened, r ∈ o.2.toMessage.leaves) ∨ r ∈ draft.toMessage.leaves ∨
      ∃ p span, r = .pointer p ∧ ⟨.reference p, span⟩ ∈ ts := by
  -- A leaf comes with the token read or is found in what is left to read; what a parenthesis
  -- closes moves, with its leaves, into the message around it.
  fun_induction readTokens opened draft ts with
  | case1 draft =>
    cases h
    exact .inr (.inl hr)
  | case2 draft span outer opened => cases h
  | case3 opened draft t span ts ih =>
    rcases ih h with ho | hd | ⟨p, at_, hp, ht⟩
    · exact .inl ho
    · rw [Draft.toMessage_addText, leaves_concat, leaves_text, List.append_nil] at hd
      exact .inr (.inl hd)
    · exact .inr (.inr ⟨p, at_, hp, List.mem_cons_of_mem _ ht⟩)
  | case4 opened draft p span ts ih =>
    rcases ih h with ho | hd | ⟨q, at_, hq, ht⟩
    · exact .inl ho
    · rw [Draft.toMessage_addSlot, leaves_concat, leaves_reference] at hd
      rcases List.mem_append.1 hd with hd | hp
      · exact .inr (.inl hd)
      · exact .inr (.inr ⟨p, span, List.mem_singleton.1 hp, List.mem_cons_self⟩)
    · exact .inr (.inr ⟨q, at_, hq, List.mem_cons_of_mem _ ht⟩)
  | case5 opened draft span ts hfull => cases h
  | case6 opened draft span ts hfull ih =>
    rcases ih h with ⟨o, ho, hr⟩ | hd | ⟨p, at_, hp, ht⟩
    · -- The draft so far is the innermost message around.
      rcases List.mem_cons.1 ho with rfl | ho
      · exact .inr (.inl hr)
      · exact .inl ⟨o, ho, hr⟩
    · cases hd
    · exact .inr (.inr ⟨p, at_, hp, List.mem_cons_of_mem _ ht⟩)
  | case7 draft span ts => cases h
  | case8 draft span ts opener outer opened ih =>
    rcases ih h with ⟨o, ho, hr⟩ | hd | ⟨p, at_, hp, ht⟩
    · exact .inl ⟨o, List.mem_cons_of_mem _ ho, hr⟩
    · rw [Draft.toMessage_addSlot, leaves_concat, leaves_reference] at hd
      rcases List.mem_append.1 hd with hd | hd
      · exact .inl ⟨_, List.mem_cons_self, hd⟩
      · exact .inr (.inl hd)
    · exact .inr (.inr ⟨p, at_, hp, List.mem_cons_of_mem _ ht⟩)

theorem mem_leaves_ofTokens {ts : List (Located Token)} {m : Message C} (h : ofTokens ts = .ok m)
    {r : Referent C} (hr : r ∈ m.leaves) :
    ∃ p span, r = .pointer p ∧ ⟨.reference p, span⟩ ∈ ts := by
  rcases mem_leaves_readTokens h hr with ⟨o, ho, _⟩ | hd | h
  · cases ho
  · cases hd
  · exact h

theorem channelFree_ofTokens {ts : List (Located Token)} {m : Message C}
    (h : ofTokens ts = .ok m) : m.ChannelFree := by
  intro c hc
  obtain ⟨_, _, hp, _⟩ := mem_leaves_ofTokens h hc
  cases hp

theorem channelFree_parse (text : String) : (parse text : Message C).ChannelFree := by
  rw [parse]
  split
  · next h => exact channelFree_ofTokens (ErrorList.eq_ok_of_conclude h)
  · exact fun _ h => nomatch h

end Message

end Inquiry
