import Mathlib.Data.List.Basic
import Inquiry.Message.Leaves

/-!
# Substitution

An instance of a message differs from it in one thing: where the message has a pointer, at
any depth, the instance has the entry of the scope that it points at. Nothing is done to
the entry itself, so pointers and channels come in with it as they are, although a channel
that stands in the message keeps it from having an instance at all.

What keeps a message from having one can be seen at each of its leaves alone
(`Referent.defect?`). Of several reasons, the one at the first leaf is given, as the
arguments are gone through from left to right and nested messages where they stand.

* `Message.isClosed_replace`: with its pointers replaced, a message is closed if what came in
  is;
* `Message.instantiate_eq_replace`: an instance is the message with its pointers replaced;
* `Message.instantiate_exact`: which messages have an instance, which one, and why the others
  have none.
-/

namespace Inquiry

variable {C : Type}

/-! ## Other arguments in place of pointers -/

mutual

/-- The message with something else in place of each pointer, at any depth. -/
def Message.replace (entry : Pointer → Referent C) : Message C → Message C
  | .text t => .text t
  | .slot t a rest => .slot t (a.replace entry) (rest.replace entry)

/-- The referent with something else in place of each pointer; what a pointer gives way to is not
    looked into. -/
def Referent.replace (entry : Pointer → Referent C) : Referent C → Referent C
  | .message m => .message (m.replace entry)
  | .pointer p => entry p
  | .channel handle => .channel handle

end

/-- What a pointer points at, whatever it expects there; past the end of the scope, itself. -/
def Scope.entry (scope : Scope C) (p : Pointer) : Referent C := scope[p.index]?.getD (.pointer p)

/-- Why a pointer or a channel has no instance, if it has none. -/
def Referent.defect? (scope : Scope C) : Referent C → Option ReferentError
  | .pointer p =>
    if scope.length ≤ p.index then some (.outOfRange p.index scope.length) else none
  | .channel _ => some .channelInstantiation
  | .message _ => none

theorem Scope.entry_of_resolve {scope : Scope C} {p : Pointer} {r : Referent C}
    (h : p.resolve scope = .ok r) : scope.entry p = r := by
  rw [entry, Pointer.resolve_eq_ok_iff.1 h]
  rfl

namespace Message

variable {entry : Pointer → Referent C} {m : Message C}

/-- With its pointers replaced, a message is closed if everything is that came in. -/
theorem isClosed_replace :
    (m.replace entry).isClosed ↔ ∀ p, .pointer p ∈ m.leaves → (entry p).isClosed := by
  induction m with
  | text t => simp [replace, isClosed, leaves]
  | nested t m rest ihm ihr =>
    simp [replace, Referent.replace, isClosed, Referent.isClosed, leaves, Referent.leaves, ihm,
      ihr, or_imp, forall_and]
  | pointer t p rest ih =>
    simp [replace, Referent.replace, isClosed, leaves, Referent.leaves, ih]
  | channel t c rest ih =>
    simp [replace, Referent.replace, isClosed, Referent.isClosed, leaves, Referent.leaves, ih]

/-- There is nothing to replace in a closed message. -/
theorem replace_of_isClosed (h : m.isClosed) : m.replace entry = m := by
  induction m with
  | text t => rfl
  | nested t m rest ihm ihr =>
    obtain ⟨hm, hrest⟩ := Bool.and_eq_true_iff.1 h
    rw [replace, Referent.replace, ihm hm, ihr hrest]
  | pointer t p rest ih => cases h
  | channel t c rest ih =>
    obtain ⟨-, hrest⟩ := Bool.and_eq_true_iff.1 h
    rw [replace, Referent.replace, ih hrest]

/-! ## Instances -/

variable {scope : Scope C} {m' : Message C} {e : ReferentError}

/-- An instance is the message with the entries of the scope in place of its pointers. -/
theorem instantiate_eq_replace (h : m.instantiate scope = .ok m') :
    m' = m.replace scope.entry := by
  induction m generalizing m' with
  | text t =>
    cases h
    rfl
  | nested t m rest ihm ihr =>
    obtain ⟨a', rest', ha, hrest, rfl⟩ := instantiate_slot_eq_ok h
    obtain ⟨n, hm, rfl⟩ := Referent.instantiate_message_eq_ok ha
    rw [ihm hm, ihr hrest]
    rfl
  | pointer t p rest ih =>
    obtain ⟨a', rest', ha, hrest, rfl⟩ := instantiate_slot_eq_ok h
    rw [← Scope.entry_of_resolve ha, ih hrest]
    rfl
  | channel t c rest ih => cases h

/-- A leaf has no instance because of its defect. -/
theorem error?_instantiate_leaf {r : Referent C} (hr : r ∈ m.leaves) :
    error? (r.instantiate scope) = r.defect? scope := by
  cases r with
  | message n => exact absurd hr message_notMem_leaves
  | channel c => rfl
  | pointer p =>
    rw [Referent.instantiate, Referent.defect?]
    split
    · next h => exact error?_eq_some_iff.2 (Pointer.resolve_eq_error_iff.2 ⟨h, rfl⟩)
    · next h =>
      rw [Pointer.resolve_eq_ok_iff.2 (List.getElem?_eq_getElem (Nat.lt_of_not_le h))]
      rfl

theorem error?_instantiate_eq_findSome? :
    error? (m.instantiate scope) = m.leaves.findSome? (Referent.defect? scope) := by
  have hleaves : m.leaves.filterMap (fun r => error? (r.instantiate scope)) =
      m.leaves.filterMap (Referent.defect? scope) :=
    List.filterMap_congr fun _ hr => error?_instantiate_leaf hr
  rw [error?_instantiate, ← List.head?_filterMap, hleaves, List.head?_filterMap]

theorem instantiate_eq_ok_iff : m.instantiate scope = .ok m' ↔
    (∀ r ∈ m.leaves, r.defect? scope = none) ∧ m' = m.replace scope.entry := by
  rw [← List.findSome?_eq_none_iff, ← error?_instantiate_eq_findSome?]
  constructor
  · intro h
    exact ⟨by rw [h]; rfl, instantiate_eq_replace h⟩
  · rintro ⟨h, rfl⟩
    cases hm : m.instantiate scope with
    | error e =>
      rw [hm] at h
      cases h
    | ok m' => rw [instantiate_eq_replace hm]

/-- A message has no instance if one of its pointers and channels, at any depth, is a channel or
    points past the end of the scope, and the reason given is the first one of these from left to
    right. If there is none, the instance is the message with the entries of the scope in place
    of its pointers, just as they are. So a message without pointers and channels is its own
    instance in every scope, and an instance is closed if all entries are that the message
    points at. -/
theorem instantiate_exact (scope : Scope C) (m : Message C) :
    (∀ e, m.instantiate scope = .error e ↔ ∃ before r after, m.leaves = before ++ r :: after ∧
      r.defect? scope = some e ∧ ∀ a ∈ before, a.defect? scope = none) ∧
    (∀ m', m.instantiate scope = .ok m' ↔
      (∀ r ∈ m.leaves, r.defect? scope = none) ∧ m' = m.replace scope.entry) ∧
    (m.leaves = [] → m.instantiate scope = .ok m) ∧
    ∀ m', m.instantiate scope = .ok m' →
      (∀ p r, .pointer p ∈ m.leaves → scope[p.index]? = some r → r.isClosed) → m'.isClosed := by
  refine ⟨fun e => ?_, fun m' => instantiate_eq_ok_iff, fun hm => ?_, fun m' hm' hscope => ?_⟩
  · rw [← error?_eq_some_iff, error?_instantiate_eq_findSome?, List.findSome?_eq_some_iff]
  · have hclosed : m.isClosed := isClosed_iff.2 fun p hp => by
      rw [hm] at hp
      cases hp
    refine instantiate_eq_ok_iff.2 ⟨fun r hr => ?_, (replace_of_isClosed hclosed).symm⟩
    rw [hm] at hr
    cases hr
  · obtain ⟨hleaves, rfl⟩ := instantiate_eq_ok_iff.1 hm'
    refine isClosed_replace.2 fun p hp => ?_
    -- The pointer has no defect, so there is an entry.
    have hp' := hleaves _ hp
    rw [Referent.defect?] at hp'
    split at hp'
    · cases hp'
    · next h =>
      have hentry := List.getElem?_eq_getElem (Nat.lt_of_not_le h)
      rw [Scope.entry, hentry]
      exact hscope p _ hp hentry

end Message

end Inquiry
