import Inquiry.Message.Basic

/-!
# Resolving pointers

A message is *instantiated* against a scope: every pointer in it, however deep
inside nested messages, gives way to the entry of the scope that it points at.
The entry is taken as it is; pointers inside it stay. A channel is a binding
already and cannot be instantiated, so a message with a channel, or with a
pointer past the end of the scope, has no instance: the first such argument,
read from left to right, is the reason given.

* `Message.instantiate_concat`: instantiation respects joining.
-/

namespace Inquiry

/-- Why messages cannot be combined as asked. -/
inductive ReferentError
  /-- A pointer past the end of the scope. -/
  | outOfRange (index length : Nat)
  /-- A channel where something has to be instantiated. -/
  | channelInstantiation
  /-- A number of fragments that does not fit the number of arguments. -/
  | slotMismatch (fragments args : Nat)
  deriving DecidableEq

/-- The wording of the error. -/
def ReferentError.message : ReferentError → String
  | .outOfRange index length =>
    "pointer index " ++ toString index ++ " is out of range for a scope of " ++
      toString length ++ " referents"
  | .channelInstantiation => "a channel cannot be instantiated"
  | .slotMismatch fragments args =>
    "message has " ++ toString fragments ++ " fragments for " ++ toString args ++ " arguments"

/-! ## Results and errors -/

/-- Why there is no value, if there is none. -/
def error? {ε α : Type} : Except ε α → Option ε
  | .ok _ => none
  | .error e => some e

theorem error?_eq_some_iff {ε α : Type} {x : Except ε α} {e : ε} :
    error? x = some e ↔ x = .error e := by
  cases x <;> simp [error?]

/-- What comes after something that succeeds. -/
theorem bind_eq_ok_iff {ε α β : Type} {x : Except ε α} {f : α → Except ε β} {b : β} :
    x >>= f = .ok b ↔ ∃ a, x = .ok a ∧ f a = .ok b := by
  constructor
  · intro h
    cases x with
    | error e => cases h
    | ok a => exact ⟨a, rfl, h⟩
  · rintro ⟨a, rfl, h⟩
    exact h

theorem bind_eq_error_iff {ε α β : Type} {x : Except ε α} {f : α → Except ε β} {e : ε} :
    x >>= f = .error e ↔ x = .error e ∨ ∃ a, x = .ok a ∧ f a = .error e := by
  constructor
  · intro h
    cases x with
    | error e' =>
      cases h
      exact .inl rfl
    | ok a => exact .inr ⟨a, rfl, h⟩
  · rintro (rfl | ⟨a, rfl, h⟩)
    · rfl
    · exact h

theorem bind_ok_eq_error_iff {ε α β : Type} {x : Except ε α} {f : α → β} {e : ε} :
    (x >>= fun a => .ok (f a)) = .error e ↔ x = .error e := by
  rw [bind_eq_error_iff]
  exact ⟨fun h => h.resolve_right fun ⟨_, _, h⟩ => (nomatch h), .inl⟩

/-! ## Instances -/

variable {C : Type}

/-- The entry of the scope that a pointer points at; its kind is only advice. -/
def Pointer.resolve (scope : Scope C) (p : Pointer) : Except ReferentError (Referent C) :=
  match scope[p.index]? with
  | some r => .ok r
  | none => .error (.outOfRange p.index scope.length)

theorem Pointer.resolve_eq_ok_iff {scope : Scope C} {p : Pointer} {r : Referent C} :
    p.resolve scope = .ok r ↔ scope[p.index]? = some r := by
  rw [resolve]
  cases scope[p.index]? <;> simp

theorem Pointer.resolve_eq_error_iff {scope : Scope C} {p : Pointer} {e : ReferentError} :
    p.resolve scope = .error e ↔
      scope.length ≤ p.index ∧ e = .outOfRange p.index scope.length := by
  rw [resolve, ← List.getElem?_eq_none_iff]
  cases scope[p.index]? <;> simp [eq_comm]

mutual

/-- The message with every pointer in it resolved. -/
def Message.instantiate (scope : Scope C) : Message C → Except ReferentError (Message C)
  | .text t => .ok (.text t)
  | .slot t a rest => do
    let a ← a.instantiate scope
    let rest ← rest.instantiate scope
    return .slot t a rest

/-- The referent with every pointer in it resolved. -/
def Referent.instantiate (scope : Scope C) : Referent C → Except ReferentError (Referent C)
  | .message m => do return .message (← m.instantiate scope)
  | .pointer p => p.resolve scope
  | .channel _ => .error .channelInstantiation

end

/-- A joined message is instantiated part by part, the first part first. -/
theorem Message.instantiate_concat (scope : Scope C) (a b : Message C) :
    (a.concat b).instantiate scope = (do
      let a ← a.instantiate scope
      let b ← b.instantiate scope
      return a.concat b) := by
  induction a using slotInduct with
  | text t =>
    cases b with
    | text u => rfl
    | slot u r rest =>
      simp only [concat, Message.instantiate]
      cases r.instantiate scope <;> simp [bind, Except.bind, pure, Except.pure]
      cases rest.instantiate scope <;> simp [concat]
  | slot t r rest ih =>
    simp only [concat_slot, Message.instantiate, ih]
    cases r.instantiate scope <;> simp [bind, Except.bind, pure, Except.pure]
    cases rest.instantiate scope <;> simp
    cases b.instantiate scope <;> simp

end Inquiry
