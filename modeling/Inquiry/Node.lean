import Inquiry.Message.Basic

/-!
# Nodes

A *node* is where a conversation stands: the state of its respondent and the
scope of everything it has been shown. Nodes are values. A turn leads to a new
node, the *successor*, whose scope goes on with the arguments of the message
shown; whoever holds a channel to an older node can go on from there. A new
conversation starts at a *child*, with nothing in scope and the respondent as
it was at the root.

Every node has a serial number of its own, so that nodes can be told apart.

* `Node.scope_successor`: entries of a scope keep their places.
-/

namespace Inquiry

/-- Where a conversation stands; `σ` is the state of its respondent. -/
structure Node (σ : Type) where
  /-- The number that no other node has. -/
  serial : Nat
  /-- The state of the respondent. -/
  state : σ
  /-- What pointers of this conversation are resolved against. -/
  scope : List (Referent (Node σ))
  /-- The state from which new conversations start. -/
  start : σ

namespace Node

variable {σ : Type}

/-- Nodes are the same if they have the same serial number. -/
instance : BEq (Node σ) := ⟨fun a b => a.serial == b.serial⟩

/-- The root of a new tree of conversations. -/
def root (serial : Nat) (start : σ) : Node σ := ⟨serial, start, [], start⟩

/-- A new conversation in the same tree. -/
def child (serial : Nat) (n : Node σ) : Node σ := root serial n.start

/-- The node after a message has been shown and its respondent has moved on. -/
def successor (serial : Nat) (n : Node σ) (shown : Message (Node σ)) (state : σ) : Node σ :=
  { n with serial, state, scope := n.scope ++ shown.args }

@[simp]
theorem scope_child (serial : Nat) (n : Node σ) : (n.child serial).scope = [] := rfl

@[simp]
theorem scope_successor (serial : Nat) (n : Node σ) (shown : Message (Node σ)) (state : σ) :
    (n.successor serial shown state).scope = n.scope ++ shown.args := rfl

/-- A node as it shows itself, without the state of its respondent. -/
def display (n : Node σ) : String :=
  "Env \x7b scope: " ++ toString n.scope.length ++ ", .. \x7d"

end Node

end Inquiry
