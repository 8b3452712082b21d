import Inquiry.Command.Reader
import Inquiry.Message.Scope

/-!
# Messages with other channels

Nothing that is done with a message depends on what its channels lead to. If they are
made to lead elsewhere (`Message.map`), the message is shown as before, and joining,
instantiating and reading commute with the change. A message that is read has no
channels, so it stays the same message.

* `Message.renderFrom_map`, `Message.display_map`: a message is shown as before;
* `Message.instantiate_map`: its instance changes along with it;
* `Message.map_parse`, `Command.map_parse`: what is read is the same.
-/

namespace Inquiry

variable {C D : Type} (f : C → D)

mutual

/-- The message with every channel leading elsewhere. -/
def Message.map : Message C → Message D
  | .text t => .text t
  | .slot t a rest => .slot t a.map rest.map

/-- The referent with every channel leading elsewhere. -/
def Referent.map : Referent C → Referent D
  | .message m => .message m.map
  | .pointer p => .pointer p
  | .channel handle => .channel (f handle)

end

/-- The command with every channel in it leading elsewhere. -/
def Command.map : Command C → Command D
  | .malformed => .malformed
  | .reflect => .reflect
  | .view m => .view (m.map f)
  | .note m => .note (m.map f)
  | .reply m => .reply (m.map f)
  | .ask m options => .ask (m.map f) options

/-- The scope with every channel in it leading elsewhere. -/
abbrev Scope.map (scope : Scope C) : Scope D := List.map (Referent.map f) scope

/-! ## Showing and joining -/

namespace Referent

theorem symbol_map (r : Referent C) : (r.map f).symbol = r.symbol := by
  cases r <;> rfl

end Referent

namespace Message

theorem args_map (m : Message C) : (m.map f).args = m.args.map (Referent.map f) := by
  induction m using slotInduct with
  | text t => rfl
  | slot t a rest ih => rw [Message.map, args, args, ih, List.map_cons]

theorem renderFrom_map (start : Nat) (m : Message C) :
    (m.map f).renderFrom start = m.renderFrom start := by
  induction m using slotInduct generalizing start with
  | text t => rfl
  | slot t a rest ih => rw [Message.map, renderFrom, renderFrom, ih, Referent.symbol_map]

theorem display_map (m : Message C) : (m.map f).display = m.display := by
  induction m with
  | text t => rfl
  | nested t m rest ihm ihr =>
    simp only [Message.map, Referent.map, Message.display, Referent.display, ihm, ihr]
  | pointer t p rest ih | channel t c rest ih =>
    simp only [Message.map, Referent.map, Message.display, Referent.display, ih]

theorem map_concat (a b : Message C) : (a.concat b).map f = (a.map f).concat (b.map f) := by
  induction a using slotInduct with
  | text t => cases b <;> rfl
  | slot t a rest ih => rw [concat_slot, Message.map, Message.map, concat_slot, ih]

theorem map_withSender (sender : C) (m : Message C) :
    (m.withSender sender).map f = (m.map f).withSender (f sender) :=
  map_concat f _ m

theorem reference?_map (m : Message C) :
    (m.map f).reference? = m.reference?.map (Referent.map f) := by
  fun_cases reference? m with
  | case1 before arg after h => exact if_pos h
  | case2 before arg after h => exact if_neg h
  | case3 m h =>
    cases m with
    | text t => rfl
    | slot t a rest =>
      cases rest with
      | text u => exact absurd rfl (h t a u)
      | slot u b rest => rfl

end Message

/-! ## Instances -/

theorem Pointer.resolve_map (scope : Scope C) (p : Pointer) :
    p.resolve (scope.map f) = (p.resolve scope).map (Referent.map f) := by
  rw [resolve, resolve, Scope.map, List.getElem?_map, List.length_map]
  cases scope[p.index]? <;> rfl

theorem Message.instantiate_slot_map {scope : Scope C} {a : Referent C} {rest : Message C}
    (ha : (a.map f).instantiate (scope.map f) = (a.instantiate scope).map (Referent.map f))
    (hrest : (rest.map f).instantiate (scope.map f) =
      (rest.instantiate scope).map (Message.map f)) (t : String) :
    ((slot t a rest).map f).instantiate (scope.map f) =
      ((slot t a rest).instantiate scope).map (Message.map f) := by
  rw [Message.map, Message.instantiate, Message.instantiate, ha, hrest]
  cases a.instantiate scope with
  | error e => rfl
  | ok a' => cases rest.instantiate scope <;> rfl

theorem Referent.instantiate_message_map {scope : Scope C} {m : Message C}
    (hm : (m.map f).instantiate (scope.map f) = (m.instantiate scope).map (Message.map f)) :
    ((message m).map f).instantiate (scope.map f) =
      ((message m).instantiate scope).map (Referent.map f) := by
  rw [Referent.map, Referent.instantiate, Referent.instantiate, hm]
  cases m.instantiate scope <;> rfl

theorem Message.instantiate_map (scope : Scope C) (m : Message C) :
    (m.map f).instantiate (scope.map f) = (m.instantiate scope).map (Message.map f) := by
  induction m with
  | text t => rfl
  | nested t m rest ihm ihr =>
    exact instantiate_slot_map f (Referent.instantiate_message_map f ihm) ihr t
  | pointer t p rest ih =>
    refine instantiate_slot_map f ?_ ih t
    exact p.resolve_map f scope
  | channel t c rest ih => rfl

/-! ## Reading -/

/-- The draft with every channel in it leading elsewhere. -/
def Draft.map (d : Draft C) : Draft D := ⟨d.slots.map fun s => (s.1, s.2.map f), d.fragment⟩

theorem Draft.toMessage_map (d : Draft C) : (d.map f).toMessage = d.toMessage.map f := by
  have hfold (slots : List (String × Referent C)) (m : Message C) :
      (slots.map fun s => (s.1, s.2.map f)).foldl (fun rest s => .slot s.1 s.2 rest) (m.map f) =
        (slots.foldl (fun rest s => .slot s.1 s.2 rest) m).map f := by
    induction slots generalizing m with
    | nil => rfl
    | cons s slots ih => exact ih (.slot s.1 s.2 m)
  exact hfold d.slots (.text d.fragment)

namespace Message

theorem readTokens_map (opened : List (Span × Draft C)) (draft : Draft C)
    (ts : List (Located Token)) :
    readTokens (opened.map fun o => (o.1, o.2.map f)) (draft.map f) ts =
      (readTokens opened draft ts).map (Message.map f) := by
  fun_induction readTokens opened draft ts with
  | case1 draft => exact congrArg Except.ok (draft.toMessage_map f)
  | case2 draft span outer opened => rfl
  | case3 opened draft t span ts ih => exact ih
  | case4 opened draft p span ts ih => exact ih
  | case5 opened draft span ts hfull =>
    rw [readTokens, if_pos (by rwa [List.length_map])]
    rfl
  | case6 opened draft span ts hfull ih =>
    rw [readTokens, if_neg (by rwa [List.length_map])]
    exact ih
  | case7 draft span ts => rfl
  | case8 draft span ts opener outer opened ih =>
    rw [← ih, List.map_cons, readTokens, Draft.toMessage_map]
    rfl

theorem map_ofTokens (ts : List (Located Token)) :
    (ofTokens ts).map (Message.map f) = ofTokens ts :=
  (readTokens_map f [] .empty ts).symm

/-- A message that is read has no channels. -/
theorem map_parse (text : String) : (parse text).map f = parse text := by
  have h : (tryParse text).map (Message.map f) = tryParse text := by
    rw [tryParse, ← ErrorList.conclude_map, map_ofTokens]
    rfl
  rw [parse, parse, ← h]
  cases tryParse text <;> rfl

theorem map_unwrap (m : Message C) : m.unwrap.map f = (m.map f).unwrap := by
  rw [unwrap, unwrap, reference?_map]
  rcases m.reference? with _ | _ | _ | _ <;> rfl

end Message

namespace Command

theorem map_readArgument (word : String) (body : MessageTokens) :
    (readArgument word body).map (Message.map f) = readArgument word body := by
  rw [readArgument, readArgument, ← Message.map_ofTokens f]
  split
  · rfl
  · cases Message.ofTokens body.tokens with
    | error e => rfl
    | ok m => exact congrArg Except.ok (m.map_unwrap f)

theorem map_ofTokens (t : CommandTokens) :
    (ofTokens t).map (Command.map f) = ofTokens t := by
  rw [ofTokens, ofTokens]
  cases t.head with
  | none => rfl
  | some head =>
    dsimp only
    cases AskOptions.ofModifiers head.word.item head.modifiers with
    | error e => rfl
    | ok options =>
      have hread := map_readArgument f head.word.item t.body
      -- A verb has no message, and then no channel, or its message is read.
      rcases Verb.ofWord? head.word.item with _ | _ | _ | _ | _ | _
      · rfl
      · dsimp only [bind, Except.bind]
        split <;> rfl
      all_goals
        dsimp only
        rw [← hread]
        cases readArgument head.word.item t.body <;> rfl

/-- A command that is read has no channels. -/
theorem map_parse (text : String) : (parse text).map f = parse text := by
  have h : (tryParse text).map (Command.map f) = tryParse text := by
    rw [tryParse, ← ErrorList.conclude_map, map_ofTokens]
    rfl
  rw [parse, parse, ← h]
  cases tryParse text <;> rfl

end Command

end Inquiry
