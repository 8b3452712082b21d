import Inquiry.Message.Display
import Inquiry.Message.Leaves
import Inquiry.Message.Parts

/-!
# Joined messages

Messages that are joined meet in one fragment: the last of the one and the first of the
other. So the fragments of the whole are not those of its parts, but the arguments are,
and there is still one fragment more than there are arguments. Put down as lists, which
may have any lengths, two messages are joined by joining the fragments at the seam
(`splice`), and it is the shape of a message that says there is a seam on both sides.

Whatever is made of a message from left to right is made of its parts one after the other.
For names in the slots, this is true of any names, as long as the first part gets as many
as it has slots: numbers have to go on behind those of the first part.

* `Message.ofParts?_splice`: parts that make messages make the joined message;
* `Message.render_concat`: the slots of joined messages take names one after the other;
* `Message.concat_views`: joining is a monoid, and every view of a message respects it.
-/

namespace Inquiry

variable {C : Type}

/-- The fragments of both, where the last of the one and the first of the other are one. -/
def splice (ts us : List String) : List String :=
  ts.dropLast ++ (ts.getLastD "" ++ us.headD "") :: us.tail

theorem splice_cons (t : String) {ts : List String} (hts : ts ≠ []) (us : List String) :
    splice (t :: ts) us = t :: splice ts us := by
  obtain ⟨u, ts, rfl⟩ := List.exists_cons_of_ne_nil hts
  rw [splice, List.dropLast_cons_cons, List.getLastD_cons, List.cons_append]
  rfl

namespace Message

/-! ## Parts -/

theorem fragments_ne_nil (m : Message C) : m.fragments ≠ [] := by
  cases m <;> exact List.cons_ne_nil _ _

theorem fragments_concat (a b : Message C) :
    (a.concat b).fragments = splice a.fragments b.fragments := by
  induction a using slotInduct with
  | text t => cases b <;> rfl
  | slot t r rest ih =>
    rw [concat_slot, fragments, fragments, splice_cons t rest.fragments_ne_nil, ih]

/-- The fragments at the seam become one. -/
example : splice ["x ", " y"] ["z ", " w"] = ["x ", " yz ", " w"] := by decide

theorem ofParts?_eq_some_iff {ts : List String} {as : List (Referent C)} {m : Message C} :
    ofParts? ts as = some m ↔ ts = m.fragments ∧ as = m.args := by
  constructor
  · intro h
    fun_induction ofParts? ts as generalizing m with
    | case1 t =>
      cases h
      exact ⟨rfl, rfl⟩
    | case2 t ts a as ih =>
      obtain ⟨rest, hrest, rfl⟩ := Option.map_eq_some_iff.1 h
      obtain ⟨rfl, rfl⟩ := ih hrest
      exact ⟨rfl, rfl⟩
    | case3 => cases h
  · rintro ⟨rfl, rfl⟩
    exact ofParts?_fragments_args m

/-- The parts of two messages, joined at the seam, are the parts of the joined message. -/
theorem ofParts?_splice {ts us : List String} {as bs : List (Referent C)} {a b : Message C}
    (ha : ofParts? ts as = some a) (hb : ofParts? us bs = some b) :
    ofParts? (splice ts us) (as ++ bs) = some (a.concat b) := by
  obtain ⟨rfl, rfl⟩ := ofParts?_eq_some_iff.1 ha
  obtain ⟨rfl, rfl⟩ := ofParts?_eq_some_iff.1 hb
  exact ofParts?_eq_some_iff.2 ⟨(fragments_concat a b).symm, (args_concat a b).symm⟩

/-! ## Views -/

/-- Slots take names one after the other, through both messages. -/
theorem render_concat {a b : Message C} {names names' : List String}
    (ha : names.length = a.size) (hb : names'.length = b.size) :
    (a.concat b).render (names ++ names') = a.render names ++ b.render names' := by
  induction a using slotInduct generalizing names with
  | text t =>
    obtain rfl := List.length_eq_zero_iff.1 ha
    cases b with
    | text u => rfl
    | slot u r rest =>
      obtain ⟨name, names', rfl⟩ := List.exists_cons_of_length_eq_add_one hb
      simp only [List.nil_append, concat, render, String.append_assoc]
  | slot t r rest ih =>
    obtain ⟨name, names, rfl⟩ := List.exists_cons_of_length_eq_add_one ha
    simp only [concat_slot, List.cons_append, render, ih (Nat.succ.inj ha), String.append_assoc]

theorem isClosed_concat {a b : Message C} :
    (a.concat b).isClosed ↔ a.isClosed ∧ b.isClosed := by
  simp only [isClosed_iff_args, args_concat, List.forall_mem_append]

/-- A joined message has the joined instances for its instance. -/
theorem instantiate_concat_eq_ok_iff {scope : Scope C} {a b m : Message C} :
    (a.concat b).instantiate scope = .ok m ↔ ∃ a' b', a.instantiate scope = .ok a' ∧
      b.instantiate scope = .ok b' ∧ m = a'.concat b' := by
  rw [instantiate_concat, bind_eq_ok_iff]
  constructor
  · rintro ⟨a', ha, h⟩
    obtain ⟨b', hb, h⟩ := bind_eq_ok_iff.1 h
    exact ⟨a', b', ha, hb, (Except.ok.inj h).symm⟩
  · rintro ⟨a', b', ha, hb, rfl⟩
    exact ⟨a', ha, bind_eq_ok_iff.2 ⟨b', hb, rfl⟩⟩

/-- A joined message has no instance because the first has none, or else the second. -/
theorem instantiate_concat_eq_error_iff {scope : Scope C} {a b : Message C} {e : ReferentError} :
    (a.concat b).instantiate scope = .error e ↔ a.instantiate scope = .error e ∨
      (∃ a', a.instantiate scope = .ok a') ∧ b.instantiate scope = .error e := by
  rw [instantiate_concat, bind_eq_error_iff, ← exists_and_right]
  exact or_congr_right (exists_congr fun a' => and_congr_right fun _ => bind_ok_eq_error_iff)

/-- The one message is what the two others are joined, in all that is made of it. -/
structure Joins (a b m : Message C) : Prop where
  fragments : m.fragments = splice a.fragments b.fragments
  args : m.args = a.args ++ b.args
  length_fragments : m.fragments.length = m.args.length + 1
  size : m.size = a.size + b.size
  display : m.display = a.display ++ b.display
  render : ∀ names names' : List String, names.length = a.size → names'.length = b.size →
    m.render (names ++ names') = a.render names ++ b.render names'
  /-- The numbers of the second go on behind those of the first. -/
  renderFrom : ∀ start, m.renderFrom start =
    a.renderFrom start ++ b.renderFrom (start + a.size)
  isClosed : m.isClosed ↔ a.isClosed ∧ b.isClosed
  instantiate_ok : ∀ scope m', m.instantiate scope = .ok m' ↔ ∃ a' b',
    a.instantiate scope = .ok a' ∧ b.instantiate scope = .ok b' ∧ m' = a'.concat b'
  /-- If neither has an instance, the reason given is that of the first. -/
  instantiate_error : ∀ scope e, m.instantiate scope = .error e ↔
    a.instantiate scope = .error e ∨
      (∃ a', a.instantiate scope = .ok a') ∧ b.instantiate scope = .error e

/-- Joining messages is associative, text with nothing in it changes nothing on either side, the
    parts of two messages make the joined one when their fragments are joined at the seam, and
    every view of the joined message is made of the views of the two. -/
theorem concat_views :
    (∀ a b c : Message C, (a.concat b).concat c = a.concat (b.concat c)) ∧
    (∀ a : Message C, (text "").concat a = a ∧ a.concat (text "") = a) ∧
    (∀ (ts us : List String) (as bs : List (Referent C)) (a b : Message C),
      ofParts? ts as = some a → ofParts? us bs = some b →
      ofParts? (splice ts us) (as ++ bs) = some (a.concat b)) ∧
    ∀ a b : Message C, Joins a b (a.concat b) := by
  refine ⟨concat_assoc, fun a => ⟨text_empty_concat a, concat_text_empty a⟩,
    fun ts us as bs a b => ofParts?_splice, fun a b => ?_⟩
  exact {
    fragments := fragments_concat a b
    args := args_concat a b
    length_fragments := Message.length_fragments _
    size := size_concat a b
    display := display_concat a b
    render := fun names names' => render_concat
    renderFrom := fun start => renderFrom_concat start a b
    isClosed := isClosed_concat
    instantiate_ok := fun scope m' => instantiate_concat_eq_ok_iff
    instantiate_error := fun scope e => instantiate_concat_eq_error_iff }

end Message

end Inquiry
