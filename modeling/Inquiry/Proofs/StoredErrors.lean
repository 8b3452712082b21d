import Inquiry.Proofs.Documents

/-!
# Error lists that are read back

A list that is put together counts all errors it stores. A list that is read back does
not have to: the two fields of a document are read one by one, and any numbers of 64 bits
and any errors make a list (`ErrorList.load?_iff`). So a list may store errors that it
does not count. When another one is extended by it, the number of the errors that it has
forgotten is below zero, and there is no result; and a list that is extended by others
may still not count what it stores itself.

Lists that count all they store (`ErrorList.Counted`) can be put into each other, as long
as the counts fit, and what becomes of them counts all it stores.

* `ErrorList.load?_iff`: which lists can be read back;
* `ErrorList.counted_extend_iff`: which lists still count all they store when they are
  extended;
* `ErrorList.extend?_loaded`: by which lists that are read back others can be extended, and
  what the result counts and stores.
-/

namespace Inquiry

/-! ## What is read fits -/

theorem Json.lt_of_word?_eq_some {v : Json} {n : Nat} (h : v.word? = some n) :
    n < Decimal.wordLimit := by
  cases v with
  | number literal =>
    rw [word?, Option.ite_none_right_eq_some, Decimal.word?, Option.ite_none_right_eq_some] at h
    obtain ⟨-, hlt, hn⟩ := h
    exact Option.some.inj hn ▸ hlt
  | _ => cases h

section

variable {α : Type} {P : α → Prop} {decode : Json → Option α}

theorem Json.Fields.of_get?_eq_some (hP : ∀ v a, decode v = some a → P a) {f : Fields}
    {name : String} {a : α} (h : f.get? name decode = some a) : P a := by
  obtain ⟨v, -, hv⟩ := Option.bind_eq_some_iff.1 h
  exact hP v a hv

theorem Json.forall_mem_of_list?_eq_some (hP : ∀ v a, decode v = some a → P a) {v : Json}
    {l : List α} (h : v.list? decode = some l) : ∀ a ∈ l, P a := by
  cases v with
  | array items =>
    rw [list?] at h
    induction items generalizing l with
    | nil =>
      cases h
      exact List.forall_mem_nil P
    | cons v items ih =>
      rw [List.mapM_cons] at h
      obtain ⟨b, hb, h⟩ := Option.bind_eq_some_iff.1 h
      obtain ⟨bs, hbs, h⟩ := Option.bind_eq_some_iff.1 h
      cases h
      exact List.forall_mem_cons.2 ⟨hP v b hb, ih hbs⟩
  | _ => cases h

end

theorem Span.fits_of_ofJson? {v : Json} {s : Span} (h : ofJson? v = some s) : s.Fits := by
  obtain ⟨f, -, h⟩ := Option.bind_eq_some_iff.1 h
  obtain ⟨start, hstart, h⟩ := Option.bind_eq_some_iff.1 h
  obtain ⟨stop, hstop, h⟩ := Option.bind_eq_some_iff.1 h
  cases h
  exact ⟨Json.Fields.of_get?_eq_some (fun _ _ => Json.lt_of_word?_eq_some) hstart,
    Json.Fields.of_get?_eq_some (fun _ _ => Json.lt_of_word?_eq_some) hstop⟩

namespace ParseError.Cause

/-- Whatever is read in the shape fits a word. -/
def Shape.Fits : Shape → Prop
  | .plain c => c.Fits
  | .detailed _ decode => ∀ v c, decode v = some c → c.Fits

theorem fits_of_map {α : Type} {x : Option α} {f : α → Cause} {c : Cause}
    (hc : x.map f = some c) (h : ∀ a, x = some a → (f a).Fits) : c.Fits := by
  obtain ⟨a, ha, rfl⟩ := Option.map_eq_some_iff.1 hc
  exact h a ha

theorem Shape.fits_of_shape? {kind : String} {s : Shape} (h : shape? kind = some s) : s.Fits := by
  have hzero : 0 < Decimal.wordLimit := by decide
  unfold shape? at h
  split at h <;> cases h
  case h_4 => exact fun v c hc => fits_of_map hc fun n hn => Json.lt_of_word?_eq_some hn
  case h_2 | h_3 | h_5 | h_7 => exact hzero
  all_goals exact fun v c hc => fits_of_map hc fun _ _ => hzero

theorem Shape.Fits.of_read? {s : Shape} (hs : s.Fits) {v : Json} {c : Cause}
    (h : s.read? v = some c) : c.Fits := by
  cases s with
  | plain c' =>
    cases v with
    | object members =>
      cases h
      exact hs
    | array items =>
      cases items with
      | nil =>
        cases h
        exact hs
      | cons v items => cases h
    | _ => cases h
  | detailed name decode =>
    obtain ⟨f, -, h⟩ := Option.bind_eq_some_iff.1 h
    exact Json.Fields.of_get?_eq_some hs h

theorem fits_of_kind {kind details : Json} {c : Cause}
    (h : (do (← shape? (← kind.text?)).read? details) = some c) : c.Fits := by
  obtain ⟨name, -, h⟩ := Option.bind_eq_some_iff.1 h
  obtain ⟨s, hs, h⟩ := Option.bind_eq_some_iff.1 h
  exact (Shape.fits_of_shape? hs).of_read? h

theorem fits_of_ofJson? {v : Json} {c : Cause} (h : ofJson? v = some c) : c.Fits := by
  unfold ofJson? at h
  split at h
  · split at h
    · dsimp only at h
      split at h
      · cases h
      · exact fits_of_kind h
    · cases h
  · split at h
    · cases h
    · exact fits_of_kind h
  · cases h

end ParseError.Cause

theorem ParseError.fits_of_ofJson? {v : Json} {e : ParseError} (h : ofJson? v = some e) :
    e.Fits := by
  obtain ⟨f, -, h⟩ := Option.bind_eq_some_iff.1 h
  obtain ⟨cause, hcause, h⟩ := Option.bind_eq_some_iff.1 h
  obtain ⟨span, hspan, h⟩ := Option.bind_eq_some_iff.1 h
  cases h
  exact ⟨Json.Fields.of_get?_eq_some (fun _ _ => Cause.fits_of_ofJson?) hcause,
    Json.Fields.of_get?_eq_some (fun _ _ => Span.fits_of_ofJson?) hspan⟩

namespace ErrorList

theorem fits_of_ofJson? {v : Json} {l : ErrorList} (h : ofJson? v = some l) : l.Fits := by
  obtain ⟨f, -, h⟩ := Option.bind_eq_some_iff.1 h
  obtain ⟨stored, hstored, h⟩ := Option.bind_eq_some_iff.1 h
  obtain ⟨total, htotal, h⟩ := Option.bind_eq_some_iff.1 h
  cases h
  obtain ⟨v, -, hv⟩ := Option.bind_eq_some_iff.1 hstored
  exact ⟨Json.forall_mem_of_list?_eq_some (fun _ _ => ParseError.fits_of_ofJson?) hv,
    Json.Fields.of_get?_eq_some (fun _ _ => Json.lt_of_word?_eq_some) htotal⟩

/-- Of any errors and any count, a list can be read back, as long as all numbers fit a word. -/
theorem load?_iff {l : ErrorList} : (∃ text, load? text = some l) ↔ l.Fits := by
  constructor
  · rintro ⟨text, h⟩
    obtain ⟨v, -, hv⟩ := Option.bind_eq_some_iff.1 h
    exact fits_of_ofJson? hv
  · exact fun h => ⟨l.toJson.write, (holds_toJson h).load⟩

/-! ## Lists that count what they store -/

/-- The list counts all errors it stores. -/
def Counted (l : ErrorList) : Prop := l.stored.length ≤ l.total

instance (l : ErrorList) : Decidable l.Counted := inferInstanceAs (Decidable (_ ≤ _))

theorem length_stored_push (l : ErrorList) (e : ParseError) :
    (l.push e).stored.length = max l.stored.length (min capacity (l.stored.length + 1)) := by
  rw [stored_push]
  split
  · rw [List.length_append, List.length_singleton]
    omega
  · omega

/-- Errors are stored as long as there is room, and none is lost where there is too much. -/
theorem length_stored_foldl_push (l : ErrorList) (es : List ParseError) :
    (es.foldl push l).stored.length =
      max l.stored.length (min capacity (l.stored.length + es.length)) := by
  induction es generalizing l with
  | nil => rw [List.foldl_nil, List.length_nil]; omega
  | cons e es ih => rw [List.foldl_cons, ih, length_stored_push, List.length_cons]; omega

/-- What is stored is counted, if the counts of both are as large as what the result stores. -/
theorem counted_extend_iff {l other : ErrorList} (h : other.Counted) :
    (l.extend other).Counted ↔
      max l.stored.length (min capacity (l.stored.length + other.stored.length)) ≤
        l.total + other.total := by
  rw [Counted, total_extend l other h, extend, length_stored_foldl_push]

theorem Counted.extend {l other : ErrorList} (hl : l.Counted) (h : other.Counted) :
    (l.extend other).Counted := by
  rw [counted_extend_iff h]
  unfold Counted at hl h
  omega

/-- A list is read back whether or not it counts what it stores. It can be extended by another one
    exactly if that one counts all errors it stores and the counts fit a word. Then the counts are
    added, and the result counts what it stores exactly if the sum is large enough for that, as it
    is if both lists do. -/
theorem extend?_loaded (l other : ErrorList) :
    ((∃ text, load? text = some l) ↔ l.Fits) ∧
    (∀ l', l.extend? other = some l' ↔
      other.Counted ∧ l.total + other.total < Decimal.wordLimit ∧ l' = l.extend other) ∧
    ((∃ l', l.extend? other = some l' ∧ l'.total = l.total + other.total ∧ l'.Counted) ↔
      other.Counted ∧ l.total + other.total < Decimal.wordLimit ∧
        max l.stored.length (min capacity (l.stored.length + other.stored.length)) ≤
          l.total + other.total) ∧
    (l.Counted → other.Counted → (l.extend other).Counted) := by
  refine ⟨load?_iff, fun l' => extend?_eq_some_iff, ⟨?_, ?_⟩, Counted.extend⟩
  · rintro ⟨l', h, -, hcounted⟩
    obtain ⟨hother, hfits, rfl⟩ := extend?_eq_some_iff.1 h
    exact ⟨hother, hfits, (counted_extend_iff hother).1 hcounted⟩
  · rintro ⟨hother, hfits, hle⟩
    exact ⟨_, extend?_eq_some_iff.2 ⟨hother, hfits, rfl⟩, total_extend l other hother,
      (counted_extend_iff hother).2 hle⟩

/-- A list that stores an error and counts none is read back, no list can be extended by it, and
    it still counts none when it is extended by the empty list. -/
theorem exists_loaded_not_counted :
    let l : ErrorList := ⟨[⟨.unmatchedParen, ⟨0, 1⟩⟩], 0⟩
    load? l.toJson.write = some l ∧ empty.extend? l = none ∧
      ∃ l', l.extend? empty = some l' ∧ l'.total = 0 ∧ l'.stored.length = 1 := by
  intro l
  have hl : l.Fits := by decide
  exact ⟨(holds_toJson hl).load, rfl, l, by decide, rfl, rfl⟩

end ErrorList

end Inquiry
