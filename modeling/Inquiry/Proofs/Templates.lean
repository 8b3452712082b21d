import Inquiry.Proofs.Joining

/-!
# Templates

A template is its fragments with a slot mark between each two, and in a text the marks
can only be found in one way: a mark begins with a character it does not end with, so no
mark begins in a fragment, or in another mark, and ends behind it. So the fragments of a
template have no marks in them and give it back when they are joined. And whatever
fragments without marks are joined, they are found again, also where a fragment ends in
`[` or begins with `]`, next to a mark.

* `Message.pieces_append`: the text up to the first mark is the first fragment;
* `Message.finds_iff`: there is one fragment more than there are marks;
* `Message.pieces_intercalate`: fragments without marks are found again;
* `Message.templates_and_fragments`: a template makes a message exactly if there is one
  argument for each mark, and templates and fragments are inverse.
-/

namespace Inquiry.Message

variable {C : Type}

/-! ## Marks -/

/-- What marks a slot of a template. -/
def slotMark : List Char := ['[', ']']

/-- There is no slot mark in a text. -/
def Markless (cs : List Char) : Prop := ¬ slotMark <:+: cs

/-- No slot mark begins further to the left than the one between two parts of a text. -/
def IsFirstMark (before rest : List Char) : Prop :=
  ∀ before' rest', before ++ slotMark ++ rest = before' ++ slotMark ++ rest' →
    before.length ≤ before'.length

/-- So many marks are found in a text, if the first is found and the search goes on behind it. -/
inductive Finds : List Char → Nat → Prop
  | none {cs : List Char} : Markless cs → Finds cs 0
  | next {before rest : List Char} {n : Nat} :
    IsFirstMark before rest → Finds rest n → Finds (before ++ slotMark ++ rest) (n + 1)

theorem Markless.nil : Markless [] := fun h => List.cons_ne_nil _ _ (List.infix_nil.1 h)

theorem Markless.of_cons {c : Char} {cs : List Char} (h : Markless (c :: cs)) : Markless cs :=
  fun hcs => h (List.infix_cons hcs)

theorem IsFirstMark.markless {before rest : List Char} (h : IsFirstMark before rest) :
    Markless before := by
  rintro ⟨before', rest', rfl⟩
  have hle := h before' (rest' ++ slotMark ++ rest) (by simp only [List.append_assoc])
  simp only [List.length_append, slotMark, List.length_cons] at hle
  omega

/-- A character in front of a text adds no mark, unless it begins one itself. -/
theorem Finds.cons {c : Char} {cs : List Char} {n : Nat} (hc : ¬ slotMark <+: c :: cs)
    (h : Finds cs n) : Finds (c :: cs) n := by
  cases h with
  | none hcs => exact .none fun h => (List.infix_cons_iff.1 h).elim hc hcs
  | @next before rest n hfirst hrest =>
    refine @Finds.next (c :: before) rest n (fun before' rest' heq => ?_) hrest
    cases before' with
    | nil => exact absurd ⟨rest', heq.symm⟩ hc
    | cons d before' => exact Nat.succ_le_succ (hfirst before' rest' (List.cons.inj heq).2)

theorem exists_finds (cs : List Char) : ∃ n, Finds cs n := by
  fun_induction pieces cs with
  | case1 cs ih =>
    obtain ⟨n, hn⟩ := ih
    exact ⟨n + 1, @Finds.next [] cs n (fun _ _ _ => Nat.zero_le _) hn⟩
  | case2 c cs hc ih =>
    obtain ⟨n, hn⟩ := ih
    refine ⟨n, hn.cons ?_⟩
    rintro ⟨rest, heq⟩
    cases heq
    exact hc rest rfl rfl
  | case3 => exact ⟨0, .none Markless.nil⟩

/-! ## Fragments -/

theorem pieces_eq_singleton {cs : List Char} (h : Markless cs) : pieces cs = [cs] := by
  fun_induction pieces cs with
  | case1 cs => exact absurd ⟨[], cs, rfl⟩ h
  | case2 c cs _ ih => rw [ih h.of_cons, List.modifyHead_cons]
  | case3 => rfl

/-- Text without marks, up to a mark, is the first fragment, whatever comes behind the mark. -/
theorem pieces_append {before : List Char} (h : Markless before) (rest : List Char) :
    pieces (before ++ slotMark ++ rest) = before :: pieces rest := by
  induction before with
  | nil => rfl
  | cons c before ih =>
    rw [List.cons_append, List.cons_append, pieces, ih h.of_cons, List.modifyHead_cons]
    -- a mark that began here would end in `before` or with the `[` of the mark behind it
    rintro cs rfl hcs
    cases before with
    | nil => cases hcs
    | cons d before =>
      cases hcs
      exact h ⟨[], before, rfl⟩

theorem Finds.length_pieces {cs : List Char} {n : Nat} (h : Finds cs n) :
    (pieces cs).length = n + 1 := by
  induction h with
  | none hcs => rw [pieces_eq_singleton hcs, List.length_singleton]
  | next hfirst _ ih => rw [pieces_append hfirst.markless, List.length_cons, ih]

/-- There is one fragment more than there are marks. -/
theorem finds_iff {cs : List Char} {n : Nat} : Finds cs n ↔ (pieces cs).length = n + 1 := by
  refine ⟨Finds.length_pieces, fun h => ?_⟩
  obtain ⟨k, hk⟩ := exists_finds cs
  obtain rfl : k = n := Nat.succ.inj (hk.length_pieces.symm.trans h)
  exact hk

theorem markless_of_mem_pieces {cs piece : List Char} (h : piece ∈ pieces cs) :
    Markless piece := by
  obtain ⟨n, hn⟩ := exists_finds cs
  induction hn with
  | none hcs =>
    rw [pieces_eq_singleton hcs, List.mem_singleton] at h
    exact h ▸ hcs
  | next hfirst _ ih =>
    rw [pieces_append hfirst.markless, List.mem_cons] at h
    obtain rfl | h := h
    · exact hfirst.markless
    · exact ih h

/-- The fragments of a text give it back. -/
theorem intercalate_pieces (cs : List Char) : slotMark.intercalate (pieces cs) = cs := by
  obtain ⟨n, hn⟩ := exists_finds cs
  induction hn with
  | none hcs => rw [pieces_eq_singleton hcs, List.intercalate_singleton]
  | next hfirst _ ih =>
    rw [pieces_append hfirst.markless, List.intercalate_cons_of_ne_nil (pieces_ne_nil _), ih]

/-- Fragments without marks are found again. -/
theorem pieces_intercalate {ts : List (List Char)} (hts : ts ≠ [])
    (h : ∀ t ∈ ts, Markless t) : pieces (slotMark.intercalate ts) = ts := by
  induction ts with
  | nil => exact absurd rfl hts
  | cons t ts ih =>
    obtain ⟨ht, hts'⟩ := List.forall_mem_cons.1 h
    cases ts with
    | nil => rw [List.intercalate_singleton, pieces_eq_singleton ht]
    | cons u us =>
      rw [List.intercalate_cons_of_ne_nil (List.cons_ne_nil u us), pieces_append ht,
        ih (List.cons_ne_nil u us) hts']

/-- Brackets next to a mark stay in the fragments. -/
example : pieces "[[]]".toList = [['['], [']']] ∧ pieces "[][]]".toList = [[], [], [']']] := by
  decide

/-! ## Messages -/

theorem ofParts_eq_ok_iff {ts : List String} {as : List (Referent C)} {m : Message C} :
    ofParts ts as = .ok m ↔ ts = m.fragments ∧ as = m.args := by
  rw [← ofParts?_eq_some_iff, ofParts]
  cases ofParts? ts as with
  | none => simp only [reduceCtorEq]
  | some m' => rw [Except.ok.injEq, Option.some.injEq]

theorem ofParts?_eq_none_iff {ts : List String} {as : List (Referent C)} :
    ofParts? ts as = none ↔ ts.length ≠ as.length + 1 := by
  fun_induction ofParts? ts as with
  | case1 t => exact iff_of_false (Option.some_ne_none _) (absurd rfl)
  | case2 t ts a as ih =>
    rw [Option.map_eq_none_iff, ih, List.length_cons, List.length_cons, Ne, Ne, Nat.add_left_inj]
  | case3 ts as hone hmore =>
    refine iff_of_true rfl fun h => ?_
    obtain ⟨t, ts, rfl⟩ := List.exists_cons_of_length_eq_add_one h
    cases as with
    | nil => exact hone t (List.length_eq_zero_iff.1 (Nat.succ.inj h) ▸ rfl) rfl
    | cons a as => exact hmore t ts a as rfl rfl

/-- Parts make a message exactly if there is one fragment more than there are arguments. -/
theorem exists_ofParts_eq_ok_iff {ts : List String} {as : List (Referent C)} :
    (∃ m, ofParts ts as = .ok m) ↔ ts.length = as.length + 1 := by
  rw [← Decidable.not_not (p := ts.length = as.length + 1), ← Ne, ← ofParts?_eq_none_iff, ofParts]
  cases ofParts? ts as with
  | none =>
    refine iff_of_false ?_ (absurd rfl)
    rintro ⟨m, hm⟩
    cases hm
  | some m => exact iff_of_true ⟨m, rfl⟩ (Option.some_ne_none m)

theorem ofParts_eq_error {ts : List String} {as : List (Referent C)}
    (h : ts.length ≠ as.length + 1) :
    ofParts ts as = .error (.slotMismatch ts.length as.length) := by
  rw [ofParts, ofParts?_eq_none_iff.2 h]

theorem toList_intercalate_slots (ts : List String) :
    ("[]".intercalate ts).toList = slotMark.intercalate (ts.map String.toList) :=
  String.toList_intercalate

theorem ofTemplate_intercalate {ts : List String} (hts : ts ≠ [])
    (h : ∀ t ∈ ts, Markless t.toList) (args : List (Referent C)) :
    ofTemplate ("[]".intercalate ts) args = ofParts ts args := by
  have hpieces : pieces ("[]".intercalate ts).toList = ts.map String.toList := by
    rw [toList_intercalate_slots]
    exact pieces_intercalate (mt List.map_eq_nil_iff.1 hts) (List.forall_mem_map.2 h)
  rw [ofTemplate, hpieces, List.map_map]
  simp only [Function.comp_def, String.ofList_toList, List.map_id_fun', id]

/-- What a template and arguments make: a message with these arguments and with fragments between
    the marks, if the numbers fit, and else the error that gives both numbers. -/
structure Fills (template : String) (args : List (Referent C)) : Prop where
  exists_ok_iff : (∃ m, ofTemplate template args = .ok m) ↔ Finds template.toList args.length
  args_of_ok : ∀ m, ofTemplate template args = .ok m → m.args = args
  markless_of_ok : ∀ m, ofTemplate template args = .ok m → ∀ t ∈ m.fragments, Markless t.toList
  /-- The fragments, joined by marks, are the template. -/
  intercalate_of_ok : ∀ m, ofTemplate template args = .ok m →
    "[]".intercalate m.fragments = template
  error : ∀ n, Finds template.toList n → n ≠ args.length →
    ofTemplate template args = .error (.slotMismatch (n + 1) args.length)

theorem fills (template : String) (args : List (Referent C)) : Fills template args where
  exists_ok_iff := by
    rw [ofTemplate, exists_ofParts_eq_ok_iff, List.length_map, finds_iff]
  args_of_ok m h := (ofParts_eq_ok_iff.1 h).2.symm
  markless_of_ok m h := by
    rw [← (ofParts_eq_ok_iff.1 h).1]
    refine List.forall_mem_map.2 fun piece hpiece => ?_
    rw [String.toList_ofList]
    exact markless_of_mem_pieces hpiece
  intercalate_of_ok m h := by
    rw [← (ofParts_eq_ok_iff.1 h).1, ← String.toList_inj, toList_intercalate_slots, List.map_map]
    simp only [Function.comp_def, String.toList_ofList, List.map_id_fun', id]
    exact intercalate_pieces template.toList
  error n hn hne := by
    have hlength : ((pieces template.toList).map String.ofList).length = n + 1 := by
      rw [List.length_map, hn.length_pieces]
    rw [ofTemplate, ofParts_eq_error (by omega), hlength]

/-- A template makes a message exactly if there is one argument for each mark that is found in it,
    and its fragments have no marks and, joined by marks, give it back. And fragments without
    marks, joined by marks, make with any arguments what they make as they are. -/
theorem templates_and_fragments :
    (∀ (template : String) (args : List (Referent C)), Fills template args) ∧
    ∀ ts : List String, ts ≠ [] → (∀ t ∈ ts, Markless t.toList) →
      ∀ args : List (Referent C),
        ofTemplate ("[]".intercalate ts) args = ofParts ts args ∧
        (ts.length = args.length + 1 →
          ∃ m, ofParts ts args = .ok m ∧ m.fragments = ts ∧ m.args = args) := by
  refine ⟨fills, fun ts hts h args => ⟨ofTemplate_intercalate hts h args, fun hlength => ?_⟩⟩
  obtain ⟨m, hm⟩ := exists_ofParts_eq_ok_iff.2 hlength
  obtain ⟨rfl, rfl⟩ := ofParts_eq_ok_iff.1 hm
  exact ⟨m, hm, rfl, rfl⟩

end Inquiry.Message
