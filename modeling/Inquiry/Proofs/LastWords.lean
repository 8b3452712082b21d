import Inquiry.Proofs.Parentheses
import Inquiry.Proofs.SourceTokens
import Inquiry.Run

/-!
# Last words

A respondent that is out of budget is told that its next message is returned as it is.
The message is read for all that, like any other text, and what is displayed of it in the
end is not always what was said: an escape loses its backslash, a reference comes in
parentheses and in full, and text that cannot be read is lost altogether.

What is displayed of a text that can be read is settled character by character (`Shows`).
It is the text itself only where every character stands for itself (`isPlain`). That
the changes cannot cancel each other is not a matter of length: an escape takes a
character away and a reference may bring it back. But the display of a reference begins
with a parenthesis, and a display that is one backslash behind stays behind.

* `Message.shows_of_tryParse`: what is displayed of a text that is a message;
* `Shows.eq_iff`: where that is the text;
* `Message.display_parse_eq_iff`: which texts are returned as they are;
* `Respondent.inquire_lastWords`: what a conversation out of budget returns.
-/

namespace Inquiry

variable {C : Type}

/-! ## What is displayed -/

/-- Whether an escape or a reference begins here. -/
def isMarked : List Char → Bool
  | '\\' :: c :: _ => isEscapable c
  | cs => (Reference.scan? cs).isSome

/-- Whether every character stands for itself: there is no escape and no reference. -/
def isPlain : List Char → Bool
  | [] => true
  | c :: cs => !isMarked (c :: cs) && isPlain cs

/-- What is displayed of a text: escapes without their backslash, references in parentheses and
    with their arrow, and all else as it is. -/
inductive Shows : List Char → List Char → Prop
  | nil : Shows [] []
  | plain {c : Char} {cs shown : List Char} (hc : isMarked (c :: cs) = false)
    (h : Shows cs shown) : Shows (c :: cs) (c :: shown)
  | escaped {c : Char} {cs shown : List Char} (hc : isEscapable c = true) (h : Shows cs shown) :
    Shows ('\\' :: c :: cs) (c :: shown)
  | reference {r : Reference} {p : Pointer} {cs rest shown : List Char}
    (hr : Reference.scan? cs = some (r, rest)) (hp : r.pointer? = some p)
    (h : Shows rest shown) : Shows cs ('(' :: p.display.toList ++ ')' :: shown)

theorem isMarked_of_scan? {cs rest : List Char} {r : Reference}
    (h : Reference.scan? cs = some (r, rest)) : isMarked cs = true := by
  unfold isMarked
  split
  · rw [scan?_of_ofSigil?_eq_none rfl] at h
    cases h
  · rw [h]
    rfl

theorem isPlain_cons {c : Char} {cs : List Char} (h : isMarked (c :: cs) = false) :
    isPlain (c :: cs) = isPlain cs := by
  rw [isPlain, h]
  rfl

theorem isPlain_eq_false {cs : List Char} (h : isMarked cs = true) : isPlain cs = false := by
  cases cs with
  | nil => cases h
  | cons c cs =>
    rw [isPlain, h]
    rfl

theorem isPlain_of_append {as bs : List Char} (h : isPlain (as ++ bs) = true) :
    isPlain bs = true := by
  induction as with
  | nil => exact h
  | cons c as ih =>
    rw [List.cons_append, isPlain, Bool.and_eq_true] at h
    exact ih h.2

/-- One more in front of the rest is one more in the row. -/
theorem replicate_append_cons (n : Nat) (c : Char) (cs : List Char) :
    List.replicate n c ++ c :: cs = List.replicate (n + 1) c ++ cs := by
  rw [List.append_cons, ← List.replicate_succ']

namespace Shows

variable {cs shown : List Char}

/-- What is displayed is not a number of backslashes and the text, unless the number is 0 and
    every character stands for itself. -/
theorem eq_replicate_append_iff (h : Shows cs shown) (n : Nat) :
    shown = List.replicate n '\\' ++ cs ↔ n = 0 ∧ isPlain cs = true := by
  induction h generalizing n with
  | nil => simp [isPlain]
  | @plain c cs shown hc h ih =>
    rw [isPlain_cons hc]
    cases n with
    | zero => simpa using ih 0
    | succ n =>
      rw [List.replicate_succ, List.cons_append, List.cons.injEq]
      refine ⟨fun ⟨hb, hs⟩ => ?_, fun ⟨hn, _⟩ => nomatch hn⟩
      -- One of the backslashes has been used up, and the text has one more in front.
      subst hb
      rw [replicate_append_cons] at hs
      exact absurd ((ih (n + 1)).1 hs).1 (Nat.succ_ne_zero n)
  | @escaped c cs shown hc h ih =>
    have hmarked : isMarked ('\\' :: c :: cs) = true := hc
    rw [isPlain_eq_false hmarked]
    refine ⟨fun hs => ?_, fun ⟨_, hp⟩ => nomatch hp⟩
    -- Both begin with a backslash, so the one that is escaped here is missing in the rest.
    rw [replicate_append_cons, List.replicate_succ, List.cons_append, List.cons.injEq] at hs
    obtain ⟨rfl, hs⟩ := hs
    rw [replicate_append_cons] at hs
    exact absurd ((ih (n + 1)).1 hs).1 (Nat.succ_ne_zero n)
  | @reference r p cs rest shown hr hp h ih =>
    rw [isPlain_eq_false (isMarked_of_scan? hr)]
    refine ⟨fun hs => ?_, fun ⟨_, hp⟩ => nomatch hp⟩
    rw [← Reference.source_append_of_scan? hr] at hs
    -- A parenthesis is neither a backslash nor a sigil.
    cases n with
    | zero =>
      have hsigil := (List.cons.inj hs).1
      cases hk : r.kind <;> rw [hk] at hsigil <;> cases hsigil
    | succ n => cases (List.cons.inj hs).1

/-- What is displayed is the text exactly if every character stands for itself. -/
theorem eq_iff (h : Shows cs shown) : shown = cs ↔ isPlain cs = true := by
  simpa using h.eq_replicate_append_iff 0

end Shows

/-! ## From characters to tokens -/

/-- What is displayed of a token: a pointer stands in parentheses. -/
def Token.shown : Token → List Char
  | .text content => content.toList
  | .reference p => '(' :: p.display.toList ++ [')']
  | .opening => ['(']
  | .closing => [')']

/-- Where literal text goes on with something that is no escape, nothing is marked. -/
theorem isMarked_eq_false {c : Char} {cs : List Char} (he : endsLiteral c cs = false)
    (hc : c = '\\' → cs = []) : isMarked (c :: cs) = false := by
  unfold isMarked
  split
  · next heq =>
    obtain ⟨rfl, rfl⟩ := List.cons.inj heq
    cases hc rfl
  · rw [endsLiteral, Bool.or_eq_false_iff] at he
    exact he.2

/-- Literal text is displayed without the backslashes of its escapes. -/
theorem Shows.literal (cs : List Char) {shown : List Char}
    (h : Shows (splitLiteral cs).2 shown) :
    Shows cs (unescape (splitLiteral cs).1 ++ shown) := by
  fun_induction splitLiteral cs with
  | case1 => exact h
  | case2 c cs hc literal rest hs ih =>
    rw [hs] at ih
    rw [unescape, if_pos hc]
    exact .escaped hc (ih h)
  | case3 c cs hc literal rest hs ih =>
    -- The character behind the backslash is not special, so it is in the literal text too.
    have hkept : isSpecial c = false ∧ c.isDigit = false := by
      rwa [Bool.not_eq_true, isEscapable, Bool.or_eq_false_iff] at hc
    rw [splitLiteral_cons hkept.1] at hs ih
    obtain ⟨rfl, rfl⟩ := Prod.mk.inj hs
    rw [unescape, if_neg hc]
    exact .plain (Bool.eq_false_iff.2 hc) (ih h)
  | case4 c cs hne he => exact h
  | case5 c cs hne he literal rest hs ih =>
    rw [hs] at ih
    -- A backslash is no escape only if nothing is behind it.
    have hc : c = '\\' → cs = [] := fun hb => by
      cases cs with
      | nil => rfl
      | cons d ds => exact (hne d ds hb rfl).elim
    have hliteral : c = '\\' → literal = [] := fun hb => by
      rw [hc hb] at hs
      exact (Prod.mk.inj hs).1.symm
    rw [unescape_cons hliteral]
    exact .plain (isMarked_eq_false (Bool.eq_false_iff.2 he) hc) (ih h)

/-- A token is displayed in front of those behind it. -/
theorem Shows.of_first {c : Char} {cs shown : List Char} {l : Lexeme} (hl : l.First c cs)
    (hn : l.oversized = none) (h : Shows l.rest shown) :
    Shows (c :: cs) (l.token.shown ++ shown) := by
  cases hl with
  | opening hc =>
    subst hc
    have hc : isMarked ('(' :: cs) = false := rfl
    exact .plain hc h
  | closing hc =>
    subst hc
    have hc : isMarked (')' :: cs) = false := rfl
    exact .plain hc h
  | literal he =>
    have hshown : (Lexeme.literal (splitLiteral (c :: cs)).1 (splitLiteral (c :: cs)).2
        none).token.shown = unescape (splitLiteral (c :: cs)).1 := String.toList_ofList
    rw [hshown]
    exact .literal (c :: cs) h
  | reference hr hp =>
    rw [Token.shown, List.append_assoc]
    exact .reference hr hp h
  | oversized hr hp => cases hn

/-- Tokens are displayed one after the other. -/
theorem Shows.of_lexes {cs : List Char} {ts : List Token} (h : Lexes cs ts) :
    Shows cs (ts.flatMap Token.shown) := by
  induction h with
  | nil => exact .nil
  | @cons c cs ts hn h ih => exact .of_first (Lexeme.first_scan c cs) hn ih

theorem Lexeme.First.oversized_of_isPlain {c : Char} {cs : List Char} {l : Lexeme}
    (hl : First c cs l) (h : isPlain (c :: cs) = true) : l.oversized = none := by
  cases hl with
  | oversized hr hp =>
    rw [isPlain_eq_false (isMarked_of_scan? hr)] at h
    cases h
  | _ => rfl

/-- Where every character stands for itself, no reference is too large. -/
theorem MessageTokens.errors_scanFrom {start : Nat} {errors : ErrorList} {cs : List Char}
    (h : isPlain cs = true) : (scanFrom start errors cs).errors = errors := by
  fun_induction scanFrom start errors cs with
  | case1 start errors => rfl
  | case2 start errors c cs hfull => rfl
  | case3 start errors c cs hfull l stop errors' ih =>
    have hn : l.oversized = none := (Lexeme.first_scan c cs).oversized_of_isPlain h
    have hrest : isPlain l.rest = true := by
      rw [← Lexeme.source_append_rest c cs] at h
      exact isPlain_of_append h
    have herrors : errors' = errors := by
      simp only [errors', Lexeme.error?, hn, Option.map_none, Option.elim_none]
    rw [← herrors]
    exact ih hrest

/-! ## From tokens to messages -/

namespace Draft

theorem display_addText (d : Draft C) (t : String) :
    (d.addText t).toMessage.display = d.toMessage.display ++ t := by
  rw [toMessage_addText, Message.display_concat, Message.display]

theorem display_addSlot (d : Draft C) (r : Referent C) :
    (d.addSlot r).toMessage.display = d.toMessage.display ++ ("(" ++ r.display ++ ")") := by
  rw [toMessage_addSlot, Message.display_concat]
  simp [Message.reference, Message.display]

/-- What is displayed of the messages that are open, up to the parenthesis that opens the
    innermost one. -/
def shownAround : List (Span × Draft C) → List Char
  | [] => []
  | (_, outer) :: opened => shownAround opened ++ outer.toMessage.display.toList ++ ['(']

end Draft

namespace Message

theorem toList_display_of_readTokens {opened : List (Span × Draft C)} {draft : Draft C}
    {ts : List (Located Token)} {m : Message C} (h : readTokens opened draft ts = .ok m) :
    m.display.toList = Draft.shownAround opened ++ draft.toMessage.display.toList ++
      (ts.map (·.item)).flatMap Token.shown := by
  fun_induction readTokens opened draft ts with
  | case1 draft =>
    cases h
    simp [Draft.shownAround]
  | case2 draft span outer opened => cases h
  | case3 opened draft t span ts ih =>
    rw [ih h, Draft.display_addText]
    simp [Token.shown]
  | case4 opened draft p span ts ih =>
    rw [ih h, Draft.display_addSlot]
    simp [Token.shown, Referent.display]
  | case5 opened draft span ts hfull => cases h
  | case6 opened draft span ts hfull ih =>
    rw [ih h]
    simp [Draft.shownAround, Token.shown, Message.display]
  | case7 draft span ts => cases h
  | case8 draft span ts opener outer opened ih =>
    rw [ih h, Draft.display_addSlot]
    simp [Draft.shownAround, Token.shown, Referent.display]

/-- What is displayed of a text that is a message. -/
theorem shows_of_tryParse {text : String} {m : Message C} (h : tryParse text = .ok m) :
    Shows text.toList m.display.toList := by
  obtain ⟨htotal, hread⟩ := ErrorList.conclude_eq_ok_iff.1 h
  have hlexes := (MessageTokens.lexes_of_total htotal).2
  rw [toList_display_of_readTokens hread]
  exact .of_lexes hlexes

/-- A text that is returned as it is: every character stands for itself, and parentheses are
    balanced and not nested too deep. -/
structure Verbatim (text : String) : Prop where
  plain : isPlain text.toList = true
  balanced : Parentheses.Balanced (MessageTokens.scan text.toList).tokens

namespace Verbatim

variable {text : String}

theorem of_tryParse {m : Message C} (hp : isPlain text.toList = true)
    (h : tryParse text = .ok m) : Verbatim text where
  plain := hp
  balanced := exists_ofTokens_eq_ok_iff.1 ⟨m, ErrorList.eq_ok_of_conclude h⟩

theorem exists_tryParse_eq_ok (h : Verbatim text) : ∃ m : Message C, tryParse text = .ok m := by
  obtain ⟨m, hm⟩ := (exists_ofTokens_eq_ok_iff (C := C)).2 h.balanced
  have herrors : (MessageTokens.scan text.toList).errors = .empty :=
    MessageTokens.errors_scanFrom h.plain
  exact ⟨m, ErrorList.conclude_eq_ok_iff.2 ⟨congrArg _ herrors, hm⟩⟩

instance (text : String) : Decidable (Verbatim text) :=
  decidable_of_iff (isPlain text.toList = true ∧
    (tryParse text : Except ErrorList (Message Empty)).toOption.isSome = true) <| by
  constructor
  · rintro ⟨hp, h⟩
    cases hparse : (tryParse text : Except ErrorList (Message Empty)) with
    | ok m => exact .of_tryParse hp hparse
    | error errors =>
      rw [hparse] at h
      cases h
  · intro h
    obtain ⟨m, hparse⟩ := h.exists_tryParse_eq_ok (C := Empty)
    rw [hparse]
    exact ⟨h.plain, rfl⟩

end Verbatim

/-- A text is displayed as it is exactly if it is verbatim. -/
theorem display_parse_eq_iff (text : String) :
    (parse text : Message C).display = text ↔ Verbatim text := by
  constructor
  · intro h
    cases hparse : (tryParse text : Except ErrorList (Message C)) with
    | ok m =>
      rw [parse, hparse] at h
      have hshows := shows_of_tryParse hparse
      rw [show m.display = text from h] at hshows
      exact .of_tryParse (hshows.eq_iff.1 rfl) hparse
    | error errors =>
      -- What stands for text that is no message is a message itself, so the text is not it.
      have hmalformed : Verbatim "<<malformed message>>" := by decide +kernel
      rw [parse, hparse] at h
      exact h ▸ hmalformed
  · intro h
    obtain ⟨m, hparse⟩ := h.exists_tryParse_eq_ok (C := C)
    rw [parse, hparse]
    exact String.toList_inj.1 ((shows_of_tryParse hparse).eq_iff.2 h.plain)

end Message

/-! ## Out of budget -/

namespace Respondent

/-- Whatever is said in a turn that leaves no budget is the answer, and it is displayed as it was
    said exactly if there is no escape and no reference in it, and its parentheses are balanced
    and not nested too deep. The same is true of an inquiry that has no budget from the start,
    and it comes to an answer as soon as its first message is answered. -/
theorem inquire_lastWords (R : Respondent) (s : Settings) :
    (∀ (m : Machine R.State) (c : Conversation R.State) (r : Response) (q : R.State)
      (record : Record), Machine.Answered R s m c r q record → s.afterResponse c.budget r = 0 →
      ∃ value, m.step R s = .next ⟨.answered ⟨value, m.successor c q, 0⟩, m.parked,
          m.supply + 2, record⟩ ∧
        (value.display = r.text ↔ Message.Verbatim r.text)) ∧
    (s.Valid → ∀ (root : String) (r : Response) (q : R.State) (record record' : Record),
      R.respond R.start ⟨s.render (.root 0 R.start) (Message.parse root) 0, 0⟩ record =
        (.answered r q, record') →
      ∃ text, R.inquire s root 0 record = ⟨.ready text, 3, record'⟩ ∧
        (text = r.text ↔ Message.Verbatim r.text)) := by
  have hturn (m : Machine R.State) (c : Conversation R.State) (r : Response) (q : R.State)
      (record : Record) (ha : Machine.Answered R s m c r q record)
      (hb : s.afterResponse c.budget r = 0) :
      m.step R s = .next ⟨.answered ⟨Message.parse r.text, m.successor c q, 0⟩, m.parked,
        m.supply + 2, record⟩ := (Machine.Rule.outOfBudget ha hb).step_eq
  refine ⟨fun m c r q record ha hb =>
    ⟨_, hturn m c r q record ha hb, Message.display_parse_eq_iff r.text⟩, ?_⟩
  intro hs root r q record record' hr
  have ha : Machine.Answered R s
      (R.startAt (.root 0 R.start) (Message.parse root) 0 0 1 record)
      ⟨.root 0 R.start, Message.parse root, 0, 0, 0⟩ r q record' := ⟨rfl, hs.maxTurns, hr⟩
  have hb : s.afterResponse 0 r = 0 := by
    rw [Settings.afterResponse]
    split
    · rfl
    · exact Nat.zero_sub _
  refine ⟨_, ?_, Message.display_parse_eq_iff (C := Node R.State) r.text⟩
  rw [inquire_of_valid hs, Machine.run_of_step_next (hturn _ _ _ _ _ ha hb),
    Machine.run_of_step_done (Machine.Rule.concluded rfl rfl).step_eq]
  rfl

/-- A response that comes too late and one without a budget, with a backslash and a sigil in it
    that stand for themselves. -/
theorem inquire_lastWords_tooLate :
    let s : Settings := { accounting := .time }
    let r : Response := ⟨"\\o/ (it is (as I said) #)", 7⟩
    let R := ofOracle (fun _ _ => some r) .empty
    let m := R.startAt (.root 0 .empty) (Message.parse "is (it) so?") 5 0 1 #[]
    (∃ c q record, Machine.Answered R s m c r q record ∧ s.afterResponse c.budget r = 0 ∧
      ∃ value, m.step R s = .next ⟨.answered ⟨value, m.successor c q, 0⟩, m.parked,
        m.supply + 2, record⟩ ∧ value.display = r.text) ∧
    s.Valid ∧ (R.inquire s "is (it) so?" 0 #[]).outcome = .ready r.text := by
  intro s r R m
  have hs : s.Valid := by decide
  have hverbatim : Message.Verbatim r.text := by decide +kernel
  obtain ⟨hturn, hinquire⟩ := inquire_lastWords R s
  have ha : Machine.Answered R s m ⟨.root 0 .empty, Message.parse "is (it) so?", 5, 0, 0⟩ r _ _ :=
    ⟨rfl, by decide, rfl⟩
  obtain ⟨value, hstep, hvalue⟩ := hturn m _ _ _ _ ha rfl
  obtain ⟨text, hrun, htext⟩ := hinquire hs "is (it) so?" r _ #[] _ rfl
  refine ⟨⟨_, _, _, ha, rfl, value, hstep, hvalue.2 hverbatim⟩, hs, ?_⟩
  rw [hrun, htext.2 hverbatim]

/-- Half a pair of parentheses is enough for what was said to be lost. -/
theorem inquire_ne_lastWords :
    let r : Response := ⟨"sure :)", 0⟩
    let R := ofOracle (fun _ _ => some r) .empty
    ({} : Settings).Valid ∧
      ∃ text, (R.inquire {} "?" 0 #[]).outcome = .ready text ∧ text ≠ r.text := by
  intro r R
  have hready : (R.inquire {} "?" 0 #[]).outcome.value? = some "<<malformed message>>" := by
    decide +kernel
  exact ⟨by decide, _, Outcome.value?_eq_some_iff.1 hready, by decide⟩

end Respondent

end Inquiry
