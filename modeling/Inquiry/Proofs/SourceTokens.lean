import Inquiry.Message.Leaves

/-!
# The tokens of source text

The source of a message falls into tokens again: the fragments, the pointers and
the parentheses around nested messages, one after the other. What keeps them
apart is said from right to left, about the characters that follow. Literal text
goes on until a parenthesis or a reference comes (`Stops`); the index of a
pointer goes on until no digit comes (`EndsDigits`), which is why the source
escapes a digit behind a pointer; and every special character of a fragment is
escaped (`Literal`), so that no fragment ends before its end.

The walk along the source of a message is made once, slot by slot, for the source
of one message and the tokens of another that is read from it
(`Message.ReadsAs`); it goes both ways, so that the scan of the source meets an
error where an index does not fit a word. A message is read from its own source
if it can be written down: it holds no channel and the indices of its pointers
fit a word (`Message.Writable`).

* `Message.readsAs_nested`, `Message.readsAs_pointer`: a slot is read as it is
  written, with what is read from the source inside and behind it;
* `Message.lexes_sourceChars`: the source of a message falls into its tokens,
  whatever follows, if that stops literal text.
-/

namespace Inquiry

variable {C : Type}

/-! ## Literal text -/

/-- Literal text stops in front of these characters. -/
def Stops (cs : List Char) : Prop := splitLiteral cs = ([], cs)

namespace Stops

theorem nil : Stops [] := rfl

theorem of_endsLiteral {c : Char} {cs : List Char} (h : endsLiteral c cs = true) :
    Stops (c :: cs) := by
  rw [Stops, splitLiteral.eq_def]
  split
  · contradiction
  · next hc =>
    obtain ⟨rfl, rfl⟩ := List.cons.inj hc
    cases h
  · next hc =>
    obtain ⟨rfl, rfl⟩ := List.cons.inj hc
    rw [if_pos h]

theorem of_scan? {c : Char} {cs : List Char} {found : Reference × List Char}
    (h : Reference.scan? (c :: cs) = some found) : Stops (c :: cs) := by
  refine of_endsLiteral ?_
  rw [endsLiteral, h]
  exact Bool.or_true _

theorem opening (cs : List Char) : Stops ('(' :: cs) := of_endsLiteral rfl

theorem closing (cs : List Char) : Stops (')' :: cs) := of_endsLiteral rfl

end Stops

theorem isDigit_of_isSpecial {c : Char} (h : isSpecial c = true) : c.isDigit = false := by
  simp only [isSpecial, Bool.or_eq_true, beq_iff_eq] at h
  rcases h with ((((rfl | rfl) | rfl) | rfl) | rfl) | rfl <;> rfl

/-- A character that is not special is no parenthesis and starts no reference. -/
theorem plain_of_not_isSpecial {c : Char} (h : isSpecial c = false) :
    c ≠ '(' ∧ c ≠ ')' ∧ Pointer.Kind.ofSigil? c = none := by
  refine ⟨?_, ?_, ?_⟩
  · rintro rfl
    cases h
  · rintro rfl
    cases h
  · unfold Pointer.Kind.ofSigil?
    split
    · cases h
    · cases h
    · cases h
    · rfl

theorem Pointer.Kind.sigil_ne (k : Pointer.Kind) :
    k.sigil ≠ '(' ∧ k.sigil ≠ ')' ∧ k.sigil ≠ '\\' := by
  cases k <;> decide

theorem scan?_of_ofSigil?_eq_none {c : Char} (h : Pointer.Kind.ofSigil? c = none)
    (cs : List Char) : Reference.scan? (c :: cs) = none := by
  rw [Reference.scan?, h]
  rfl

/-- Only a backslash with something behind it can be more than itself. -/
theorem unescape_cons {c : Char} {cs : List Char} (hc : c = '\\' → cs = []) :
    unescape (c :: cs) = c :: unescape cs := by
  rw [unescape.eq_def]
  split
  · next heq =>
    obtain ⟨rfl, rfl⟩ := List.cons.inj heq
    cases hc rfl
  · next heq =>
    obtain ⟨rfl, rfl⟩ := List.cons.inj heq
    rfl
  · contradiction

theorem splitLiteral_cons {c : Char} (h : isSpecial c = false) (cs : List Char) :
    splitLiteral (c :: cs) = (c :: (splitLiteral cs).1, (splitLiteral cs).2) := by
  rw [splitLiteral.eq_def]
  split
  · contradiction
  · next hc =>
    obtain ⟨rfl, rfl⟩ := List.cons.inj hc
    cases h
  · next hc =>
    obtain ⟨rfl, rfl⟩ := List.cons.inj hc
    obtain ⟨hl, hr, hk⟩ := plain_of_not_isSpecial h
    have he : endsLiteral c cs = false := by
      rw [endsLiteral, scan?_of_ofSigil?_eq_none hk, beq_false_of_ne hl, beq_false_of_ne hr]
      rfl
    rw [he]
    rfl

/-- No character comes first that is part of the text in front of it: it is special, or none
    comes. -/
def EndsText (cs : List Char) : Prop := ∀ c ∈ cs.head?, isSpecial c = true

theorem EndsText.of_stops {cs : List Char} (h : Stops cs) : EndsText cs := by
  intro c hc
  obtain ⟨cs, rfl⟩ := List.head?_eq_some_iff.1 hc
  cases hs : isSpecial c with
  | true => rfl
  | false =>
    rw [Stops, splitLiteral_cons hs] at h
    cases h

/-- In front of `cs`, the source stands for literal text: every special character in it is escaped,
    but for sigils that begin no reference. -/
inductive Literal (cs : List Char) : List Char → List Char → Prop
  | nil : Literal cs [] []
  | plain {c : Char} {source t : List Char} (hc : isSpecial c = false)
    (h : Literal cs source t) : Literal cs (c :: source) (c :: t)
  | escaped {c : Char} {source t : List Char} (hc : isEscapable c = true)
    (h : Literal cs source t) : Literal cs ('\\' :: c :: source) (c :: t)
  | sigil {k : Pointer.Kind} {source t : List Char}
    (hk : Reference.scan? (k.sigil :: (source ++ cs)) = none) (h : Literal cs source t) :
    Literal cs (k.sigil :: source) (k.sigil :: t)

theorem literal_of_plain {cs t : List Char} (h : ∀ c ∈ t, isSpecial c = false) :
    Literal cs t t := by
  induction t with
  | nil => exact .nil
  | cons c t ih =>
    obtain ⟨hc, ht⟩ := List.forall_mem_cons.1 h
    exact .plain hc (ih ht)

theorem literal_escape (cs t : List Char) : Literal cs (escape t) t := by
  induction t with
  | nil => exact .nil
  | cons c t ih =>
    rw [escape]
    split
    · next h => exact .escaped (by rw [isEscapable, h]; rfl) ih
    · next h => exact .plain (Bool.eq_false_iff.2 h) ih

theorem literal_fragmentSource (cs : List Char) (afterPointer : Bool) (t : List Char) :
    Literal cs (fragmentSource afterPointer t) t := by
  fun_cases fragmentSource afterPointer t with
  | case1 c t hc =>
    -- A digit is not special, so it is escaped only once.
    have hs : isSpecial c = false := by
      cases hs : isSpecial c with
      | false => rfl
      | true => rw [isDigit_of_isSpecial hs] at hc; cases hc
    rw [escape, hs]
    exact .escaped (by rw [isEscapable, hc, Bool.or_true]) (literal_escape cs t)
  | case2 c t hc => exact literal_escape cs _
  | case3 => exact literal_escape cs _

theorem Pointer.Kind.isSpecial_sigil (k : Pointer.Kind) : isSpecial k.sigil = true := by
  cases k <;> rfl

theorem Pointer.Kind.toList_symbol (k : Pointer.Kind) : k.symbol.toList = [k.sigil] := by
  rw [symbol, Char.toString_eq_singleton, String.toList_singleton]

theorem splitLiteral_sigil {k : Pointer.Kind} {cs : List Char}
    (h : Reference.scan? (k.sigil :: cs) = none) :
    splitLiteral (k.sigil :: cs) = (k.sigil :: (splitLiteral cs).1, (splitLiteral cs).2) := by
  have he : endsLiteral k.sigil cs = false := by
    rw [endsLiteral, h, beq_false_of_ne k.sigil_ne.1, beq_false_of_ne k.sigil_ne.2.1]
    rfl
  rw [splitLiteral, if_neg (Bool.eq_false_iff.1 he)]
  exact fun _ _ hb => absurd hb k.sigil_ne.2.2

namespace Literal

variable {cs source t : List Char}

theorem unescape_eq (h : Literal cs source t) : unescape source = t := by
  induction h with
  | nil => rfl
  | @plain c source t hc h ih =>
    have hb : c ≠ '\\' := by
      rintro rfl
      cases hc
    rw [unescape_cons fun hc => absurd hc hb, ih]
  | escaped hc h ih => rw [unescape, if_pos hc, ih]
  | @sigil k source t hk h ih => rw [unescape_cons fun hb => absurd hb k.sigil_ne.2.2, ih]

theorem splitLiteral_eq (h : Literal cs source t) (hs : Stops cs) :
    splitLiteral (source ++ cs) = (source, cs) := by
  induction h with
  | nil => exact hs
  | plain hc h ih => rw [List.cons_append, splitLiteral_cons hc, ih]
  | escaped hc h ih =>
    rw [List.cons_append, List.cons_append, splitLiteral, if_pos hc, ih]
  | sigil hk h ih => rw [List.cons_append, splitLiteral_sigil hk, ih]

theorem append {source' t' : List Char} (h : Literal (source' ++ cs) source t)
    (h' : Literal cs source' t') : Literal cs (source ++ source') (t ++ t') := by
  induction h with
  | nil => exact h'
  | plain hc h ih => exact .plain hc ih
  | escaped hc h ih => exact .escaped hc ih
  | sigil hk h ih =>
    rw [← List.append_assoc] at hk
    exact .sigil hk ih

end Literal

/-! ## Scanning source -/

/-- Characters fall into these tokens, and no reference among them is too large. -/
inductive Lexes : List Char → List Token → Prop
  | nil : Lexes [] []
  | cons {c : Char} {cs : List Char} {ts : List Token}
    (hn : (Lexeme.scan c cs).oversized = none) (h : Lexes (Lexeme.scan c cs).rest ts) :
    Lexes (c :: cs) ((Lexeme.scan c cs).token :: ts)

theorem Lexes.scanFrom {cs : List Char} {ts : List Token} (h : Lexes cs ts) (start : Nat) :
    ∃ found stop, MessageTokens.scanFrom start .empty cs = ⟨found, stop, .empty⟩ ∧
      found.map (·.item) = ts := by
  induction h generalizing start with
  | nil => exact ⟨[], start, by rw [MessageTokens.scanFrom], rfl⟩
  | @cons c cs ts hn h ih =>
    obtain ⟨found, stop, hf, hm⟩ := ih (start + byteLength (Lexeme.scan c cs).source)
    refine ⟨⟨_, ⟨start, start + byteLength (Lexeme.scan c cs).source⟩⟩ :: found, stop, ?_,
      congrArg (List.cons _) hm⟩
    rw [MessageTokens.scanFrom, if_neg (by decide)]
    simp only [Lexeme.error?, hn, Option.map_none, Option.elim_none, hf]
    rfl

/-- A scan that meets no errors finds the tokens. -/
theorem MessageTokens.lexes_of_total {start : Nat} {errors : ErrorList} {cs : List Char}
    (h : (scanFrom start errors cs).errors.total = 0) :
    errors.total = 0 ∧ Lexes cs ((scanFrom start errors cs).tokens.map (·.item)) := by
  fun_induction scanFrom start errors cs with
  | case1 start errors => exact ⟨h, .nil⟩
  | case2 start errors c cs hfull =>
    have hcapacity : ErrorList.capacity ≤ 0 := Nat.le_trans hfull (Nat.le_of_eq h)
    cases hcapacity
  | case3 start errors c cs hfull l stop errors' ih =>
    obtain ⟨htotal, hlexes⟩ := ih h
    cases hn : l.oversized with
    | none =>
      have herror : l.error? start = none := by rw [Lexeme.error?, hn, Option.map_none]
      simp only [errors', herror, Option.elim_none] at htotal
      exact ⟨htotal, .cons hn hlexes⟩
    | some r =>
      have herror : (l.error? start).isSome = true := by
        rw [Lexeme.error?, hn, Option.map_some, Option.isSome_some]
      obtain ⟨e, he⟩ := Option.isSome_iff_exists.1 herror
      simp only [errors', he, Option.elim_some, ErrorList.total_push] at htotal
      cases htotal

/-- The token of a fragment, which is none if there is nothing in it. -/
def Token.ofFragment (t : String) : List Token :=
  if t = "" then [] else [.text t]

mutual

/-- The tokens of the source of a message. -/
def Message.tokens : Message C → List Token
  | .text t => Token.ofFragment t
  | .slot t a rest => Token.ofFragment t ++ a.tokens ++ rest.tokens

/-- The tokens of the source of a referent. -/
def Referent.tokens : Referent C → List Token
  | .message m => .opening :: m.tokens ++ [.closing]
  | .pointer p => [.reference p]
  | .channel _ => [.text Pointer.Kind.channel.symbol]

end

/-- The message can be written down: it holds no channel, and the indices of its pointers fit
    a word. -/
structure Message.Writable (m : Message C) : Prop where
  channels : m.ChannelFree
  indices : ∀ p, .pointer p ∈ m.leaves → p.index < Decimal.wordLimit

namespace EndsDigits

variable {cs : List Char}

theorem of_endsText (h : EndsText cs) : EndsDigits cs := by
  cases cs with
  | nil => rfl
  | cons c cs => exact cons (isDigit_of_isSpecial (h c rfl))

theorem fragmentSource (t : List Char) (h : EndsDigits cs) :
    EndsDigits (fragmentSource true t ++ cs) := by
  cases t with
  | nil => exact h
  | cons c t =>
    rw [Inquiry.fragmentSource, escape]
    split
    · exact cons rfl
    · next hc =>
      split
      · exact cons rfl
      · exact cons (Bool.eq_false_iff.2 hc)

end EndsDigits

theorem Reference.scan?_sourceChars (p : Pointer) {cs : List Char} (h : EndsDigits cs) :
    Reference.scan? (p.sourceChars ++ cs) =
      some (⟨p.kind, true, Decimal.digits p.index⟩, cs) :=
  scan?_eq_some_iff.2 ⟨⟨Decimal.digits_ne_nil _, fun _ => Decimal.isDigit_of_mem_digits,
    fun _ => rfl⟩, rfl, h⟩

theorem Stops.pointer (p : Pointer) {cs : List Char} (h : EndsDigits cs) :
    Stops (p.sourceChars ++ cs) :=
  of_scan? (Reference.scan?_sourceChars p h)

/-- The tokens are those in `pre` and, behind them, those that the characters fall into. -/
def LexesBehind (pre : List Token) (cs : List Char) (ts : List Token) : Prop :=
  ∃ more, ts = pre ++ more ∧ Lexes cs more

theorem Lexeme.scan_literal {c : Char} {cs source t : List Char}
    (he : Literal cs (c :: source) t) (hs : Stops cs) :
    Lexeme.scan c (source ++ cs) = .literal (c :: source) cs none := by
  have hc : c ≠ '(' ∧ c ≠ ')' ∧ Reference.scan? (c :: (source ++ cs)) = none := by
    cases he with
    | plain hc _ =>
      obtain ⟨ho, hc, hk⟩ := plain_of_not_isSpecial hc
      exact ⟨ho, hc, scan?_of_ofSigil?_eq_none hk _⟩
    | escaped _ _ => exact ⟨by decide, by decide, rfl⟩
    | @sigil k _ _ hk _ => exact ⟨k.sigil_ne.1, k.sigil_ne.2.1, hk⟩
  have hsplit := he.splitLiteral_eq hs
  rw [List.cons_append] at hsplit
  rw [Lexeme.scan, if_neg hc.1, if_neg hc.2.1, hc.2.2, hsplit]

namespace LexesBehind

variable {pre ts : List Token} {cs : List Char}

theorem nil_iff : LexesBehind [] cs ts ↔ Lexes cs ts :=
  ⟨fun ⟨_, hts, h⟩ => hts ▸ h, fun h => ⟨ts, rfl, h⟩⟩

theorem done_iff : LexesBehind pre [] ts ↔ ts = pre := by
  constructor
  · rintro ⟨_, rfl, h⟩
    cases h
    exact List.append_nil pre
  · rintro rfl
    exact ⟨[], (List.append_nil ts).symm, .nil⟩

theorem cons_iff {c : Char} : LexesBehind pre (c :: cs) ts ↔
    (Lexeme.scan c cs).oversized = none ∧
      LexesBehind (pre ++ [(Lexeme.scan c cs).token]) (Lexeme.scan c cs).rest ts := by
  constructor
  · rintro ⟨_, rfl, h⟩
    cases h with
    | cons hn h => exact ⟨hn, _, List.append_cons _ _ _, h⟩
  · rintro ⟨hn, more, rfl, h⟩
    exact ⟨_, (List.append_cons _ _ _).symm, .cons hn h⟩

theorem opening_iff : LexesBehind pre ('(' :: cs) ts ↔ LexesBehind (pre ++ [.opening]) cs ts :=
  cons_iff.trans (and_iff_right rfl)

theorem closing_iff : LexesBehind pre (')' :: cs) ts ↔ LexesBehind (pre ++ [.closing]) cs ts :=
  cons_iff.trans (and_iff_right rfl)

theorem literal_iff {t : String} {source : List Char} (he : Literal cs source t.toList)
    (hs : Stops cs) :
    LexesBehind pre (source ++ cs) ts ↔ LexesBehind (pre ++ Token.ofFragment t) cs ts := by
  cases source with
  | nil =>
    have ht : t = "" := String.toList_eq_nil_iff.1 he.unescape_eq.symm
    rw [ht, Token.ofFragment, if_pos rfl, List.append_nil, List.nil_append]
  | cons c source =>
    have ht : t ≠ "" := by
      rintro rfl
      cases he
    have htoken : (Lexeme.literal (c :: source) cs none).token = .text t := by
      rw [Lexeme.literal, he.unescape_eq, String.ofList_toList]
    rw [Token.ofFragment, if_neg ht, List.cons_append, cons_iff, Lexeme.scan_literal he hs,
      htoken]
    exact and_iff_right rfl

theorem reference_iff {r : Reference} {rest : List Char}
    (hr : Reference.scan? cs = some (r, rest)) : LexesBehind pre cs ts ↔
      r.Fits ∧ LexesBehind (pre ++ [.reference ⟨r.kind, Decimal.ofDigits r.digits⟩]) rest ts := by
  cases cs with
  | nil => cases hr
  | cons c cs =>
    have hc : c ≠ '(' ∧ c ≠ ')' := by
      constructor
      all_goals
        rintro rfl
        rw [scan?_of_ofSigil?_eq_none rfl] at hr
        cases hr
    rw [cons_iff, Lexeme.scan, if_neg hc.1, if_neg hc.2, hr]
    by_cases hf : r.Fits
    · simp [Reference.pointer?_eq_some_iff.2 ⟨hf, rfl⟩, hf]
    · simp [Reference.pointer?_eq_none_iff.2 hf, hf, Lexeme.literal]

theorem pointer_iff {p : Pointer} (hd : EndsDigits cs) :
    LexesBehind pre (p.sourceChars ++ cs) ts ↔
      p.index < Decimal.wordLimit ∧ LexesBehind (pre ++ [.reference p]) cs ts := by
  rw [reference_iff (Reference.scan?_sourceChars p hd), Reference.Fits, Decimal.ofDigits_digits]

end LexesBehind

namespace Lexes

variable {cs : List Char} {ts : List Token}

theorem opening (h : Lexes cs ts) : Lexes ('(' :: cs) (.opening :: ts) :=
  .cons rfl h

theorem closing (h : Lexes cs ts) : Lexes (')' :: cs) (.closing :: ts) :=
  .cons rfl h

theorem fragment (t : String) {source : List Char} (he : Literal cs source t.toList)
    (hs : Stops cs) (h : Lexes cs ts) : Lexes (source ++ cs) (Token.ofFragment t ++ ts) :=
  LexesBehind.nil_iff.1 ((LexesBehind.literal_iff he hs).2 ⟨ts, rfl, h⟩)

theorem pointer {p : Pointer} (hp : p.index < Decimal.wordLimit) (hd : EndsDigits cs)
    (h : Lexes cs ts) : Lexes (p.sourceChars ++ cs) (.reference p :: ts) :=
  LexesBehind.nil_iff.1 ((LexesBehind.pointer_iff hd).2 ⟨hp, ts, rfl, h⟩)

end Lexes

namespace Message

theorem Writable.of_nested {t : String} {m rest : Message C}
    (h : (slot t (.message m) rest).Writable) : m.Writable ∧ rest.Writable :=
  ⟨⟨fun c hc => h.channels c (List.mem_append_left _ hc),
    fun p hp => h.indices p (List.mem_append_left _ hp)⟩,
  ⟨fun c hc => h.channels c (List.mem_append_right _ hc),
    fun p hp => h.indices p (List.mem_append_right _ hp)⟩⟩

theorem Writable.of_pointer {t : String} {p : Pointer} {rest : Message C}
    (h : (slot t (.pointer p) rest).Writable) : p.index < Decimal.wordLimit ∧ rest.Writable :=
  ⟨h.indices p List.mem_cons_self,
    ⟨fun c hc => h.channels c (List.mem_cons_of_mem _ hc),
      fun q hq => h.indices q (List.mem_cons_of_mem _ hq)⟩⟩

theorem Writable.not_channel {t : String} {c : C} {rest : Message C} :
    ¬ (slot t (.channel c) rest).Writable :=
  fun h => h.channels c List.mem_cons_self

/-- Source behind a pointer does not go on its index. -/
theorem endsDigits_sourceChars (m : Message C) {cs : List Char} (h : EndsDigits cs) :
    EndsDigits (m.sourceChars true ++ cs) := by
  cases m with
  | text t => exact .fragmentSource _ h
  | slot t a rest =>
    rw [Message.sourceChars, List.append_assoc, List.append_assoc]
    refine .fragmentSource _ ?_
    cases a with
    | message m => exact .cons rfl
    | pointer p => exact .cons (by cases p.kind <;> rfl)
    | channel c => exact .cons rfl

/-! ## Reading along the source -/

/-- The indices of the pointers in a message fit a word. -/
def Fits (m : Message C) : Prop := ∀ p, .pointer p ∈ m.leaves → p.index < Decimal.wordLimit

theorem fits_text (t : String) : (text t : Message C).Fits :=
  fun _ h => absurd h List.not_mem_nil

theorem fits_nested_iff {t : String} {m rest : Message C} :
    (slot t (.message m) rest).Fits ↔ m.Fits ∧ rest.Fits := by
  simp only [Fits, leaves, Referent.leaves, List.mem_append, or_imp, forall_and]

theorem fits_pointer_iff {t : String} {p : Pointer} {rest : Message C} :
    (slot t (.pointer p) rest).Fits ↔ p.index < Decimal.wordLimit ∧ rest.Fits := by
  simp [Fits, leaves, Referent.leaves, or_imp, forall_and]

/-- A message that has kept nothing but the pointers has no channels. -/
theorem channelFree_of_leaves_eq {m m' : Message C}
    (h : m'.leaves = m.leaves.filter Referent.isPointer) : m'.ChannelFree := by
  intro c hc
  rw [h] at hc
  cases (List.mem_filter.1 hc).2

theorem fits_iff_of_leaves_eq {m m' : Message C}
    (h : m'.leaves = m.leaves.filter Referent.isPointer) : m'.Fits ↔ m.Fits := by
  simp [Fits, h, Referent.isPointer]

/-- From the source of the message `m`, behind literal text and in front of what stops literal
    text, the message `read` is read: it falls into the tokens of the literal text and of `read`,
    unless an index there does not fit a word, in which case it does not fall into tokens. -/
structure ReadsAs (afterPointer : Bool) (m read : Message C) : Prop where
  behind {source cs : List Char} {u : String} {pre ts : List Token} (hs : Stops cs)
    (hu : Literal (m.sourceChars afterPointer ++ cs) source u.toList) :
    LexesBehind pre (source ++ (m.sourceChars afterPointer ++ cs)) ts ↔
      read.Fits ∧ LexesBehind (pre ++ (concat (text u) read).tokens) cs ts

section

variable {m m' rest rest' : Message C} {afterPointer : Bool}

/-- Without literal text in front. -/
theorem ReadsAs.lexesBehind_iff (h : ReadsAs afterPointer m m') {cs : List Char}
    {pre ts : List Token} (hs : Stops cs) :
    LexesBehind pre (m.sourceChars afterPointer ++ cs) ts ↔
      m'.Fits ∧ LexesBehind (pre ++ m'.tokens) cs ts := by
  have h' : LexesBehind pre (m.sourceChars afterPointer ++ cs) ts ↔ _ :=
    h.behind (u := "") hs .nil
  rwa [text_empty_concat] at h'

/-- Literal text and the fragment behind it are one token. -/
theorem lexesBehind_fragment_iff {source cs : List Char} {u : String} {pre ts : List Token}
    (t : String) (hs : Stops cs)
    (hu : Literal (fragmentSource afterPointer t.toList ++ cs) source u.toList) :
    LexesBehind pre (source ++ (fragmentSource afterPointer t.toList ++ cs)) ts ↔
      LexesBehind (pre ++ Token.ofFragment (u ++ t)) cs ts := by
  have h := hu.append (literal_fragmentSource cs afterPointer t.toList)
  rw [← String.toList_append] at h
  rw [← List.append_assoc]
  exact LexesBehind.literal_iff h hs

theorem readsAs_text (t : String) : ReadsAs afterPointer (text t : Message C) (text t) := by
  refine ⟨fun {source cs u pre ts} hs hu => ?_⟩
  rw [Message.sourceChars] at hu ⊢
  exact (lexesBehind_fragment_iff t hs hu).trans (and_iff_right (fits_text t)).symm

theorem readsAs_nested (t : String) (hm : ReadsAs false m m') (hr : ReadsAs false rest rest') :
    ReadsAs afterPointer (slot t (.message m) rest) (slot t (.message m') rest') := by
  refine ⟨fun {source cs u pre ts} hs hu => ?_⟩
  simp only [Message.sourceChars, Referent.sourceChars, Referent.isPointer, List.append_assoc,
    List.cons_append, List.nil_append] at hu ⊢
  rw [lexesBehind_fragment_iff t (.opening _) hu, LexesBehind.opening_iff,
    hm.lexesBehind_iff (.closing _), LexesBehind.closing_iff, hr.lexesBehind_iff hs,
    fits_nested_iff, and_assoc]
  simp [concat, Message.tokens, Referent.tokens]

theorem readsAs_pointer (t : String) (p : Pointer) (hr : ReadsAs true rest rest') :
    ReadsAs afterPointer (slot t (.pointer p) rest) (slot t (.pointer p) rest') := by
  refine ⟨fun {source cs u pre ts} hs hu => ?_⟩
  have hd := rest.endsDigits_sourceChars (.of_endsText (.of_stops hs))
  simp only [Message.sourceChars, Referent.sourceChars, Referent.isPointer,
    List.append_assoc] at hu ⊢
  rw [lexesBehind_fragment_iff t (.pointer p hd) hu, LexesBehind.pointer_iff hd,
    hr.lexesBehind_iff hs, fits_pointer_iff, and_assoc]
  simp [concat, Message.tokens, Referent.tokens]

/-- A message that can be written down is read from its source. -/
theorem Writable.readsAs (hm : m.Writable) : ReadsAs afterPointer m m := by
  induction m generalizing afterPointer with
  | text t => exact readsAs_text t
  | nested t m rest ihm ihr => exact readsAs_nested t (ihm hm.of_nested.1) (ihr hm.of_nested.2)
  | pointer t p rest ih => exact readsAs_pointer t p (ih hm.of_pointer.2)
  | channel t c rest ih => exact absurd hm not_channel

end

/-- The source of a message falls into its tokens. -/
theorem lexes_sourceChars {m : Message C} (hm : m.Writable) (afterPointer : Bool)
    {cs : List Char} {ts : List Token} (hs : Stops cs) (h : Lexes cs ts) :
    Lexes (m.sourceChars afterPointer ++ cs) (m.tokens ++ ts) :=
  LexesBehind.nil_iff.1 ((hm.readsAs.lexesBehind_iff hs).2 ⟨hm.indices, ts, rfl, h⟩)

end Message

end Inquiry
