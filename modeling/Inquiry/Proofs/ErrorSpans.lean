import Inquiry.Proofs.CommandGrammar
import Inquiry.Proofs.ErrorLists
import Inquiry.Proofs.Parentheses
import Inquiry.Proofs.Tokenization

/-!
# Where errors point

An error says which bytes it is about, and there stands what it says: the word that is no
verb, the character that cannot follow a head, a parenthesis, a number with what marks it,
a modifier (`ParseError.PointsInto`). The scanner makes its errors from the offset it has
reached. The reader takes the spans of tokens for its own, and each token covers the
characters it is made of, wherever scanning starts.

A command is scanned without the white space around it, though, and offsets count from
there. So the errors of a command point into the trimmed text. In the text itself, what
they are about stands further behind by the white space in front of it; where there is
none, the errors point into the text itself.

* `CommandTokens.lexical_allErrors`: what the errors of the scanner are, and where they point;
* `MessageTokens.covers_scanFrom`, `Modifiers.covers_scanFrom`: tokens and modifiers cover
  what they are made of;
* `Command.refusal_of_ofTokens`, `Command.pointsInto_of_ofTokens`: the errors that the reader
  finds, and where they point;
* `Command.pointsInto_of_tryParse`: where the errors of a command point, in the trimmed text
  and in the text.
-/

namespace Inquiry

variable {C : Type}

/-! ## What errors are about -/

/-- The characters are what the cause of an error is about. -/
def ParseError.Cause.About (source : List Char) : ParseError.Cause → Prop
  | .unexpectedCharacter found => source = [found]
  | .unclosedParen => source = ['(']
  | .unmatchedParen => source = [')']
  | .nestingTooDeep limit => source = ['('] ∧ limit = Message.nestingLimit
  | .numberTooLarge => (∃ m : ModifierText, source = m.source ∧ ¬ m.Fits) ∨
    ∃ r : Reference, source = r.source ∧ r.WellFormed ∧ ¬ r.Fits
  | .unknownVerb verb => source ≠ [] ∧ (∀ c ∈ source, c.isAlpha) ∧
    verb = String.ofList (source.map Char.toLower)
  | .missingVerb => ∀ c, source.head? = some c → c.isAlpha = false
  | .missingArgument _ => source = []
  | .unexpectedArgument _ => source ≠ []
  | .modifierNotAllowed _ => ∃ m : ModifierText, source = m.source
  | .duplicateModifier modifier => ∃ m : ModifierText, source = m.source ∧ m.marker = modifier

/-- In the text, what the error is about stands at its span. -/
def ParseError.PointsInto (text : List Char) (e : ParseError) : Prop :=
  ∃ source after, (⟨e.cause, e.span⟩ : Located Cause).Covers text source after ∧
    e.cause.About source

namespace ParseError.PointsInto

variable {text : List Char} {e : ParseError}

/-- With something in front of a text, the errors have to be moved by its length. -/
theorem shift (h : e.PointsInto text) (lead trail : List Char) :
    (e.shift (byteLength lead)).PointsInto (lead ++ (text ++ trail)) := by
  obtain ⟨source, after, ⟨before, rfl, hspan⟩, habout⟩ := h
  have hspan : e.span = ⟨byteLength before, byteLength before + byteLength source⟩ := hspan
  refine ⟨source, after ++ trail, ⟨lead ++ before, ?_, ?_⟩, habout⟩
  · simp only [List.append_assoc]
  · simp only [ParseError.shift, Span.shift, hspan, byteLength_append, Nat.add_comm,
      Nat.add_left_comm]

end ParseError.PointsInto

/-! ## Errors of the scanner -/

/-- An error of the scanner, which does not know the verbs: a number in the text is too large, or
    a character cannot follow a head. -/
inductive ParseError.Lexical (text : List Char) : ParseError → Prop
  | numberTooLarge {before source after : List Char} (h : Cause.About source .numberTooLarge)
    (htext : text = before ++ (source ++ after)) :
    Lexical text ⟨.numberTooLarge, ⟨byteLength before, byteLength before + byteLength source⟩⟩
  | unexpectedCharacter {before after : List Char} {c : Char}
    (htext : text = before ++ ([c] ++ after)) :
    Lexical text ⟨.unexpectedCharacter c, ⟨byteLength before, byteLength before + c.utf8Size⟩⟩

theorem ParseError.Lexical.pointsInto {text : List Char} {e : ParseError} (h : Lexical text e) :
    e.PointsInto text := by
  cases h with
  | @numberTooLarge before source after h htext => exact ⟨source, after, ⟨before, htext, rfl⟩, h⟩
  | @unexpectedCharacter before after c htext => exact ⟨[c], after, ⟨before, htext, rfl⟩, rfl⟩

theorem MessageTokens.lexical_allErrors {start : Nat} {before cs : List Char}
    (hstart : start = byteLength before) {e : ParseError} (h : e ∈ allErrors start cs) :
    e.Lexical (before ++ cs) := by
  fun_induction allErrors start cs generalizing before
  case case1 => cases h
  case case2 start c cs l ih =>
    subst hstart
    rcases List.mem_append.1 h with h | h
    · obtain ⟨r, hr, rfl⟩ := Option.map_eq_some_iff.1 (Option.mem_toList.1 h)
      obtain ⟨⟨hr, rest, hcs, -⟩, hfits⟩ := (Lexeme.first_scan c cs).oversized_eq_some_iff.1 hr
      exact .numberTooLarge (.inr ⟨r, rfl, hr, hfits⟩) (congrArg (before ++ ·) hcs)
    · have hrest := ih (byteLength_append before l.source).symm h
      rwa [List.append_assoc, Lexeme.source_append_rest] at hrest

theorem MessageTokens.lexical_metErrors {met : Nat} {before cs : List Char} {e : ParseError}
    (h : e ∈ metErrors met (byteLength before) cs) : e.Lexical (before ++ cs) :=
  lexical_allErrors rfl (List.mem_of_mem_take h)

theorem ModifierText.lexical_allErrors {before : List Char} {ms : List ModifierText}
    {e : ParseError} (h : e ∈ allErrors (byteLength before) ms) (rest : List Char) :
    e.Lexical (before ++ (ms.flatMap source ++ rest)) := by
  induction ms generalizing before with
  | nil => cases h
  | cons m ms ih =>
    rw [List.flatMap_cons, List.append_assoc]
    rcases List.mem_append.1 h with h | h
    · split at h
      · cases h
      · next hfits =>
        obtain rfl := List.mem_singleton.1 h
        exact .numberTooLarge (.inl ⟨m, rfl, hfits⟩) rfl
    · have hrest := @ih (before ++ m.source) (by rwa [byteLength_append])
      rwa [List.append_assoc] at hrest

namespace CommandTokens

theorem lexical_metInBody {met : Nat} {before cs : List Char} {e : ParseError}
    (h : e ∈ metInBody met (byteLength before) cs) : e.Lexical (before ++ cs) := by
  cases cs with
  | nil => cases h
  | cons c cs =>
    rw [metInBody] at h
    split at h
    · have hcs := List.takeWhile_append_dropWhile (p := Text.isBlank) (l := c :: cs)
      rw [← hcs, ← List.append_assoc]
      rw [← byteLength_append] at h
      exact MessageTokens.lexical_metErrors h
    · split at h
      · exact MessageTokens.lexical_metErrors h
      · have hc : byteLength before + c.utf8Size = byteLength (before ++ [c]) := by
          rw [byteLength_append]
          rfl
        rcases List.mem_cons.1 h with rfl | h
        · exact .unexpectedCharacter rfl
        · rw [hc] at h
          have hrest := MessageTokens.lexical_metErrors h
          rwa [List.append_assoc] at hrest

/-- The parts of a command, behind the white space in front of it. -/
theorem takeWhile_append_layout (cs : List Char) :
    let l := Command.Layout.of (cs.dropWhile Text.isBlank)
    cs.takeWhile Text.isBlank ++ (l.word ++ (l.modifiers.flatMap ModifierText.source ++ l.rest)) =
      cs := by
  intro l
  rw [l.source_eq, List.takeWhile_append_dropWhile]

theorem lexical_allErrors {cs : List Char} {e : ParseError} (h : e ∈ allErrors cs) :
    e.Lexical cs := by
  rw [allErrors] at h
  dsimp only at h
  split at h
  · have hrest := MessageTokens.lexical_metErrors h
    rwa [List.takeWhile_append_dropWhile] at hrest
  · have hcs := takeWhile_append_layout cs
    dsimp only at hcs
    rw [← List.append_assoc] at hcs
    rw [← hcs]
    rw [← byteLength_append] at h
    rcases List.mem_append.1 h with h | h
    · exact ModifierText.lexical_allErrors h _
    · rw [← byteLength_append] at h
      rw [← List.append_assoc]
      exact lexical_metInBody h

end CommandTokens

/-! ## Where tokens are -/

namespace MessageTokens

variable {before cs : List Char} {errors : ErrorList}

/-- Tokens cover what they are made of, wherever a scan starts. -/
theorem covers_scanFrom {t : Located Token}
    (h : t ∈ (scanFrom (byteLength before) errors cs).tokens) :
    ∃ source after, t.Covers (before ++ cs) source after ∧ source ≠ [] ∧
      t.item.SpelledBy source after := by
  by_cases herrors : errors.total ≤ ErrorList.capacity
  · obtain ⟨ps, scanned, hps, heq, -, -⟩ := exists_falls_scanFrom cs rfl herrors
    rw [heq] at h
    obtain ⟨p, hp, rfl⟩ := List.mem_map.1 h
    exact Placed.exists_spelledBy (hps.isScanned p hp)
  · -- With too many errors, nothing is scanned any more.
    have hfull : ErrorList.capacity ≤ errors.total := by omega
    cases cs with
    | nil =>
      rw [scanFrom] at h
      cases h
    | cons c cs =>
      rw [scanFrom, if_pos hfull] at h
      cases h

/-- The first token stands where the scan starts; if there is none, the scan has ended there. -/
theorem covers_start (before : List Char) (errors : ErrorList) (cs : List Char) :
    ∃ source after, cs = source ++ after ∧
      (scanFrom (byteLength before) errors cs).start =
        ⟨byteLength before, byteLength before + byteLength source⟩ ∧
      (source = [] ↔ (scanFrom (byteLength before) errors cs).tokens.isEmpty) := by
  cases cs with
  | nil =>
    rw [scanFrom]
    exact ⟨[], [], rfl, rfl, iff_of_true rfl rfl⟩
  | cons c cs =>
    rw [scanFrom]
    split
    · exact ⟨[], c :: cs, rfl, rfl, iff_of_true rfl rfl⟩
    · exact ⟨_, _, (Lexeme.source_append_rest c cs).symm, rfl,
        iff_of_false (Lexeme.source_ne_nil c cs) Bool.false_ne_true⟩

end MessageTokens

/-- A modifier that is found covers what it is made of. -/
theorem Modifiers.covers_scanFrom {before cs : List Char} {errors : ErrorList}
    {x : Located Modifier} (h : x ∈ (scanFrom (byteLength before) errors cs).found) :
    ∃ (m : ModifierText) (after : List Char), x.Covers (before ++ cs) m.source after ∧
      x.item = m.modifier := by
  fun_induction ModifierText.run cs generalizing before errors
  case case1 =>
    rw [scanFrom] at h
    cases h
  case case2 c cs hc more ih =>
    set m : ModifierText :=
      ⟨c, cs.takeWhile Char.isDigit, hc.1, hc.2, fun _ => List.mem_takeWhile_imp⟩
    have hcs : m.source ++ cs.dropWhile Char.isDigit = c :: cs :=
      congrArg (c :: ·) List.takeWhile_append_dropWhile
    have hstop : byteLength before + byteLength (c :: cs.takeWhile Char.isDigit) =
        byteLength (before ++ m.source) := (byteLength_append _ _).symm
    rw [scanFrom, if_pos hc] at h
    dsimp only at h
    rw [← hcs]
    by_cases hf : m.Fits
    · have hm : Modifier.ofDigits? c (cs.takeWhile Char.isDigit) = some m.modifier :=
        m.ofDigits?_eq_some hf
      rw [hm, hstop] at h
      rcases List.mem_cons.1 h with rfl | h
      · exact ⟨m, _, ⟨before, rfl, congrArg (Span.mk _) hstop.symm⟩, rfl⟩
      · rw [← List.append_assoc]
        exact ih h
    · have hm : Modifier.ofDigits? c (cs.takeWhile Char.isDigit) = none :=
        m.ofDigits?_eq_none hf
      rw [hm, hstop] at h
      rw [← List.append_assoc]
      exact ih h
  case case3 c cs hc =>
    rw [scanFrom, if_neg hc] at h
    cases h

/-- The message in a command is scanned behind something that the text begins with. -/
theorem CommandTokens.exists_scanBody_eq (before : List Char) (errors : ErrorList)
    (cs : List Char) :
    ∃ before' errors' cs', before' ++ cs' = before ++ cs ∧
      scanBody (byteLength before) errors cs = .scanFrom (byteLength before') errors' cs' := by
  fun_cases scanBody (byteLength before) errors cs with
  | case1 => exact ⟨before, errors, [], rfl, rfl⟩
  | case2 c cs hc =>
    rw [← byteLength_append]
    exact ⟨_, _, _, by rw [List.append_assoc, List.takeWhile_append_dropWhile], rfl⟩
  | case3 cs hc => exact ⟨before, errors, '(' :: cs, rfl, rfl⟩
  | case4 c cs hc ho stop =>
    have hstop : stop = byteLength (before ++ [c]) := by
      rw [byteLength_append]
      rfl
    rw [hstop]
    exact ⟨_, _, _, (List.append_cons _ _ _).symm, rfl⟩

/-! ## Errors of the reader -/

namespace AskOptions

variable {found : List (Located Modifier)} {o : AskOptions} {e : ParseError}

theorem eq_of_add_eq_error {x : Located Modifier} (h : o.add x = .error e) :
    e = ⟨.duplicateModifier x.item.marker, x.span⟩ := by
  rw [add] at h
  split at h
  all_goals
    split at h
    · exact (Except.error.inj h).symm
    · cases h

theorem exists_of_foldlM_add_eq_error (h : found.foldlM add o = .error e) :
    ∃ x ∈ found, e = ⟨.duplicateModifier x.item.marker, x.span⟩ := by
  induction found generalizing o with
  | nil => cases h
  | cons x found ih =>
    rw [List.foldlM_cons] at h
    cases hx : o.add x with
    | error e' =>
      rw [hx] at h
      cases h
      exact ⟨x, List.mem_cons_self, eq_of_add_eq_error hx⟩
    | ok o' =>
      rw [hx] at h
      obtain ⟨y, hy, he⟩ := ih h
      exact ⟨y, List.mem_cons_of_mem _ hy, he⟩

end AskOptions

namespace Command

/-- The errors that the reader of commands finds. -/
inductive Refusal (head : CommandHead) (body : MessageTokens) : ParseError → Prop
  | modifierNotAllowed {x : Located Modifier} (hx : x ∈ head.modifiers) :
    Refusal head body ⟨.modifierNotAllowed head.word.item, x.span⟩
  | duplicateModifier {x : Located Modifier} (hx : x ∈ head.modifiers) :
    Refusal head body ⟨.duplicateModifier x.item.marker, x.span⟩
  | unknownVerb : Refusal head body ⟨.unknownVerb head.word.item, head.word.span⟩
  | missingArgument (hbody : body.tokens.isEmpty) :
    Refusal head body ⟨.missingArgument head.word.item, body.start⟩
  | unexpectedArgument (hbody : ¬ body.tokens.isEmpty) :
    Refusal head body ⟨.unexpectedArgument head.word.item, body.start⟩
  | fault {e : ParseError} (h : Parentheses.Fault body.tokens e) : Refusal head body e

variable {head : CommandHead} {body : MessageTokens} {e : ParseError}

theorem Refusal.of_ofModifiers
    (h : AskOptions.ofModifiers head.word.item head.modifiers = .error e) :
    Refusal head body e := by
  cases hfound : head.modifiers with
  | nil =>
    rw [hfound] at h
    cases h
  | cons x found =>
    rw [hfound, AskOptions.ofModifiers] at h
    split at h
    · obtain ⟨y, hy, rfl⟩ := AskOptions.exists_of_foldlM_add_eq_error h
      exact .duplicateModifier (hfound ▸ hy)
    · cases h
      exact .modifierNotAllowed (hfound ▸ List.mem_cons_self)

theorem Refusal.of_readArgument
    (h : (readArgument head.word.item body : Except ParseError (Message C)) = .error e) :
    Refusal head body e := by
  rw [readArgument_eq] at h
  split at h
  · next hbody =>
    cases h
    exact .missingArgument hbody
  · cases hm : (Message.ofTokens body.tokens : Except ParseError (Message C)) with
    | ok m =>
      rw [hm] at h
      cases h
    | error e' =>
      rw [hm] at h
      cases h
      exact .fault (Message.ofTokens_eq_error_iff.1 hm)

theorem refusal_of_ofTokens
    (h : (ofTokens ⟨some head, body⟩ : Except ParseError (Command C)) = .error e) :
    Refusal head body e := by
  cases ho : AskOptions.ofModifiers head.word.item head.modifiers with
  | error e' =>
    rw [ofTokens] at h
    dsimp only at h
    rw [ho] at h
    cases h
    exact .of_ofModifiers ho
  | ok o =>
    cases hv : Verb.ofWord? head.word.item with
    | none =>
      rw [ofTokens] at h
      dsimp only at h
      rw [ho, hv] at h
      cases h
      exact .unknownVerb
    | some v =>
      have hw := Verb.ofWord?_eq_some_iff.1 hv
      have ho' : AskOptions.ofModifiers v.word head.modifiers = .ok o := hw ▸ ho
      by_cases hr : v = .reflect
      · subst hr
        rw [ofTokens_reflect hw ho', ← hw] at h
        split at h
        · cases h
        · next hbody =>
          cases h
          exact .unexpectedArgument hbody
      · rw [ofTokens_of_ne_reflect hr hw ho', ← hw] at h
        cases hm : (readArgument head.word.item body : Except ParseError (Message C)) with
        | ok m =>
          rw [hm] at h
          cases h
        | error e' =>
          rw [hm] at h
          cases h
          exact .of_readArgument hm

end Command

/-! ## Where errors of the reader point -/

theorem Parentheses.Fault.pointsInto {before cs : List Char} {errors : ErrorList} {e : ParseError}
    (h : Fault (MessageTokens.scanFrom (byteLength before) errors cs).tokens e) :
    e.PointsInto (before ++ cs) := by
  have hcovers {as bs : List (Located Token)} {t : Located Token}
      (hts : (MessageTokens.scanFrom (byteLength before) errors cs).tokens = as ++ t :: bs) :=
    MessageTokens.covers_scanFrom (hts ▸ List.mem_append_right as List.mem_cons_self)
  cases h with
  | tooDeep hts hr hd =>
    obtain ⟨source, after, hcovers, -, hsource⟩ := hcovers hts
    exact ⟨source, after, hcovers, hsource, rfl⟩
  | unmatched hts hr hd =>
    obtain ⟨source, after, hcovers, -, hsource⟩ := hcovers hts
    exact ⟨source, after, hcovers, hsource⟩
  | unclosed hts hr ha =>
    obtain ⟨source, after, hcovers, -, hsource⟩ := hcovers hts
    exact ⟨source, after, hcovers, hsource⟩

theorem ModifierText.marker_modifier (m : ModifierText) : m.modifier.marker = m.marker := by
  rcases m.marker_eq with hm | hm
  · rw [modifier_of_recipient hm, hm]
    rfl
  · rw [modifier_of_budget hm, hm]
    rfl

namespace Command

/-- The errors of the reader point at what they are about if the tokens cover what they are
    made of. -/
theorem Refusal.pointsInto {cs before rest : List Char} {errors : ErrorList} {head : CommandHead}
    {e : ParseError} (hcs : before ++ rest = cs)
    (hword : ParseError.PointsInto cs ⟨.unknownVerb head.word.item, head.word.span⟩)
    (hmodifiers : ∀ x ∈ head.modifiers, ∃ (m : ModifierText) (after : List Char),
      x.Covers cs m.source after ∧ x.item = m.modifier)
    (h : Refusal head (.scanFrom (byteLength before) errors rest) e) : e.PointsInto cs := by
  obtain ⟨source, after, hrest, hstart, hempty⟩ := MessageTokens.covers_start before errors rest
  cases h with
  | modifierNotAllowed hx =>
    obtain ⟨m, after, hcovers, -⟩ := hmodifiers _ hx
    exact ⟨m.source, after, hcovers, m, rfl⟩
  | duplicateModifier hx =>
    obtain ⟨m, after, hcovers, hitem⟩ := hmodifiers _ hx
    refine ⟨m.source, after, hcovers, m, rfl, ?_⟩
    rw [hitem, m.marker_modifier]
  | unknownVerb => exact hword
  | missingArgument hbody =>
    exact ⟨source, after, ⟨before, by rw [← hrest, hcs], hstart⟩, hempty.2 hbody⟩
  | unexpectedArgument hbody =>
    exact ⟨source, after, ⟨before, by rw [← hrest, hcs], hstart⟩, mt hempty.1 hbody⟩
  | fault h => exact hcs ▸ h.pointsInto

variable {cs : List Char} {e : ParseError}

theorem Layout.pointsInto_word (l : Layout cs) (hw : l.word ≠ []) :
    ParseError.PointsInto cs ⟨.unknownVerb l.name, ⟨0, byteLength l.word⟩⟩ :=
  ⟨l.word, _, ⟨[], l.source_eq.symm, by rw [byteLength, Nat.zero_add]⟩, hw, l.isAlpha, rfl⟩

/-- A text without a word starts with no letter. -/
theorem Layout.isAlpha_eq_false (l : Layout cs) (hw : l.word = []) {c : Char}
    (hc : cs.head? = some c) : c.isAlpha = false := by
  by_contra ha
  obtain ⟨rest, rfl⟩ := List.head?_eq_some_iff.1 hc
  have hlength := l.word_longest [c] ⟨rest, rfl⟩ (by simpa using ha)
  rw [hw] at hlength
  exact Nat.not_succ_le_zero _ hlength

/-- Where there is no white space in front of a command, the errors of the reader point into
    it. -/
theorem pointsInto_of_ofTokens (hb : cs.takeWhile Text.isBlank = [])
    (h : (ofTokens (CommandTokens.scan cs) : Except ParseError (Command C)) = .error e) :
    e.PointsInto cs := by
  let l := Layout.of cs
  by_cases hw : l.word = []
  · rw [Layout.scan_of_word_eq_nil hb hw, ofTokens] at h
    cases h
    obtain ⟨source, after, hcs, hstart, -⟩ := MessageTokens.covers_start [] .empty cs
    refine ⟨source, after, ⟨[], hcs, hstart⟩, fun c hc => l.isAlpha_eq_false hw ?_⟩
    rw [hcs, List.head?_append, hc]
    rfl
  · obtain ⟨found, hfound, hfinds, hscan⟩ := Layout.scan_of_word_ne_nil hb hw
    have hlead : found.stop = byteLength (l.word ++ l.modifiers.flatMap ModifierText.source) := by
      rw [hfinds.stop, byteLength_append]
    obtain ⟨before, errors, rest, hcs, hbody⟩ := CommandTokens.exists_scanBody_eq
      (l.word ++ l.modifiers.flatMap ModifierText.source) found.errors l.rest
    rw [List.append_assoc, l.source_eq] at hcs
    rw [hscan, hlead, hbody] at h
    refine (refusal_of_ofTokens h).pointsInto hcs (l.pointsInto_word hw) fun x hx => ?_
    rw [hfound] at hx
    rw [← l.source_eq]
    exact Modifiers.covers_scanFrom hx

/-- It is the reader that knows the verbs, and the word comes first. -/
theorem start_of_ofTokens (hb : cs.takeWhile Text.isBlank = [])
    (h : (ofTokens (CommandTokens.scan cs) : Except ParseError (Command C)) = .error e)
    {verb : String} (hverb : e.cause = .unknownVerb verb) : e.span.start = 0 := by
  let l := Layout.of cs
  by_cases hw : l.word = []
  · rw [Layout.scan_of_word_eq_nil hb hw, ofTokens] at h
    cases h
    cases hverb
  · obtain ⟨found, -, -, hscan⟩ := Layout.scan_of_word_ne_nil hb hw
    rw [hscan] at h
    cases refusal_of_ofTokens h with
    | unknownVerb => rfl
    | fault hf => cases hf <;> cases hverb
    | _ => cases hverb

end Command

/-! ## Errors of commands -/

/-- A word that is said to be at the start of a text is there only if no white space is. -/
theorem ParseError.PointsInto.takeWhile_eq_nil {text : List Char} {e : ParseError} {verb : String}
    (h : e.PointsInto text) (hverb : e.cause = .unknownVerb verb) (hstart : e.span.start = 0) :
    text.takeWhile Text.isBlank = [] := by
  obtain ⟨source, after, ⟨before, htext, hspan⟩, habout⟩ := h
  rw [hverb] at habout
  obtain ⟨hne, halpha, -⟩ := habout
  have hspan : e.span.start = byteLength before := congrArg Span.start hspan
  obtain rfl := byteLength_eq_zero_iff.1 (hspan.symm.trans hstart)
  obtain ⟨c, source, rfl⟩ := List.exists_cons_of_ne_nil hne
  have hc := Text.isBlank_eq_false_of_isAlpha (halpha c List.mem_cons_self)
  rw [htext, List.nil_append, List.cons_append, List.takeWhile_cons_of_neg (by rw [hc]; decide)]

namespace Command

variable {text : String} {errors : ErrorList} {e : ParseError}

/-- What is stored for a command is an error of the scanner or of the reader. -/
theorem mem_allErrors_or_eq_error
    (h : (tryParse text : Except ErrorList (Command C)) = .error errors) (he : e ∈ errors.stored) :
    e ∈ CommandTokens.allErrors (Text.trim text.toList) ∨
      (ofTokens (CommandTokens.scan (Text.trim text.toList)) : Except ParseError (Command C)) =
        .error e := by
  have hscan := CommandTokens.standsFor_scan (Text.trim text.toList)
  rw [tryParse] at h
  cases ho : (ofTokens (CommandTokens.scan (Text.trim text.toList)) :
      Except ParseError (Command C)) with
  | ok c =>
    rw [ho, ErrorList.conclude] at h
    split at h
    · cases h
      rw [hscan.stored] at he
      exact .inl (List.mem_of_mem_take he)
    · cases h
  | error e' =>
    rw [ho, ErrorList.conclude] at h
    cases h
    rw [(hscan.push e').stored] at he
    rcases List.mem_append.1 (List.mem_of_mem_take he) with he | he
    · exact .inl he
    · exact .inr (congrArg Except.error (List.mem_singleton.1 he).symm)

/-- The errors stored for a command point into the text without the white space around it. Moved
    by what is in front of that, they point into the text itself, and where nothing is, so do the
    errors as they are. Of a word that is no verb, this is the only case in which they do. -/
theorem pointsInto_of_tryParse
    (h : (tryParse text : Except ErrorList (Command C)) = .error errors) :
    let lead := text.toList.takeWhile Text.isBlank
    (∃ trail, text.toList = lead ++ (Text.trim text.toList ++ trail) ∧
      ∀ c ∈ trail, Text.isBlank c) ∧
    ∀ e ∈ errors.stored,
      e.PointsInto (Text.trim text.toList) ∧
      (e.shift (byteLength lead)).PointsInto text.toList ∧
      (lead = [] → e.PointsInto text.toList) ∧
      ∀ verb, e.cause = .unknownVerb verb → (e.PointsInto text.toList ↔ lead = []) := by
  intro lead
  obtain ⟨trail, htext, htrail⟩ := Text.takeWhile_append_trim text.toList
  refine ⟨⟨trail, htext, htrail⟩, fun e he => ?_⟩
  have hb := Text.takeWhile_trim text.toList
  have hmem := mem_allErrors_or_eq_error h he
  have htrim : e.PointsInto (Text.trim text.toList) :=
    hmem.elim (CommandTokens.lexical_allErrors · |>.pointsInto) (pointsInto_of_ofTokens hb)
  have hshift : (e.shift (byteLength lead)).PointsInto text.toList := by
    rw [htext]
    exact htrim.shift lead trail
  have hnone : lead = [] → e.PointsInto text.toList := by
    intro hlead
    rw [hlead] at hshift
    exact hshift
  refine ⟨htrim, hshift, hnone, fun verb hverb => ⟨fun hpoints => ?_, hnone⟩⟩
  refine hpoints.takeWhile_eq_nil hverb (hmem.elim (fun hscan => ?_) (start_of_ofTokens hb · hverb))
  cases CommandTokens.lexical_allErrors hscan <;> cases hverb

theorem tryParse_behind_blanks :
    (tryParse "  foo bar" : Except ErrorList (Command Empty)) =
      .error ⟨[⟨.unknownVerb "foo", ⟨0, 3⟩⟩], 1⟩ := by
  decide +kernel

/-- Behind two spaces, the word is two bytes further on than the error says. -/
theorem pointsInto_behind_blanks :
    (tryParse "  foo bar" : Except ErrorList (Command Empty)) =
      .error ⟨[⟨.unknownVerb "foo", ⟨0, 3⟩⟩], 1⟩ ∧
    ParseError.PointsInto "  foo bar".toList ⟨.unknownVerb "foo", ⟨2, 5⟩⟩ :=
  ⟨tryParse_behind_blanks,
    ((pointsInto_of_tryParse tryParse_behind_blanks).2 _ List.mem_cons_self).2.1⟩

/-- Errors need not point into the text. -/
theorem exists_not_pointsInto :
    ∃ (text : String) (errors : ErrorList) (e : ParseError),
      (tryParse text : Except ErrorList (Command Empty)) = .error errors ∧ e ∈ errors.stored ∧
        ¬ e.PointsInto text.toList := by
  refine ⟨"  foo bar", _, _, tryParse_behind_blanks, List.mem_cons_self, fun h => ?_⟩
  have hlead := h.takeWhile_eq_nil rfl rfl
  revert hlead
  decide

end Command

end Inquiry
