import Inquiry.Proofs.SourceTokens

/-!
# Source text

Source text and reading are inverse to each other. The tokens of a message are
read as that message, as long as the parentheses fit (`readTokens_tokens`); if
they do not, reading stops at the one that is too many
(`readTokens_tokens_tooDeep`). The other way round, what is read has no channel,
since none can be written, its indices are those of references in the text, and
every message that is still open leaves room for those around it (`Shallow`).

* `Message.tryParse_source`: the source of a message reads back as the message
  exactly where messages that are read come from.
-/

namespace Inquiry

variable {C : Type}

/-! ## Reading source -/

namespace Draft

/-- The draft with a message behind it. -/
def append (d : Draft C) : Message C → Draft C
  | .text t => d.addText t
  | .slot t a rest => ((d.addText t).addSlot a).append rest

theorem toMessage_append (d : Draft C) (m : Message C) :
    (d.append m).toMessage = d.toMessage.concat m := by
  induction m using Message.slotInduct generalizing d with
  | text t => exact d.toMessage_addText t
  | slot t a rest ih =>
    rw [append, ih, toMessage_addSlot, toMessage_addText, Message.concat_assoc,
      Message.concat_assoc]
    simp [Message.reference, Message.concat]

theorem addText_empty (d : Draft C) : d.addText "" = d := by
  rw [addText, String.append_empty]

end Draft

namespace Message

theorem readTokens_ofFragment (opened : List (Span × Draft C)) (draft : Draft C) (t : String)
    {found : List (Located Token)} (h : found.map (·.item) = Token.ofFragment t)
    (more : List (Located Token)) :
    readTokens opened draft (found ++ more) = readTokens opened (draft.addText t) more := by
  rw [Token.ofFragment] at h
  split at h
  · next ht =>
    rw [List.map_eq_nil_iff.1 h, ht, draft.addText_empty]
    rfl
  · obtain ⟨⟨item, span⟩, rfl, rfl⟩ := List.map_eq_singleton_iff.1 h
    rfl

theorem exists_of_tokens_nested {t : String} {m rest : Message C} {found : List (Located Token)}
    (h : found.map (·.item) = (slot t (.message m) rest).tokens) :
    ∃ before opened inner closed after,
      found = before ++ ⟨.opening, opened⟩ :: (inner ++ ⟨.closing, closed⟩ :: after) ∧
      before.map (·.item) = Token.ofFragment t ∧ inner.map (·.item) = m.tokens ∧
      after.map (·.item) = rest.tokens := by
  rw [Message.tokens, Referent.tokens, List.append_assoc, List.map_eq_append_iff] at h
  obtain ⟨before, nested, rfl, hb, h⟩ := h
  rw [List.append_assoc, List.cons_append, List.map_eq_cons_iff] at h
  obtain ⟨⟨_, opened⟩, nested, rfl, rfl, h⟩ := h
  obtain ⟨inner, closing, rfl, hi, h⟩ := List.map_eq_append_iff.1 h
  obtain ⟨⟨_, closed⟩, after, rfl, rfl, ha⟩ := List.map_eq_cons_iff.1 h
  exact ⟨before, opened, inner, closed, after, rfl, hb, hi, ha⟩

theorem exists_of_tokens_pointer {t : String} {p : Pointer} {rest : Message C}
    {found : List (Located Token)}
    (h : found.map (·.item) = (slot t (.pointer p) rest).tokens) :
    ∃ before span after, found = before ++ ⟨.reference p, span⟩ :: after ∧
      before.map (·.item) = Token.ofFragment t ∧ after.map (·.item) = rest.tokens := by
  rw [Message.tokens, Referent.tokens, List.append_assoc, List.map_eq_append_iff] at h
  obtain ⟨before, pointer, rfl, hb, h⟩ := h
  obtain ⟨⟨_, span⟩, after, rfl, rfl, ha⟩ := List.map_eq_cons_iff.1 h
  exact ⟨before, span, after, rfl, hb, ha⟩

section

variable {m : Message C} (opened : List (Span × Draft C)) {found : List (Located Token)}

/-- Tokens of a message that does not nest too deep are read as that message. -/
theorem readTokens_tokens (hm : m.Writable) (hn : m.nesting + opened.length ≤ nestingLimit)
    (draft : Draft C) (h : found.map (·.item) = m.tokens) (more : List (Located Token)) :
    readTokens opened draft (found ++ more) = readTokens opened (draft.append m) more := by
  induction m generalizing opened draft found more with
  | text t => exact readTokens_ofFragment opened draft t h more
  | nested t m rest ihm ihr =>
    obtain ⟨hm, hr⟩ := hm.of_nested
    obtain ⟨before, o, inner, c, after, rfl, hb, hi, ha⟩ := exists_of_tokens_nested h
    rw [Message.nesting, Referent.nesting] at hn
    have hfull : ¬ nestingLimit ≤ opened.length := by omega
    rw [List.append_assoc, readTokens_ofFragment _ _ _ hb, List.cons_append, readTokens,
      if_neg hfull, List.append_assoc, ihm _ hm (by rw [List.length_cons]; omega) _ hi,
      List.cons_append, readTokens, ihr _ hr (by omega) _ ha, Draft.toMessage_append,
      Draft.toMessage_empty, text_empty_concat, Draft.append]
  | pointer t p rest ih =>
    obtain ⟨_, hr⟩ := hm.of_pointer
    obtain ⟨before, span, after, rfl, hb, ha⟩ := exists_of_tokens_pointer h
    rw [Message.nesting, Referent.nesting] at hn
    rw [List.append_assoc, readTokens_ofFragment _ _ _ hb, List.cons_append, readTokens,
      ih _ hr (by omega) _ ha, Draft.append]
  | channel t c rest ih => exact absurd hm Writable.not_channel

/-- Tokens of a message that nests too deep are read as far as the parenthesis that is one too
    many. -/
theorem readTokens_tokens_tooDeep (hm : m.Writable)
    (hn : nestingLimit < m.nesting + opened.length) (ho : opened.length ≤ nestingLimit)
    (draft : Draft C) (h : found.map (·.item) = m.tokens) (more : List (Located Token)) :
    ∃ span, readTokens opened draft (found ++ more) =
      .error ⟨.nestingTooDeep nestingLimit, span⟩ := by
  induction m generalizing opened draft found more with
  | text t =>
    rw [Message.nesting] at hn
    omega
  | nested t m rest ihm ihr =>
    obtain ⟨hm, hr⟩ := hm.of_nested
    obtain ⟨before, o, inner, c, after, rfl, hb, hi, ha⟩ := exists_of_tokens_nested h
    rw [Message.nesting, Referent.nesting] at hn
    rw [List.append_assoc, readTokens_ofFragment _ _ _ hb, List.cons_append, readTokens]
    by_cases hfull : nestingLimit ≤ opened.length
    · exact ⟨o, if_pos hfull⟩
    rw [if_neg hfull, List.append_assoc]
    by_cases hd : nestingLimit < m.nesting + (opened.length + 1)
    · have ho : opened.length + 1 ≤ nestingLimit := Nat.lt_of_not_le hfull
      exact ihm _ hm (by rwa [List.length_cons]) (by rwa [List.length_cons]) _ hi _
    -- The nested message is read, so the rest is too deep.
    · rw [readTokens_tokens _ hm (by rw [List.length_cons]; omega) _ hi, List.cons_append,
        readTokens]
      exact ihr _ hr (by omega) ho _ ha _
  | pointer t p rest ih =>
    obtain ⟨_, hr⟩ := hm.of_pointer
    obtain ⟨before, span, after, rfl, hb, ha⟩ := exists_of_tokens_pointer h
    rw [Message.nesting, Referent.nesting] at hn
    rw [List.append_assoc, readTokens_ofFragment _ _ _ hb, List.cons_append, readTokens]
    exact ih _ hr (by omega) ho _ ha _
  | channel t c rest ih => exact absurd hm Writable.not_channel

end

end Message

/-! ## What is read -/

/-- The index of a reference fits a word. -/
def Token.Fits : Token → Prop
  | .reference p => p.index < Decimal.wordLimit
  | _ => True

theorem Lexeme.First.fits {c : Char} {cs : List Char} {l : Lexeme} (h : First c cs l) :
    l.token.Fits := by
  cases h with
  | reference hr hp =>
    obtain ⟨hfits, rfl⟩ := Reference.pointer?_eq_some_iff.1 hp
    exact hfits
  | _ => trivial

theorem MessageTokens.fits_scanFrom (start : Nat) (errors : ErrorList) (cs : List Char) :
    ∀ t ∈ (scanFrom start errors cs).tokens, t.item.Fits := by
  fun_induction scanFrom start errors cs with
  | case1 | case2 => exact fun _ h => absurd h List.not_mem_nil
  | case3 start errors c cs _ l stop errors' ih =>
    intro t ht
    rcases List.mem_cons.1 ht with rfl | ht
    · exact (Lexeme.first_scan c cs).fits
    · exact ih t ht

namespace Message

theorem writable_of_ofTokens {ts : List (Located Token)} {m : Message C}
    (ht : ∀ t ∈ ts, t.item.Fits) (h : ofTokens ts = .ok m) : m.Writable where
  channels := channelFree_ofTokens h
  indices p hp := by
    obtain ⟨q, span, hq, hm⟩ := mem_leaves_ofTokens h hp
    cases hq
    exact ht _ hm

/-- What has been read so far of a message and of those around it leaves room for the
    parentheses that are open. -/
def Shallow : List (Span × Draft C) → Draft C → Prop
  | [], draft => draft.toMessage.nesting ≤ nestingLimit
  | (_, outer) :: opened, draft =>
    draft.toMessage.nesting + (opened.length + 1) ≤ nestingLimit ∧ Shallow opened outer

namespace Shallow

variable {opened : List (Span × Draft C)} {draft : Draft C}

theorem nesting_add_le (h : Shallow opened draft) :
    draft.toMessage.nesting + opened.length ≤ nestingLimit := by
  cases opened with
  | nil => exact h
  | cons o opened => exact h.1

/-- Only the message read last grows. -/
theorem grow (h : Shallow opened draft) {draft' : Draft C}
    (hd : draft'.toMessage.nesting + opened.length ≤ nestingLimit) : Shallow opened draft' := by
  cases opened with
  | nil => exact hd
  | cons o opened => exact ⟨hd, h.2⟩

theorem addText (h : Shallow opened draft) (t : String) : Shallow opened (draft.addText t) := by
  refine h.grow ?_
  rw [Draft.toMessage_addText, nesting_concat, Message.nesting, Nat.max_eq_left (Nat.zero_le _)]
  exact h.nesting_add_le

theorem addSlot (h : Shallow opened draft) {r : Referent C}
    (hr : r.nesting + opened.length ≤ nestingLimit) : Shallow opened (draft.addSlot r) := by
  have hd := h.nesting_add_le
  refine h.grow ?_
  rw [Draft.toMessage_addSlot, nesting_concat, reference, Message.nesting, Message.nesting]
  omega

end Shallow

theorem nesting_le_of_readTokens {opened : List (Span × Draft C)} {draft : Draft C}
    {ts : List (Located Token)} {m : Message C} (hs : Shallow opened draft)
    (h : readTokens opened draft ts = .ok m) : m.nesting ≤ nestingLimit := by
  fun_induction readTokens opened draft ts with
  | case1 draft =>
    cases h
    exact hs
  | case2 draft span outer opened => cases h
  | case3 opened draft t span ts ih => exact ih (hs.addText t) h
  | case4 opened draft p span ts ih =>
    refine ih (hs.addSlot ?_) h
    rw [Referent.nesting]
    exact Nat.le_trans (Nat.add_le_add_right (Nat.zero_le _) _) hs.nesting_add_le
  | case5 opened draft span ts hfull => cases h
  | case6 opened draft span ts hfull ih =>
    refine ih ⟨?_, hs⟩ h
    rw [Draft.toMessage_empty, Message.nesting]
    omega
  | case7 draft span ts => cases h
  | case8 draft span ts opener outer opened ih =>
    obtain ⟨hd, houter⟩ := hs
    refine ih (houter.addSlot ?_) h
    rw [Referent.nesting]
    omega

/-! ## Source and reading -/

theorem lexes_source {m : Message C} (hm : m.Writable) : Lexes m.source.toList m.tokens := by
  have h := lexes_sourceChars hm false .nil .nil
  rw [List.append_nil, List.append_nil] at h
  rwa [source, String.toList_ofList]

/-- A text that falls into the tokens of a message reads as that message. -/
theorem tryParse_of_lexes {m : Message C} (hm : m.Writable) (hn : m.nesting ≤ nestingLimit)
    {text : String} (h : Lexes text.toList m.tokens) : tryParse text = .ok m := by
  obtain ⟨found, stop, hs, hf⟩ := h.scanFrom 0
  have hread : (ofTokens found : Except ParseError (Message C)) = .ok m := by
    have := readTokens_tokens [] hm hn .empty hf []
    rw [List.append_nil] at this
    rw [ofTokens, this, readTokens, Draft.toMessage_append, Draft.toMessage_empty,
      text_empty_concat]
  rw [tryParse, MessageTokens.scan, hs, hread]
  rfl

theorem tryParse_source_of_le {m : Message C} (hm : m.Writable) (hn : m.nesting ≤ nestingLimit) :
    tryParse m.source = .ok m :=
  tryParse_of_lexes hm hn (lexes_source hm)

/-- A text that falls into the tokens of a message that nests too deep reads as no message. -/
theorem tryParse_of_lexes_tooDeep {m : Message C} (hm : m.Writable)
    (hn : nestingLimit < m.nesting) {text : String} (h : Lexes text.toList m.tokens) :
    ∃ span, (tryParse text : Except ErrorList (Message C)) =
      .error ⟨[⟨.nestingTooDeep nestingLimit, span⟩], 1⟩ := by
  obtain ⟨found, stop, hs, hf⟩ := h.scanFrom 0
  obtain ⟨span, hread⟩ := readTokens_tokens_tooDeep [] hm hn (Nat.zero_le _) .empty hf []
  rw [List.append_nil] at hread
  refine ⟨span, ?_⟩
  rw [tryParse, MessageTokens.scan, hs, ofTokens, hread]
  rfl

theorem tryParse_source_of_lt {m : Message C} (hm : m.Writable) (hn : nestingLimit < m.nesting) :
    ∃ span, (tryParse m.source : Except ErrorList (Message C)) =
      .error ⟨[⟨.nestingTooDeep nestingLimit, span⟩], 1⟩ :=
  tryParse_of_lexes_tooDeep hm hn (lexes_source hm)

/-- The message read from the source of another is the only one that reading it can give. -/
theorem ReadsAs.tryParse_source_eq_ok_iff {m read m' : Message C} (h : ReadsAs false m read)
    (hc : read.ChannelFree) : tryParse m.source = .ok m' ↔
      (read.nesting ≤ nestingLimit ∧ read.Fits) ∧ m' = read := by
  have hlexes : ∀ ts, Lexes m.source.toList ts ↔ read.Fits ∧ ts = read.tokens := by
    intro ts
    have hts : LexesBehind [] (m.sourceChars false ++ []) ts ↔ _ := h.lexesBehind_iff .nil
    rwa [List.append_nil, LexesBehind.nil_iff, LexesBehind.done_iff, List.nil_append,
      ← String.toList_ofList (l := m.sourceChars false)] at hts
  constructor
  · intro hread
    obtain ⟨htotal, -⟩ := ErrorList.conclude_eq_ok_iff.1 hread
    have hts := (MessageTokens.lexes_of_total htotal).2
    obtain ⟨hfits, htokens⟩ := (hlexes _).1 hts
    rw [htokens] at hts
    rcases Nat.lt_or_ge nestingLimit read.nesting with hn | hn
    · obtain ⟨span, herror⟩ := tryParse_of_lexes_tooDeep ⟨hc, hfits⟩ hn hts
      rw [herror] at hread
      cases hread
    · rw [tryParse_of_lexes ⟨hc, hfits⟩ hn hts] at hread
      exact ⟨⟨hn, hfits⟩, (Except.ok.inj hread).symm⟩
  · rintro ⟨⟨hn, hfits⟩, rfl⟩
    exact tryParse_of_lexes ⟨hc, hfits⟩ hn ((hlexes _).2 ⟨hfits, rfl⟩)

theorem writable_of_tryParse {text : String} {m : Message C} (h : tryParse text = .ok m) :
    m.Writable ∧ m.nesting ≤ nestingLimit := by
  have ho : ofTokens (MessageTokens.scan text.toList).tokens = .ok m :=
    ErrorList.eq_ok_of_conclude h
  exact ⟨writable_of_ofTokens (MessageTokens.fits_scanFrom _ _ _) ho,
    nesting_le_of_readTokens (Nat.zero_le _) ho⟩

/-- The source of a message that can be written down reads back as it, unless it nests too deep,
    which is the one error then; and every message that is read can be written down and does not
    nest too deep, so that its source reads back as it. -/
theorem tryParse_source :
    (∀ m : Message C, m.Writable → m.nesting ≤ nestingLimit → tryParse m.source = .ok m) ∧
    (∀ m : Message C, m.Writable → nestingLimit < m.nesting →
      ∃ span, (tryParse m.source : Except ErrorList (Message C)) =
        .error ⟨[⟨.nestingTooDeep nestingLimit, span⟩], 1⟩) ∧
    (∀ (text : String) (m : Message C), tryParse text = .ok m →
      m.Writable ∧ m.nesting ≤ nestingLimit ∧ tryParse m.source = .ok m) := by
  refine ⟨fun m => tryParse_source_of_le, fun m => tryParse_source_of_lt, ?_⟩
  intro text m h
  obtain ⟨hm, hn⟩ := writable_of_tryParse h
  exact ⟨hm, hn, tryParse_source_of_le hm hn⟩

/-- A digit behind a pointer is escaped, since it would go on the index. -/
example : (slot "(a)" (.pointer ⟨.any, 3⟩) (.text "7") : Message Empty).source =
    "\\(a\\)?->3\\7" := by
  decide +kernel

end Message

end Inquiry
