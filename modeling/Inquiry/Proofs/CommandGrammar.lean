import Mathlib.Data.List.Nodup
import Inquiry.Proofs.Layouts
import Inquiry.Proofs.Offsets

/-!
# The grammar of commands

Whether a text is a command is said on its layout: the head has to be right for a
verb (`Layout.Heads`), `reflect` stands alone, and every other verb has a message
behind it. The layout then spells a command (`Layout.Spells`), of that verb, with
what the modifiers say and with the message, without the parentheses around all
of it.

The scanner goes on behind an error, and the reader looks at the tokens alone. So
a head that is not right shows in one of two places: a number that is too large
and a missing separator have left an error in the scan
(`CommandTokens.separated_of_scanBody`), the rest is found by the reader. Behind a
head that is right there is no error yet, and the argument is scanned and read as
a message that starts at an offset.

* `ModifierText.foldlM_add_eq_ok_iff`: modifiers are taken if no marker comes twice;
* `Layout.exists_heads_of_tryParse`: the head of a command is right;
* `Layout.Heads.tryParse_eq`: behind a head that is right, a message is read;
* `tryParse_layout`: a text is a command exactly if its layout spells it, and errors
  in the argument are those of the message, moved to where it stands.
-/

namespace Inquiry

variable {C : Type}

/-! ## Options -/

namespace ModifierText

/-- The number of the first modifier with a marker. -/
def number? (ms : List ModifierText) (marker : Char) : Option Nat :=
  (ms.find? (·.marker = marker)).map (·.number)

/-- What modifiers say to an `ask`. -/
def options (ms : List ModifierText) : AskOptions where
  budget := number? ms '$'
  recipient := (number? ms '@').map (⟨.channel, ·⟩)

variable {ms : List ModifierText} {m : ModifierText} {marker : Char}

theorem isSome_number?_iff : (number? ms marker).isSome ↔ marker ∈ ms.map (·.marker) := by
  simp [number?]

theorem number?_concat_of_ne (h : m.marker ≠ marker) :
    number? (ms ++ [m]) marker = number? ms marker := by
  simp [number?, List.find?_append, h]

theorem number?_concat_of_notMem (h : m.marker ∉ ms.map (·.marker)) :
    number? (ms ++ [m]) m.marker = some m.number := by
  have hn : ms.find? (·.marker = m.marker) = none := by simpa using h
  simp [number?, List.find?_append, hn]

theorem modifier_of_recipient (h : m.marker = '@') : m.modifier = .recipient m.number :=
  if_pos h

theorem modifier_of_budget (h : m.marker = '$') : m.modifier = .budget m.number :=
  if_neg (by rw [h]; decide)

theorem add_options_of_mem (h : m.marker ∈ ms.map (·.marker)) (span : Span) :
    (options ms).add ⟨m.modifier, span⟩ = .error ⟨.duplicateModifier m.marker, span⟩ := by
  have hs := isSome_number?_iff.2 h
  rcases m.marker_eq with hm | hm
  · rw [hm] at hs
    simp [modifier_of_recipient hm, hm, AskOptions.add, options, hs, Modifier.marker]
  · rw [hm] at hs
    simp [modifier_of_budget hm, hm, AskOptions.add, options, hs, Modifier.marker]

theorem add_options_of_notMem (h : m.marker ∉ ms.map (·.marker)) (span : Span) :
    (options ms).add ⟨m.modifier, span⟩ = .ok (options (ms ++ [m])) := by
  have hs := mt isSome_number?_iff.1 h
  have hadd := number?_concat_of_notMem h
  rcases m.marker_eq with hm | hm
  · have hother : number? (ms ++ [m]) '$' = number? ms '$' :=
      number?_concat_of_ne (by rw [hm]; decide)
    rw [hm] at hs hadd
    simp [modifier_of_recipient hm, AskOptions.add, options, hs, hadd, hother]
  · have hother : number? (ms ++ [m]) '@' = number? ms '@' :=
      number?_concat_of_ne (by rw [hm]; decide)
    rw [hm] at hs hadd
    simp [modifier_of_budget hm, AskOptions.add, options, hs, hadd, hother]

theorem nodup_markers_concat : ((ms ++ [m]).map (·.marker)).Nodup ↔
    m.marker ∉ ms.map (·.marker) ∧ (ms.map (·.marker)).Nodup := by
  rw [List.map_append, List.map_singleton, ← List.concat_eq_append, List.nodup_concat]

/-- Modifiers are added to those taken before if no marker comes twice among all of them. -/
theorem foldlM_add_eq_ok_iff (before : List ModifierText) {found : List (Located Modifier)}
    {o : AskOptions} (h : found.map (·.item) = ms.map (·.modifier))
    (hb : (before.map (·.marker)).Nodup) :
    found.foldlM AskOptions.add (options before) = .ok o ↔
      ((before ++ ms).map (·.marker)).Nodup ∧ o = options (before ++ ms) := by
  induction ms generalizing before found with
  | nil =>
    rw [List.map_eq_nil_iff.1 h, List.append_nil, List.foldlM_nil]
    simp [hb, eq_comm, pure, Except.pure]
  | cons m ms ih =>
    obtain ⟨⟨_, span⟩, found, rfl, rfl, hms⟩ := List.map_eq_cons_iff.1 h
    rw [List.foldlM_cons, List.append_cons]
    by_cases hm : m.marker ∈ before.map (·.marker)
    · rw [add_options_of_mem hm]
      constructor
      · intro he
        cases he
      · rintro ⟨hn, -⟩
        rw [List.map_append] at hn
        exact absurd hm (nodup_markers_concat.1 hn.of_append_left).1
    · rw [add_options_of_notMem hm]
      exact ih _ hms (nodup_markers_concat.2 ⟨hm, hb⟩)

end ModifierText

/-! ## Heads -/

theorem MessageTokens.total_le_scanFrom (start : Nat) (errors : ErrorList) (cs : List Char) :
    errors.total ≤ (scanFrom start errors cs).errors.total := by
  fun_induction scanFrom start errors cs with
  | case1 => exact Nat.le_refl _
  | case2 => exact Nat.le_refl _
  | case3 start errors c cs hroom l stop errors' ih =>
    refine Nat.le_trans ?_ ih
    subst errors'
    cases l.error? start with
    | none => exact Nat.le_refl _
    | some e => exact Nat.le_succ _

theorem MessageTokens.isEmpty_scanFrom (start : Nat) (cs : List Char) :
    (scanFrom start .empty cs).tokens.isEmpty = cs.isEmpty := by
  cases cs with
  | nil => rw [scanFrom]; rfl
  | cons c cs => rw [scanFrom, if_neg (by decide)]; rfl

namespace CommandTokens

/-- White space or an opening parenthesis comes first, if anything does. -/
def Separated (cs : List Char) : Prop :=
  ∀ c, cs.head? = some c → Text.isBlank c ∨ c = '('

theorem scanBody_of_separated {cs : List Char} (h : Separated cs) (start : Nat)
    (errors : ErrorList) :
    scanBody start errors cs =
      .scanFrom (start + byteLength (cs.takeWhile Text.isBlank)) errors
        (cs.dropWhile Text.isBlank) := by
  cases cs with
  | nil => rfl
  | cons c cs =>
    rw [scanBody]
    by_cases hb : Text.isBlank c
    · rw [if_pos hb]
    · rw [if_neg hb, if_pos ((h c rfl).resolve_left hb), List.takeWhile_cons_of_neg hb,
        List.dropWhile_cons_of_neg hb]
      rfl

theorem separated_of_scanBody {start : Nat} {errors : ErrorList} {cs : List Char}
    (h : (scanBody start errors cs).errors.total = 0) : Separated cs ∧ errors.total = 0 := by
  by_cases hs : Separated cs
  · rw [scanBody_of_separated hs] at h
    have := MessageTokens.total_le_scanFrom
      (start + byteLength (cs.takeWhile Text.isBlank)) errors (cs.dropWhile Text.isBlank)
    exact ⟨hs, by omega⟩
  · cases cs with
    | nil => exact absurd (fun _ hc => nomatch hc) hs
    | cons c cs =>
      have hc : ¬ (Text.isBlank c ∨ c = '(') := by
        rintro hc
        exact hs fun d hd => by cases hd; exact hc
      rw [not_or] at hc
      rw [scanBody, if_neg hc.1, if_neg hc.2] at h
      have := MessageTokens.total_le_scanFrom (start + c.utf8Size)
        (errors.push ⟨.unexpectedCharacter c, ⟨start, start + c.utf8Size⟩⟩) cs
      rw [h, ErrorList.total_push] at this
      omega

end CommandTokens

/-- The command of a verb, with its message and its options where it has any. -/
def Verb.command : Verb → Message C → AskOptions → Command C
  | .reflect, _, _ => .reflect
  | .view, m, _ => .view m
  | .note, m, _ => .note m
  | .reply, m, _ => .reply m
  | .ask, m, options => .ask m options

/-! ## Reading tokens -/

/-- The empty text is a message, though it is no argument. -/
theorem Message.tryParse_nil :
    (tryParse (String.ofList []) : Except ErrorList (Message C)) = .ok (.text "") := by
  rw [tryParse, String.toList_ofList, MessageTokens.scan, MessageTokens.scanFrom]
  rfl

theorem Message.unwrap_of_ne {m : Message C} (hn : ∀ inner, m ≠ reference (.message inner)) :
    m.unwrap = m := by
  rw [unwrap]
  split
  · next inner h => exact absurd (reference?_eq_some_iff.1 h) (hn inner)
  · rfl

theorem Verb.ofWord?_eq_some_iff {w : String} {v : Verb} : ofWord? w = some v ↔ w = v.word := by
  constructor
  · intro h
    have hw := List.find?_some h
    exact (beq_iff_eq.1 hw).symm
  · rintro rfl
    exact ofWord?_word v

theorem Verb.word_eq_ask_iff {v : Verb} : v.word = ask.word ↔ v = ask := by
  cases v <;> decide

theorem AskOptions.ofModifiers_eq_ok_iff {word : String} {found : List (Located Modifier)}
    {ms : List ModifierText} {o : AskOptions}
    (h : found.map (·.item) = ms.map (·.modifier)) :
    ofModifiers word found = .ok o ↔
      (ms = [] ∨ word = Verb.ask.word) ∧ (ms.map (·.marker)).Nodup ∧
        o = ModifierText.options ms := by
  have hfold : found.foldlM add {} = .ok o ↔
      (ms.map (·.marker)).Nodup ∧ o = ModifierText.options ms :=
    ModifierText.foldlM_add_eq_ok_iff [] h List.nodup_nil
  cases ms with
  | nil =>
    rw [List.map_eq_nil_iff.1 h]
    exact ⟨fun ho => ⟨.inl rfl, List.nodup_nil, (Except.ok.inj ho).symm⟩,
      fun ho => congrArg Except.ok ho.2.2.symm⟩
  | cons m ms =>
    obtain ⟨x, found, rfl, -, -⟩ := List.map_eq_cons_iff.1 h
    rw [ofModifiers]
    split
    · next hw => exact hfold.trans ⟨fun ho => ⟨.inr hw, ho⟩, And.right⟩
    · next hw =>
      constructor
      · intro ho
        cases ho
      · rintro ⟨hms | hms, -⟩
        · cases hms
        · exact absurd hms hw

namespace Command

theorem readArgument_eq (word : String) (body : MessageTokens) :
    (readArgument word body : Except ParseError (Message C)) =
      if body.tokens.isEmpty then .error ⟨.missingArgument word, body.start⟩
      else (Message.ofTokens body.tokens).map Message.unwrap := by
  rw [readArgument]
  split
  · rfl
  · cases (Message.ofTokens body.tokens : Except ParseError (Message C)) <;> rfl

theorem ofTokens_reflect {head : CommandHead} {body : MessageTokens} {o : AskOptions}
    (hw : head.word.item = Verb.reflect.word)
    (ho : AskOptions.ofModifiers Verb.reflect.word head.modifiers = .ok o) :
    (ofTokens ⟨some head, body⟩ : Except ParseError (Command C)) =
      if body.tokens.isEmpty then .ok .reflect
      else .error ⟨.unexpectedArgument Verb.reflect.word, body.start⟩ := by
  rw [ofTokens]
  dsimp only
  rw [hw, ho]
  rfl

theorem ofTokens_of_ne_reflect {head : CommandHead} {body : MessageTokens} {o : AskOptions}
    {v : Verb} (hv : v ≠ .reflect) (hw : head.word.item = v.word)
    (ho : AskOptions.ofModifiers v.word head.modifiers = .ok o) :
    (ofTokens ⟨some head, body⟩ : Except ParseError (Command C)) =
      (readArgument v.word body).map (v.command · o) := by
  rw [ofTokens]
  dsimp only
  rw [hw, ho, Verb.ofWord?_word]
  cases v with
  | reflect => exact absurd rfl hv
  | _ => rfl

namespace Layout

variable {cs : List Char} (l : Layout cs)

/-- What stands in front of the argument is right for a verb. -/
structure Heads (v : Verb) : Prop where
  word : l.name = v.word
  fits : ∀ m ∈ l.modifiers, m.Fits
  allowed : l.modifiers = [] ∨ v = .ask
  once : (l.modifiers.map (·.marker)).Nodup
  separated : CommandTokens.Separated l.rest

/-- The commands that a layout spells. -/
inductive Spells : Command C → Prop
  /-- `reflect` stands alone. -/
  | reflect (h : l.Heads .reflect) (ha : l.argument = []) : Spells .reflect
  /-- Other verbs have a message. -/
  | message {v : Verb} {m : Message C} (h : l.Heads v) (hv : v ≠ .reflect) (ha : l.argument ≠ [])
    (hm : Message.tryParse (String.ofList l.argument) = .ok m)
    (hn : ∀ inner, m ≠ .reference (.message inner)) :
    Spells (v.command m (ModifierText.options l.modifiers))
  /-- One pair of parentheses around a whole message is left out. -/
  | enclosed {v : Verb} {m : Message C} (h : l.Heads v) (hv : v ≠ .reflect) (ha : l.argument ≠ [])
    (hm : Message.tryParse (String.ofList l.argument) = .ok (.reference (.message m))) :
    Spells (v.command m (ModifierText.options l.modifiers))

/-- The parentheses around a whole message are left out when the command is read. -/
theorem Spells.of_tryParse {l : Layout cs} {v : Verb} {m : Message C} (h : l.Heads v)
    (hv : v ≠ .reflect) (ha : l.argument ≠ [])
    (hm : Message.tryParse (String.ofList l.argument) = .ok m) :
    l.Spells (v.command m.unwrap (ModifierText.options l.modifiers)) := by
  by_cases hn : ∃ inner, m = .reference (.message inner)
  · obtain ⟨inner, rfl⟩ := hn
    exact .enclosed h hv ha hm
  · have hn := not_exists.1 hn
    rw [Message.unwrap_of_ne hn]
    exact .message h hv ha hm hn

/-! ### Reading a layout -/

section

variable {l : Layout cs} {v : Verb}

theorem scan_of_word_eq_nil (hb : cs.takeWhile Text.isBlank = []) (hw : l.word = []) :
    CommandTokens.scan cs = ⟨none, .scanFrom 0 .empty cs⟩ := by
  obtain rfl := l.eq_of
  have hd := List.dropWhile_eq_self_iff.2 (List.takeWhile_eq_nil_iff.1 hb)
  have hemp : (cs.takeWhile CommandTokens.isVerbLetter).isEmpty := List.isEmpty_iff.2 hw
  rw [CommandTokens.scan, hb, hd, if_pos hemp]
  rfl

theorem scan_of_word_ne_nil (hb : cs.takeWhile Text.isBlank = []) (hw : l.word ≠ []) :
    ∃ found : Modifiers, found = .scanFrom (byteLength l.word) .empty
        (l.modifiers.flatMap ModifierText.source ++ l.rest) ∧
      found.Finds (byteLength l.word) .empty l.modifiers ∧
      CommandTokens.scan cs =
        ⟨some ⟨⟨l.name, ⟨0, byteLength l.word⟩⟩, found.found⟩,
          CommandTokens.scanBody found.stop found.errors l.rest⟩ := by
  obtain rfl := l.eq_of
  have hd := List.dropWhile_eq_self_iff.2 (List.takeWhile_eq_nil_iff.1 hb)
  have hne : ¬ (cs.takeWhile CommandTokens.isVerbLetter).isEmpty := by
    rwa [List.isEmpty_iff]
  obtain ⟨hrest, hfinds⟩ :
      (Modifiers.scanFrom _ .empty (cs.dropWhile Char.isAlpha)).rest = (of cs).rest ∧ _ :=
    Modifiers.scanFrom_run (byteLength (of cs).word) .empty (cs.dropWhile Char.isAlpha)
  refine ⟨_, congrArg _ (ModifierText.run_append _).symm, hfinds, ?_⟩
  rw [CommandTokens.scan, hb, hd, if_neg hne]
  simp only [byteLength, Nat.zero_add]
  rw [← hrest]
  rfl

theorem Heads.word_ne_nil (h : l.Heads v) : l.word ≠ [] := by
  intro hw
  have hname := h.word
  rw [name, hw] at hname
  revert hname
  cases v <;> decide

/-- Behind a head that is right, the argument is scanned as a message. -/
theorem Heads.scan_eq (h : l.Heads v) (hb : cs.takeWhile Text.isBlank = []) :
    ∃ head : CommandHead, head.word.item = v.word ∧
      AskOptions.ofModifiers v.word head.modifiers = .ok (ModifierText.options l.modifiers) ∧
      CommandTokens.scan cs =
        ⟨some head, .scanFrom (byteLength l.lead) .empty l.argument⟩ := by
  obtain ⟨found, -, hfound, hscan⟩ := scan_of_word_ne_nil hb h.word_ne_nil
  obtain ⟨herrors, hitems⟩ := hfound.fits h.fits
  have hstart : found.stop + byteLength (l.rest.takeWhile Text.isBlank) = byteLength l.lead := by
    rw [hfound.stop, lead, byteLength_append, byteLength_append, Nat.add_assoc]
  have hallowed : l.modifiers = [] ∨ v.word = Verb.ask.word :=
    h.allowed.imp_right Verb.word_eq_ask_iff.2
  refine ⟨⟨⟨l.name, ⟨0, byteLength l.word⟩⟩, found.found⟩, h.word,
    (AskOptions.ofModifiers_eq_ok_iff hitems).2 ⟨hallowed, h.once, rfl⟩, ?_⟩
  rw [hscan, herrors, CommandTokens.scanBody_of_separated h.separated, hstart]
  rfl

end

section

variable {text : String} {l : Layout (Text.trim text.toList)} {v : Verb} {c : Command C}

/-- The head of a command is right for a verb. -/
theorem exists_heads_of_tryParse (h : tryParse text = .ok c) : ∃ v, l.Heads v := by
  have hb := Text.takeWhile_trim text.toList
  obtain ⟨hnone, h⟩ := ErrorList.conclude_eq_ok_iff.1 h
  have hw : l.word ≠ [] := by
    intro hw
    rw [ofTokens, scan_of_word_eq_nil hb hw] at h
    cases h
  obtain ⟨found, -, hfound, hscan⟩ := scan_of_word_ne_nil hb hw
  rw [hscan] at hnone h
  -- The scan has left no error, so all numbers fit and all modifiers were found.
  obtain ⟨hsep, hnone⟩ := CommandTokens.separated_of_scanBody hnone
  have hfits : ∀ m ∈ l.modifiers, m.Fits := by
    rw [hfound.total] at hnone
    have hcount := List.countP_eq_zero.1 (Nat.eq_zero_of_add_eq_zero_left hnone)
    intro m hm
    simpa using hcount m hm
  obtain ⟨-, hitems⟩ := hfound.fits hfits
  -- The reader has gone through the modifiers and the word.
  rw [ofTokens] at h
  dsimp only at h
  cases ho : AskOptions.ofModifiers l.name found.found with
  | error e =>
    rw [ho] at h
    cases h
  | ok o =>
    obtain ⟨hallowed, honce, -⟩ := (AskOptions.ofModifiers_eq_ok_iff hitems).1 ho
    cases hv : Verb.ofWord? l.name with
    | none =>
      rw [ho, hv] at h
      cases h
    | some v =>
      have hname := Verb.ofWord?_eq_some_iff.1 hv
      rw [hname, Verb.word_eq_ask_iff] at hallowed
      exact ⟨v, hname, hfits, hallowed, honce, hsep⟩

theorem Heads.tryParse_reflect (h : l.Heads .reflect) :
    tryParse text = .ok c ↔ l.argument = [] ∧ c = .reflect := by
  obtain ⟨head, hw, ho, hscan⟩ := h.scan_eq (Text.takeWhile_trim _)
  rw [tryParse, hscan, ofTokens_reflect hw ho, ErrorList.conclude_eq_ok_iff,
    MessageTokens.isEmpty_scanFrom]
  cases l.argument with
  | nil =>
    rw [MessageTokens.scanFrom]
    simp [ErrorList.empty, eq_comm]
  | cons a as => simp

theorem Heads.argument_ne_nil (h : l.Heads v) (hv : v ≠ .reflect) (hc : tryParse text = .ok c) :
    l.argument ≠ [] := by
  intro ha
  obtain ⟨head, hw, ho, hscan⟩ := h.scan_eq (Text.takeWhile_trim _)
  rw [tryParse, hscan, ofTokens_of_ne_reflect hv hw ho, readArgument_eq,
    MessageTokens.isEmpty_scanFrom, ha] at hc
  cases hc

/-- Behind a head that is right, the argument is read as a message. -/
theorem Heads.tryParse_eq (h : l.Heads v) (hv : v ≠ .reflect) (ha : l.argument ≠ []) :
    (tryParse text : Except ErrorList (Command C)) =
      ((Message.tryParse (String.ofList l.argument)).mapError (·.shift (byteLength l.lead))).map
        fun m => v.command m.unwrap (ModifierText.options l.modifiers) := by
  obtain ⟨head, hw, ho, hscan⟩ := h.scan_eq (Text.takeWhile_trim _)
  have hne := List.isEmpty_eq_false_iff.2 ha
  rw [tryParse, hscan, ofTokens_of_ne_reflect hv hw ho, readArgument_eq,
    MessageTokens.isEmpty_scanFrom, hne, ← Message.conclude_scanFrom, ← ErrorList.conclude_map]
  refine congrArg _ ?_
  cases (Message.ofTokens _ : Except ParseError (Message C)) <;> rfl

/-- What is read is spelled by the layout. -/
theorem spells_of_tryParse (h : tryParse text = .ok c) : l.Spells c := by
  obtain ⟨v, hv⟩ := exists_heads_of_tryParse (l := l) h
  by_cases hr : v = .reflect
  · subst hr
    obtain ⟨ha, rfl⟩ := hv.tryParse_reflect.1 h
    exact .reflect hv ha
  · have ha := hv.argument_ne_nil hr h
    rw [hv.tryParse_eq hr ha] at h
    cases hm : Message.tryParse (String.ofList l.argument) with
    | error errors =>
      rw [hm] at h
      cases h
    | ok m =>
      rw [hm] at h
      cases h
      exact .of_tryParse hv hr ha hm

/-- What the layout spells is read. -/
theorem Spells.tryParse_eq (h : l.Spells c) : tryParse text = .ok c := by
  cases h with
  | reflect h ha => exact h.tryParse_reflect.2 ⟨ha, rfl⟩
  | @message v m h hv ha hm hn =>
    rw [h.tryParse_eq hv ha, hm]
    exact congrArg (fun m => Except.ok (v.command m (ModifierText.options l.modifiers)))
      (Message.unwrap_of_ne hn)
  | enclosed h hv ha hm =>
    rw [h.tryParse_eq hv ha, hm]
    rfl

end

end Layout

/-- A text has one layout, and it is a command exactly if the layout spells it. Where all is right
    but the argument is no message, the errors are those of the argument, moved to where it
    stands. -/
theorem tryParse_layout (text : String) :
    let l := Layout.of (Text.trim text.toList)
    (∀ l' : Layout (Text.trim text.toList), l' = l) ∧
    l.lead ++ l.argument = Text.trim text.toList ∧
    (∀ c : Command C, tryParse text = .ok c ↔ l.Spells c) ∧
    ∀ v errors, l.Heads v → v ≠ .reflect →
      (Message.tryParse (String.ofList l.argument) : Except ErrorList (Message C)) =
        .error errors →
      (tryParse text : Except ErrorList (Command C)) =
        .error (errors.shift (byteLength l.lead)) := by
  refine ⟨Layout.eq_of, Layout.lead_append_argument _,
    fun c => ⟨Layout.spells_of_tryParse, Layout.Spells.tryParse_eq⟩, ?_⟩
  intro v errors hv hr hm
  have ha : (Layout.of (Text.trim text.toList)).argument ≠ [] := by
    intro ha
    rw [ha, Message.tryParse_nil] at hm
    cases hm
  rw [hv.tryParse_eq hr ha, hm]
  rfl

/-- The parenthesis is the first byte of the argument and the seventh of the command. -/
example : (tryParse " View  (a" : Except ErrorList (Command Empty)) =
    .error ⟨[⟨.unclosedParen, ⟨6, 7⟩⟩], 1⟩ := by
  decide +kernel

end Command

end Inquiry
