import Inquiry.Proofs.SourceTokens

/-!
# Tokenization

Scanning takes one lexeme after the other off a text, and nothing else: the tokens cover
the text without a gap, from its start to where scanning stops, and each is spelled by the
characters at its span (`Token.SpelledBy`). How far a token goes depends on what is behind
it as well, as digits go on and as literal text ends where a reference begins, so a spelling
is a matter of the characters and of those that follow.

A reference whose index is too large is found like any other, but it cannot be a token.
So it becomes the beginning of literal text, and an error. This is the only way for one
literal text to follow another directly, and the only errors there are.

* `Lexeme.First.spelledBy`: a lexeme is spelled by its characters;
* `MessageTokens.exists_falls_scanFrom`: the tokens and errors are those of lexemes that
  follow one another;
* `MessageTokens.tokenizes_scan`: what the tokens and the errors of a text are.
-/

namespace Inquiry

/-! ## Positions -/

theorem byteLength_eq_zero_iff {cs : List Char} : byteLength cs = 0 ↔ cs = [] := by
  cases cs with
  | nil => exact ⟨fun _ => rfl, fun _ => rfl⟩
  | cons c cs =>
    have := c.utf8Size_pos
    simp [byteLength]
    omega

theorem byteLength_toList (text : String) : byteLength text.toList = text.utf8ByteSize := by
  have h (cs : List Char) : byteLength cs = (String.ofList cs).utf8ByteSize := by
    induction cs with
    | nil => rfl
    | cons c cs ih =>
      rw [← List.singleton_append, String.ofList_append, String.utf8ByteSize_append, ← ih]
      simp [byteLength]
  rw [h, String.ofList_toList]

/-- A byte offset is reached in only one way. -/
theorem append_inj_of_byteLength {as bs cs ds : List Char} (h : as ++ bs = cs ++ ds)
    (hlength : byteLength as = byteLength cs) : as = cs ∧ bs = ds := by
  rcases List.append_eq_append_iff.1 h with ⟨ks, rfl, rfl⟩ | ⟨ks, rfl, rfl⟩
  all_goals
    rw [byteLength_append] at hlength
    have hks : ks = [] := byteLength_eq_zero_iff.1 (by omega)
    simp [hks]

/-- The thing is found in the text at its span: `source` stands there, and `after` behind it. -/
def Located.Covers {α : Type} (text : List Char) (t : Located α) (source after : List Char) :
    Prop :=
  ∃ before, text = before ++ (source ++ after) ∧
    t.span = ⟨byteLength before, byteLength before + byteLength source⟩

/-! ## Literal text -/

/-- The units of literal text: an escaped character with its backslash, or a character alone. -/
def units : List Char → List (List Char)
  | '\\' :: c :: cs =>
    if isEscapable c then ['\\', c] :: units cs else ['\\'] :: units (c :: cs)
  | c :: cs => [c] :: units cs
  | [] => []

theorem flatten_units (cs : List Char) : (units cs).flatten = cs := by
  fun_induction units cs <;> simp_all

/-- Of each unit, the last character is what it stands for. -/
theorem unescape_eq_filterMap_units (cs : List Char) :
    unescape cs = (units cs).filterMap List.getLast? := by
  fun_induction units cs with
  | case1 c cs hc ih =>
    rw [unescape, if_pos hc, ih]
    rfl
  | case2 c cs hc ih =>
    rw [unescape, if_neg hc, ih]
    rfl
  | case3 c cs hne ih =>
    rw [unescape_cons fun hb => ?_, ih]
    · rfl
    · cases cs with
      | nil => rfl
      | cons d ds => exact (hne d ds hb rfl).elim
  | case4 => rfl

/-- A character is a unit of its own unless it is a backslash that escapes another one. -/
theorem units_cons {c : Char} {cs : List Char}
    (hc : c = '\\' → ∀ d, cs.head? = some d → isEscapable d = false) :
    units (c :: cs) = [c] :: units cs := by
  rw [units.eq_def]
  split
  · next heq =>
    obtain ⟨rfl, rfl⟩ := List.cons.inj heq
    rw [hc rfl _ rfl]
    rfl
  · next heq =>
    obtain ⟨rfl, rfl⟩ := List.cons.inj heq
    rfl
  · contradiction

theorem Reference.not_begins_of_scan? {cs : List Char} (h : scan? cs = none) (r : Reference) :
    ¬ r.Begins cs := by
  rw [begins_iff, h]
  rintro ⟨rest, hr⟩
  cases hr

/-- At no unit of the characters there is a parenthesis, and at none a reference begins. -/
def Unmarked (source after : List Char) : Prop :=
  ∀ us u vs, units source = us ++ u :: vs → u ≠ ['('] ∧ u ≠ [')'] ∧
    ∀ r : Reference, ¬ r.Begins ((u :: vs).flatten ++ after)

theorem Unmarked.nil (after : List Char) : Unmarked [] after :=
  fun us _ _ h => absurd (congrArg List.length h) (by simp [units])

theorem Unmarked.cons {u source after : List Char}
    (hu : units (u ++ source) = u :: units source) (ho : u ≠ ['(']) (hc : u ≠ [')'])
    (hr : Reference.scan? (u ++ source ++ after) = none) (h : Unmarked source after) :
    Unmarked (u ++ source) after := by
  intro us v vs heq
  rw [hu] at heq
  cases us with
  | nil =>
    obtain ⟨rfl, rfl⟩ := List.cons.inj heq
    rw [List.flatten_cons, flatten_units]
    exact ⟨ho, hc, Reference.not_begins_of_scan? hr⟩
  | cons u' us => exact h us v vs (List.cons.inj heq).2

/-- The characters of literal text are not marked. -/
theorem unmarked_splitLiteral (cs : List Char) :
    Unmarked (splitLiteral cs).1 (splitLiteral cs).2 := by
  fun_induction splitLiteral cs with
  | case1 => exact .nil _
  | case2 c cs hc literal rest hs ih =>
    rw [hs] at ih
    have hunits : units ('\\' :: c :: literal) = ['\\', c] :: units literal := by
      rw [units, if_pos hc]
    exact .cons (u := ['\\', c]) hunits (by simp) (by simp) (scan?_of_ofSigil?_eq_none rfl _) ih
  | case3 c cs hc literal rest hs ih =>
    -- The character behind the backslash is not special, so it is in the literal text too.
    have hc : isEscapable c = false := Bool.eq_false_iff.2 hc
    have hkept : isSpecial c = false := (Bool.or_eq_false_iff.1 hc).1
    have hhead : literal.head? = some c := by
      rw [splitLiteral_cons hkept] at hs
      rw [← (Prod.mk.inj hs).1]
      rfl
    rw [hs] at ih
    have hunits : units ('\\' :: literal) = ['\\'] :: units literal :=
      units_cons fun _ d hd => by rwa [← Option.some.inj (hhead.symm.trans hd)]
    exact .cons (u := ['\\']) hunits (by decide) (by decide) (scan?_of_ofSigil?_eq_none rfl _) ih
  | case4 c cs hne he => exact .nil _
  | case5 c cs hne he literal rest hs ih =>
    rw [hs] at ih
    have hcs : literal ++ rest = cs := by
      have := splitLiteral_append cs
      rwa [hs] at this
    have hunits : units (c :: literal) = [c] :: units literal := by
      refine units_cons fun hb d hd => ?_
      -- A backslash with something behind it is met above.
      cases literal with
      | nil => cases hd
      | cons d' ds => exact (hne d' (ds ++ rest) hb hcs.symm).elim
    have he : endsLiteral c cs = false := Bool.eq_false_iff.2 he
    simp only [endsLiteral, Bool.or_eq_false_iff, beq_eq_false_iff_ne, Option.isSome_eq_false_iff,
      Option.isNone_iff_eq_none] at he
    obtain ⟨⟨ho, hk⟩, hr⟩ := he
    refine .cons (u := [c]) hunits (by simpa using ho) (by simpa using hk) ?_ ih
    rw [List.append_assoc, hcs]
    exact hr

/-- Literal text goes on until something ends it. -/
theorem endsLiteral_of_splitLiteral {cs rest : List Char} {c : Char}
    (h : (splitLiteral cs).2 = c :: rest) : endsLiteral c rest = true := by
  fun_induction splitLiteral cs with
  | case1 => cases h
  | case2 d cs hd literal rest' hs ih =>
    rw [hs] at ih
    exact ih h
  | case3 d cs hd literal rest' hs ih =>
    rw [hs] at ih
    exact ih h
  | case4 d cs hne he =>
    obtain ⟨rfl, rfl⟩ := List.cons.inj h
    exact he
  | case5 d cs hne he literal rest' hs ih =>
    rw [hs] at ih
    exact ih h

/-- Characters that are not special are in the literal text. -/
theorem splitLiteral_append_of_not_isSpecial {ds : List Char}
    (h : ∀ d ∈ ds, isSpecial d = false) (cs : List Char) :
    splitLiteral (ds ++ cs) = (ds ++ (splitLiteral cs).1, (splitLiteral cs).2) := by
  induction ds with
  | nil => rfl
  | cons d ds ih =>
    rw [List.cons_append, splitLiteral_cons (h d List.mem_cons_self),
      ih fun d' hd' => h d' (List.mem_cons_of_mem _ hd')]
    rfl

/-- The characters of a reference are not special, except its sigil. -/
theorem Reference.WellFormed.isSpecial_eq_false {r : Reference} (hr : r.WellFormed) :
    ∀ d ∈ (if r.arrow then ['-', '>'] else []) ++ r.digits, isSpecial d = false := by
  intro d hd
  rcases List.mem_append.1 hd with hd | hd
  · split at hd
    · rcases List.mem_cons.1 hd with rfl | hd
      · rfl
      · obtain rfl := List.mem_singleton.1 hd
        rfl
    · cases hd
  · cases hs : isSpecial d with
    | false => rfl
    | true => exact absurd (hr.isDigit d hd) (by rw [isDigit_of_isSpecial hs]; decide)

/-- Literal text behind the sigil of a reference has the rest of it. -/
theorem Reference.Begins.source_isPrefix {r : Reference} {c : Char} {cs : List Char}
    (h : r.Begins (c :: cs)) : r.source <+: c :: (splitLiteral cs).1 := by
  obtain ⟨hr, rest, hcs, -⟩ := h
  rw [Reference.source, List.cons_append] at hcs
  obtain ⟨rfl, rfl⟩ := List.cons.inj hcs
  rw [splitLiteral_append_of_not_isSpecial hr.isSpecial_eq_false, Reference.source]
  exact List.cons_prefix_cons.2 ⟨rfl, List.prefix_append ..⟩

/-! ## Lexemes -/

/-- Characters are the spelling of literal text: each unit stands for its last character, no unit
    is a parenthesis, and a reference begins at none but the first, where its index has to be
    too large. -/
structure IsLiteral (source after : List Char) (content : String) : Prop where
  content_ne_empty : content ≠ ""
  content_eq : content.toList = (units source).filterMap List.getLast?
  unmarked : ∀ us u vs, units source = us ++ u :: vs → u ≠ ['('] ∧ u ≠ [')'] ∧
    ∀ r : Reference, r.Begins ((u :: vs).flatten ++ after) → us = [] ∧ ¬ r.Fits

/-- The token is spelled by the characters `source`, if `after` comes behind them. -/
def Token.SpelledBy (source after : List Char) : Token → Prop
  | .text content => IsLiteral source after content
  | .reference p => ∃ r : Reference, source = r.source ∧ r.Begins (source ++ after) ∧ r.Fits ∧
      p = ⟨r.kind, Decimal.ofDigits r.digits⟩
  | .opening => source = ['(']
  | .closing => source = [')']

/-- Whether the token is literal text. -/
def Token.isText : Token → Bool
  | .text _ => true
  | _ => false

theorem isLiteral_of_content {source after : List Char} (hne : source ≠ [])
    (h : ∀ us u vs, units source = us ++ u :: vs → u ≠ ['('] ∧ u ≠ [')'] ∧
      ∀ r : Reference, r.Begins ((u :: vs).flatten ++ after) → us = [] ∧ ¬ r.Fits) :
    IsLiteral source after (String.ofList (unescape source)) where
  content_ne_empty hempty := by
    rw [String.ofList_eq_empty_iff] at hempty
    cases source with
    | nil => exact hne rfl
    | cons c cs =>
      unfold unescape at hempty
      split at hempty
      · split at hempty <;> cases hempty
      · cases hempty
      · contradiction
  content_eq := by rw [String.toList_ofList, unescape_eq_filterMap_units]
  unmarked := h

namespace Lexeme

namespace First

variable {c : Char} {cs : List Char} {l : Lexeme} {r : Reference}

/-- What is too large is what the text begins with. -/
theorem oversized_eq_some_iff (h : First c cs l) :
    l.oversized = some r ↔ r.Begins (c :: cs) ∧ ¬ r.Fits := by
  rw [Reference.begins_iff, ← Reference.pointer?_eq_none_iff]
  cases h with
  | opening hc =>
    subst hc
    simp [scan?_of_ofSigil?_eq_none (c := '(') rfl]
  | closing hc =>
    subst hc
    simp [scan?_of_ofSigil?_eq_none (c := ')') rfl]
  | reference hr hp =>
    simp only [hr, Option.some.injEq, Prod.mk.injEq]
    refine iff_of_false (by simp) ?_
    rintro ⟨⟨_, rfl, -⟩, hnone⟩
    rw [hp] at hnone
    cases hnone
  | literal he =>
    have hr : Reference.scan? (c :: cs) = none := by
      rw [endsLiteral, Bool.or_eq_false_iff] at he
      exact Option.isNone_iff_eq_none.1 (Option.isSome_eq_false_iff.1 he.2)
    simp [Lexeme.literal, hr]
  | @oversized r' rest hr hp =>
    simp only [hr, Option.some.injEq, Prod.mk.injEq, Lexeme.literal]
    constructor
    · rintro rfl
      exact ⟨⟨rest, rfl, rfl⟩, hp⟩
    · rintro ⟨⟨_, h, -⟩, -⟩
      exact h

/-- What is too large is in literal text, with all its characters. -/
theorem isText_of_oversized (h : First c cs l) (hr : l.oversized = some r) :
    l.token.isText = true ∧ r.source <+: l.source := by
  have hbegins := (h.oversized_eq_some_iff.1 hr).1
  cases h with
  | oversized =>
    obtain rfl := Option.some.inj hr
    exact ⟨rfl, hbegins.source_isPrefix⟩
  | _ => cases hr

/-- A lexeme is spelled by its characters. -/
theorem spelledBy (h : First c cs l) : l.token.SpelledBy l.source l.rest := by
  have hsource := h.source_append_rest
  have hne := h.source_ne_nil
  cases h with
  | opening hc => exact congrArg (fun c => [c]) hc
  | closing hc => exact congrArg (fun c => [c]) hc
  | @reference r rest p hr hp =>
    obtain ⟨hwell, hcs, hrest⟩ := Reference.scan?_eq_some_iff.1 hr
    obtain ⟨hfits, rfl⟩ := Reference.pointer?_eq_some_iff.1 hp
    exact ⟨r, rfl, ⟨hwell, rest, rfl, hrest⟩, hfits, rfl⟩
  | literal he =>
    refine isLiteral_of_content hne fun us u vs hu => ?_
    obtain ⟨ho, hc, hr⟩ := unmarked_splitLiteral (c :: cs) us u vs hu
    exact ⟨ho, hc, fun r h => absurd h (hr r)⟩
  | @oversized r rest hr hp =>
    refine isLiteral_of_content hne fun us u vs hu => ?_
    obtain ⟨hwell, hcs, hrest⟩ := Reference.scan?_eq_some_iff.1 hr
    have hsigil : c = r.kind.sigil := (List.cons.inj hcs).1
    obtain ⟨ho, hc, hb⟩ := r.kind.sigil_ne
    have hunits : units (c :: (splitLiteral cs).1) = [c] :: units (splitLiteral cs).1 :=
      units_cons fun hbackslash => absurd (hsigil.symm.trans hbackslash) hb
    simp only [Lexeme.literal] at hu hsource
    rw [hunits] at hu
    cases us with
    | nil =>
      obtain ⟨rfl, rfl⟩ := List.cons.inj hu
      refine ⟨by simpa [hsigil] using ho, by simpa [hsigil] using hc, fun r' hr' => ⟨rfl, ?_⟩⟩
      -- Only one reference begins at a place, and it is the one that is too large.
      have hcs' : ([c] :: units (splitLiteral cs).1).flatten ++ (splitLiteral cs).2 = c :: cs := by
        rw [List.flatten_cons, flatten_units]
        exact hsource
      obtain ⟨rest', hr'⟩ := Reference.begins_iff.1 (hcs' ▸ hr')
      obtain ⟨rfl, -⟩ := Prod.mk.inj (Option.some.inj (hr.symm.trans hr'))
      exact Reference.pointer?_eq_none_iff.1 hp
    | cons u' us =>
      obtain ⟨ho, hc, hr⟩ := unmarked_splitLiteral cs us u vs (List.cons.inj hu).2
      exact ⟨ho, hc, fun r h => absurd h (hr r)⟩

/-- Literal text goes on as far as it can. -/
theorem exists_oversized_of_isText {c' : Char} {cs' : List Char} {l' : Lexeme} (h : First c cs l)
    (hl : l.token.isText = true) (hrest : l.rest = c' :: cs') (h' : First c' cs' l')
    (hl' : l'.token.isText = true) : ∃ r, l'.oversized = some r := by
  have hends : endsLiteral c' cs' = true := by
    cases h with
    | literal => exact endsLiteral_of_splitLiteral hrest
    | oversized => exact endsLiteral_of_splitLiteral hrest
    | _ => cases hl
  cases h' with
  | literal he =>
    rw [hends] at he
    cases he
  | oversized => exact ⟨_, rfl⟩
  | _ => cases hl'

end First

end Lexeme

/-! ## One lexeme after the other -/

/-- A lexeme and the characters in front of it. -/
structure Placed where
  before : List Char
  lexeme : Lexeme

namespace Placed

/-- The token of the lexeme, where it is. -/
def token (p : Placed) : Located Token :=
  ⟨p.lexeme.token, ⟨byteLength p.before, byteLength p.before + byteLength p.lexeme.source⟩⟩

/-- The error of the lexeme, where it is. -/
def error? (p : Placed) : Option ParseError := p.lexeme.error? (byteLength p.before)

/-- The lexeme is what can be taken off the text where it is. -/
def IsScanned (text : List Char) (p : Placed) : Prop :=
  ∃ c cs, text = p.before ++ c :: cs ∧ p.lexeme = .scan c cs

end Placed

/-- These lexemes follow one another, from what stands behind `before` on, up to the end
    of `scanned`. -/
inductive Falls : List Char → List Char → List Placed → List Char → Prop
  | stop (before cs : List Char) : Falls before cs [] before
  | take {before scanned : List Char} {c : Char} {cs : List Char} {ps : List Placed}
    (h : Falls (before ++ (Lexeme.scan c cs).source) (Lexeme.scan c cs).rest ps scanned) :
    Falls before (c :: cs) (⟨before, .scan c cs⟩ :: ps) scanned

namespace Falls

variable {before cs scanned : List Char} {ps : List Placed}

theorem isScanned (h : Falls before cs ps scanned) :
    ∀ p ∈ ps, p.IsScanned (before ++ cs) := by
  induction h with
  | stop => simp
  | @take before scanned c cs ps h ih =>
    intro p hp
    rcases List.mem_cons.1 hp with rfl | hp
    · exact ⟨c, cs, rfl, rfl⟩
    · have := ih p hp
      rwa [List.append_assoc, Lexeme.source_append_rest] at this

/-- Where one stops, the next one starts. -/
theorem adjacent (h : Falls before cs ps scanned) :
    byteLength before :: ps.map (·.token.span.stop) =
      ps.map (·.token.span.start) ++ [byteLength scanned] := by
  induction h with
  | stop => rfl
  | take h ih =>
    rw [byteLength_append] at ih
    exact congrArg (List.cons _) ih

theorem pairwise (h : Falls before cs ps scanned) :
    (∀ p ∈ ps, byteLength before ≤ byteLength p.before) ∧
      ps.Pairwise fun p q => byteLength p.before < byteLength q.before := by
  induction h with
  | stop => exact ⟨by simp, .nil⟩
  | @take before scanned c cs ps h ih =>
    obtain ⟨hle, hpairwise⟩ := ih
    have hpos : 0 < byteLength (Lexeme.scan c cs).source :=
      Nat.pos_of_ne_zero fun h0 => Lexeme.source_ne_nil c cs (byteLength_eq_zero_iff.1 h0)
    have hlt : ∀ p ∈ ps, byteLength before < byteLength p.before := by
      intro p hp
      have := hle p hp
      rw [byteLength_append] at this
      omega
    refine ⟨fun p hp => ?_, .cons hlt hpairwise⟩
    rcases List.mem_cons.1 hp with rfl | hp
    · exact Nat.le_refl _
    · exact Nat.le_of_lt (hlt p hp)

theorem oversized_of_isText (h : Falls before cs ps scanned) {qs qs' : List Placed} {p q : Placed}
    (hps : ps = qs ++ p :: q :: qs') (hp : p.token.item.isText = true)
    (hq : q.token.item.isText = true) : ∃ r, q.lexeme.oversized = some r := by
  induction h generalizing qs with
  | stop => exact absurd (congrArg List.length hps) (by simp)
  | take h ih =>
    cases qs with
    | cons q' qs => exact ih (List.cons.inj hps).2
    | nil =>
      obtain ⟨rfl, rfl⟩ := List.cons.inj hps
      generalize hrest : (Lexeme.scan _ _).rest = rest at h
      cases h with
      | take h =>
        exact (Lexeme.first_scan _ _).exists_oversized_of_isText hp hrest (Lexeme.first_scan _ _) hq

end Falls

namespace MessageTokens

/-- The tokens and the errors are those of lexemes that follow one another, to the end
    of the text or until the errors are too many. -/
theorem exists_falls_scanFrom {start : Nat} {errors : ErrorList} {before : List Char}
    (cs : List Char) (hstart : start = byteLength before)
    (herrors : errors.total ≤ ErrorList.capacity) :
    ∃ ps scanned, Falls before cs ps scanned ∧
      scanFrom start errors cs = ⟨ps.map Placed.token, byteLength scanned,
        (ps.filterMap Placed.error?).foldl ErrorList.push errors⟩ ∧
      (scanFrom start errors cs).errors.total ≤ ErrorList.capacity ∧
      ((scanFrom start errors cs).errors.total < ErrorList.capacity → scanned = before ++ cs) := by
  revert before herrors
  fun_induction scanFrom start errors cs
  case case1 start errors =>
    rintro before rfl herrors
    exact ⟨[], before, .stop _ _, rfl, herrors, fun _ => (List.append_nil _).symm⟩
  case case2 start errors c cs hfull =>
    rintro before rfl herrors
    exact ⟨[], before, .stop _ _, rfl, herrors, fun h => absurd h (Nat.not_lt.2 hfull)⟩
  case case3 start errors c cs hfull l stop errors' ih =>
    rintro before rfl herrors
    obtain ⟨herrors', hfold⟩ : errors'.total ≤ ErrorList.capacity ∧ ∀ ps : List Placed,
        (ps.filterMap Placed.error?).foldl ErrorList.push errors' =
          ((⟨before, l⟩ :: ps).filterMap Placed.error?).foldl ErrorList.push errors := by
      rw [show errors' = (Placed.error? ⟨before, l⟩).elim errors errors.push from rfl]
      cases he : Placed.error? ⟨before, l⟩ with
      | none => exact ⟨herrors, fun ps => by rw [List.filterMap_cons_none he]; rfl⟩
      | some e =>
        exact ⟨Nat.lt_of_not_le hfull, fun ps => by rw [List.filterMap_cons_some he]; rfl⟩
    obtain ⟨ps, scanned, hps, heq, htotal, hscanned⟩ :=
      ih (byteLength_append before l.source).symm herrors'
    refine ⟨⟨before, l⟩ :: ps, scanned, .take hps, ?_, htotal, fun h => ?_⟩
    · rw [heq, hfold]
      rfl
    · rw [hscanned h, List.append_assoc, Lexeme.source_append_rest]

theorem exists_falls_scan (cs : List Char) :
    ∃ ps scanned, Falls [] cs ps scanned ∧ (scan cs).tokens = ps.map Placed.token ∧
      (scan cs).stop = byteLength scanned ∧
      (scan cs).errors.total = (ps.filterMap Placed.error?).length ∧
      (scan cs).errors.stored = ps.filterMap Placed.error? ∧
      (scan cs).errors.total ≤ ErrorList.capacity ∧
      ((scan cs).errors.total < ErrorList.capacity → scanned = cs) := by
  have hstart : 0 = byteLength [] := rfl
  have hempty : ErrorList.empty.total ≤ ErrorList.capacity := Nat.zero_le _
  obtain ⟨ps, scanned, hps, hm, htotal, hscanned⟩ := exists_falls_scanFrom cs hstart hempty
  have hcount : (scan cs).errors.total = (ps.filterMap Placed.error?).length := by
    rw [scan, hm, ErrorList.total_foldl_push]
    exact Nat.zero_add _
  have hstored : (scan cs).errors.stored = ps.filterMap Placed.error? := by
    have hroom : ErrorList.empty.stored.length + (ps.filterMap Placed.error?).length ≤
        ErrorList.capacity := by
      rw [← hcount]
      exact Nat.le_trans (Nat.le_of_eq (Nat.zero_add _)) htotal
    rw [scan, hm, ErrorList.stored_foldl_push hroom]
    rfl
  exact ⟨ps, scanned, hps, congrArg tokens hm, congrArg stop hm, hcount, hstored, htotal, hscanned⟩

end MessageTokens

/-! ## What the tokens and the errors are -/

/-- The token is literal text, and the text at it starts with the reference, whose index is
    too large. -/
def Located.StartsOversized (text : List Char) (t : Located Token) (r : Reference) : Prop :=
  t.item.isText = true ∧ ∃ source after, t.Covers text source after ∧
    r.source <+: source ∧ r.Begins (source ++ after) ∧ ¬ r.Fits

/-- A reference whose index is too large, as an error. -/
def Reference.tooLarge (r : Reference) (start : Nat) : ParseError :=
  ⟨.numberTooLarge, ⟨start, start + byteLength r.source⟩⟩

/-- The tokens and the errors that a text falls into. -/
structure Tokenizes (text : String) (m : MessageTokens) : Prop where
  /-- From the start of the text on, where one token stops, the next one starts. -/
  adjacent : 0 :: m.tokens.map (·.span.stop) = m.tokens.map (·.span.start) ++ [m.stop]
  spelled : ∀ t ∈ m.tokens, ∃ source after, t.Covers text.toList source after ∧
    source ≠ [] ∧ t.item.SpelledBy source after
  /-- Only too many errors keep the tokens from going to the end of the text. -/
  stop_eq : m.errors.total < ErrorList.capacity → m.stop = text.utf8ByteSize
  total_le : m.errors.total ≤ ErrorList.capacity
  total_eq : m.errors.total = m.errors.stored.length
  ordered : m.errors.stored.Pairwise (·.span.start < ·.span.start)
  mem_errors_iff : ∀ e, e ∈ m.errors.stored ↔
    ∃ t ∈ m.tokens, ∃ r, t.StartsOversized text.toList r ∧ e = r.tooLarge t.span.start
  /-- Literal text right behind literal text starts with a reference whose index is too large. -/
  oversized_of_text : ∀ ts t t' ts', m.tokens = ts ++ t :: t' :: ts' → t.item.isText = true →
    t'.item.isText = true → ∃ r, t'.StartsOversized text.toList r

namespace Placed

variable {text : List Char} {p : Placed}

theorem covers (h : p.IsScanned text) :
    p.token.Covers text p.lexeme.source p.lexeme.rest := by
  obtain ⟨c, cs, htext, hp⟩ := h
  refine ⟨p.before, ?_, rfl⟩
  rw [htext, hp, Lexeme.source_append_rest]

/-- A lexeme says of itself whether it starts with a reference whose index is too large. -/
theorem startsOversized_iff (h : p.IsScanned text) {r : Reference} :
    p.token.StartsOversized text r ↔ p.lexeme.oversized = some r := by
  have hcovers := covers h
  obtain ⟨c, cs, htext, hp⟩ := h
  have hsource : p.lexeme.source ++ p.lexeme.rest = c :: cs := by
    rw [hp, Lexeme.source_append_rest]
  constructor
  · rintro ⟨-, source, after, ⟨before, htext', hspan⟩, -, hr, hfits⟩
    have hstart : byteLength p.before = byteLength before := congrArg Span.start hspan
    have hinj := append_inj_of_byteLength (htext.symm.trans htext') hstart
    rw [hp, (Lexeme.first_scan c cs).oversized_eq_some_iff, hinj.2]
    exact ⟨hr, hfits⟩
  · intro ho
    rw [hp] at ho
    obtain ⟨hr, hfits⟩ := (Lexeme.first_scan c cs).oversized_eq_some_iff.1 ho
    obtain ⟨hitem, hprefix⟩ := (Lexeme.first_scan c cs).isText_of_oversized ho
    rw [← hp] at hitem hprefix
    exact ⟨hitem, _, _, hcovers, hprefix, hsource ▸ hr, hfits⟩

theorem error?_eq_some_iff {e : ParseError} : p.error? = some e ↔
    ∃ r, p.lexeme.oversized = some r ∧ e = r.tooLarge p.token.span.start := by
  simp only [error?, Lexeme.error?, Option.map_eq_some_iff, eq_comm (a := e)]
  rfl

end Placed

namespace Falls

variable {text scanned : List Char} {ps : List Placed}

/-- The errors are those of the literal texts that start with a reference whose index is too
    large. -/
theorem mem_errors_iff (h : Falls [] text ps scanned) {e : ParseError} :
    e ∈ ps.filterMap Placed.error? ↔ ∃ t ∈ ps.map Placed.token, ∃ r,
      t.StartsOversized text r ∧ e = r.tooLarge t.span.start := by
  have hisScanned : ∀ p ∈ ps, p.IsScanned text := h.isScanned
  rw [List.mem_filterMap]
  constructor
  · rintro ⟨p, hp, he⟩
    obtain ⟨r, hr, rfl⟩ := Placed.error?_eq_some_iff.1 he
    exact ⟨p.token, List.mem_map_of_mem hp, r,
      (Placed.startsOversized_iff (hisScanned p hp)).2 hr, rfl⟩
  · rintro ⟨t, ht, r, hr, rfl⟩
    obtain ⟨p, hp, rfl⟩ := List.mem_map.1 ht
    have hr := (Placed.startsOversized_iff (hisScanned p hp)).1 hr
    exact ⟨p, hp, Placed.error?_eq_some_iff.2 ⟨r, hr, rfl⟩⟩

theorem pairwise_errors (h : Falls [] text ps scanned) :
    (ps.filterMap Placed.error?).Pairwise (·.span.start < ·.span.start) := by
  refine h.pairwise.2.filterMap _ fun p q hlt e he e' he' => ?_
  obtain ⟨r, -, rfl⟩ := Placed.error?_eq_some_iff.1 he
  obtain ⟨r', -, rfl⟩ := Placed.error?_eq_some_iff.1 he'
  exact hlt

theorem startsOversized_of_isText (h : Falls [] text ps scanned) {ts ts' : List (Located Token)}
    {t t' : Located Token} (hts : ps.map Placed.token = ts ++ t :: t' :: ts')
    (ht : t.item.isText = true) (ht' : t'.item.isText = true) :
    ∃ r, t'.StartsOversized text r := by
  obtain ⟨qs, pqs, rfl, -, hpqs⟩ := List.map_eq_append_iff.1 hts
  obtain ⟨p, qqs, rfl, rfl, hqqs⟩ := List.map_eq_cons_iff.1 hpqs
  obtain ⟨q, qs', rfl, rfl, -⟩ := List.map_eq_cons_iff.1 hqqs
  obtain ⟨r, hr⟩ := h.oversized_of_isText rfl ht ht'
  exact ⟨r, (Placed.startsOversized_iff (h.isScanned q (by simp))).2 hr⟩

end Falls

/-- A lexeme of the text is spelled where it is. -/
theorem Placed.exists_spelledBy {text : List Char} {p : Placed} (h : p.IsScanned text) :
    ∃ source after, p.token.Covers text source after ∧ source ≠ [] ∧
      p.token.item.SpelledBy source after := by
  refine ⟨_, _, covers h, ?_⟩
  obtain ⟨c, cs, -, hl⟩ := h
  rw [token, hl]
  exact ⟨Lexeme.source_ne_nil c cs, (Lexeme.first_scan c cs).spelledBy⟩

/-- What scanning finds in a text are the tokens and the errors of the text. -/
theorem MessageTokens.tokenizes_scan (text : String) : Tokenizes text (scan text.toList) := by
  obtain ⟨ps, scanned, hps, htokens, hstop, hcount, hstored, htotal, hscanned⟩ :=
    exists_falls_scan text.toList
  constructor
  case adjacent =>
    rw [htokens, hstop, List.map_map, List.map_map]
    exact hps.adjacent
  case spelled =>
    rw [htokens, List.forall_mem_map]
    exact fun p hp => Placed.exists_spelledBy (hps.isScanned p hp)
  case stop_eq =>
    intro h
    rw [hstop, hscanned h]
    exact byteLength_toList text
  case total_le => exact htotal
  case total_eq => rw [hcount, hstored]
  case ordered =>
    rw [hstored]
    exact hps.pairwise_errors
  case mem_errors_iff =>
    rw [hstored, htokens]
    exact fun e => hps.mem_errors_iff
  case oversized_of_text =>
    rw [htokens]
    exact fun ts t t' ts' hts => hps.startsOversized_of_isText hts

/-- Two literal texts in a row, because the index of the second reference is too large. -/
example :
    let m := MessageTokens.scan "#1 of #18446744073709551616.".toList
    m.tokens = [⟨.reference ⟨.message, 1⟩, ⟨0, 2⟩⟩, ⟨.text " of ", ⟨2, 6⟩⟩,
      ⟨.text "#18446744073709551616.", ⟨6, 28⟩⟩] ∧
    m.errors.stored = [⟨.numberTooLarge, ⟨6, 27⟩⟩] := by
  decide +kernel

end Inquiry
