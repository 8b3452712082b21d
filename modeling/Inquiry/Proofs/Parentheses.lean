import Inquiry.Message.Reader

/-!
# Parentheses

Whether tokens are a message depends on their parentheses alone. The *depth*
after some tokens is the number of parentheses opened in them, less those
closed. Tokens are a message exactly if the depth stays between 0 and
`Message.nestingLimit` and ends at 0 (`Parentheses.Balanced`). If not, they have
one fault (`Parentheses.Fault`): the parenthesis that first takes the depth out
of its range or, if there is none, the innermost one that is still open at the
end.

The reader keeps the open parentheses on a stack and forgets those it has
closed. So what it has read falls into frames, one for each open parenthesis,
and in each of them, behind the parenthesis that opens it, everything opened is
closed (`Parentheses.Frames`).

* `Message.ofTokens_eq_error_iff`: the reader finds the fault;
* `Message.tryParse_parentheses`: a text is a message exactly if its scan is without
  errors and its parentheses are balanced; the errors are those of the scan and
  the fault, if there is one.
-/

namespace Inquiry

/-- What a token adds to the depth. -/
def Token.rise : Token → Int
  | .opening => 1
  | .closing => -1
  | .text _ => 0
  | .reference _ => 0

namespace Parentheses

/-- The number of parentheses opened in some tokens, less those closed. -/
def depth : List (Located Token) → Int
  | [] => 0
  | t :: ts => t.item.rise + depth ts

/-- The depth stays in its range. -/
def InRange (ts : List (Located Token)) : Prop :=
  ∀ before, before <+: ts → 0 ≤ depth before ∧ depth before ≤ Message.nestingLimit

/-- The depth stays in its range, and what is opened is closed. -/
def Balanced (ts : List (Located Token)) : Prop :=
  InRange ts ∧ depth ts = 0

/-- No more is closed than is opened, and all that is opened is closed. -/
structure Closed (ts : List (Located Token)) : Prop where
  nonneg : ∀ before, before <+: ts → 0 ≤ depth before
  depth_eq : depth ts = 0

/-- What is wrong with the parentheses of some tokens, and where. -/
inductive Fault (ts : List (Located Token)) : ParseError → Prop
  /-- One more is opened than may be open. -/
  | tooDeep {before after : List (Located Token)} {span : Span}
    (hts : ts = before ++ ⟨.opening, span⟩ :: after) (hr : InRange before)
    (hd : depth before = Message.nestingLimit) :
    Fault ts ⟨.nestingTooDeep Message.nestingLimit, span⟩
  /-- One is closed where none is open. -/
  | unmatched {before after : List (Located Token)} {span : Span}
    (hts : ts = before ++ ⟨.closing, span⟩ :: after) (hr : InRange before)
    (hd : depth before = 0) :
    Fault ts ⟨.unmatchedParen, span⟩
  /-- One is open at the end, and those opened behind it are not. -/
  | unclosed {before after : List (Located Token)} {span : Span}
    (hts : ts = before ++ ⟨.opening, span⟩ :: after) (hr : InRange ts) (ha : Closed after) :
    Fault ts ⟨.unclosedParen, span⟩

/-! ## Depth -/

@[simp]
theorem depth_nil : depth [] = 0 := rfl

@[simp]
theorem depth_cons (t : Located Token) (ts : List (Located Token)) :
    depth (t :: ts) = t.item.rise + depth ts := rfl

@[simp]
theorem depth_append (as bs : List (Located Token)) :
    depth (as ++ bs) = depth as + depth bs := by
  induction as with
  | nil => exact (Int.zero_add _).symm
  | cons t as ih => rw [List.cons_append, depth_cons, ih, depth_cons, Int.add_assoc]

theorem InRange.of_prefix {before ts : List (Located Token)} (h : InRange ts)
    (hb : before <+: ts) : InRange before :=
  fun _ hp => h _ (hp.trans hb)

theorem inRange_concat_iff {ts : List (Located Token)} {t : Located Token} :
    InRange (ts ++ [t]) ↔ InRange ts ∧ 0 ≤ depth ts + t.item.rise ∧
      depth ts + t.item.rise ≤ Message.nestingLimit := by
  constructor
  · intro h
    have ht := h _ List.prefix_rfl
    rw [depth_append, depth_cons, depth_nil, Int.add_zero] at ht
    exact ⟨h.of_prefix (List.prefix_append _ _), ht⟩
  · rintro ⟨h, ht⟩ before hb
    rcases List.prefix_concat_iff.1 hb with rfl | hb
    · rwa [depth_append, depth_cons, depth_nil, Int.add_zero]
    · exact h _ hb

namespace InRange

variable {ts : List (Located Token)}

/-- Text and references leave the depth as it is. -/
theorem concat (h : InRange ts) (t : Located Token) (ht : t.item.rise = 0) :
    InRange (ts ++ [t]) := by
  have hts := h _ List.prefix_rfl
  rw [inRange_concat_iff, ht, Int.add_zero]
  exact ⟨h, hts⟩

theorem concat_opening (h : InRange ts) (span : Span) (hd : depth ts < Message.nestingLimit) :
    InRange (ts ++ [⟨.opening, span⟩]) := by
  have hts := h _ List.prefix_rfl
  rw [inRange_concat_iff, Token.rise]
  exact ⟨h, by omega, by omega⟩

theorem concat_closing (h : InRange ts) (span : Span) (hd : 0 < depth ts) :
    InRange (ts ++ [⟨.closing, span⟩]) := by
  have hts := h _ List.prefix_rfl
  rw [inRange_concat_iff, Token.rise]
  exact ⟨h, by omega, by omega⟩

theorem not_concat_opening (span : Span) (hd : depth ts = Message.nestingLimit) :
    ¬ InRange (ts ++ [⟨.opening, span⟩]) := by
  rw [inRange_concat_iff, Token.rise]
  omega

theorem not_concat_closing (span : Span) (hd : depth ts = 0) :
    ¬ InRange (ts ++ [⟨.closing, span⟩]) := by
  rw [inRange_concat_iff, Token.rise]
  omega

end InRange

namespace Closed

variable {as bs : List (Located Token)}

theorem nil : Closed [] where
  nonneg before hb := by rw [List.prefix_nil.1 hb]; exact Int.le_refl 0
  depth_eq := rfl

theorem singleton (t : Located Token) (h : t.item.rise = 0) : Closed [t] where
  nonneg before hb := by
    rcases List.prefix_cons_iff.1 hb with rfl | ⟨rest, rfl, hr⟩
    · exact Int.le_refl 0
    · simp [List.prefix_nil.1 hr, h]
  depth_eq := by simp [h]

theorem append (ha : Closed as) (hb : Closed bs) : Closed (as ++ bs) where
  nonneg before hp := by
    obtain ⟨rest, hp⟩ := hp
    rcases List.append_eq_append_iff.1 hp with ⟨cs, hc, -⟩ | ⟨cs, rfl, hc⟩
    · exact ha.nonneg _ ⟨cs, hc.symm⟩
    · rw [depth_append, ha.depth_eq, Int.zero_add]
      exact hb.nonneg _ ⟨rest, hc.symm⟩
  depth_eq := by rw [depth_append, ha.depth_eq, hb.depth_eq]; rfl

/-- Parentheses around what is closed are closed. -/
theorem enclose (ha : Closed as) (opened closed : Span) :
    Closed (⟨.opening, opened⟩ :: as ++ [⟨.closing, closed⟩]) where
  nonneg before hp := by
    rcases List.prefix_concat_iff.1 hp with rfl | hp
    · simp [ha.depth_eq, Token.rise]
    · rcases List.prefix_cons_iff.1 hp with rfl | ⟨inner, rfl, hi⟩
      · exact Int.le_refl 0
      · have := ha.nonneg inner hi
        rw [depth_cons, Token.rise]
        omega
  depth_eq := by simp [ha.depth_eq, Token.rise]

end Closed

/-! ## Frames -/

/-- What has been read falls into frames: what is closed, and then for each open parenthesis,
    the outermost one first, itself and what is closed behind it. -/
inductive Frames : List (Located Token) → List Span → Prop
  | outermost {ts : List (Located Token)} (h : Closed ts) : Frames ts []
  | opened {outer inner : List (Located Token)} {spans : List Span} {span : Span}
    (ho : Frames outer spans) (hi : Closed inner) :
    Frames (outer ++ ⟨.opening, span⟩ :: inner) (span :: spans)

namespace Frames

variable {ts : List (Located Token)} {spans : List Span} {span : Span}

theorem depth_eq (h : Frames ts spans) : depth ts = spans.length := by
  induction h with
  | outermost h => exact h.depth_eq
  | opened ho hi ih =>
    rw [depth_append, depth_cons, hi.depth_eq, ih, List.length_cons, Token.rise]
    omega

/-- What is closed goes into the innermost frame. -/
theorem append (h : Frames ts spans) {as : List (Located Token)} (ha : Closed as) :
    Frames (ts ++ as) spans := by
  cases h with
  | outermost h => exact .outermost (h.append ha)
  | opened ho hi =>
    rw [List.append_assoc, List.cons_append]
    exact .opened ho (hi.append ha)

theorem push (h : Frames ts spans) : Frames (ts ++ [⟨.opening, span⟩]) (span :: spans) :=
  .opened h .nil

/-- The innermost frame, once it is closed, goes into the one around it. -/
theorem pop (h : Frames ts (span :: spans)) (closed : Span) :
    Frames (ts ++ [⟨.closing, closed⟩]) spans := by
  cases h with
  | opened ho hi =>
    rw [List.append_assoc]
    exact ho.append (hi.enclose span closed)

end Frames

/-! ## The reader -/

variable {C : Type}

/-- Reading on comes to a message, or to the fault of all that there was to read. -/
theorem readTokens_spec {before : List (Located Token)} {opened : List (Span × Draft C)}
    (draft : Draft C) (ts : List (Located Token)) (hf : Frames before (opened.map (·.1)))
    (hr : InRange before) :
    match Message.readTokens opened draft ts with
    | .ok _ => Balanced (before ++ ts)
    | .error e => Fault (before ++ ts) e := by
  -- There is a frame for each entry of the stack, so its length is the depth.
  fun_induction Message.readTokens opened draft ts generalizing before with
  | case1 draft =>
    rw [List.append_nil]
    exact ⟨hr, hf.depth_eq⟩
  | case2 draft span outer opened =>
    rw [List.append_nil]
    cases hf with
    | opened ho hi => exact .unclosed rfl hr hi
  | case3 opened draft t span ts ih =>
    rw [List.append_cons]
    exact ih (hf.append (.singleton _ rfl)) (hr.concat _ rfl)
  | case4 opened draft p span ts ih =>
    rw [List.append_cons]
    exact ih (hf.append (.singleton _ rfl)) (hr.concat _ rfl)
  | case5 opened draft span ts hfull =>
    have hd := hf.depth_eq
    have hmax := (hr _ List.prefix_rfl).2
    rw [List.length_map] at hd
    exact .tooDeep rfl hr (by omega)
  | case6 opened draft span ts hfull ih =>
    have hd := hf.depth_eq
    rw [List.length_map] at hd
    rw [List.append_cons]
    exact ih hf.push (hr.concat_opening span (by omega))
  | case7 draft span ts =>
    exact .unmatched rfl hr hf.depth_eq
  | case8 draft span ts opener outer opened ih =>
    have hd := hf.depth_eq
    rw [List.length_map, List.length_cons] at hd
    rw [List.append_cons]
    exact ih (hf.pop span) (hr.concat_closing span (by omega))

/-- Reading tokens comes to a message or to their fault. -/
theorem ofTokens_spec (ts : List (Located Token)) :
    match (Message.ofTokens ts : Except ParseError (Message C)) with
    | .ok _ => Balanced ts
    | .error e => Fault ts e :=
  readTokens_spec .empty ts (.outermost .nil)
    fun before hb => by rw [List.prefix_nil.1 hb]; decide

/-! ## One fault -/

section

variable {ts before before' after after' : List (Located Token)} {t t' : Located Token}

/-- Of two places in a list, one comes first, if they are not the same. -/
theorem trichotomy (h : ts = before ++ t :: after) (h' : ts = before' ++ t' :: after') :
    (before = before' ∧ t = t' ∧ after = after') ∨
      (∃ mid, before' = before ++ t :: mid ∧ after = mid ++ t' :: after') ∨
      ∃ mid, before = before' ++ t' :: mid ∧ after' = mid ++ t :: after := by
  rcases List.append_eq_append_iff.1 (h.symm.trans h') with ⟨mid, hb, hm⟩ | ⟨mid, hb, hm⟩
  · rcases List.cons_eq_append_iff.1 hm with ⟨rfl, hc⟩ | ⟨mid, rfl, hc⟩
    · obtain ⟨rfl, rfl⟩ := List.cons.inj hc
      exact .inl ⟨by rw [hb, List.append_nil], rfl, rfl⟩
    · exact .inr (.inl ⟨mid, hb, hc⟩)
  · rcases List.cons_eq_append_iff.1 hm with ⟨rfl, hc⟩ | ⟨mid, rfl, hc⟩
    · obtain ⟨rfl, rfl⟩ := List.cons.inj hc
      exact .inl ⟨by rw [hb, List.append_nil], rfl, rfl⟩
    · exact .inr (.inr ⟨mid, hb, hc⟩)

/-- The depth leaves its range at one token only. -/
theorem eq_of_not_inRange (h : ts = before ++ t :: after) (h' : ts = before' ++ t' :: after')
    (hr : InRange before) (hr' : InRange before') (hn : ¬ InRange (before ++ [t]))
    (hn' : ¬ InRange (before' ++ [t'])) : t = t' := by
  rcases trichotomy h h' with ⟨-, ht, -⟩ | ⟨mid, rfl, -⟩ | ⟨mid, rfl, -⟩
  · exact ht
  · exact absurd (hr'.of_prefix ⟨mid, (List.append_cons ..).symm⟩) hn
  · exact absurd (hr.of_prefix ⟨mid, (List.append_cons ..).symm⟩) hn'

/-- Only one parenthesis has everything behind it closed. -/
theorem eq_of_closed {span span' : Span} (h : ts = before ++ ⟨.opening, span⟩ :: after)
    (h' : ts = before' ++ ⟨.opening, span'⟩ :: after') (hc : Closed after)
    (hc' : Closed after') : span = span' := by
  -- Of two, the first one has the second one behind it, open at the end.
  have absurd {mid after after' : List (Located Token)} {span : Span} (hc : Closed after)
      (hc' : Closed after') (h : after = mid ++ ⟨.opening, span⟩ :: after') : False := by
    have hm := hc.nonneg mid ⟨_, h.symm⟩
    have hd := hc.depth_eq
    rw [h, depth_append, depth_cons, hc'.depth_eq, Token.rise] at hd
    omega
  rcases trichotomy h h' with ⟨-, ht, -⟩ | ⟨mid, -, hm⟩ | ⟨mid, -, hm⟩
  · exact congrArg Located.span ht
  · exact (absurd hc hc' hm).elim
  · exact (absurd hc' hc hm).elim

end

/-- What is wrong where a token takes the depth out of its range. -/
def excess (t : Located Token) : ParseError :=
  match t.item with
  | .opening => ⟨.nestingTooDeep Message.nestingLimit, t.span⟩
  | _ => ⟨.unmatchedParen, t.span⟩

namespace Fault

variable {ts : List (Located Token)} {e e' : ParseError}

/-- The fault is where the depth leaves its range, or it does not leave it. -/
theorem excess_or_unclosed (h : Fault ts e) :
    (∃ before t after, ts = before ++ t :: after ∧ InRange before ∧ ¬ InRange (before ++ [t]) ∧
      e = excess t) ∨
    (InRange ts ∧ ∃ before span after, ts = before ++ ⟨.opening, span⟩ :: after ∧ Closed after ∧
      e = ⟨.unclosedParen, span⟩) := by
  cases h with
  | tooDeep hts hr hd => exact .inl ⟨_, _, _, hts, hr, InRange.not_concat_opening _ hd, rfl⟩
  | unmatched hts hr hd => exact .inl ⟨_, _, _, hts, hr, InRange.not_concat_closing _ hd, rfl⟩
  | unclosed hts hr ha => exact .inr ⟨hr, _, _, _, hts, ha, rfl⟩

theorem not_inRange {before after : List (Located Token)} {t : Located Token}
    (hts : ts = before ++ t :: after) (hn : ¬ InRange (before ++ [t])) : ¬ InRange ts :=
  fun hr => hn (hr.of_prefix ⟨after, by rw [hts, ← List.append_cons]⟩)

/-- With a fault, the depth leaves its range or does not end at 0. -/
theorem not_balanced (h : Fault ts e) : ¬ Balanced ts := by
  rintro ⟨hr, hd⟩
  rcases h.excess_or_unclosed with ⟨_, _, _, hts, -, hn, -⟩ | ⟨-, before, _, _, hts, ha, -⟩
  · exact not_inRange hts hn hr
  · have hb := (hr before ⟨_, hts.symm⟩).1
    rw [hts, depth_append, depth_cons, ha.depth_eq, Token.rise] at hd
    omega

theorem unique (h : Fault ts e) (h' : Fault ts e') : e = e' := by
  rcases h.excess_or_unclosed with ⟨_, t, _, hts, hb, hn, rfl⟩ | ⟨hr, _, _, _, hts, ha, rfl⟩
  · rcases h'.excess_or_unclosed with ⟨_, t', _, hts', hb', hn', rfl⟩ | ⟨hr, -⟩
    · rw [eq_of_not_inRange hts hts' hb hb' hn hn']
    · exact absurd hr (not_inRange hts hn)
  · rcases h'.excess_or_unclosed with ⟨_, _, _, hts', -, hn, -⟩ | ⟨-, _, _, _, hts', ha', rfl⟩
    · exact absurd hr (not_inRange hts' hn)
    · rw [eq_of_closed hts hts' ha ha']

end Fault

end Parentheses

/-! ## Messages -/

namespace ErrorList

/-- The first error is stored, if there are any. -/
def KeepsFirst (l : ErrorList) : Prop :=
  l = .empty ∨ (l.hasErrors ∧ l.first?.isSome)

theorem keepsFirst_push (l : ErrorList) (e : ParseError) : (l.push e).KeepsFirst := by
  refine .inr ⟨decide_eq_true (Nat.succ_pos _), ?_⟩
  rw [first?, stored_push]
  cases hs : l.stored with
  | nil => rfl
  | cons e' es => split <;> rfl

end ErrorList

theorem MessageTokens.keepsFirst_scanFrom (start : Nat) {errors : ErrorList} (cs : List Char)
    (h : errors.KeepsFirst) : (scanFrom start errors cs).errors.KeepsFirst := by
  fun_induction scanFrom start errors cs with
  | case1 => exact h
  | case2 => exact h
  | case3 start errors c cs hlt l stop errors' ih =>
    refine ih ?_
    subst errors'
    cases l.error? start with
    | none => exact h
    | some e => exact errors.keepsFirst_push e

open Parentheses

variable {C : Type}

namespace Message

/-- The reader finds the fault. -/
theorem ofTokens_eq_error_iff {ts : List (Located Token)} {e : ParseError} :
    (ofTokens ts : Except ParseError (Message C)) = .error e ↔ Fault ts e := by
  have h := ofTokens_spec (C := C) ts
  constructor
  · intro he
    rwa [he] at h
  · intro hf
    split at h
    · exact absurd h hf.not_balanced
    · next e' he => rw [he, h.unique hf]

theorem exists_ofTokens_eq_ok_iff {ts : List (Located Token)} :
    (∃ m : Message C, ofTokens ts = .ok m) ↔ Balanced ts := by
  have h := ofTokens_spec (C := C) ts
  constructor
  · rintro ⟨m, hm⟩
    rwa [hm] at h
  · intro hb
    split at h
    · next m hm => exact ⟨m, hm⟩
    · exact absurd hb h.not_balanced

/-- A text is a message exactly if its scan is without errors and its parentheses are balanced.
    Otherwise the errors, of which there is one at least, are those of the scan and, if the
    parentheses are not balanced, their one fault. -/
theorem tryParse_parentheses (text : String) :
    let scanned := MessageTokens.scan text.toList
    ((∃ m : Message C, tryParse text = .ok m) ↔
        scanned.errors = .empty ∧ Balanced scanned.tokens) ∧
      ∀ errors, (tryParse text : Except ErrorList (Message C)) = .error errors →
        errors.first?.isSome ∧
          ((Balanced scanned.tokens ∧ errors = scanned.errors) ∨
            (¬ Balanced scanned.tokens ∧ ∃ e, (∀ e', Fault scanned.tokens e' ↔ e' = e) ∧
              errors = scanned.errors.push e)) := by
  intro scanned
  have hfirst : scanned.errors.KeepsFirst := MessageTokens.keepsFirst_scanFrom _ _ (.inl rfl)
  have h := ofTokens_spec (C := C) scanned.tokens
  have ht : (tryParse text : Except ErrorList (Message C)) =
    scanned.errors.conclude (ofTokens scanned.tokens) := rfl
  rw [ht]
  cases ho : (ofTokens scanned.tokens : Except ParseError (Message C)) with
  | ok m =>
    rw [ho] at h
    -- Only the scan can have met errors.
    rcases hfirst with hnone | ⟨hsome, hone⟩
    · rw [hnone]
      refine ⟨⟨fun _ => ⟨rfl, h⟩, fun _ => ⟨m, rfl⟩⟩, ?_⟩
      rintro errors he
      cases he
    · rw [ErrorList.conclude, if_pos hsome]
      refine ⟨⟨?_, ?_⟩, ?_⟩
      · rintro ⟨m, hm⟩
        cases hm
      · rintro ⟨hnone, _⟩
        rw [hnone] at hsome
        cases hsome
      · rintro errors he
        cases he
        exact ⟨hone, .inl ⟨h, rfl⟩⟩
  | error e =>
    rw [ho] at h
    refine ⟨⟨?_, fun hb => absurd hb.2 h.not_balanced⟩, ?_⟩
    · rintro ⟨m, hm⟩
      cases hm
    rintro errors he
    cases he
    -- The fault comes behind the errors of the scan.
    have hone : (scanned.errors.push e).first?.isSome := by
      rcases scanned.errors.keepsFirst_push e with hnone | ⟨_, hone⟩
      · cases congrArg ErrorList.total hnone
      · exact hone
    exact ⟨hone, .inr ⟨h.not_balanced, e, fun e' => ⟨fun h' => h'.unique h, fun h' => h' ▸ h⟩,
      rfl⟩⟩

end Message

end Inquiry
