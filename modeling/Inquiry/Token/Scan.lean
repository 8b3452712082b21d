import Inquiry.Message.Source
import Inquiry.Text.Blank
import Inquiry.Token.Basic
import Inquiry.Token.Reference

/-!
# Scanning

Splits a text into tokens, each with the span of bytes it comes from.

In a message, parentheses and references are tokens of their own, and the text
between them is literal. A reference whose index is too large is an error; it
is then taken as literal text. Scanning ends early when the error list is full.

A command starts with a word of ASCII letters, in any case, and modifiers: `@`
or `$` and digits. What comes next is separated by white space or starts with
an opening parenthesis, and is scanned as a message.

* `Lexeme.first_scan`: the ways in which a lexeme is taken off;
* `Lexeme.source_append_rest`: a lexeme and the rest of the text are the text;
* `Lexeme.length_rest_lt`: each lexeme takes at least one character, which is
  why scanning ends.
-/

namespace Inquiry

/-- Whether literal text stops in front of `c`, followed by `cs`. -/
def endsLiteral (c : Char) (cs : List Char) : Bool :=
  c == '(' || c == ')' || (Reference.scan? (c :: cs)).isSome

/-- Splits a text where literal text stops. An escaped character is literal. -/
def splitLiteral : List Char → List Char × List Char
  | [] => ([], [])
  | '\\' :: c :: cs =>
    if isEscapable c then
      let (literal, rest) := splitLiteral cs
      ('\\' :: c :: literal, rest)
    else
      let (literal, rest) := splitLiteral (c :: cs)
      ('\\' :: literal, rest)
  | c :: cs =>
    if endsLiteral c cs then ([], c :: cs)
    else
      let (literal, rest) := splitLiteral cs
      (c :: literal, rest)

/-- The first token of a text. -/
structure Lexeme where
  token : Token
  /-- The characters it is made of. -/
  source : List Char
  /-- The characters behind it. -/
  rest : List Char
  /-- A reference with too large an index that it starts with. -/
  oversized : Option Reference

/-- A literal text as a lexeme. -/
def Lexeme.literal (source rest : List Char) (oversized : Option Reference) : Lexeme where
  token := .text (String.ofList (unescape source))
  source
  rest
  oversized

/-- The first token of the text `c :: cs`. -/
def Lexeme.scan (c : Char) (cs : List Char) : Lexeme :=
  if c = '(' then ⟨.opening, [c], cs, none⟩
  else if c = ')' then ⟨.closing, [c], cs, none⟩
  else match Reference.scan? (c :: cs) with
    | none => .literal (splitLiteral (c :: cs)).1 (splitLiteral (c :: cs)).2 none
    | some (r, rest) =>
      match r.pointer? with
      | some p => ⟨.reference p, r.source, rest, none⟩
      | none => .literal (c :: (splitLiteral cs).1) (splitLiteral cs).2 (some r)

theorem splitLiteral_append (cs : List Char) :
    (splitLiteral cs).1 ++ (splitLiteral cs).2 = cs := by
  fun_induction splitLiteral cs <;> simp_all

theorem splitLiteral_ne_nil {c : Char} {cs : List Char} (h : endsLiteral c cs = false) :
    (splitLiteral (c :: cs)).1 ≠ [] := by
  rw [splitLiteral.eq_def]
  split
  · contradiction
  · split <;> simp
  · simp_all

namespace Lexeme

/-- The ways in which the first token of the text `c :: cs` is taken off. -/
inductive First (c : Char) (cs : List Char) : Lexeme → Prop
  | opening (hc : c = '(') : First c cs ⟨.opening, [c], cs, none⟩
  | closing (hc : c = ')') : First c cs ⟨.closing, [c], cs, none⟩
  | reference {r : Reference} {rest : List Char} {p : Pointer}
    (hr : Reference.scan? (c :: cs) = some (r, rest)) (hp : r.pointer? = some p) :
    First c cs ⟨.reference p, r.source, rest, none⟩
  | literal (he : endsLiteral c cs = false) :
    First c cs (.literal (splitLiteral (c :: cs)).1 (splitLiteral (c :: cs)).2 none)
  | oversized {r : Reference} {rest : List Char}
    (hr : Reference.scan? (c :: cs) = some (r, rest)) (hp : r.pointer? = none) :
    First c cs (.literal (c :: (splitLiteral cs).1) (splitLiteral cs).2 (some r))

theorem first_scan (c : Char) (cs : List Char) : First c cs (scan c cs) := by
  unfold scan
  split
  · next hc => exact .opening hc
  · next ho =>
    split
    · next hc => exact .closing hc
    · next hc =>
      split
      · next hr =>
        refine .literal ?_
        rw [endsLiteral, hr, beq_false_of_ne ho, beq_false_of_ne hc]
        rfl
      · next r rest hr =>
        split
        · next hp => exact .reference hr hp
        · next hp => exact .oversized hr hp

namespace First

variable {c : Char} {cs : List Char} {l : Lexeme}

theorem source_append_rest (h : First c cs l) : l.source ++ l.rest = c :: cs := by
  cases h with
  | opening => rfl
  | closing => rfl
  | reference hr hp => exact Reference.source_append_of_scan? hr
  | literal he => exact splitLiteral_append (c :: cs)
  | oversized hr hp => exact congrArg (List.cons c) (splitLiteral_append cs)

theorem source_ne_nil (h : First c cs l) : l.source ≠ [] := by
  cases h with
  | literal he => exact splitLiteral_ne_nil he
  | _ => exact List.cons_ne_nil _ _

end First

theorem source_append_rest (c : Char) (cs : List Char) :
    (scan c cs).source ++ (scan c cs).rest = c :: cs :=
  (first_scan c cs).source_append_rest

theorem source_ne_nil (c : Char) (cs : List Char) : (scan c cs).source ≠ [] :=
  (first_scan c cs).source_ne_nil

theorem length_rest_lt (c : Char) (cs : List Char) :
    (scan c cs).rest.length < cs.length + 1 := by
  have h := congrArg List.length (source_append_rest c cs)
  have := List.length_pos_iff.2 (source_ne_nil c cs)
  rw [List.length_append, List.length_cons] at h
  omega

/-- The error of a lexeme at offset `start`. -/
def error? (l : Lexeme) (start : Nat) : Option ParseError :=
  l.oversized.map fun r => ⟨.numberTooLarge, ⟨start, start + byteLength r.source⟩⟩

end Lexeme

namespace MessageTokens

/-- The same tokens with one more in front. -/
def cons (t : Located Token) (m : MessageTokens) : MessageTokens :=
  { m with tokens := t :: m.tokens }

/-- The tokens of a text that starts at offset `start`, after some errors. -/
def scanFrom (start : Nat) (errors : ErrorList) (cs : List Char) : MessageTokens :=
  match cs with
  | [] => ⟨[], start, errors⟩
  | c :: cs =>
    if ErrorList.capacity ≤ errors.total then ⟨[], start, errors⟩
    else
      let l := Lexeme.scan c cs
      let stop := start + byteLength l.source
      let errors := (l.error? start).elim errors errors.push
      (scanFrom stop errors l.rest).cons ⟨l.token, ⟨start, stop⟩⟩
termination_by cs.length
decreasing_by exact Lexeme.length_rest_lt _ _

/-- The tokens of a message. -/
def scan (cs : List Char) : MessageTokens :=
  scanFrom 0 .empty cs

end MessageTokens

/-- The modifier made of a marker and digits, unless the number is too large. -/
def Modifier.ofDigits? (marker : Char) (digits : List Char) : Option Modifier :=
  (Decimal.word? digits).map (if marker = '@' then .recipient else .budget)

/-- A run of modifiers: those that are well formed, the errors of the others,
    where the run ends and what is behind it. -/
structure Modifiers where
  found : List (Located Modifier)
  errors : ErrorList
  stop : Nat
  rest : List Char

namespace Modifiers

/-- The modifiers that a text at offset `start` begins with. -/
def scanFrom (start : Nat) (errors : ErrorList) (cs : List Char) : Modifiers :=
  match cs with
  | [] => ⟨[], errors, start, []⟩
  | c :: cs =>
    let digits := cs.takeWhile Char.isDigit
    if (c = '@' ∨ c = '$') ∧ digits ≠ [] then
      let span : Span := ⟨start, start + byteLength (c :: digits)⟩
      match Modifier.ofDigits? c digits with
      | some m =>
        let more := scanFrom span.stop errors (cs.dropWhile Char.isDigit)
        { more with found := ⟨m, span⟩ :: more.found }
      | none =>
        scanFrom span.stop (errors.push ⟨.numberTooLarge, span⟩) (cs.dropWhile Char.isDigit)
    else ⟨[], errors, start, c :: cs⟩
termination_by cs.length
decreasing_by
  all_goals
    have := (List.dropWhile_sublist (l := cs) Char.isDigit).length_le
    simp only [List.length_cons]
    omega

end Modifiers

namespace CommandTokens

/-- Whether a character is a letter a verb can be written with. -/
def isVerbLetter (c : Char) : Bool := c.isAlpha

/-- The message behind the head of a command: white space or an opening parenthesis
    has to separate the two, another character is an error. -/
def scanBody (start : Nat) (errors : ErrorList) (cs : List Char) : MessageTokens :=
  match cs with
  | [] => .scanFrom start errors []
  | c :: cs =>
    if Text.isBlank c then
      .scanFrom (start + byteLength ((c :: cs).takeWhile Text.isBlank)) errors
        ((c :: cs).dropWhile Text.isBlank)
    else if c = '(' then .scanFrom start errors (c :: cs)
    else
      let stop := start + c.utf8Size
      .scanFrom stop (errors.push ⟨.unexpectedCharacter c, ⟨start, stop⟩⟩) cs

/-- The tokens of a command. -/
def scan (cs : List Char) : CommandTokens :=
  let start := byteLength (cs.takeWhile Text.isBlank)
  let cs := cs.dropWhile Text.isBlank
  let word := cs.takeWhile isVerbLetter
  if word.isEmpty then ⟨none, .scanFrom start .empty cs⟩
  else
    let stop := start + byteLength word
    let modifiers := Modifiers.scanFrom stop .empty (cs.dropWhile isVerbLetter)
    let verb := ⟨String.ofList (word.map Char.toLower), ⟨start, stop⟩⟩
    ⟨some ⟨verb, modifiers.found⟩,
      scanBody modifiers.stop modifiers.errors modifiers.rest⟩

end CommandTokens

end Inquiry
