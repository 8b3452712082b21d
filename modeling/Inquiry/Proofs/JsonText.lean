import Inquiry.Json.Reader
import Inquiry.Json.Writer

/-!
# JSON that is written is read back

The text of a value is read back as the value, however deep it nests. The numbers
in it have to be plain numerals and the strings and keys have to have a text, which
is all that a document ever holds (`Json.Proper`).

The way back goes over the tokens of a value (`Json.tokens`). Their texts follow
each other without white space, and the one place where it matters what comes next
is a number: digits, a point or an `e` would go on with it. But behind a value comes
a comma, the end of an array or object, or nothing (`Json.Follows`). Then the tokens
are read, under any stack of opened arrays and objects.

* `Json.scanString_writeString`: what is written between quotes is the text again;
* `Json.scan_writeChars`: a written value falls into its tokens;
* `Json.readValue_tokens`: the tokens of a value are read as the value;
* `Json.read_write`: a value is read back from its text.
-/

namespace Inquiry.Json

/-- Values of which documents are made. -/
inductive Proper : Json → Prop
  | null : Proper .null
  | bool (b : Bool) : Proper (.bool b)
  | nat (n : Nat) : Proper (.nat n)
  | text (t : String) : Proper (.text t)
  | array {items : List Json} (h : ∀ v ∈ items, Proper v) : Proper (.array items)
  | object {members : List (Option String × Json)} (hkeys : ∀ m ∈ members, m.1.isSome)
    (h : ∀ m ∈ members, Proper m.2) : Proper (.object members)

namespace Proper

theorem list {α : Type} {encode : α → Json} {l : List α} (h : ∀ a ∈ l, Proper (encode a)) :
    Proper (.list encode l) := by
  refine .array fun v hv => ?_
  obtain ⟨a, ha, rfl⟩ := List.mem_map.1 hv
  exact h a ha

theorem record {members : List (String × Json)} (h : ∀ m ∈ members, Proper m.2) :
    Proper (.record members) := by
  refine .object (fun m hm => ?_) fun m hm => ?_
  · obtain ⟨_, _, rfl⟩ := List.mem_map.1 hm
    rfl
  · obtain ⟨m', hm', rfl⟩ := List.mem_map.1 hm
    exact h m' hm'

end Proper

mutual

/-- The tokens of a value. -/
def tokens : Json → List Token
  | .null => [.null]
  | .bool b => [.bool b]
  | .number literal => [.number literal]
  | .string t => [.string t]
  | .array [] => [.openArray, .closeArray]
  | .array (v :: vs) => .openArray :: (v.tokens ++ itemTokens vs ++ [.closeArray])
  | .object [] => [.openObject, .closeObject]
  | .object ((k, v) :: ms) =>
    .openObject :: .string k :: .colon :: (v.tokens ++ memberTokens ms ++ [.closeObject])

/-- The tokens of further values of an array. -/
def itemTokens : List Json → List Token
  | [] => []
  | v :: vs => .comma :: (v.tokens ++ itemTokens vs)

/-- The tokens of further members of an object. -/
def memberTokens : List (Option String × Json) → List Token
  | [] => []
  | (k, v) :: ms => .comma :: .string k :: .colon :: (v.tokens ++ memberTokens ms)

end

/-! ## Strings -/

/-- A control character is written as its number. -/
theorem ofHex?_control {c : Char} (h : c.toNat < 0x20) :
    StringUnit.ofHex? '0' '0' (Nat.digitChar (c.toNat / 16)) (Nat.digitChar (c.toNat % 16)) =
      some (.char c) := by
  have hdigit : ∀ d < 16, hexValue? (Nat.digitChar d) = some d := by decide
  have hzero : hexValue? '0' = some 0 := rfl
  have hcode : (0 * 16 + 0) * 256 + (c.toNat / 16 * 16 + c.toNat % 16) = c.toNat := by omega
  simp only [StringUnit.ofHex?, hzero, hdigit (c.toNat / 16) (by omega),
    hdigit (c.toNat % 16) (by omega), Option.bind_eq_bind, Option.bind_some, hcode]
  rw [if_neg (by omega), Char.ofNat_toNat]
  rfl

theorem scanString_escape {e c : Char} (he : ofEscape? e = some c) (cs : List Char) :
    scanString ('\\' :: e :: cs) = (scanString cs).map fun p => (.char c :: p.1, p.2) := by
  have hu : e ≠ 'u' := by
    rintro rfl
    cases he
  rw [scanString, he]
  · cases scanString cs <;> rfl
  · exact fun _ _ _ _ _ h => absurd h hu

theorem scanString_plain {c : Char} (hquote : c ≠ '"') (hslash : c ≠ '\\')
    (hcontrol : ¬ c.toNat < 0x20) (cs : List Char) :
    scanString (c :: cs) = (scanString cs).map fun p => (.char c :: p.1, p.2) := by
  rw [scanString.eq_def]
  split
  · contradiction
  · next hc => exact absurd (List.cons.inj hc).1 hquote
  · next hc => exact absurd (List.cons.inj hc).1 hslash
  · next hc => exact absurd (List.cons.inj hc).1 hslash
  · next hc =>
    obtain ⟨rfl, rfl⟩ := List.cons.inj hc
    rw [if_neg (not_or.2 ⟨hcontrol, hslash⟩)]
    cases scanString cs <;> rfl

theorem scanString_writeChar (c : Char) (cs : List Char) :
    scanString (writeChar c ++ cs) = (scanString cs).map fun p => (.char c :: p.1, p.2) := by
  fun_cases writeChar c with
  | case8 c _ _ _ _ _ _ _ hc =>
    simp only [List.cons_append, List.nil_append, scanString, ofHex?_control hc]
    cases scanString cs <;> rfl
  | case9 c hquote hslash _ _ _ _ _ hc => exact scanString_plain hquote hslash hc cs
  | _ => exact scanString_escape rfl cs

/-- The text between quotes is the text that was written there. -/
theorem scanString_flatMap (t cs : List Char) :
    scanString (t.flatMap writeChar ++ '"' :: cs) = some (t.map .char, cs) := by
  induction t with
  | nil => rfl
  | cons c t ih => rw [List.flatMap_cons, List.append_assoc, scanString_writeChar, ih]; rfl

theorem joinUnits_map_char (t : List Char) : joinUnits (t.map .char) = some t := by
  induction t with
  | nil => rfl
  | cons c t ih => rw [List.map_cons, joinUnits, ih]; rfl

/-! ## Numbers -/

/-- What may come behind a value: nothing, a comma, or the end of what the value is in. -/
inductive Follows : List Char → Prop
  | nil : Follows []
  | comma (cs : List Char) : Follows (',' :: cs)
  | closeArray (cs : List Char) : Follows (']' :: cs)
  | closeObject (cs : List Char) : Follows ('\x7d' :: cs)

namespace Follows

variable {cs : List Char}

theorem endsDigits (h : Follows cs) : EndsDigits cs := by
  cases h with
  | nil => rfl
  | _ => exact .cons rfl

theorem scanFraction_eq (h : Follows cs) : scanFraction cs = some ([], cs) := by
  cases h <;> rfl

theorem scanExponent_eq (h : Follows cs) : scanExponent cs = some ([], cs) := by
  cases h <;> rfl

theorem items (vs : List Json) : Follows (writeItems vs ++ ']' :: cs) := by
  cases vs with
  | nil => exact .closeArray cs
  | cons v vs => exact .comma _

theorem members (ms : List (Option String × Json)) :
    Follows (writeMembers ms ++ '\x7d' :: cs) := by
  cases ms with
  | nil => exact .closeObject cs
  | cons m ms => exact .comma _

theorem scanWhole_digits (h : Follows cs) (n : Nat) :
    scanWhole (Decimal.digits n ++ cs) = some (Decimal.digits n, cs) := by
  have hdigit := fun c => Decimal.isDigit_of_mem_digits (n := n) (c := c)
  have hscan : scanDigits (Decimal.digits n ++ cs) = some (Decimal.digits n, cs) := by
    rw [scanDigits, h.endsDigits.takeWhile_append hdigit, h.endsDigits.dropWhile_append hdigit,
      List.isEmpty_eq_false_iff.2 (Decimal.digits_ne_nil n)]
    rfl
  -- Only the numeral of zero starts with a zero, and it has one digit.
  have hzero : ¬ ((Decimal.digits n).head? = some '0' ∧ (Decimal.digits n).length ≠ 1) := by
    rintro ⟨hhead, hlength⟩
    rw [Decimal.head?_digits hhead] at hlength
    exact hlength rfl
  simpa [scanWhole, hscan] using hzero

theorem scanNumber_digits (h : Follows cs) (n : Nat) :
    scanNumber (Decimal.digits n ++ cs) = some (Decimal.digits n, cs) := by
  simp [scanNumber, h.scanWhole_digits n, h.scanFraction_eq, h.scanExponent_eq]

end Follows

/-! ## Scanning -/

namespace Token

theorem scan_of_scan? {c : Char} {cs rest : List Char} {t : Token} (hc : isSpace c = false)
    (h : scan? c cs = some (t, rest)) : scan (c :: cs) = (scan rest).map (t :: ·) := by
  rw [scan, hc, if_neg Bool.false_ne_true]
  split
  · next hn => rw [h] at hn; cases hn
  · next hs =>
    obtain ⟨rfl, rfl⟩ := Prod.mk.inj (Option.some.inj (h.symm.trans hs))
    rfl

theorem isSpace_of_isDigit {c : Char} (h : c.isDigit = true) : isSpace c = false := by
  refine Bool.eq_false_iff.2 fun hc => ?_
  simp only [isSpace, Bool.or_eq_true, beq_iff_eq] at hc
  rcases hc with ((rfl | rfl) | rfl) | rfl <;> cases h

theorem scan?_of_isDigit {c : Char} (h : c.isDigit = true) {cs literal rest : List Char}
    (hn : scanNumber (c :: cs) = some (literal, rest)) :
    scan? c cs = some (.number literal, rest) := by
  unfold scan?
  split <;> first
    | cases h
    | rw [hn]; rfl

theorem scan_digits (n : Nat) {cs : List Char} (h : Follows cs) :
    scan (Decimal.digits n ++ cs) = (scan cs).map (.number (Decimal.digits n) :: ·) := by
  have hscan := h.scanNumber_digits n
  obtain ⟨d, ds, hds⟩ := List.exists_cons_of_ne_nil (Decimal.digits_ne_nil n)
  have hd : d.isDigit = true := Decimal.isDigit_of_mem_digits (n := n) (hds ▸ List.mem_cons_self)
  rw [hds, List.cons_append] at hscan ⊢
  exact scan_of_scan? (isSpace_of_isDigit hd) (scan?_of_isDigit hd hscan)

theorem writeString_append (t : String) (cs : List Char) :
    writeString (some t) ++ cs = '"' :: (t.toList.flatMap writeChar ++ '"' :: cs) := by
  change '"' :: t.toList.flatMap writeChar ++ ['"'] ++ cs = _
  rw [List.cons_append, List.cons_append, List.append_assoc, List.singleton_append]

theorem scan_writeString (t : String) (cs : List Char) :
    scan (writeString (some t) ++ cs) = (scan cs).map (.string (some t) :: ·) := by
  have hscan : scan? '"' (t.toList.flatMap writeChar ++ '"' :: cs) =
      some (.string (some t), cs) := by
    rw [scan?, scanString_flatMap]
    simp [joinUnits_map_char]
  rw [writeString_append]
  exact scan_of_scan? rfl hscan

end Token

/-- A value falls into its tokens, whatever may come behind it. -/
def Scans (v : Json) : Prop :=
  ∀ cs, Follows cs → Token.scan (v.writeChars ++ cs) = (Token.scan cs).map (v.tokens ++ ·)

namespace Scans

variable {v : Json} (hv : Scans v) {cs : List Char} {ts : List Token → List Token}
include hv

theorem append_items {vs : List Json}
    (h : Token.scan (writeItems vs ++ ']' :: cs) = (Token.scan cs).map ts) :
    Token.scan (v.writeChars ++ (writeItems vs ++ ']' :: cs)) =
      (Token.scan cs).map (v.tokens ++ ts ·) := by
  rw [hv _ (.items vs), h, Option.map_map]
  rfl

/-- A member of an object, behind the character before it. -/
theorem append_members {ms : List (Option String × Json)} {k : Option String} (hk : k.isSome)
    (h : Token.scan (writeMembers ms ++ '\x7d' :: cs) = (Token.scan cs).map ts) :
    Token.scan (writeString k ++ ':' :: (v.writeChars ++ (writeMembers ms ++ '\x7d' :: cs))) =
      (Token.scan cs).map (.string k :: .colon :: v.tokens ++ ts ·) := by
  obtain ⟨t, rfl⟩ := Option.isSome_iff_exists.1 hk
  rw [Token.scan_writeString, Token.scan_of_scan? rfl rfl, hv _ (.members ms), h]
  simp only [Option.map_map, Function.comp_def, List.cons_append]

end Scans

theorem scan_writeItems {vs : List Json} (hvs : ∀ v ∈ vs, Scans v) (cs : List Char) :
    Token.scan (writeItems vs ++ ']' :: cs) =
      (Token.scan cs).map (itemTokens vs ++ .closeArray :: ·) := by
  induction vs with
  | nil => exact Token.scan_of_scan? rfl rfl
  | cons v vs ih =>
    have hrest := ih fun w hw => hvs w (List.mem_cons_of_mem _ hw)
    have hv := (hvs v List.mem_cons_self).append_items hrest
    simp only [writeItems, itemTokens, List.cons_append, List.append_assoc]
    rw [Token.scan_of_scan? rfl rfl, hv, Option.map_map]
    rfl

theorem scan_writeMembers {ms : List (Option String × Json)} (hkeys : ∀ m ∈ ms, m.1.isSome)
    (hms : ∀ m ∈ ms, Scans m.2) (cs : List Char) :
    Token.scan (writeMembers ms ++ '\x7d' :: cs) =
      (Token.scan cs).map (memberTokens ms ++ .closeObject :: ·) := by
  induction ms with
  | nil => exact Token.scan_of_scan? rfl rfl
  | cons m ms ih =>
    have hrest := ih (fun m hm => hkeys m (List.mem_cons_of_mem _ hm))
      fun m hm => hms m (List.mem_cons_of_mem _ hm)
    have hm := (hms m List.mem_cons_self).append_members (hkeys m List.mem_cons_self) hrest
    simp only [writeMembers, memberTokens, List.cons_append, List.append_assoc]
    rw [Token.scan_of_scan? rfl rfl, hm, Option.map_map]
    rfl

/-- A written value falls into its tokens. -/
theorem scan_writeChars {v : Json} (hv : Proper v) : Scans v := by
  induction hv with
  | null => exact fun _ _ => Token.scan_of_scan? rfl rfl
  | bool b => cases b <;> exact fun _ _ => Token.scan_of_scan? rfl rfl
  | nat n => exact fun _ h => Token.scan_digits n h
  | text t => exact fun cs _ => Token.scan_writeString t cs
  | @array items hitems ih =>
    intro cs _
    cases items with
    | nil =>
      change Token.scan ('[' :: ']' :: cs) = _
      rw [Token.scan_of_scan? rfl rfl, Token.scan_of_scan? rfl rfl, Option.map_map]
      rfl
    | cons v vs =>
      have hrest := scan_writeItems (fun w hw => ih w (List.mem_cons_of_mem _ hw)) cs
      have hv := (ih v List.mem_cons_self).append_items hrest
      simp only [writeChars, tokens, List.cons_append, List.append_assoc, List.nil_append]
      rw [Token.scan_of_scan? rfl rfl, hv, Option.map_map]
      rfl
  | @object members hkeys hmembers ih =>
    intro cs _
    cases members with
    | nil =>
      change Token.scan ('\x7b' :: '\x7d' :: cs) = _
      rw [Token.scan_of_scan? rfl rfl, Token.scan_of_scan? rfl rfl, Option.map_map]
      rfl
    | cons m ms =>
      have hrest := scan_writeMembers (fun m hm => hkeys m (List.mem_cons_of_mem _ hm))
        (fun m hm => ih m (List.mem_cons_of_mem _ hm)) cs
      have hm := (ih m List.mem_cons_self).append_members (hkeys m List.mem_cons_self) hrest
      simp only [writeChars, tokens, List.cons_append, List.append_assoc, List.nil_append]
      rw [Token.scan_of_scan? rfl rfl, hm, Option.map_map]
      rfl

/-! ## Reading -/

/-- Tokens that do not go on with a string as the key of a member. -/
def NoColon (ts : List Token) : Prop := ∀ ts', ts ≠ .colon :: ts'

theorem NoColon.nil : NoColon [] := by
  intro ts' h
  cases h

theorem NoColon.items (vs : List Json) (ts : List Token) :
    NoColon (itemTokens vs ++ .closeArray :: ts) := by
  cases vs <;> exact fun _ h => nomatch h

theorem NoColon.members (ms : List (Option String × Json)) (ts : List Token) :
    NoColon (memberTokens ms ++ .closeObject :: ts) := by
  cases ms <;> exact fun _ h => nomatch h

/-- A value is read from its tokens, and what comes behind them is read on. -/
def Reads (v : Json) : Prop :=
  ∀ opened ts, NoColon ts → readValue opened (v.tokens ++ ts) = readOn opened v ts

/-- No value starts with the end of an array. -/
theorem readValue_openArray (opened : List Opened) (v : Json) (ts : List Token) :
    readValue opened (.openArray :: (v.tokens ++ ts)) =
      readValue (.array [] :: opened) (v.tokens ++ ts) := by
  fun_cases tokens v <;> simp [readValue]

/-- No value is the key of a member. -/
theorem readOn_comma (opened : List Opened) (items : List Json) (u v : Json) {ts : List Token}
    (h : NoColon ts) :
    readOn (.array items :: opened) u (.comma :: (v.tokens ++ ts)) =
      readValue (.array (u :: items) :: opened) (v.tokens ++ ts) := by
  fun_cases tokens v with
  | case4 t =>
    rw [List.singleton_append, readOn]
    exact fun _ ts' he => h ts' (List.cons.inj he).2
  | _ => simp [readOn]

theorem readOn_itemTokens {vs : List Json} (hvs : ∀ v ∈ vs, Reads v) (opened : List Opened)
    (items : List Json) (u : Json) (ts : List Token) :
    readOn (.array items :: opened) u (itemTokens vs ++ .closeArray :: ts) =
      readOn opened (.array ((u :: items).reverse ++ vs)) ts := by
  induction vs generalizing items u with
  | nil => rw [itemTokens, List.nil_append, readOn, List.append_nil]
  | cons v vs ih =>
    have hc := NoColon.items vs ts
    rw [itemTokens, List.cons_append, List.append_assoc, readOn_comma _ _ _ _ hc,
      hvs v List.mem_cons_self _ _ hc, ih fun w hw => hvs w (List.mem_cons_of_mem _ hw)]
    rw [List.reverse_cons (a := v), List.append_assoc]
    rfl

theorem readOn_memberTokens {ms : List (Option String × Json)} (hms : ∀ m ∈ ms, Reads m.2)
    (opened : List Opened) (members : List (Option String × Json)) (k : Option String) (u : Json)
    (ts : List Token) :
    readOn (.object members k :: opened) u (memberTokens ms ++ .closeObject :: ts) =
      readOn opened (.object (((k, u) :: members).reverse ++ ms)) ts := by
  induction ms generalizing members k u with
  | nil => rw [memberTokens, List.nil_append, readOn, List.append_nil]
  | cons m ms ih =>
    have hc := NoColon.members ms ts
    rw [memberTokens, List.cons_append, List.cons_append, List.cons_append, List.append_assoc,
      readOn, hms m List.mem_cons_self _ _ hc, ih fun w hw => hms w (List.mem_cons_of_mem _ hw)]
    rw [List.reverse_cons (a := m), List.append_assoc]
    rfl

/-- The tokens of a value are read as the value. -/
theorem readValue_tokens {v : Json} (hv : Proper v) : Reads v := by
  induction hv with
  | @array items hitems ih =>
    intro opened ts _
    cases items with
    | nil => rfl
    | cons v vs =>
      rw [tokens, List.cons_append, List.append_assoc, List.append_assoc, List.singleton_append,
        readValue_openArray, ih v List.mem_cons_self _ _ (.items _ _)]
      exact readOn_itemTokens (fun w hw => ih w (List.mem_cons_of_mem _ hw)) ..
  | @object members hkeys hmembers ih =>
    intro opened ts _
    cases members with
    | nil => rfl
    | cons m ms =>
      rw [tokens, List.cons_append, List.cons_append, List.cons_append, List.append_assoc,
        List.append_assoc, List.singleton_append, readValue,
        ih m List.mem_cons_self _ _ (.members _ _)]
      exact readOn_memberTokens (fun w hw => ih w (List.mem_cons_of_mem _ hw)) ..
  | _ => intro _ _ _; rfl

/-- A value is read back from its text. -/
theorem read_write {v : Json} (hv : Proper v) : read v.write = some v := by
  have hscan := scan_writeChars hv [] .nil
  rw [List.append_nil, Token.scan, Option.map_some] at hscan
  rw [read, write, String.toList_ofList, hscan]
  exact readValue_tokens hv [] [] .nil

end Inquiry.Json
