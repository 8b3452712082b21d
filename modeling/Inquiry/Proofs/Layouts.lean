import Mathlib.Data.List.TakeWhile
import Inquiry.Command.Reader
import Inquiry.Proofs.SourceTokens

/-!
# Layouts of commands

A text that should be a command is laid out as a word of ASCII letters, modifiers
directly behind it, and the rest: the word and the run of modifiers are as long
as they can be (`Layout`). Digits belong to the modifier in front of them, so
there is only one such run, and a text has one layout.

The scanner takes the modifiers one by one and drops those whose number is too
large, with an error for each. What it finds is the run, if all numbers fit.

* `ModifierText.length_le_run`: no run is longer than the one that is taken;
* `Modifiers.scanFrom_run`: what the scanner finds, and where it stops;
* `Layout.eq_of`: a text has one layout.
-/

namespace Inquiry

/-! ## Modifiers as they are written -/

/-- A modifier as it is written. -/
@[ext]
structure ModifierText where
  marker : Char
  digits : List Char
  marker_eq : marker = '@' ∨ marker = '$'
  digits_ne_nil : digits ≠ []
  isDigit : ∀ c ∈ digits, c.isDigit

namespace ModifierText

/-- The characters of a modifier. -/
def source (m : ModifierText) : List Char := m.marker :: m.digits

/-- The number of a modifier. -/
def number (m : ModifierText) : Nat := Decimal.ofDigits m.digits

/-- The number fits a 64-bit word. -/
def Fits (m : ModifierText) : Prop := m.number < Decimal.wordLimit

instance (m : ModifierText) : Decidable m.Fits := inferInstanceAs (Decidable (_ < _))

/-- What a modifier says. -/
def modifier (m : ModifierText) : Modifier :=
  if m.marker = '@' then .recipient m.number else .budget m.number

/-- The modifiers that a text begins with, as many as there are, and what is behind them. -/
def run : List Char → List ModifierText × List Char
  | [] => ([], [])
  | c :: cs =>
    if h : (c = '@' ∨ c = '$') ∧ cs.takeWhile Char.isDigit ≠ [] then
      let more := run (cs.dropWhile Char.isDigit)
      (⟨c, cs.takeWhile Char.isDigit, h.1, h.2, fun _ => List.mem_takeWhile_imp⟩ :: more.1,
        more.2)
    else ([], c :: cs)
termination_by cs => cs.length
decreasing_by
  have := (List.dropWhile_sublist (l := cs) Char.isDigit).length_le
  simp only [List.length_cons]
  omega

theorem run_append (cs : List Char) : (run cs).1.flatMap source ++ (run cs).2 = cs := by
  fun_induction run cs with
  | case1 => rfl
  | case2 c cs h more ih =>
    rw [List.flatMap_cons, source, List.cons_append, List.cons_append, List.append_assoc, ih,
      List.takeWhile_append_dropWhile]
  | case3 => rfl

variable (m : ModifierText)

theorem isDigit_marker : m.marker.isDigit = false := by
  rcases m.marker_eq with h | h <;> rw [h] <;> rfl

theorem endsDigits_flatMap (ms : List ModifierText) : EndsDigits (ms.flatMap source) := by
  cases ms with
  | nil => rfl
  | cons m ms => exact .cons m.isDigit_marker

/-- Modifiers are told apart in their characters. -/
theorem eq_of_flatMap_source_eq {ms ms' : List ModifierText}
    (h : ms.flatMap source = ms'.flatMap source) : ms = ms' := by
  induction ms generalizing ms' with
  | nil =>
    cases ms' with
    | nil => rfl
    | cons m' ms' => cases h
  | cons m ms ih =>
    cases ms' with
    | nil => cases h
    | cons m' ms' =>
      have hd := endsDigits_flatMap ms
      have hd' := endsDigits_flatMap ms'
      obtain ⟨hm, h⟩ := List.cons.inj h
      have htake : m.digits = m'.digits := by
        rw [← hd.takeWhile_append m.isDigit, ← hd'.takeWhile_append m'.isDigit]
        exact congrArg _ h
      have hdrop : ms.flatMap source = ms'.flatMap source := by
        rw [← hd.dropWhile_append m.isDigit, ← hd'.dropWhile_append m'.isDigit]
        exact congrArg _ h
      rw [ModifierText.ext hm htake, ih hdrop]

/-- No run of modifiers is longer than the one that is taken. -/
theorem length_le_run {ms : List ModifierText} {cs : List Char} (h : ms.flatMap source <+: cs) :
    (ms.flatMap source).length ≤ ((run cs).1.flatMap source).length := by
  obtain ⟨rest, rfl⟩ := h
  induction ms with
  | nil => exact Nat.zero_le _
  | cons m ms ih =>
    have hcs : (m :: ms).flatMap source ++ rest =
        m.marker :: (m.digits ++ (ms.flatMap source ++ rest)) := by
      rw [List.flatMap_cons, source, List.append_assoc, List.cons_append]
    have htake : m.digits <+: (m.digits ++ (ms.flatMap source ++ rest)).takeWhile Char.isDigit := by
      rw [List.takeWhile_append_of_pos m.isDigit]
      exact List.prefix_append _ _
    have hne : (m.digits ++ (ms.flatMap source ++ rest)).takeWhile Char.isDigit ≠ [] :=
      fun h => m.digits_ne_nil (List.prefix_nil.1 (h ▸ htake))
    rw [hcs, run, dif_pos ⟨m.marker_eq, hne⟩]
    simp only [List.flatMap_cons, source, List.length_append, List.length_cons]
    cases ms with
    | nil => exact Nat.add_le_add (Nat.succ_le_succ htake.length_le) (Nat.zero_le _)
    | cons m' ms =>
      -- The next marker ends the digits.
      have hd : EndsDigits ((m' :: ms).flatMap source ++ rest) := .cons m'.isDigit_marker
      rw [hd.takeWhile_append m.isDigit, hd.dropWhile_append m.isDigit]
      exact Nat.add_le_add_left ih _

theorem ofDigits?_eq_some (h : m.Fits) :
    Modifier.ofDigits? m.marker m.digits = some m.modifier := by
  have hn : Decimal.word? m.digits = some m.number := if_pos h
  rw [Modifier.ofDigits?, hn, Option.map_some, modifier]
  split <;> rfl

theorem ofDigits?_eq_none (h : ¬ m.Fits) : Modifier.ofDigits? m.marker m.digits = none := by
  have hn : Decimal.word? m.digits = none := if_neg h
  rw [Modifier.ofDigits?, hn, Option.map_none]

end ModifierText

/-! ## Scanning modifiers -/

namespace Modifiers

/-- What is found where modifiers are written: those whose numbers fit, and an error for each
    of the others. -/
structure Finds (start : Nat) (errors : ErrorList) (ms : List ModifierText)
    (found : Modifiers) : Prop where
  stop : found.stop = start + byteLength (ms.flatMap ModifierText.source)
  total : found.errors.total = errors.total + ms.countP (¬ ·.Fits)
  fits : (∀ m ∈ ms, m.Fits) →
    found.errors = errors ∧ found.found.map (·.item) = ms.map (·.modifier)

namespace Finds

variable {start : Nat} {errors : ErrorList} {m : ModifierText} {ms : List ModifierText}
  {found : Modifiers}

theorem stop_cons (h : found.stop = start + byteLength m.source +
      byteLength (ms.flatMap ModifierText.source)) :
    found.stop = start + byteLength ((m :: ms).flatMap ModifierText.source) := by
  rw [h, List.flatMap_cons, byteLength_append, Nat.add_assoc]

theorem cons_fits (h : Finds (start + byteLength m.source) errors ms found) (hm : m.Fits)
    (span : Span) :
    Finds start errors (m :: ms) { found with found := ⟨m.modifier, span⟩ :: found.found } where
  stop := stop_cons h.stop
  total := by
    rw [List.countP_cons_of_neg (by simpa using hm)]
    exact h.total
  fits hms := by
    obtain ⟨he, hf⟩ := h.fits fun m' hm' => hms m' (List.mem_cons_of_mem _ hm')
    exact ⟨he, congrArg (m.modifier :: ·) hf⟩

theorem cons_oversized {e : ParseError}
    (h : Finds (start + byteLength m.source) (errors.push e) ms found) (hm : ¬ m.Fits) :
    Finds start errors (m :: ms) found where
  stop := stop_cons h.stop
  total := by
    rw [List.countP_cons_of_pos (by simpa using hm), h.total, ErrorList.total_push]
    omega
  fits hms := absurd (hms m List.mem_cons_self) hm

end Finds

/-- The scan finds the modifiers of the run, and ends where the run ends. -/
theorem scanFrom_run (start : Nat) (errors : ErrorList) (cs : List Char) :
    (scanFrom start errors cs).rest = (ModifierText.run cs).2 ∧
      Finds start errors (ModifierText.run cs).1 (scanFrom start errors cs) := by
  fun_induction ModifierText.run cs generalizing start errors with
  | case1 => rw [scanFrom]; exact ⟨rfl, rfl, rfl, fun _ => ⟨rfl, rfl⟩⟩
  | case2 c cs h more ih =>
    set m : ModifierText :=
      ⟨c, cs.takeWhile Char.isDigit, h.1, h.2, fun _ => List.mem_takeWhile_imp⟩
    rw [scanFrom, if_pos h]
    dsimp only
    by_cases hf : m.Fits
    · have hm : Modifier.ofDigits? c (cs.takeWhile Char.isDigit) = some m.modifier :=
        m.ofDigits?_eq_some hf
      obtain ⟨hrest, hfinds⟩ := ih (start + byteLength m.source) errors
      rw [hm]
      exact ⟨hrest, hfinds.cons_fits hf _⟩
    · have hm : Modifier.ofDigits? c (cs.takeWhile Char.isDigit) = none :=
        m.ofDigits?_eq_none hf
      obtain ⟨hrest, hfinds⟩ := ih (start + byteLength m.source)
        (errors.push ⟨.numberTooLarge, ⟨start, start + byteLength m.source⟩⟩)
      rw [hm]
      exact ⟨hrest, hfinds.cons_oversized hf⟩
  | case3 c cs h => rw [scanFrom, if_neg h]; exact ⟨rfl, rfl, rfl, fun _ => ⟨rfl, rfl⟩⟩

end Modifiers

/-! ## Layouts -/

namespace Command

/-- A text as a word of ASCII letters and a run of modifiers, each as long as it can be, and
    the rest. -/
@[ext]
structure Layout (cs : List Char) where
  word : List Char
  modifiers : List ModifierText
  rest : List Char
  source_eq : word ++ (modifiers.flatMap ModifierText.source ++ rest) = cs
  isAlpha : ∀ c ∈ word, c.isAlpha
  /-- No longer piece that the text begins with is a word. -/
  word_longest : ∀ w, w <+: cs → (∀ c ∈ w, c.isAlpha) → w.length ≤ word.length
  /-- No longer piece behind the word is a run of modifiers. -/
  modifiers_longest : ∀ ms : List ModifierText,
    ms.flatMap ModifierText.source <+: modifiers.flatMap ModifierText.source ++ rest →
      (ms.flatMap ModifierText.source).length ≤ (modifiers.flatMap ModifierText.source).length

namespace Layout

variable {cs : List Char}

/-- The layout of a text. -/
def of (cs : List Char) : Layout cs where
  word := cs.takeWhile Char.isAlpha
  modifiers := (ModifierText.run (cs.dropWhile Char.isAlpha)).1
  rest := (ModifierText.run (cs.dropWhile Char.isAlpha)).2
  source_eq := by rw [ModifierText.run_append, List.takeWhile_append_dropWhile]
  isAlpha _ := List.mem_takeWhile_imp
  word_longest w hw ha := by
    obtain ⟨more, rfl⟩ := hw
    rw [List.takeWhile_append_of_pos ha, List.length_append]
    exact Nat.le_add_right _ _
  modifiers_longest ms hms := by
    rw [ModifierText.run_append] at hms
    exact ModifierText.length_le_run hms

theorem eq_of_prefix_of_length_eq {as bs : List Char} (ha : as <+: cs) (hb : bs <+: cs)
    (h : as.length = bs.length) : as = bs :=
  (List.prefix_of_prefix_length_le ha hb h.le).eq_of_length h

/-- A text has one layout. -/
theorem eq_of (l : Layout cs) : l = of cs := by
  have hpre := List.prefix_append l.word (l.modifiers.flatMap ModifierText.source ++ l.rest)
  have hpre' := List.prefix_append (of cs).word
    ((of cs).modifiers.flatMap ModifierText.source ++ (of cs).rest)
  rw [source_eq] at hpre hpre'
  have hword : l.word = (of cs).word := eq_of_prefix_of_length_eq hpre hpre' <|
    Nat.le_antisymm ((of cs).word_longest _ hpre l.isAlpha) (l.word_longest _ hpre' (of cs).isAlpha)
  have htail : l.modifiers.flatMap ModifierText.source ++ l.rest =
      (of cs).modifiers.flatMap ModifierText.source ++ (of cs).rest := by
    have h := l.source_eq.trans (of cs).source_eq.symm
    rw [hword] at h
    exact List.append_cancel_left h
  have hrun := htail ▸ List.prefix_append (l.modifiers.flatMap ModifierText.source) l.rest
  have hrun' := List.prefix_append ((of cs).modifiers.flatMap ModifierText.source) (of cs).rest
  have hsource := eq_of_prefix_of_length_eq hrun hrun' <| Nat.le_antisymm
    ((of cs).modifiers_longest _ hrun) (l.modifiers_longest _ (htail ▸ hrun'))
  have hrest : l.rest = (of cs).rest := List.append_cancel_left (hsource ▸ htail)
  exact Layout.ext hword (ModifierText.eq_of_flatMap_source_eq hsource) hrest

section

variable (l : Layout cs)

/-- The word in lower case. -/
def name : String := String.ofList (l.word.map Char.toLower)

/-- What stands behind the head and the white space after it. -/
def argument : List Char := l.rest.dropWhile Text.isBlank

/-- What stands in front of the argument. -/
def lead : List Char :=
  l.word ++ (l.modifiers.flatMap ModifierText.source ++ l.rest.takeWhile Text.isBlank)

/-- The argument starts where the text in front of it ends, and goes on to the end. -/
theorem lead_append_argument : l.lead ++ l.argument = cs := by
  rw [lead, argument, List.append_assoc, List.append_assoc, List.takeWhile_append_dropWhile]
  exact l.source_eq

end

end Layout

end Command

end Inquiry
