import Mathlib.Logic.Function.Basic
import Inquiry.Proofs.Layouts

/-!
# Error lists

A list of errors stores only the first of the errors put into it and counts all. It
stands for the full sequence nonetheless (`ErrorList.StandsFor`): as much of the sequence
is stored as there is room for, and what has been forgotten has been counted. Nothing is
lost when lists are put into lists. What the other list has forgotten would not be stored
here either: it comes behind as many errors as a list has room for.

The errors of a scan are put into a list one after the other, so its list stands for them
in the order in which they are met (`MessageTokens.allErrors`, `CommandTokens.allErrors`).
In a message scanning ends when the list is full; the head of a command is scanned to its
end, with any number of errors.

* `ErrorList.StandsFor.push`, `ErrorList.StandsFor.extend`: what is put into a list comes
  last in the sequence;
* `CommandTokens.standsFor_scan`: the errors of a scan, all of them;
* `ErrorList.standsFor_run`: lists that errors, scans and such lists are put into stand for
  all that has been put into them.
-/

namespace Inquiry

/-! ## What a list stands for -/

namespace ErrorList

/-- The list stands for the sequence of errors: it stores the first ones and counts all. -/
structure StandsFor (l : ErrorList) (es : List ParseError) : Prop where
  total : l.total = es.length
  stored : l.stored = es.take capacity

theorem standsFor_empty : ErrorList.empty.StandsFor [] := ⟨rfl, rfl⟩

namespace StandsFor

variable {l l' : ErrorList} {es es' : List ParseError}

theorem length_stored (h : l.StandsFor es) : l.stored.length = min capacity es.length := by
  rw [h.stored, List.length_take]

theorem length_stored_le (h : l.StandsFor es) : l.stored.length ≤ l.total := by
  rw [h.length_stored, h.total]
  exact Nat.min_le_right _ _

theorem hasErrors_iff (h : l.StandsFor es) : l.hasErrors = true ↔ es ≠ [] := by
  rw [hasErrors, h.total, decide_eq_true_iff, List.length_pos_iff]

theorem first?_eq (h : l.StandsFor es) : l.first? = es.head? := by
  rw [first?, h.stored, List.head?_take, if_neg (by decide)]

theorem push (h : l.StandsFor es) (e : ParseError) : (l.push e).StandsFor (es ++ [e]) where
  total := by rw [total_push, h.total, List.length_append, List.length_singleton]
  stored := by
    rw [stored_push, h.length_stored, h.stored, List.take_append]
    split
    · next hroom =>
      have hlt : es.length < capacity := by omega
      rw [List.take_of_length_le (l := [e]) (by rw [List.length_singleton]; omega)]
    · next hfull =>
      have hle : capacity ≤ es.length := by omega
      rw [Nat.sub_eq_zero_of_le hle, List.take_zero, List.append_nil]

theorem foldl_push (h : l.StandsFor es) (es' : List ParseError) :
    (es'.foldl ErrorList.push l).StandsFor (es ++ es') := by
  induction es' generalizing l es with
  | nil => rwa [List.append_nil]
  | cons e es' ih =>
    rw [List.append_cons]
    exact ih (h.push e)

/-- What a list has forgotten would not be stored behind other errors either. -/
theorem extend (h : l.StandsFor es) (h' : l'.StandsFor es') :
    (l.extend l').StandsFor (es ++ es') where
  total := by rw [total_extend l l' h'.length_stored_le, h.total, h'.total, List.length_append]
  stored := by
    have hjoined := (h.foldl_push l'.stored).stored
    rw [ErrorList.extend, hjoined, h'.stored, List.take_append, List.take_append, List.take_take,
      Nat.min_eq_left (Nat.sub_le _ _)]

end StandsFor

end ErrorList

/-! ## The errors of a scan -/

namespace MessageTokens

/-- The errors of a message at offset `start`, one for each reference in it that is too large. -/
def allErrors (start : Nat) (cs : List Char) : List ParseError :=
  match cs with
  | [] => []
  | c :: cs =>
    let l := Lexeme.scan c cs
    (l.error? start).toList ++ allErrors (start + byteLength l.source) l.rest
termination_by cs.length
decreasing_by exact Lexeme.length_rest_lt _ _

/-- What the scan of a message meets behind `met` errors: it stops when the list is full. -/
def metErrors (met start : Nat) (cs : List Char) : List ParseError :=
  (allErrors start cs).take (ErrorList.capacity - met)

theorem errors_scanFrom_eq (start : Nat) (errors : ErrorList) (cs : List Char) :
    (scanFrom start errors cs).errors =
      (metErrors errors.total start cs).foldl ErrorList.push errors := by
  rw [metErrors]
  fun_induction scanFrom start errors cs with
  | case1 start errors => rw [allErrors, List.take_nil, List.foldl_nil]
  | case2 start errors c cs hfull =>
    rw [Nat.sub_eq_zero_of_le hfull, List.take_zero, List.foldl_nil]
  | case3 start errors c cs hroom l stop errors' ih =>
    have hall : allErrors start (c :: cs) = (l.error? start).toList ++ allErrors stop l.rest := by
      rw [allErrors]
    rw [hall]
    refine ih.trans ?_
    cases he : l.error? start with
    | none =>
      have herrors : errors' = errors := by simp only [errors', he, Option.elim_none]
      rw [herrors, Option.toList_none, List.nil_append]
    | some e =>
      have herrors : errors' = errors.push e := by simp only [errors', he, Option.elim_some]
      have hsub : ErrorList.capacity - errors.total =
          ErrorList.capacity - (errors.total + 1) + 1 := by omega
      rw [herrors, Option.toList_some, List.singleton_append, hsub, List.take_succ_cons,
        List.foldl_cons, ErrorList.total_push]

end MessageTokens

namespace ModifierText

/-- The errors of modifiers that are written at offset `start`, one for each whose number is too
    large. -/
def allErrors (start : Nat) : List ModifierText → List ParseError
  | [] => []
  | m :: ms =>
    let stop := start + byteLength m.source
    (if m.Fits then [] else [⟨.numberTooLarge, ⟨start, stop⟩⟩]) ++ allErrors stop ms

end ModifierText

theorem Modifiers.errors_scanFrom_eq (start : Nat) (errors : ErrorList) (cs : List Char) :
    (scanFrom start errors cs).errors =
      (ModifierText.allErrors start (ModifierText.run cs).1).foldl ErrorList.push errors := by
  fun_induction ModifierText.run cs generalizing start errors with
  | case1 => rw [scanFrom, ModifierText.allErrors, List.foldl_nil]
  | case2 c cs h more ih =>
    set m : ModifierText :=
      ⟨c, cs.takeWhile Char.isDigit, h.1, h.2, fun _ => List.mem_takeWhile_imp⟩
    rw [scanFrom, if_pos h, ModifierText.allErrors]
    dsimp only
    by_cases hf : m.Fits
    · have hm : Modifier.ofDigits? c (cs.takeWhile Char.isDigit) = some m.modifier :=
        m.ofDigits?_eq_some hf
      rw [hm, if_pos hf]
      exact ih (start + byteLength m.source) errors
    · have hm : Modifier.ofDigits? c (cs.takeWhile Char.isDigit) = none :=
        m.ofDigits?_eq_none hf
      rw [hm, if_neg hf]
      exact ih (start + byteLength m.source) _
  | case3 c cs h => rw [scanFrom, if_neg h, ModifierText.allErrors, List.foldl_nil]

namespace CommandTokens

/-- What the scan of the message in a command meets behind `met` errors. -/
def metInBody (met start : Nat) : List Char → List ParseError
  | [] => []
  | c :: cs =>
    if Text.isBlank c then
      MessageTokens.metErrors met (start + byteLength ((c :: cs).takeWhile Text.isBlank))
        ((c :: cs).dropWhile Text.isBlank)
    else if c = '(' then MessageTokens.metErrors met start (c :: cs)
    else
      let stop := start + c.utf8Size
      ⟨.unexpectedCharacter c, ⟨start, stop⟩⟩ :: MessageTokens.metErrors (met + 1) stop cs

theorem errors_scanBody_eq (start : Nat) (errors : ErrorList) (cs : List Char) :
    (scanBody start errors cs).errors =
      (metInBody errors.total start cs).foldl ErrorList.push errors := by
  fun_cases scanBody start errors cs with
  | case1 => rw [MessageTokens.scanFrom, metInBody, List.foldl_nil]
  | case2 c cs hc => rw [metInBody, if_pos hc, MessageTokens.errors_scanFrom_eq]
  | case3 cs hc => rw [metInBody, if_neg hc, if_pos rfl, MessageTokens.errors_scanFrom_eq]
  | case4 c cs hc ho stop =>
    rw [metInBody, if_neg hc, if_neg ho, MessageTokens.errors_scanFrom_eq]
    rfl

/-- All errors that the scan of a command meets, in order. -/
def allErrors (cs : List Char) : List ParseError :=
  let start := byteLength (cs.takeWhile Text.isBlank)
  let cs := cs.dropWhile Text.isBlank
  let word := cs.takeWhile isVerbLetter
  if word.isEmpty then MessageTokens.metErrors 0 start cs
  else
    let start := start + byteLength word
    let (ms, cs) := ModifierText.run (cs.dropWhile isVerbLetter)
    let head := ModifierText.allErrors start ms
    head ++ metInBody head.length (start + byteLength (ms.flatMap ModifierText.source)) cs

theorem errors_scan_eq (cs : List Char) :
    (scan cs).body.errors = (allErrors cs).foldl ErrorList.push .empty := by
  rw [scan, allErrors]
  dsimp only
  split
  · exact MessageTokens.errors_scanFrom_eq _ _ _
  · next hword =>
    generalize byteLength _ + byteLength _ = start
    generalize List.dropWhile isVerbLetter _ = cs
    obtain ⟨hrest, hfinds⟩ := Modifiers.scanFrom_run start .empty cs
    have hhead := Modifiers.errors_scanFrom_eq start .empty cs
    have hmet : (Modifiers.scanFrom start .empty cs).errors.total =
        (ModifierText.allErrors start (ModifierText.run cs).1).length := by
      rw [hhead, ErrorList.total_foldl_push]
      exact Nat.zero_add _
    rw [errors_scanBody_eq, List.foldl_append, hmet, hhead, hrest, hfinds.stop]

/-- The list of errors of a scan stands for all errors that it meets. -/
theorem standsFor_scan (cs : List Char) : (scan cs).body.errors.StandsFor (allErrors cs) := by
  rw [errors_scan_eq]
  exact ErrorList.standsFor_empty.foldl_push (allErrors cs)

end CommandTokens

theorem MessageTokens.standsFor_scan (cs : List Char) :
    (scan cs).errors.StandsFor (metErrors 0 0 cs) := by
  rw [scan, errors_scanFrom_eq]
  exact ErrorList.standsFor_empty.foldl_push _

/-! ## Lists put into lists -/

namespace ErrorList

variable {ι : Type}

/-- Where the errors come from that a list is extended by. -/
inductive Source (ι : Type)
  /-- A copy of a list, which may be the one that is extended. -/
  | list (i : ι)
  /-- The scan of a text as a message. -/
  | message (text : String)
  /-- The scan of a text as a command. -/
  | command (text : String)

/-- What can be put into one of several lists. -/
inductive Edit (ι : Type)
  | push (i : ι) (e : ParseError)
  | extend (i : ι) (source : Source ι)

variable {lists : ι → ErrorList} {full : ι → List ParseError}

/-- The list that another one is extended by. -/
def Source.errors (lists : ι → ErrorList) : Source ι → ErrorList
  | list i => lists i
  | message text => (MessageTokens.scan text.toList).errors
  | command text => (CommandTokens.scan text.toList).body.errors

/-- The errors it stands for, where `full` are all that have been put into each of the lists. -/
def Source.sequence (full : ι → List ParseError) : Source ι → List ParseError
  | list i => full i
  | message text => MessageTokens.metErrors 0 0 text.toList
  | command text => CommandTokens.allErrors text.toList

theorem Source.standsFor (h : ∀ i, (lists i).StandsFor (full i)) (s : Source ι) :
    (s.errors lists).StandsFor (s.sequence full) := by
  cases s with
  | list i => exact h i
  | message text => exact MessageTokens.standsFor_scan text.toList
  | command text => exact CommandTokens.standsFor_scan text.toList

variable [DecidableEq ι]

/-- The lists, with something put into one of them. -/
def Edit.apply (lists : ι → ErrorList) : Edit ι → ι → ErrorList
  | push i e => Function.update lists i ((lists i).push e)
  | extend i s => Function.update lists i ((lists i).extend (s.errors lists))

/-- All errors that have been put into each of the lists, then. -/
def Edit.add (full : ι → List ParseError) : Edit ι → ι → List ParseError
  | push i e => Function.update full i (full i ++ [e])
  | extend i s => Function.update full i (full i ++ s.sequence full)

theorem Edit.standsFor_apply (h : ∀ i, (lists i).StandsFor (full i)) (x : Edit ι) (i : ι) :
    (x.apply lists i).StandsFor (x.add full i) := by
  cases x with
  | push j e =>
    rcases eq_or_ne i j with rfl | hne
    · simpa only [apply, add, Function.update_self] using (h i).push e
    · simpa only [apply, add, Function.update_of_ne hne] using h i
  | extend j s =>
    rcases eq_or_ne i j with rfl | hne
    · simpa only [apply, add, Function.update_self] using (h i).extend (s.standsFor h)
    · simpa only [apply, add, Function.update_of_ne hne] using h i

/-- What becomes of lists that are empty at first. -/
def run (edits : List (Edit ι)) : ι → ErrorList :=
  edits.foldl Edit.apply fun _ => .empty

/-- All errors that are put into each of them, in order. -/
def record (edits : List (Edit ι)) : ι → List ParseError :=
  edits.foldl Edit.add fun _ => []

theorem standsFor_foldl (h : ∀ i, (lists i).StandsFor (full i)) (edits : List (Edit ι)) (i : ι) :
    (edits.foldl Edit.apply lists i).StandsFor (edits.foldl Edit.add full i) := by
  induction edits generalizing lists full with
  | nil => exact h i
  | cons x edits ih => exact ih fun i => x.standsFor_apply h i

theorem standsFor_run_record (edits : List (Edit ι)) (i : ι) :
    (run edits i).StandsFor (record edits i) :=
  standsFor_foldl (fun _ => standsFor_empty) edits i

/-- Of lists that are empty at first, and into which errors, the errors of scans and the lists
    themselves are put in any order, each stands for all that has been put into it: it counts all
    errors, stores the first of them, as many as there is room for, says whether there are any and
    which is the first. To extend a list by one of these, or by the errors of a scan, appends all
    that the other one stands for, and there no less is counted than is stored. -/
theorem standsFor_run (edits : List (Edit ι)) (i : ι) :
    (run edits i).total = (record edits i).length ∧
    (run edits i).stored = (record edits i).take capacity ∧
    ((run edits i).hasErrors = true ↔ record edits i ≠ []) ∧
    (run edits i).first? = (record edits i).head? ∧
    ∀ s : Source ι,
      (s.errors (run edits)).stored.length ≤ (s.errors (run edits)).total ∧
      ((run edits i).extend (s.errors (run edits))).StandsFor
        (record edits i ++ s.sequence (record edits)) := by
  have h := standsFor_run_record edits i
  refine ⟨h.total, h.stored, h.hasErrors_iff, h.first?_eq, fun s => ?_⟩
  have hs := s.standsFor (standsFor_run_record edits)
  exact ⟨hs.length_stored_le, h.extend hs⟩

/-- A list that is extended by itself counts all errors twice, and stores no more than fit. -/
example : let l := (List.replicate 15 ⟨.numberTooLarge, ⟨0, 1⟩⟩).foldl push .empty
    (l.extend l).total = 30 ∧ (l.extend l).stored.length = 20 := by decide

end ErrorList

end Inquiry
