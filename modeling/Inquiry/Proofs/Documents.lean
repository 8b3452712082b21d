import Inquiry.ParseError.Document
import Inquiry.Proofs.JsonText
import Inquiry.Resumption.Document

/-!
# Documents are read back

Whatever is handed out to be stored comes back as it was: transcripts,
suspensions, reports, settings and lists of errors, with any text in them and
with all numbers of 64 bits (`Fits`). Settings come back whether they are valid or
not, but are loaded only if they are.

A document *holds* a value if it can be written and the value is decoded from it
(`Json.Holds`). A record holds what its fields hold, since they are found by their
names. Only a cause is told by its kind: the rest of the object is set aside while
the kind is looked for, which numbers of 64 bits and texts stand.

* `Json.Holds.load`: what a document holds is read back from its text;
* `Json.fields?_record`: a record is read back as its fields;
* `ParseError.Cause.holds_toJson`: a cause is found by its kind;
* `load_stored`: what is stored is loaded again.
-/

namespace Inquiry

/-! ## Values -/

namespace Json

/-- The document can be written, and the value is decoded from it. -/
structure Holds {α : Type} (v : Json) (decode : Json → Option α) (a : α) : Prop where
  proper : v.Proper
  decoded : decode v = some a

/-- What a document holds is read back from its text. -/
theorem Holds.load {α : Type} {v : Json} {decode : Json → Option α} {a : α}
    (h : v.Holds decode a) : read v.write >>= decode = some a := by
  rw [read_write h.proper]
  exact h.decoded

theorem all_isDigit_digits (n : Nat) : (Decimal.digits n).all Char.isDigit := by
  rw [List.all_eq_true]
  exact fun c => Decimal.isDigit_of_mem_digits

theorem holds_nat {n : Nat} (h : n < Decimal.wordLimit) : (nat n).Holds word? n where
  proper := .nat n
  decoded := by rw [nat, word?, if_pos (all_isDigit_digits n), Decimal.word?_digits h]

theorem holds_text (t : String) : (text t).Holds text? t := ⟨.text t, rfl⟩

theorem holds_char (c : Char) : (text c.toString).Holds char? c where
  proper := .text _
  decoded := by rw [text, char?, Char.toString_eq_singleton, String.toList_singleton]

theorem holds_list {α : Type} {encode : α → Json} {decode : Json → Option α} {l : List α}
    (h : ∀ a ∈ l, (encode a).Holds decode a) : (list encode l).Holds (list? decode) l where
  proper := .list fun a ha => (h a ha).proper
  decoded := by
    rw [list, list?]
    induction l with
    | nil => rfl
    | cons a l ih =>
      rw [List.map_cons, List.mapM_cons, (h a List.mem_cons_self).decoded,
        ih fun b hb => h b (List.mem_cons_of_mem _ hb)]
      rfl

theorem hasFieldsOnce_record {names : List String} {members : List (String × Json)}
    (h : members.map (·.1) = names) (hn : names.Nodup) :
    hasFieldsOnce names (members.map fun m => (some m.1, m.2)) := by
  have hcount (name : String) :
      (members.map fun m => (some m.1, m.2)).countP (·.1 == some name) = names.count name := by
    rw [← h, List.count, List.countP_map, List.countP_map]
    rfl
  simp only [hasFieldsOnce, Bool.and_eq_true, List.all_eq_true, decide_eq_true_eq, hcount]
  refine ⟨fun m hm => ?_, fun name _ => List.nodup_iff_count.1 hn name⟩
  obtain ⟨_, _, rfl⟩ := List.mem_map.1 hm
  rfl

theorem lookup_record (members : List (String × Json)) (name : String) :
    (members.map fun m => (some m.1, m.2)).lookup (some name) = members.lookup name := by
  induction members with
  | nil => rfl
  | cons m members ih =>
    rw [List.map_cons, List.lookup_cons, List.lookup_cons, ih]
    rfl

/-- A record with the fields that are asked for is read back as these. -/
theorem fields?_record {names : List String} {members : List (String × Json)}
    (h : members.map (·.1) = names) (hn : names.Nodup) :
    (record members).fields? names = some fun name => members.lookup name := by
  rw [record, fields?, if_pos (hasFieldsOnce_record h hn)]
  exact congrArg some (funext (lookup_record members))

/-- A record holds what is made of its fields. -/
theorem holds_record {α : Type} {names : List String} {members : List (String × Json)}
    {decode : Fields → Option α} {a : α} (h : members.map (·.1) = names) (hn : names.Nodup)
    (hproper : ∀ m ∈ members, m.2.Proper)
    (hdecode : decode (fun name => members.lookup name) = some a) :
    (record members).Holds (fun v => v.fields? names >>= decode) a where
  proper := .record hproper
  decoded := by rw [fields?_record h hn]; exact hdecode

end Json

/-! ## Transcripts -/

/-- The budget fits a word. -/
def Observation.Fits (o : Observation) : Prop := o.budget < Decimal.wordLimit

/-- The time fits a word. -/
def Response.Fits (r : Response) : Prop := r.elapsed < Decimal.wordLimit

/-- All budgets and times fit a word. -/
structure Transcript.Fits (t : Transcript) : Prop where
  observations : ∀ o ∈ t.observations, o.Fits
  responses : ∀ r ∈ t.responses, r.Fits

instance (o : Observation) : Decidable o.Fits := inferInstanceAs (Decidable (_ < _))

instance (r : Response) : Decidable r.Fits := inferInstanceAs (Decidable (_ < _))

instance (t : Transcript) : Decidable t.Fits :=
  decidable_of_iff ((∀ o ∈ t.observations, o.Fits) ∧ ∀ r ∈ t.responses, r.Fits)
    ⟨fun h => ⟨h.1, h.2⟩, fun h => ⟨h.observations, h.responses⟩⟩

theorem Observation.holds_toJson {o : Observation} (h : o.Fits) :
    o.toJson.Holds ofJson? o := by
  have htext := Json.holds_text o.text
  have hbudget := Json.holds_nat h
  refine Json.holds_record rfl (by decide) (by simp [htext.proper, hbudget.proper]) ?_
  simp [Json.Fields.get?, List.lookup_cons, htext.decoded, hbudget.decoded]

theorem Response.holds_toJson {r : Response} (h : r.Fits) : r.toJson.Holds ofJson? r := by
  have htext := Json.holds_text r.text
  have helapsed := Json.holds_nat h
  refine Json.holds_record rfl (by decide) (by simp [htext.proper, helapsed.proper]) ?_
  simp [Json.Fields.get?, Json.Fields.getD, List.lookup_cons, htext.decoded, helapsed.decoded]

theorem Transcript.holds_toJson {t : Transcript} (h : t.Fits) : t.toJson.Holds ofJson? t := by
  have hobservations := Json.holds_list fun o ho => Observation.holds_toJson (h.observations o ho)
  have hresponses := Json.holds_list fun r hr => Response.holds_toJson (h.responses r hr)
  refine Json.holds_record rfl (by decide) (by simp [hobservations.proper, hresponses.proper]) ?_
  simp [Json.Fields.get?, List.lookup_cons, hobservations.decoded, hresponses.decoded]

/-! ## Settings -/

theorem Accounting.holds_name (a : Accounting) : (Json.text a.name).Holds ofJson? a where
  proper := .text _
  decoded := by cases a <;> rfl

namespace Settings

/-- All numbers fit a word. -/
structure Fits (s : Settings) : Prop where
  defaultFraction : s.defaultFraction < Decimal.wordLimit
  askSurcharge : s.askSurcharge < Decimal.wordLimit
  commandCost : s.commandCost < Decimal.wordLimit
  maxDepth : s.maxDepth < Decimal.wordLimit
  maxTurns : s.maxTurns < Decimal.wordLimit

instance (s : Settings) : Decidable s.Fits :=
  decidable_of_iff
    (s.defaultFraction < Decimal.wordLimit ∧ s.askSurcharge < Decimal.wordLimit ∧
      s.commandCost < Decimal.wordLimit ∧ s.maxDepth < Decimal.wordLimit ∧
      s.maxTurns < Decimal.wordLimit)
    ⟨fun h => ⟨h.1, h.2.1, h.2.2.1, h.2.2.2.1, h.2.2.2.2⟩,
      fun h => ⟨h.defaultFraction, h.askSurcharge, h.commandCost, h.maxDepth, h.maxTurns⟩⟩

theorem holds_toJson {s : Settings} (h : s.Fits) : s.toJson.Holds ofJson? s := by
  have haccounting := s.accounting.holds_name
  have hfraction := Json.holds_nat h.defaultFraction
  have hsurcharge := Json.holds_nat h.askSurcharge
  have hcost := Json.holds_nat h.commandCost
  have hdepth := Json.holds_nat h.maxDepth
  have hturns := Json.holds_nat h.maxTurns
  refine Json.holds_record rfl (by decide) ?_ ?_
  · simp [haccounting.proper, hfraction.proper, hsurcharge.proper, hcost.proper, hdepth.proper,
      hturns.proper]
  · simp [Json.Fields.getD, List.lookup_cons, haccounting.decoded, hfraction.decoded,
      hsurcharge.decoded, hcost.decoded, hdepth.decoded, hturns.decoded]

theorem load_of_problem?_eq_none {s : Settings} (h : s.Fits) (hp : s.problem? = none) :
    load s.store = .ok s := by
  rw [load, store, (holds_toJson h).load]
  simp only [hp]

theorem load_of_problem?_eq_some {s : Settings} (h : s.Fits) {p : Problem}
    (hp : s.problem? = some p) : load s.store = .error (.invalid p) := by
  rw [load, store, (holds_toJson h).load]
  simp only [hp]

end Settings

/-! ## Reports -/

/-- The budget fits a word, and so do the numbers in the settings. -/
structure Resumption.Fits (r : Resumption) : Prop where
  budget : r.budget < Decimal.wordLimit
  settings : r.settings.Fits

/-- All numbers fit a word. -/
structure Suspension.Fits (s : Suspension) : Prop where
  transcript : s.transcript.Fits
  resume : s.resume.Fits

/-- All numbers fit a word. -/
def Report.Fits : Report → Prop
  | .completed _ => True
  | .suspended s => s.Fits

theorem Resumption.holds_toJson {r : Resumption} (h : r.Fits) : r.toJson.Holds ofJson? r := by
  have hroot := Json.holds_text r.root
  have hbudget := Json.holds_nat h.budget
  have hsettings := Settings.holds_toJson h.settings
  refine Json.holds_record rfl (by decide) ?_ ?_
  · simp [hroot.proper, hbudget.proper, hsettings.proper]
  · simp [Json.Fields.get?, List.lookup_cons, hroot.decoded, hbudget.decoded, hsettings.decoded]

theorem Suspension.holds_toJson {s : Suspension} (h : s.Fits) : s.toJson.Holds ofJson? s := by
  have htranscript := Transcript.holds_toJson h.transcript
  have hresume := Resumption.holds_toJson h.resume
  refine Json.holds_record rfl (by decide) (by simp [htranscript.proper, hresume.proper]) ?_
  simp [Json.Fields.get?, List.lookup_cons, htranscript.decoded, hresume.decoded]

theorem Report.holds_toJson {r : Report} (h : r.Fits) : r.toJson.Holds ofJson? r := by
  cases r with
  | completed text =>
    exact ⟨.record (by simp [(Json.holds_text text).proper]), rfl⟩
  | suspended s =>
    have hs := Suspension.holds_toJson h
    refine ⟨.record (by simp [hs.proper]), ?_⟩
    change (Suspension.ofJson? s.toJson).map Report.suspended = _
    rw [hs.decoded]
    rfl

/-! ## Parse errors -/

/-- Both offsets fit a word. -/
structure Span.Fits (s : Span) : Prop where
  start : s.start < Decimal.wordLimit
  stop : s.stop < Decimal.wordLimit

/-- The number that a cause tells, if it tells one. -/
def ParseError.Cause.number : ParseError.Cause → Nat
  | .nestingTooDeep limit => limit
  | _ => 0

/-- The number that a cause tells fits a word. -/
def ParseError.Cause.Fits (c : ParseError.Cause) : Prop := c.number < Decimal.wordLimit

/-- All numbers fit a word. -/
structure ParseError.Fits (e : ParseError) : Prop where
  cause : e.cause.Fits
  span : e.span.Fits

/-- All numbers fit a word. -/
structure ErrorList.Fits (l : ErrorList) : Prop where
  stored : ∀ e ∈ l.stored, e.Fits
  total : l.total < Decimal.wordLimit

instance (s : Span) : Decidable s.Fits :=
  decidable_of_iff (s.start < Decimal.wordLimit ∧ s.stop < Decimal.wordLimit)
    ⟨fun h => ⟨h.1, h.2⟩, fun h => ⟨h.start, h.stop⟩⟩

instance (c : ParseError.Cause) : Decidable c.Fits := inferInstanceAs (Decidable (_ < _))

instance (e : ParseError) : Decidable e.Fits :=
  decidable_of_iff (e.cause.Fits ∧ e.span.Fits) ⟨fun h => ⟨h.1, h.2⟩, fun h => ⟨h.cause, h.span⟩⟩

instance (l : ErrorList) : Decidable l.Fits :=
  decidable_of_iff ((∀ e ∈ l.stored, e.Fits) ∧ l.total < Decimal.wordLimit)
    ⟨fun h => ⟨h.1, h.2⟩, fun h => ⟨h.stored, h.total⟩⟩

theorem Span.holds_toJson {s : Span} (h : s.Fits) : s.toJson.Holds ofJson? s := by
  have hstart := Json.holds_nat h.start
  have hstop := Json.holds_nat h.stop
  refine Json.holds_record rfl (by decide) (by simp [hstart.proper, hstop.proper]) ?_
  simp [Json.Fields.get?, List.lookup_cons, hstart.decoded, hstop.decoded]

namespace ParseError.Cause

/-- What is beside the kind of a cause. -/
def details (c : Cause) : List (Option String × Json) := c.parts.2.map fun m => (some m.1, m.2)

theorem filter_details (c : Cause) :
    c.details.filter isKind = [] ∧ c.details.filter (!isKind ·) = c.details := by
  cases c <;> exact ⟨rfl, rfl⟩

theorem isPlain_details {c : Cause} (h : c.Fits) : Json.isPlainMembers room c.details = true := by
  cases c with
  | nestingTooDeep limit =>
    have h : limit < Decimal.wordLimit := h
    change (true && Double.isFinite (Decimal.digits limit) && true) = true
    rw [Double.isFinite_digits h]
    rfl
  | _ => rfl

theorem proper_details (c : Cause) : ∀ m ∈ c.parts.2, m.2.Proper := by
  cases c <;> simp [parts, Json.Proper.nat, Json.Proper.text]

/-- The shape of a kind reads the details of a cause of the kind. -/
theorem read?_details {c : Cause} (h : c.Fits) :
    ∃ s, shape? c.parts.1 = some s ∧ s.read? (.object c.details) = some c := by
  have hdetail (name : String) {v : Json} {decode : Json → Option Cause}
      (hv : decode v = some c) :
      (Shape.detailed name decode).read? (.record [(name, v)]) = some c := by
    rw [Shape.read?, Json.fields?_record]
    · simp [Json.Fields.get?, List.lookup_cons, hv]
    · rfl
    · simp
  cases c with
  | unexpectedCharacter found =>
    exact ⟨_, rfl, hdetail _ (by rw [(Json.holds_char found).decoded]; rfl)⟩
  | duplicateModifier modifier =>
    exact ⟨_, rfl, hdetail _ (by rw [(Json.holds_char modifier).decoded]; rfl)⟩
  | nestingTooDeep limit =>
    have h : limit < Decimal.wordLimit := h
    exact ⟨_, rfl, hdetail _ (by rw [(Json.holds_nat h).decoded]; rfl)⟩
  | unknownVerb | missingArgument | unexpectedArgument | modifierNotAllowed =>
    exact ⟨_, rfl, hdetail _ rfl⟩
  | _ => exact ⟨_, rfl, rfl⟩

/-- A cause is found by its kind. -/
theorem holds_toJson {c : Cause} (h : c.Fits) : c.toJson.Holds ofJson? c where
  proper := .record (List.forall_mem_cons.2 ⟨.text _, c.proper_details⟩)
  decoded := by
    obtain ⟨s, hs, hread⟩ := read?_details h
    obtain ⟨hkind, hdetails⟩ := c.filter_details
    change ofJson? (.object ((some "kind", .text c.parts.1) :: c.details)) = _
    have hisKind : isKind (some "kind", .text c.parts.1) = true := rfl
    rw [ofJson?, List.filter_cons_of_pos hisKind, hkind,
      List.filter_cons_of_neg (by simp [hisKind]), hdetails]
    simp [isPlain_details h, Json.text, Json.text?, hs, hread]

end ParseError.Cause

theorem ParseError.holds_toJson {e : ParseError} (h : e.Fits) : e.toJson.Holds ofJson? e := by
  have hcause := Cause.holds_toJson h.cause
  have hspan := Span.holds_toJson h.span
  refine Json.holds_record rfl (by decide) (by simp [hcause.proper, hspan.proper]) ?_
  simp [Json.Fields.get?, List.lookup_cons, hcause.decoded, hspan.decoded]

theorem ErrorList.holds_toJson {l : ErrorList} (h : l.Fits) : l.toJson.Holds ofJson? l := by
  have hstored := Json.holds_list fun e he => ParseError.holds_toJson (h.stored e he)
  have htotal := Json.holds_nat h.total
  refine Json.holds_record rfl (by decide) (by simp [hstored.proper, htotal.proper]) ?_
  simp [Json.Fields.get?, List.lookup_cons, hstored.decoded, htotal.decoded]

/-! ## What is stored -/

/-- What is stored is loaded again: transcripts, suspensions, reports, settings and lists of
    errors, with any texts and with all numbers of 64 bits. Settings that are not valid are
    refused for what is wrong with them. -/
theorem load_stored :
    (∀ t : Transcript, t.Fits → Transcript.load? t.store = some t) ∧
    (∀ s : Suspension, s.Fits → Json.read s.toJson.write >>= Suspension.ofJson? = some s) ∧
    (∀ r : Report, r.Fits → Report.load? r.store = some r) ∧
    (∀ s : Settings, s.Fits → Json.read s.store >>= Settings.ofJson? = some s ∧
      (s.Valid → Settings.load s.store = .ok s) ∧
      (¬ s.Valid → ∃ p, s.problem? = some p ∧ Settings.load s.store = .error (.invalid p))) ∧
    ∀ l : ErrorList, l.Fits → ErrorList.load? l.toJson.write = some l := by
  refine ⟨fun t h => (Transcript.holds_toJson h).load, fun s h => (Suspension.holds_toJson h).load,
    fun r h => (Report.holds_toJson h).load, fun s h => ⟨(Settings.holds_toJson h).load, ?_, ?_⟩,
    fun l h => (ErrorList.holds_toJson h).load⟩
  · exact fun hv => Settings.load_of_problem?_eq_none h (s.problem?_eq_none_iff.2 hv)
  · intro hv
    obtain ⟨p, hp⟩ := Option.ne_none_iff_exists'.1 fun hn => hv (s.problem?_eq_none_iff.1 hn)
    exact ⟨p, hp, Settings.load_of_problem?_eq_some h hp⟩

/-- A suspension with quotes, backslashes, control characters and the largest word in it, settings
    that are not valid, and the causes that hold a character, a text and a number. -/
theorem load_stored_extremes :
    let t : Transcript := ⟨[⟨"\"quoted\" \\ \n\x00\x1f\x7f é 𝄞", 18446744073709551615⟩], [⟨"", 0⟩]⟩
    let s : Settings := { accounting := .time, maxDepth := 0, maxTurns := 18446744073709551615 }
    let r : Report := .suspended ⟨t, "\t\\u0041", 18446744073709551615, s⟩
    let l : ErrorList :=
      ⟨[⟨.unexpectedCharacter '\"', ⟨0, 18446744073709551615⟩⟩, ⟨.unknownVerb "kind", ⟨1, 2⟩⟩,
        ⟨.nestingTooDeep 18446744073709551615, ⟨2, 1⟩⟩], 18446744073709551615⟩
    Report.load? r.store = some r ∧ Settings.load s.store = .error (.invalid .maxDepth) ∧
      ErrorList.load? l.toJson.write = some l := by
  intro t s r l
  have hs : s.Fits := by decide
  have ht : t.Fits := by decide
  have hl : l.Fits := by decide
  obtain ⟨-, -, hreport, hsettings, hlist⟩ := load_stored
  refine ⟨hreport r ⟨ht, by decide, hs⟩, ?_, hlist l hl⟩
  obtain ⟨p, hp, hload⟩ := (hsettings s hs).2.2 (by decide)
  cases hp
  exact hload

end Inquiry
