import Inquiry.AnswerBook

/-!
# Fingerprints tell transcripts apart

The encoding of a transcript can be read from its front in one way only. A word
takes eight bytes; a text comes behind its length and a list behind its count, so
where they end is known before their bytes are looked at, whatever these are. Such
an encoding is *self-delimiting*: it keeps this property when others come behind it,
and the encoding of a transcript is put together in just this way.

So only a collision of digests could give two transcripts one fingerprint, and
without one a book finds the response that was recorded last for the transcript
itself.

* `SelfDelimiting.list`: lists behind their count are self-delimiting;
* `Transcript.selfDelimiting_encode`: so are transcripts;
* `AnswerBook.decide_recordAll`: encodings determine transcripts, and what a book says.
-/

namespace Inquiry

/-- The encodings of values with the property `P` show where they end: whatever comes behind
    them, both can be read off. -/
def SelfDelimiting {α β : Type} (encode : α → List β) (P : α → Prop) : Prop :=
  ∀ ⦃a b : α⦄, P a → P b → ∀ ⦃rest rest' : List β⦄,
    encode a ++ rest = encode b ++ rest' → a = b ∧ rest = rest'

namespace SelfDelimiting

variable {α β : Type} {encode : α → List β} {P : α → Prop}

theorem injective (h : SelfDelimiting encode P) {a b : α} (ha : P a) (hb : P b)
    (he : encode a = encode b) : a = b := by
  have hnil : encode a ++ [] = encode b ++ [] := congrArg (· ++ []) he
  exact (h ha hb hnil).1

/-- An encoding of a fixed length need only be injective. -/
theorem of_length {n : Nat} (hn : ∀ a, (encode a).length = n)
    (hinj : ∀ a b, P a → P b → encode a = encode b → a = b) : SelfDelimiting encode P := by
  intro a b ha hb rest rest' h
  obtain ⟨he, hr⟩ := List.append_inj h ((hn a).trans (hn b).symm)
  exact ⟨hinj a b ha hb he, hr⟩

/-- Lists of the same length, one encoding behind the other. -/
theorem flatMap (h : SelfDelimiting encode P) {l l' : List α} (hl : ∀ a ∈ l, P a)
    (hl' : ∀ a ∈ l', P a) (hlen : l.length = l'.length) {rest rest' : List β}
    (he : l.flatMap encode ++ rest = l'.flatMap encode ++ rest') : l = l' ∧ rest = rest' := by
  induction l generalizing l' with
  | nil =>
    cases l' with
    | nil => exact ⟨rfl, he⟩
    | cons b l' => cases hlen
  | cons a l ih =>
    cases l' with
    | nil => cases hlen
    | cons b l' =>
      rw [List.flatMap_cons, List.flatMap_cons, List.append_assoc, List.append_assoc] at he
      obtain ⟨rfl, htail⟩ := h (hl a List.mem_cons_self) (hl' b List.mem_cons_self) he
      obtain ⟨rfl, hr⟩ := ih (fun a ha => hl a (List.mem_cons_of_mem _ ha))
        (fun a ha => hl' a (List.mem_cons_of_mem _ ha)) (Nat.succ.inj hlen) htail
      exact ⟨rfl, hr⟩

end SelfDelimiting

namespace Bytes

theorem hex_injective {a b : UInt8} (h : hex a = hex b) : a = b := by
  have hdigit : ∀ i j : Fin 16, Nat.digitChar i = Nat.digitChar j → i = j := by decide
  have ha := a.toNat_lt
  have hb := b.toNat_lt
  rw [hex, hex, List.cons.injEq, List.cons.injEq] at h
  have hhigh := Fin.val_eq_of_eq
    (hdigit ⟨a.toNat / 16, by omega⟩ ⟨b.toNat / 16, by omega⟩ h.1)
  have hlow := Fin.val_eq_of_eq
    (hdigit ⟨a.toNat % 16, by omega⟩ ⟨b.toNat % 16, by omega⟩ h.2.1)
  dsimp only at hhigh hlow
  exact UInt8.toNat_inj.1 (by omega)

theorem selfDelimiting_hex : SelfDelimiting hex fun _ => True :=
  .of_length (n := 2) (fun _ => rfl) fun _ _ _ _ => hex_injective

theorem length_flatMap_hex (bs : List UInt8) : (bs.flatMap hex).length = 2 * bs.length := by
  induction bs with
  | nil => rfl
  | cons b bs ih =>
    rw [List.flatMap_cons, List.length_append, ih, List.length_cons]
    change 2 + _ = _
    omega

/-- Bytes are known from their digits. -/
theorem flatMap_hex_injective {as bs : List UInt8} (h : as.flatMap hex = bs.flatMap hex) :
    as = bs := by
  have hlen := congrArg List.length h
  rw [length_flatMap_hex, length_flatMap_hex] at hlen
  exact (selfDelimiting_hex.flatMap (fun _ _ => trivial) (fun _ _ => trivial) (by omega)
    (congrArg (· ++ []) h)).1

end Bytes

/-! ## Encodings -/

namespace Transcript

/-- The length of a text and a number beside it fit a word. -/
structure Measured (text : String) (n : Nat) : Prop where
  text : text.utf8ByteSize < Decimal.wordLimit
  number : n < Decimal.wordLimit

/-- All counts, lengths and numbers that are encoded fit a word. -/
structure Encodable (t : Transcript) : Prop where
  observations : t.observations.length < Decimal.wordLimit
  observed : ∀ o ∈ t.observations, Measured o.text o.budget
  responses : t.responses.length < Decimal.wordLimit
  answered : ∀ r ∈ t.responses, Measured r.text r.elapsed

instance (text : String) (n : Nat) : Decidable (Measured text n) :=
  decidable_of_iff (text.utf8ByteSize < Decimal.wordLimit ∧ n < Decimal.wordLimit)
    ⟨fun h => ⟨h.1, h.2⟩, fun h => ⟨h.text, h.number⟩⟩

instance (t : Transcript) : Decidable t.Encodable :=
  decidable_of_iff
    (t.observations.length < Decimal.wordLimit ∧
      (∀ o ∈ t.observations, Measured o.text o.budget) ∧
      t.responses.length < Decimal.wordLimit ∧ ∀ r ∈ t.responses, Measured r.text r.elapsed)
    ⟨fun h => ⟨h.1, h.2.1, h.2.2.1, h.2.2.2⟩,
      fun h => ⟨h.observations, h.observed, h.responses, h.answered⟩⟩

theorem selfDelimiting_encodeWord : SelfDelimiting encodeWord (· < Decimal.wordLimit) := by
  have hlimit : Decimal.wordLimit = Nat.pow 256 8 := by decide
  refine .of_length (Bytes.length_littleEndian 8) fun a b ha hb h => ?_
  have hn := congrArg Bytes.toNat h
  rwa [encodeWord, encodeWord, Bytes.toNat_littleEndian (hlimit ▸ ha),
    Bytes.toNat_littleEndian (hlimit ▸ hb)] at hn

theorem selfDelimiting_encodeText :
    SelfDelimiting encodeText fun t => t.utf8ByteSize < Decimal.wordLimit := by
  intro t u ht hu rest rest' h
  rw [encodeText, encodeText, List.append_assoc, List.append_assoc] at h
  -- The lengths are equal, so what comes behind them is split at the same place.
  obtain ⟨hlen, h⟩ := selfDelimiting_encodeWord ht hu h
  obtain ⟨hbytes, hr⟩ := List.append_inj h hlen
  exact ⟨String.toByteArray_inj.1 (ByteArray.ext (Array.toList_inj.1 hbytes)), hr⟩

theorem selfDelimiting_encodeList {α : Type} {encode : α → List UInt8} {P : α → Prop}
    (h : SelfDelimiting encode P) :
    SelfDelimiting (encodeList encode) fun l => l.length < Decimal.wordLimit ∧ ∀ a ∈ l, P a := by
  intro l l' hl hl' rest rest' he
  rw [encodeList, encodeList, List.append_assoc, List.append_assoc] at he
  obtain ⟨hlen, he⟩ := selfDelimiting_encodeWord hl.1 hl'.1 he
  exact h.flatMap hl.2 hl'.2 hlen he

/-- A number behind a text. -/
theorem selfDelimiting_encodeText_encodeWord :
    SelfDelimiting (fun x : String × Nat => encodeText x.1 ++ encodeWord x.2)
      fun x => Measured x.1 x.2 := by
  intro x y hx hy rest rest' h
  rw [List.append_assoc, List.append_assoc] at h
  obtain ⟨htext, h⟩ := selfDelimiting_encodeText hx.text hy.text h
  obtain ⟨hnumber, hr⟩ := selfDelimiting_encodeWord hx.number hy.number h
  exact ⟨Prod.ext htext hnumber, hr⟩

theorem selfDelimiting_encodeObservation :
    SelfDelimiting encodeObservation fun o => Measured o.text o.budget := by
  intro o o' ho ho' rest rest' h
  obtain ⟨he, hr⟩ := selfDelimiting_encodeText_encodeWord
    (a := (o.text, o.budget)) (b := (o'.text, o'.budget)) ho ho' h
  obtain ⟨htext, hbudget⟩ := Prod.mk.inj he
  cases o
  cases htext
  cases hbudget
  exact ⟨rfl, hr⟩

theorem selfDelimiting_encodeResponse :
    SelfDelimiting encodeResponse fun r => Measured r.text r.elapsed := by
  intro r r' hr hr' rest rest' h
  obtain ⟨he, hrest⟩ := selfDelimiting_encodeText_encodeWord
    (a := (r.text, r.elapsed)) (b := (r'.text, r'.elapsed)) hr hr' h
  obtain ⟨htext, helapsed⟩ := Prod.mk.inj he
  cases r
  cases htext
  cases helapsed
  exact ⟨rfl, hrest⟩

theorem selfDelimiting_encode : SelfDelimiting encode Encodable := by
  intro t u ht hu rest rest' h
  rw [encode, encode, List.append_assoc, List.append_assoc] at h
  obtain ⟨hobservations, h⟩ := selfDelimiting_encodeList selfDelimiting_encodeObservation
    ⟨ht.observations, ht.observed⟩ ⟨hu.observations, hu.observed⟩ h
  obtain ⟨hresponses, hr⟩ := selfDelimiting_encodeList selfDelimiting_encodeResponse
    ⟨ht.responses, ht.answered⟩ ⟨hu.responses, hu.answered⟩ h
  cases t
  cases hobservations
  cases hresponses
  exact ⟨rfl, hr⟩

/-- A fingerprint shows all of the digest. -/
theorem digest_eq_of_fingerprint {t u : Transcript} (h : t.fingerprint = u.fingerprint) :
    Sha256.digest t.encode = Sha256.digest u.encode :=
  Bytes.flatMap_hex_injective (String.ofList_injective h)

/-- The digests of two transcripts collide. -/
def Collides (t u : Transcript) : Prop :=
  t.encode ≠ u.encode ∧ Sha256.digest t.encode = Sha256.digest u.encode

instance (t u : Transcript) : Decidable (t.Collides u) :=
  inferInstanceAs (Decidable (_ ∧ _))

theorem fingerprint_eq_iff {t u : Transcript} (ht : t.Encodable) (hu : u.Encodable)
    (hc : ¬ t.Collides u) : t.fingerprint = u.fingerprint ↔ t = u := by
  refine ⟨fun h => ?_, congrArg _⟩
  have he : t.encode = u.encode :=
    Decidable.not_not.1 fun hne => hc ⟨hne, digest_eq_of_fingerprint h⟩
  exact selfDelimiting_encode.injective ht hu he

end Transcript

/-! ## Books -/

namespace AnswerBook

/-- The book with more responses, recorded one after the other. -/
def recordAll (b : AnswerBook) (records : List (Transcript × Response)) : AnswerBook :=
  records.foldl (fun b a => b.record a.1 a.2) b

/-- Records with other fingerprints change nothing for a transcript. -/
theorem decide_recordAll_of_ne (b : AnswerBook) {records : List (Transcript × Response)}
    {t : Transcript} (h : ∀ a ∈ records, t.fingerprint ≠ a.1.fingerprint) :
    (b.recordAll records).decide t = b.decide t := by
  induction records generalizing b with
  | nil => rfl
  | cons a records ih =>
    rw [recordAll, List.foldl_cons, ← recordAll, ih _ fun x hx => h x (List.mem_cons_of_mem _ hx),
      decide_record, if_neg (h a List.mem_cons_self)]

/-- Of the responses that are recorded for a transcript the last one counts. -/
theorem decide_recordAll_append (b : AnswerBook) (before : List (Transcript × Response))
    {after : List (Transcript × Response)} {t : Transcript} (r : Response)
    (h : ∀ a ∈ after, t.fingerprint ≠ a.1.fingerprint) :
    (b.recordAll (before ++ (t, r) :: after)).decide t = some r := by
  rw [recordAll, List.foldl_append, List.foldl_cons, ← recordAll, ← recordAll,
    decide_recordAll_of_ne _ h, decide_record, if_pos rfl]

/-- Transcripts are known from their encodings. So, unless the digests of two encodings collide,
    a book says to a transcript what was recorded last for this very transcript, and nothing if
    nothing was recorded for it. -/
theorem decide_recordAll :
    (∀ t u : Transcript, t.Encodable → u.Encodable → t.encode = u.encode → t = u) ∧
    ∀ (records : List (Transcript × Response)) (t : Transcript), t.Encodable →
      (∀ a ∈ records, a.1.Encodable ∧ ¬ t.Collides a.1) →
      (∀ before r after, records = before ++ (t, r) :: after → (∀ a ∈ after, a.1 ≠ t) →
        (empty.recordAll records).decide t = some r) ∧
      ((∀ a ∈ records, a.1 ≠ t) → (empty.recordAll records).decide t = none) := by
  refine ⟨fun t u ht hu => Transcript.selfDelimiting_encode.injective ht hu, ?_⟩
  intro records t ht hrecords
  have hne : ∀ a ∈ records, a.1 ≠ t → t.fingerprint ≠ a.1.fingerprint := by
    intro a ha hat hf
    obtain ⟨hfits, hc⟩ := hrecords a ha
    exact hat ((Transcript.fingerprint_eq_iff ht hfits hc).1 hf).symm
  constructor
  · rintro before r after rfl hafter
    refine decide_recordAll_append _ before r fun a ha => hne a ?_ (hafter a ha)
    exact List.mem_append_right _ (List.mem_cons_of_mem _ ha)
  · intro hall
    exact decide_recordAll_of_ne _ fun a ha => hne a ha (hall a ha)

/-- Two transcripts that differ in where a text ends are told apart, and so is one that is not
    recorded; the second response to the first transcript takes the place of the first one. -/
theorem decide_recordAll_boundaries :
    let t (text : String) : Transcript := Transcript.empty.observed ⟨text, 5⟩
    let records : List (Transcript × Response) :=
      [(t "ab", ⟨"reply no", 0⟩), (t "a", ⟨"reply b", 0⟩), (t "ab", ⟨"reply yes", 2⟩)]
    (empty.recordAll records).decide (t "ab") = some ⟨"reply yes", 2⟩ ∧
      (empty.recordAll records).decide (t "") = none := by
  intro t records
  have hab : ∀ a ∈ records, a.1.Encodable ∧ ¬ (t "ab").Collides a.1 := by decide +kernel
  have hnil : ∀ a ∈ records, a.1.Encodable ∧ ¬ (t "").Collides a.1 := by decide +kernel
  obtain ⟨-, hdecide⟩ := decide_recordAll
  exact ⟨(hdecide records _ (by decide) hab).1 (records.take 2) _ [] rfl
      (fun _ h => nomatch h),
    (hdecide records _ (by decide) hnil).2 (by decide)⟩

end AnswerBook

end Inquiry
