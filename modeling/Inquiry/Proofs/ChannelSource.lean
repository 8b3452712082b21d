import Inquiry.Proofs.SourceText
import Inquiry.Proofs.Tokenization

/-!
# The source of messages with channels

A channel cannot be written down: in source it shows as a bare sigil, and read again it
is that sigil, as text (`Message.bare`). But only as long as the text behind it does not go
on like a pointer. The source escapes a digit behind a pointer, not one behind a channel, and
it never escapes an arrow, so where the text behind a channel begins with an index
(`beginsIndex`), the two of them read as a pointer that was not there (`Message.forged`).

Nothing else can happen. Whether a channel is read as a pointer can be seen in the fragment
behind it, for in source the fragment ends where the next argument begins, with a character
that is special (`EndsText`); what is left of the fragment is read as any other. So the walk
along the source goes on behind a channel as it does behind a pointer, one way or the other
(`Message.readsAs_channel`, `Message.readsAs_forgery`).

* `Message.tryParse_source_eq_ok_iff`: what is read from the source of any message, and where
  nothing is;
* `Message.countP_leaves_forged`: each channel with an index behind it adds a pointer
  (`Message.forgeries`);
* `Message.tryParse_source_channels`: the source of a message reads back as it is with its
  channels bare if it has no such channel, and only then.
-/

namespace Inquiry

variable {C : Type}

/-! ## The text behind a sigil -/

theorem escape_append (s t : List Char) : escape (s ++ t) = escape s ++ escape t := by
  induction s with
  | nil => rfl
  | cons c s ih =>
    rw [List.cons_append, escape, escape, ih]
    split <;> rfl

theorem escape_of_plain {t : List Char} (h : ∀ c ∈ t, isSpecial c = false) : escape t = t := by
  induction t with
  | nil => rfl
  | cons c t ih =>
    obtain ⟨hc, ht⟩ := List.forall_mem_cons.1 h
    rw [escape, hc, ih ht]
    rfl

theorem fragmentSource_false (t : List Char) : fragmentSource false t = escape t := by
  cases t <;> rfl

/-- What the source of a fragment begins with, if nothing in it is special, the fragment begins
    with. -/
theorem isPrefix_of_escape {ds t cs rest : List Char} (hds : ∀ c ∈ ds, isSpecial c = false)
    (hcs : EndsText cs) (h : ds ++ rest = escape t ++ cs) : ds <+: t := by
  induction ds generalizing t with
  | nil => exact List.nil_prefix
  | cons d ds ih =>
    obtain ⟨hd, hds⟩ := List.forall_mem_cons.1 hds
    cases t with
    | nil =>
      have hc : d ∈ cs.head? := by
        rw [← show d :: ds ++ rest = cs from h]
        rfl
      rw [hcs d hc] at hd
      cases hd
    | cons c t =>
      rw [escape] at h
      split at h
      · obtain ⟨rfl, -⟩ := List.cons.inj h
        cases hd
      · obtain ⟨rfl, hrest⟩ := List.cons.inj h
        exact (List.prefix_cons_inj _).2 (ih hds hrest)

theorem EndsDigits.escape {t cs : List Char} (ht : EndsDigits t) (h : EndsText cs) :
    EndsDigits (escape t ++ cs) := by
  cases t with
  | nil => exact .of_endsText h
  | cons c t =>
    rw [Inquiry.escape]
    split
    · exact .cons rfl
    · refine .cons (Bool.eq_false_iff.2 fun hc => ?_)
      rw [EndsDigits, List.takeWhile_cons, hc] at ht
      cases ht

namespace Reference

/-- A reference is still found, or a longer one, if other text is behind it. -/
theorem WellFormed.scan?_isSome {r : Reference} (hr : r.WellFormed) (cs : List Char) :
    (scan? (r.source ++ cs)).isSome := by
  have hlonger : WellFormed ⟨r.kind, r.arrow, r.digits ++ cs.takeWhile Char.isDigit⟩ := {
    digits_ne_nil := List.append_ne_nil_of_left_ne_nil hr.digits_ne_nil _
    isDigit := List.forall_mem_append.2 ⟨hr.isDigit, List.all_eq_true.1 List.all_takeWhile⟩
    arrow := hr.arrow }
  refine Option.isSome_of_eq_some (scan?_eq_some_iff.2 ⟨hlonger, ?_, .dropWhile cs⟩)
  simp [source]

/-- Whether a sigil in front of the source of a fragment begins a reference can be seen in the
    fragment itself. -/
theorem scan?_escape (k : Pointer.Kind) (t : List Char) {cs : List Char} (hcs : EndsText cs) :
    scan? (k.sigil :: (escape t ++ cs)) =
      (scan? (k.sigil :: t)).map fun found => (found.1, escape found.2 ++ cs) := by
  cases h : scan? (k.sigil :: t) with
  | some found =>
    obtain ⟨r, left⟩ := found
    obtain ⟨hr, hsource, hleft⟩ := scan?_eq_some_iff.1 h
    rw [source, List.cons_append] at hsource
    obtain ⟨hk, rfl⟩ := List.cons.inj hsource
    refine scan?_eq_some_iff.2 ⟨hr, ?_, hleft.escape hcs⟩
    rw [hk, escape_append, escape_of_plain hr.isSpecial_eq_false, source, List.append_assoc,
      List.cons_append]
  | none =>
    rw [Option.map_none]
    cases h' : scan? (k.sigil :: (escape t ++ cs)) with
    | none => rfl
    | some found =>
      -- A reference that is found here is in the fragment, where it would have been found.
      obtain ⟨r, rest⟩ := found
      obtain ⟨hr, hsource, -⟩ := scan?_eq_some_iff.1 h'
      obtain ⟨hk, hrest⟩ := List.cons.inj hsource
      obtain ⟨left, rfl⟩ := isPrefix_of_escape hr.isSpecial_eq_false hcs hrest.symm
      have hsome := hr.scan?_isSome left
      rw [source, ← hk, List.cons_append, h] at hsome
      cases hsome

end Reference

/-- The text begins with an index: a digit, maybe with an arrow in front. -/
def beginsIndex (t : List Char) : Bool := (Reference.skipArrow t).2.head?.any Char.isDigit

/-- The sigil of a channel begins a reference if an index is behind it. -/
theorem scan?_channel_isSome (t : List Char) :
    (Reference.scan? (Pointer.Kind.channel.sigil :: t)).isSome = beginsIndex t := by
  rw [Reference.scan?, Reference.ofSigil?_sigil, beginsIndex]
  obtain ⟨arrow, cs⟩ := Reference.skipArrow t
  cases cs with
  | nil => rfl
  | cons c cs => cases hc : c.isDigit <;> simp [hc]

/-! ## What becomes of channels -/

namespace Message

/-- The fragment that a message begins with. -/
def lead : Message C → String
  | .text t => t
  | .slot t _ _ => t

/-- The message with another fragment to begin with. -/
def withLead (t : String) : Message C → Message C
  | .text _ => .text t
  | .slot _ a rest => .slot t a rest

end Message

/-- The pointer that a referent reads as, if it is a channel and an index is behind it, and what
    is left of the text. -/
def Referent.forgery? (behind : String) : Referent C → Option (Pointer × String)
  | .channel _ =>
    (Reference.scan? (Pointer.Kind.channel.sigil :: behind.toList)).map fun found =>
      (⟨found.1.kind, Decimal.ofDigits found.1.digits⟩, String.ofList found.2)
  | _ => none

mutual

/-- The message with a pointer in place of each channel that reads as one, with the text behind
    it. -/
def Message.forged : Message C → Message C
  | .text t => .text t
  | .slot t a rest =>
    match a.forgery? rest.lead with
    | some (p, left) => .slot t (.pointer p) (rest.forged.withLead left)
    | none => .slot t a.forged rest.forged

/-- The referent, forged inside if it is a message. -/
def Referent.forged : Referent C → Referent C
  | .message m => .message m.forged
  | .pointer p => .pointer p
  | .channel handle => .channel handle

end

mutual

/-- The number of channels in a message with an index behind them. -/
def Message.forgeries : Message C → Nat
  | .text _ => 0
  | .slot _ a rest => a.forgeries rest.lead + rest.forgeries

/-- The number of channels in a referent with an index behind them, where the text behind the
    referent is known. -/
def Referent.forgeries (behind : String) : Referent C → Nat
  | .message m => m.forgeries
  | .pointer _ => 0
  | .channel _ => if beginsIndex behind.toList then 1 else 0

end

mutual

/-- The message with the bare sigil, as text, in place of each channel. -/
def Message.bare : Message C → Message C
  | .text t => .text t
  | .slot t a rest => (Message.text t).concat (a.bare.concat rest.bare)

/-- What is in the place of a referent: the sigil of a channel, and a slot otherwise. -/
def Referent.bare : Referent C → Message C
  | .message m => .reference (.message m.bare)
  | .pointer p => .reference (.pointer p)
  | .channel _ => .text Pointer.Kind.channel.symbol

end

namespace Message

theorem withLead_lead (m : Message C) : m.withLead m.lead = m := by
  cases m <;> rfl

theorem leaves_withLead (t : String) (m : Message C) : (m.withLead t).leaves = m.leaves := by
  cases m <;> rfl

theorem nesting_withLead (t : String) (m : Message C) : (m.withLead t).nesting = m.nesting := by
  cases m <;> rfl

theorem forged_withLead (t : String) (m : Message C) :
    (m.withLead t).forged = m.forged.withLead t := by
  cases m with
  | text u => rfl
  | slot u a rest =>
    rw [withLead, forged, forged]
    cases a.forgery? rest.lead <;> rfl

section

variable (t : String) (c : C) {rest : Message C}

theorem forged_nested (m : Message C) :
    (slot t (.message m) rest).forged = slot t (.message m.forged) rest.forged := rfl

theorem forged_pointer (p : Pointer) :
    (slot t (.pointer p) rest).forged = slot t (.pointer p) rest.forged := rfl

theorem forged_channel_of_none
    (h : Reference.scan? (Pointer.Kind.channel.sigil :: rest.lead.toList) = none) :
    (slot t (.channel c) rest).forged = slot t (.channel c) rest.forged := by
  rw [forged, Referent.forgery?, h]
  rfl

theorem forged_channel_of_some {r : Reference} {left : List Char}
    (h : Reference.scan? (Pointer.Kind.channel.sigil :: rest.lead.toList) = some (r, left)) :
    (slot t (.channel c) rest).forged =
      slot t (.pointer ⟨r.kind, Decimal.ofDigits r.digits⟩)
        (rest.withLead (String.ofList left)).forged := by
  rw [forged, Referent.forgery?, h, forged_withLead]
  rfl

theorem forgeries_channel : (slot t (.channel c) rest).forgeries =
    (if beginsIndex rest.lead.toList then 1 else 0) + rest.forgeries := rfl

theorem bare_nested (m : Message C) :
    (slot t (.message m) rest).bare = slot t (.message m.bare) rest.bare := by
  simp [bare, Referent.bare, reference, concat]

theorem bare_pointer (p : Pointer) :
    (slot t (.pointer p) rest).bare = slot t (.pointer p) rest.bare := by
  simp [bare, Referent.bare, reference, concat]

theorem bare_channel : (slot t (.channel c) rest).bare =
    concat (text (t ++ Pointer.Kind.channel.symbol)) rest.bare := by
  rw [bare, Referent.bare, ← concat_assoc, concat]

end

theorem leaves_bare (m : Message C) : m.bare.leaves = m.leaves.filter Referent.isPointer := by
  induction m with
  | text t => rfl
  | nested t m rest ihm ihr =>
    rw [bare_nested, leaves, leaves, Referent.leaves, Referent.leaves, ihm, ihr,
      List.filter_append]
  | pointer t p rest ih =>
    rw [bare_pointer, leaves, leaves, List.filter_append, ih]
    rfl
  | channel t c rest ih =>
    rw [bare_channel, leaves_concat, leaves_text, List.nil_append, ih]
    rfl

theorem nesting_bare (m : Message C) : m.bare.nesting = m.nesting := by
  induction m with
  | text t => rfl
  | nested t m rest ihm ihr =>
    rw [bare_nested, Message.nesting, Message.nesting, Referent.nesting, Referent.nesting, ihm, ihr]
  | pointer t p rest ih => rw [bare_pointer, Message.nesting, Message.nesting, ih]
  | channel t c rest ih =>
    rw [bare_channel, nesting_concat, ih]
    rfl

theorem nesting_forged (m : Message C) : m.forged.nesting = m.nesting := by
  induction m with
  | text t => rfl
  | nested t m rest ihm ihr =>
    rw [forged_nested, Message.nesting, Message.nesting, Referent.nesting, Referent.nesting, ihm,
      ihr]
  | pointer t p rest ih => rw [forged_pointer, Message.nesting, Message.nesting, ih]
  | channel t c rest ih =>
    cases h : Reference.scan? (Pointer.Kind.channel.sigil :: rest.lead.toList) with
    | none => rw [forged_channel_of_none t c h, Message.nesting, Message.nesting, ih]
    | some found =>
      rw [forged_channel_of_some t c h, forged_withLead, Message.nesting, Message.nesting,
        nesting_withLead, ih]
      rfl

/-- Each channel with an index behind it is one more pointer. -/
theorem countP_leaves_forged (m : Message C) :
    m.forged.leaves.countP Referent.isPointer =
      m.leaves.countP Referent.isPointer + m.forgeries := by
  induction m with
  | text t => rfl
  | nested t m rest ihm ihr =>
    rw [forged_nested, leaves, leaves, Referent.leaves, Referent.leaves, List.countP_append,
      List.countP_append, ihm, ihr, forgeries, Referent.forgeries]
    omega
  | pointer t p rest ih =>
    rw [forged_pointer, leaves, leaves, List.countP_append, List.countP_append, ih, forgeries,
      Referent.forgeries]
    omega
  | channel t c rest ih =>
    have hindex := scan?_channel_isSome rest.lead.toList
    rw [forgeries_channel, ← hindex]
    cases h : Reference.scan? (Pointer.Kind.channel.sigil :: rest.lead.toList) with
    | none =>
      rw [forged_channel_of_none t c h, leaves, leaves, List.countP_append, List.countP_append, ih,
        Option.isSome_none, if_neg Bool.false_ne_true]
      omega
    | some found =>
      have hpointer (p : Pointer) :
          (Referent.pointer p : Referent C).leaves.countP Referent.isPointer = 1 := rfl
      have hchannel : (Referent.channel c).leaves.countP Referent.isPointer = 0 := rfl
      rw [forged_channel_of_some t c h, forged_withLead, leaves, leaves, leaves_withLead,
        List.countP_append, List.countP_append, ih, hpointer, hchannel, Option.isSome_some,
        if_pos rfl]
      omega

/-- Without such channels every channel stays what it is. -/
theorem forged_of_forgeries_eq_zero {m : Message C} (h : m.forgeries = 0) : m.forged = m := by
  induction m with
  | text t => rfl
  | nested t m rest ihm ihr =>
    obtain ⟨hm, hr⟩ := Nat.add_eq_zero_iff.1 h
    rw [forged_nested, ihm hm, ihr hr]
  | pointer t p rest ih => rw [forged_pointer, ih (Nat.add_eq_zero_iff.1 h).2]
  | channel t c rest ih =>
    obtain ⟨hindex, hr⟩ := Nat.add_eq_zero_iff.1 h
    have hscan : Reference.scan? (Pointer.Kind.channel.sigil :: rest.lead.toList) = none := by
      rw [← Option.not_isSome_iff_eq_none, scan?_channel_isSome]
      intro hb
      rw [Referent.forgeries, if_pos hb] at hindex
      cases hindex
    rw [forged_channel_of_none t c hscan, ih hr]

/-! ## Reading the source -/

/-- A fragment is what the source of a message begins with, and nothing behind it goes on that
    fragment. -/
theorem exists_sourceChars_withLead (m : Message C) :
    ∃ behind, (∀ t afterPointer, (m.withLead t).sourceChars afterPointer =
        fragmentSource afterPointer t.toList ++ behind) ∧
      ∀ cs, Stops cs → EndsText (behind ++ cs) := by
  cases m with
  | text t => exact ⟨[], fun _ _ => (List.append_nil _).symm, fun cs => .of_stops⟩
  | slot t a rest =>
    refine ⟨_, fun _ _ => List.append_assoc _ _ _, fun cs _ c hc => ?_⟩
    cases a with
    | message m =>
      cases hc
      rfl
    | pointer p =>
      cases hc
      exact p.kind.isSpecial_sigil
    | channel handle =>
      cases hc
      rfl

/-- Whether a sigil in front of a message begins a reference is decided by the fragment that the
    message begins with, and the rest of it is left. -/
theorem scan?_sigil_sourceChars (k : Pointer.Kind) (m : Message C) {cs : List Char}
    (hs : Stops cs) : Reference.scan? (k.sigil :: (m.sourceChars false ++ cs)) =
      (Reference.scan? (k.sigil :: m.lead.toList)).map fun found =>
        (found.1, (m.withLead (String.ofList found.2)).sourceChars false ++ cs) := by
  obtain ⟨behind, hsource, hends⟩ := m.exists_sourceChars_withLead
  have hm := hsource m.lead false
  rw [withLead_lead] at hm
  simp only [hm, hsource, String.toList_ofList, fragmentSource_false, List.append_assoc]
  exact Reference.scan?_escape k _ (hends cs hs)

section

variable {rest rest' : Message C} {afterPointer : Bool} (t : String) (c : C)

/-- A channel without an index behind it is more text. -/
theorem readsAs_channel
    (h : Reference.scan? (Pointer.Kind.channel.sigil :: rest.lead.toList) = none)
    (hr : ReadsAs false rest rest') : ReadsAs afterPointer (slot t (.channel c) rest)
      (concat (text (t ++ Pointer.Kind.channel.symbol)) rest') := by
  refine ⟨fun {source cs u pre ts} hs hu => ?_⟩
  have hscan := rest.scan?_sigil_sourceChars .channel hs
  rw [h, Option.map_none] at hscan
  have hsigil : Literal (rest.sourceChars false ++ cs) [Pointer.Kind.channel.sigil]
      [Pointer.Kind.channel.sigil] := .sigil hscan .nil
  simp only [Message.sourceChars, Referent.sourceChars, Referent.isPointer,
    List.append_assoc] at hu ⊢
  -- What is in front, the fragment and the sigil go on as one literal text.
  have ht := (hu.append (literal_fragmentSource _ afterPointer t.toList)).append hsigil
  rw [← Pointer.Kind.toList_symbol, ← String.toList_append, ← String.toList_append] at ht
  have hread : LexesBehind pre _ ts ↔ _ := hr.behind hs ht
  have hfits : (concat (text (t ++ Pointer.Kind.channel.symbol)) rest').Fits ↔ rest'.Fits := by
    rw [Fits, leaves_concat]
    rfl
  rw [hfits, ← concat_assoc, concat, ← String.append_assoc]
  simpa only [Pointer.Kind.toList_symbol, List.append_assoc] using hread

/-- A channel with an index behind it is a pointer. -/
theorem readsAs_forgery {r : Reference} {left : List Char}
    (h : Reference.scan? (Pointer.Kind.channel.sigil :: rest.lead.toList) = some (r, left))
    (hr : ReadsAs false (rest.withLead (String.ofList left)) rest') :
    ReadsAs afterPointer (slot t (.channel c) rest)
      (slot t (.pointer ⟨r.kind, Decimal.ofDigits r.digits⟩) rest') := by
  refine ⟨fun {source cs u pre ts} hs hu => ?_⟩
  have hscan := rest.scan?_sigil_sourceChars .channel hs
  rw [h, Option.map_some] at hscan
  simp only [Message.sourceChars, Referent.sourceChars, Referent.isPointer, List.append_assoc,
    List.cons_append, List.nil_append] at hu ⊢
  rw [lexesBehind_fragment_iff t (.of_scan? hscan) hu, LexesBehind.reference_iff hscan,
    hr.lexesBehind_iff hs, fits_pointer_iff, and_assoc, Reference.Fits]
  simp [concat, Message.tokens, Referent.tokens]

end

theorem readsAs_of_withLead {m : Message C} {afterPointer : Bool}
    (h : ReadsAs afterPointer (m.withLead m.lead) (m.withLead m.lead).forged.bare) :
    ReadsAs afterPointer m m.forged.bare := by
  rwa [withLead_lead] at h

/-- From the source of a message the message that is forged and bare is read. This holds whatever
    fragment the message begins with, since a forgery takes the index off the fragment behind it
    and the rest is read with what is left. -/
theorem readsAs_withLead (m : Message C) (t : String) (afterPointer : Bool) :
    ReadsAs afterPointer (m.withLead t) (m.withLead t).forged.bare := by
  induction m generalizing t afterPointer with
  | text u => exact readsAs_text t
  | nested u m rest ihm ihr =>
    rw [withLead, forged_nested, bare_nested]
    exact readsAs_nested t (readsAs_of_withLead (ihm _ _)) (readsAs_of_withLead (ihr _ _))
  | pointer u p rest ih =>
    rw [withLead, forged_pointer, bare_pointer]
    exact readsAs_pointer t p (readsAs_of_withLead (ih _ _))
  | channel u c rest ih =>
    rw [withLead]
    cases h : Reference.scan? (Pointer.Kind.channel.sigil :: rest.lead.toList) with
    | none =>
      rw [forged_channel_of_none t c h, bare_channel]
      exact readsAs_channel t c h (readsAs_of_withLead (ih _ _))
    | some found =>
      rw [forged_channel_of_some t c h, bare_pointer]
      exact readsAs_forgery t c h (ih _ _)

/-- What is read from the source of a message is the message that is forged and bare; nothing is
    read if it nests too deep or a forged pointer does not fit a word. -/
theorem tryParse_source_eq_ok_iff {m m' : Message C} : tryParse m.source = .ok m' ↔
    (m.nesting ≤ nestingLimit ∧ m.forged.Fits) ∧ m' = m.forged.bare := by
  have h := readsAs_of_withLead (m.readsAs_withLead m.lead false)
  have hleaves := leaves_bare m.forged
  rw [h.tryParse_source_eq_ok_iff (channelFree_of_leaves_eq hleaves), nesting_bare, nesting_forged,
    fits_iff_of_leaves_eq hleaves]

theorem countP_leaves_bare (m : Message C) :
    m.bare.leaves.countP Referent.isPointer = m.leaves.countP Referent.isPointer := by
  rw [leaves_bare, List.countP_filter]
  simp only [Bool.and_self]

theorem tryParse_source_eq_bare_iff {m : Message C} : tryParse m.source = .ok m.bare ↔
    (m.nesting ≤ nestingLimit ∧ m.Fits) ∧ m.forgeries = 0 := by
  rw [tryParse_source_eq_ok_iff]
  constructor
  · rintro ⟨⟨hn, hfits⟩, hbare⟩
    -- There are as many pointers as before, so none is forged.
    have hcount := congrArg (fun m => m.leaves.countP Referent.isPointer) hbare
    simp only [countP_leaves_bare, countP_leaves_forged] at hcount
    have hnone : m.forgeries = 0 := by omega
    rw [forged_of_forgeries_eq_zero hnone] at hfits
    exact ⟨⟨hn, hfits⟩, hnone⟩
  · rintro ⟨⟨hn, hfits⟩, hnone⟩
    rw [forged_of_forgeries_eq_zero hnone]
    exact ⟨⟨hn, hfits⟩, rfl⟩

/-- The source of a message reads as the message with each channel bare, or a pointer if an index
    is behind it, unless it nests too deep or a pointer does not fit a word. So it reads as the
    message with all channels bare, which has the same pointers, exactly if no index is behind
    a channel; otherwise there is another pointer for each channel that has one behind it. -/
theorem tryParse_source_channels (m : Message C) :
    (∀ m', tryParse m.source = .ok m' ↔
      (m.nesting ≤ nestingLimit ∧ m.forged.Fits) ∧ m' = m.forged.bare) ∧
    m.forged.bare.leaves.countP Referent.isPointer =
      m.leaves.countP Referent.isPointer + m.forgeries ∧
    (tryParse m.source = .ok m.bare ↔
      (m.nesting ≤ nestingLimit ∧ m.Fits) ∧ m.forgeries = 0) ∧
    m.bare.leaves = m.leaves.filter Referent.isPointer :=
  ⟨fun _ => tryParse_source_eq_ok_iff,
    (countP_leaves_bare _).trans (countP_leaves_forged m),
    tryParse_source_eq_bare_iff,
    leaves_bare m⟩

/-- A digit behind a channel is not escaped, so the two make a pointer. -/
theorem tryParse_source_ne_bare :
    let m : Message Nat := .slot "" (.channel 0) (.text "5")
    m.nesting ≤ nestingLimit ∧ m.Fits ∧ m.source = "@5" ∧ m.bare = .text "@5" ∧
      (tryParse m.source : Except ErrorList (Message Nat)) =
        .ok (.reference (.pointer ⟨.channel, 5⟩)) ∧
      (tryParse m.source : Except ErrorList (Message Nat)) ≠ .ok m.bare := by
  intro m
  have hn : m.nesting ≤ nestingLimit := by decide
  have hforged : m.forged = .reference (.pointer ⟨.channel, 5⟩) := by decide +kernel
  have hfits : m.forged.Fits := by
    rw [hforged]
    simp [Fits, leaves_reference, Referent.leaves, Decimal.wordLimit]
  have hread : (tryParse m.source : Except ErrorList (Message Nat)) =
      .ok (.reference (.pointer ⟨.channel, 5⟩)) :=
    tryParse_source_eq_ok_iff.2 ⟨⟨hn, hfits⟩, by rw [hforged]; decide +kernel⟩
  refine ⟨hn, by simp [m, Fits, leaves, Referent.leaves], by decide +kernel, by decide +kernel,
    hread, fun h => ?_⟩
  rw [hread] at h
  exact absurd (Except.ok.inj h) (by decide +kernel)

end Message

end Inquiry
