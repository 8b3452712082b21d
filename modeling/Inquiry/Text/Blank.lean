/-!
# White space

The characters that separate words — those with the Unicode property
`White_Space` — and text without the white space around it.

* `isBlank_eq_false_of_isAlpha`: no letter is white space;
* `takeWhile_append_trim`: what is trimmed off is white space at the two ends;
* `takeWhile_trim`: all that is in front is trimmed off.
-/

namespace Inquiry.Text

/-- The code points with the property `White_Space`, as closed ranges. -/
def blankRanges : List (Nat × Nat) :=
  [(0x09, 0x0D), (0x20, 0x20), (0x85, 0x85), (0xA0, 0xA0), (0x1680, 0x1680),
   (0x2000, 0x200A), (0x2028, 0x2029), (0x202F, 0x202F), (0x205F, 0x205F),
   (0x3000, 0x3000)]

/-- Whether `c` is white space. -/
def isBlank (c : Char) : Bool :=
  blankRanges.any fun r => r.1 ≤ c.toNat && c.toNat ≤ r.2

/-- Text without the white space at its two ends. -/
def trim (cs : List Char) : List Char :=
  ((cs.dropWhile isBlank).reverse.dropWhile isBlank).reverse

theorem isBlank_eq_false_of_isAlpha {c : Char} (h : c.isAlpha) : isBlank c = false := by
  have hn : (65 ≤ c.toNat ∧ c.toNat ≤ 90) ∨ (97 ≤ c.toNat ∧ c.toNat ≤ 122) := by
    rcases Bool.or_eq_true_iff.1 h with h | h
    · exact .inl (of_decide_eq_true h)
    · have h := Bool.and_eq_true_iff.1 h
      exact .inr ⟨of_decide_eq_true h.1, of_decide_eq_true h.2⟩
  refine Bool.eq_false_iff.2 fun hb => ?_
  simp only [isBlank, blankRanges, List.any_cons, List.any_nil, Bool.or_false, Bool.or_eq_true,
    Bool.and_eq_true, decide_eq_true_eq] at hb
  omega

/-- The text is what is trimmed, with white space in front of it and behind it. -/
theorem takeWhile_append_trim (cs : List Char) :
    ∃ trail : List Char, cs = cs.takeWhile isBlank ++ (trim cs ++ trail) ∧
      ∀ c ∈ trail, isBlank c := by
  have hback := List.takeWhile_append_dropWhile (p := isBlank) (l := (cs.dropWhile isBlank).reverse)
  refine ⟨((cs.dropWhile isBlank).reverse.takeWhile isBlank).reverse, ?_, fun c hc => ?_⟩
  · rw [trim, ← List.reverse_append, hback, List.reverse_reverse, List.takeWhile_append_dropWhile]
  · exact List.all_eq_true.1 List.all_takeWhile c (List.mem_reverse.1 hc)

theorem takeWhile_trim (cs : List Char) : (trim cs).takeWhile isBlank = [] := by
  have hpre : trim cs <+: cs.dropWhile isBlank := by
    have := List.dropWhile_suffix isBlank (l := (cs.dropWhile isBlank).reverse)
    rwa [← List.reverse_prefix, List.reverse_reverse] at this
  obtain ⟨after, h⟩ := hpre
  have hhead := List.head?_dropWhile_not isBlank cs
  rw [← h] at hhead
  cases ht : trim cs with
  | nil => rfl
  | cons c ds =>
    rw [ht, List.cons_append] at hhead
    rw [List.takeWhile_cons_of_neg (by simpa using hhead)]

end Inquiry.Text
