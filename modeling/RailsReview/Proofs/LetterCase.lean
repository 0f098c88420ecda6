import RailsReview.Text.Case

/-!
# Letters of one case

The rows of the case data cover characters of one case only, so no letter is of both cases. ASCII
letters go to the other case and back.
-/
namespace RailsReview

namespace CaseTable.Span

/-- Whether a span covers a single character or every second one. -/
def alternates (s : Span) : Bool := s.first == s.last || s.step == 2

/-- Whether two spans have no character in common, judged by their bounds, or by their parity where
they interleave. -/
def apart (s t : Span) : Bool :=
  s.last.blt t.first || t.last.blt s.first ||
    (s.alternates && t.alternates && s.first % 2 != t.first % 2)

theorem mod_two_of_contains {s : Span} (hs : s.alternates) {n : Nat} (h : s.contains n) :
    n % 2 = s.first % 2 := by
  simp only [alternates, Bool.or_eq_true, beq_iff_eq] at hs
  simp only [contains, Bool.and_eq_true, decide_eq_true_eq, beq_iff_eq] at h
  obtain ⟨⟨hfirst, hlast⟩, hstep⟩ := h
  rcases hs with hone | htwo
  · omega
  · rw [htwo] at hstep
    omega

theorem not_contains_of_apart {s t : Span} (hapart : s.apart t) {n : Nat} (hs : s.contains n) :
    ¬t.contains n := by
  intro ht
  simp only [apart, Bool.or_eq_true, Bool.and_eq_true, Nat.blt_eq, bne_iff_ne] at hapart
  rcases hapart with hbounds | ⟨⟨hs', ht'⟩, hparity⟩
  · simp only [contains, Bool.and_eq_true, decide_eq_true_eq] at hs ht
    omega
  · exact hparity ((mod_two_of_contains hs' hs).symm.trans (mod_two_of_contains ht' ht))

end CaseTable.Span

namespace Text
variable {c : Char}

theorem isAscii_of_le (bound : Char) (hbound : isAscii bound) (h : c.val ≤ bound.val) :
    isAscii c :=
  decide_eq_true (Nat.lt_of_le_of_lt (UInt32.le_iff_toNat_le.1 h) (of_decide_eq_true hbound))

theorem isAscii_of_isLower (h : c.isLower) : isAscii c :=
  isAscii_of_le 'z' rfl (of_decide_eq_true (Bool.and_eq_true_iff.1 h).2)

theorem isAscii_of_isUpper (h : c.isUpper) : isAscii c :=
  isAscii_of_le 'Z' rfl (of_decide_eq_true h).2

theorem isAscii_of_isDigit (h : c.isDigit) : isAscii c :=
  isAscii_of_le '9' rfl (of_decide_eq_true (Bool.and_eq_true_iff.1 h).2)

/-- The finitely many ASCII characters can be checked one by one. -/
theorem ascii_cases {P : Char → Prop} (h : ∀ n < 0x80, P (Char.ofNat n)) (hc : isAscii c) :
    P c := by
  have hcode := h c.toNat (of_decide_eq_true hc)
  rwa [Char.ofNat_toNat] at hcode

theorem not_isUpper_of_isDigit (h : c.isDigit) : ¬isUpper c :=
  ascii_cases (P := fun c => c.isDigit → ¬isUpper c) (by decide +kernel) (isAscii_of_isDigit h) h

theorem not_isUpper_of_isLower (h : isLower c) : ¬isUpper c := by
  have hapart : CaseTable.lower.all (fun s => CaseTable.upper.all s.apart) := by decide +kernel
  by_cases hc : isAscii c
  · exact ascii_cases (P := fun c => isLower c → ¬isUpper c) (by decide +kernel) hc h
  · rw [isLower, if_neg hc, List.any_eq_true] at h
    rw [isUpper, if_neg hc, List.any_eq_true]
    obtain ⟨s, hs, hcontains⟩ := h
    rintro ⟨t, ht, hcontains'⟩
    have hst := List.all_eq_true.1 (List.all_eq_true.1 hapart s hs) t ht
    exact CaseTable.Span.not_contains_of_apart hst hcontains hcontains'

theorem toUpper_of_isLower (h : c.isLower) : toUpper c = [c.toUpper] :=
  if_pos (isAscii_of_isLower h)

theorem toLower_of_isUpper (h : c.isUpper) : toLower c = [c.toLower] :=
  if_pos (isAscii_of_isUpper h)

theorem isUpper_toUpper (h : c.isLower) : c.toUpper.isUpper :=
  ascii_cases (P := fun c => c.isLower → c.toUpper.isUpper) (by decide) (isAscii_of_isLower h) h

theorem isLower_toLower (h : c.isUpper) : c.toLower.isLower :=
  ascii_cases (P := fun c => c.isUpper → c.toLower.isLower) (by decide) (isAscii_of_isUpper h) h

theorem toLower_toUpper (h : c.isLower) : c.toUpper.toLower = c :=
  ascii_cases (P := fun c => c.isLower → c.toUpper.toLower = c) (by decide) (isAscii_of_isLower h) h

theorem toUpper_toLower (h : c.isUpper) : c.toLower.toUpper = c :=
  ascii_cases (P := fun c => c.isUpper → c.toLower.toUpper = c) (by decide) (isAscii_of_isUpper h) h

end Text
end RailsReview
