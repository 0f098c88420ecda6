import RailsReview.Proofs.LetterCase

/-!
# Letters from beyond ASCII

Of the characters beyond ASCII two only are a lower-case letter of ASCII when case is left aside:
the Kelvin sign is a k, and the long s is an s. The long s is a lower-case letter already, so of the
two only the Kelvin sign becomes one in lower case.
-/
namespace RailsReview

namespace CaseTable

/-- Whether the partners of a row lie beyond ASCII. A row of one character may also lead to one of
these letters. -/
def Shift.leadsTo (few : List Char) (s : Shift) : Bool :=
  decide (0x80 ≤ (s.first : Int) + s.distance) ||
    (s.first == s.last && few.contains (Char.ofNat ((s.first : Int) + s.distance).toNat))

theorem not_isLower_ofNat {n : Nat} (hn : 0x80 ≤ n) : ¬(Char.ofNat n).isLower := by
  intro hlower
  by_cases hvalid : n.isValidChar
  · have hascii : (Char.ofNat n).toNat < 0x80 :=
      of_decide_eq_true (Text.isAscii_of_isLower hlower)
    rw [Char.ofNat, dif_pos hvalid] at hascii
    exact Nat.not_lt_of_le hn hascii
  · rw [Char.ofNat, dif_neg hvalid] at hlower
    exact absurd hlower (by decide)

theorem mem_of_isLower_partner {few : List Char} {rows : List Shift}
    (hrows : rows.all (·.leadsTo few)) {n : Nat} (hn : 0x80 ≤ n)
    (h : (Char.ofNat (partner rows n)).isLower) : Char.ofNat (partner rows n) ∈ few := by
  unfold partner at h ⊢
  cases hrow : rows.find? (·.contains n) with
  | none =>
    rw [hrow] at h
    exact absurd h (not_isLower_ofNat hn)
  | some s =>
    rw [hrow] at h
    have hleads := List.all_eq_true.1 hrows s (List.mem_of_find?_eq_some hrow)
    have hin := List.find?_some hrow
    simp only [Shift.contains, Bool.and_eq_true, decide_eq_true_eq] at hin
    simp only [Shift.leadsTo, Bool.or_eq_true, Bool.and_eq_true, decide_eq_true_eq, beq_iff_eq,
      List.contains_iff_mem] at hleads
    rcases hleads with habove | ⟨hone, hfew⟩
    · exact absurd h (not_isLower_ofNat (by dsimp only; omega))
    · rwa [show n = s.first by omega]

end CaseTable

namespace Text
open CaseTable
variable {c : Char}

theorem le_toNat_of_not_isAscii (h : ¬isAscii c) : 0x80 ≤ c.toNat :=
  Nat.le_of_not_lt fun hlt => h (decide_eq_true hlt)

theorem folded_of_isAscii (h : isAscii c) : folded c = c.toLower := if_pos h

theorem isAscii_of_folded (h : (folded c).isLower) (hk : folded c ≠ 'k') (hs : folded c ≠ 's') :
    isAscii c := by
  refine Decidable.byContradiction fun hc => ?_
  have hfew : folded c ∈ ['k', 's'] := by
    rw [folded, if_neg hc] at h ⊢
    exact mem_of_isLower_partner (by decide) (le_toNat_of_not_isAscii hc) h
  simp only [List.mem_cons, List.not_mem_nil, or_false] at hfew
  exact hfew.elim hk hs

/-- Where lower case brings a character beyond ASCII to letters of it, it is the Kelvin sign. -/
theorem toLower_eq_k (hc : ¬isAscii c) (h : ∀ d ∈ toLower c, d.isLower) : toLower c = ['k'] := by
  have hlong : toLowerLong.all fun row => row.2.any fun n => !(Char.ofNat n).isLower := by decide
  have hrows : CaseTable.toLower.all (·.leadsTo ['k']) := by decide
  rw [toLower, if_neg hc] at h ⊢
  cases hrow : toLowerLong.find? (·.1 == c.toNat) with
  | some row =>
    obtain ⟨n, hn, hnot⟩ := List.any_eq_true.1
      (List.all_eq_true.1 hlong row (List.mem_of_find?_eq_some hrow))
    have hlower := h (Char.ofNat n) (by
      rw [longForm?, hrow]
      exact List.mem_map_of_mem hn)
    rw [hlower] at hnot
    cases hnot
  | none =>
    rw [longForm?, hrow] at h ⊢
    have hfew := mem_of_isLower_partner hrows (le_toNat_of_not_isAscii hc)
      (h _ (List.mem_singleton_self _))
    exact congrArg (fun d => [d]) (List.mem_singleton.1 hfew)

/-- A text whose lower case is a word without a k is that word in some case. -/
theorem map_toLower_of_flatMap {cs word : List Char} (h : cs.flatMap toLower = word)
    (hword : ∀ d ∈ word, d.isLower ∧ d ≠ 'k') :
    (∀ c ∈ cs, isAscii c) ∧ cs.map Char.toLower = word := by
  induction cs generalizing word with
  | nil => exact ⟨List.forall_mem_nil _, h⟩
  | cons c cs ih =>
    rw [List.flatMap_cons] at h
    subst h
    obtain ⟨hfirst, hrest⟩ := List.forall_mem_append.1 hword
    obtain ⟨hascii, hlower⟩ := ih rfl hrest
    have hc : isAscii c := by
      refine Decidable.byContradiction fun hc => ?_
      have hk := toLower_eq_k hc fun d hd => (hfirst d hd).1
      exact (hfirst 'k' (by rw [hk]; exact List.mem_singleton_self _)).2 rfl
    refine ⟨List.forall_mem_cons.2 ⟨hc, hascii⟩, ?_⟩
    rw [List.map_cons, hlower, toLower, if_pos hc, List.singleton_append]

theorem map_folded_of_isAscii {cs : List Char} (h : ∀ c ∈ cs, isAscii c) :
    cs.map folded = cs.map Char.toLower :=
  List.map_congr_left fun c hc => folded_of_isAscii (h c hc)

end Text
end RailsReview
