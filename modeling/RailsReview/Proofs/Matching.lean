import RailsReview.Regex.Basic

/-!
# Where matches end

The places where a match can end are kept without repetitions. A place of a given text is known by
the length of what lies before it, so leaving repetitions out loses no place: one membership lemma
for each way to put expressions together says which places are reached, and `isMatch_iff` reduces
matching to them.
-/
namespace RailsReview.Regex

namespace Place

/-- The text that a place is in. -/
def whole (p : Place) : List Char := p.before.reverse ++ p.after

theorem eq_of_same {p q : Place} (hwhole : p.whole = q.whole) (h : p.same q) : p = q := by
  have hlength : p.before.reverse.length = q.before.reverse.length := by simpa [same] using h
  obtain ⟨hbefore, hafter⟩ := List.append_inj hwhole hlength
  obtain ⟨before, after⟩ := p
  obtain rfl : before = q.before := List.reverse_inj.1 hbefore
  obtain rfl : after = q.after := hafter
  rfl

theorem mem_of_mem_fresh {seen ps : List Place} {p : Place} (h : p ∈ fresh seen ps) : p ∈ ps := by
  induction ps generalizing seen with
  | nil => cases h
  | cons q ps ih =>
    unfold fresh at h
    split at h
    · exact .tail q (ih h)
    · rcases List.mem_cons.1 h with rfl | h
      · exact .head ps
      · exact .tail q (ih h)

/-- Among the places of one text nothing is left out but what was seen. -/
theorem mem_fresh_iff {text : List Char} {seen ps : List Place}
    (hseen : ∀ p ∈ seen, p.whole = text) (hps : ∀ p ∈ ps, p.whole = text) {p : Place} :
    p ∈ fresh seen ps ↔ p ∈ ps ∧ p ∉ seen := by
  induction ps generalizing seen with
  | nil => simp [fresh]
  | cons q ps ih =>
    obtain ⟨hq, hrest⟩ := List.forall_mem_cons.1 hps
    unfold fresh
    split
    · rename_i hsame
      obtain ⟨q', hq', hsame⟩ := List.any_eq_true.1 hsame
      obtain rfl : q = q' := eq_of_same (hq.trans (hseen q' hq').symm) hsame
      rw [ih hseen hrest, List.mem_cons]
      constructor
      · exact fun ⟨hp, hnew⟩ => ⟨.inr hp, hnew⟩
      · rintro ⟨rfl | hp, hnew⟩
        · exact absurd hq' hnew
        · exact ⟨hp, hnew⟩
    · rename_i hnew
      have hq' : q ∉ seen := fun hmem => hnew (List.any_eq_true.2 ⟨q, hmem, by simp [same]⟩)
      rw [List.mem_cons, ih (List.forall_mem_cons.2 ⟨hq, hseen⟩) hrest, List.mem_cons,
        List.mem_cons]
      constructor
      · rintro (rfl | ⟨hp, hnew⟩)
        · exact ⟨.inl rfl, hq'⟩
        · exact ⟨.inr hp, fun hmem => hnew (.inr hmem)⟩
      · rintro ⟨rfl | hp, hnew⟩
        · exact .inl rfl
        · by_cases heq : p = q
          · exact .inl heq
          · exact .inr ⟨hp, fun hmem => hmem.elim heq hnew⟩

theorem mem_onward {before cs : List Char} {p : Place} :
    p ∈ onward before cs ↔ ∃ front, cs = front ++ p.after ∧ p.before = front.reverse ++ before := by
  obtain ⟨before', after⟩ := p
  induction cs generalizing before with
  | nil =>
    rw [onward, List.mem_singleton, mk.injEq]
    constructor
    · rintro ⟨rfl, rfl⟩
      exact ⟨[], rfl, rfl⟩
    · rintro ⟨front, hcs, hbefore⟩
      obtain ⟨rfl, hafter⟩ := List.append_eq_nil_iff.1 hcs.symm
      exact ⟨hbefore, hafter⟩
  | cons c cs ih =>
    rw [onward, List.mem_cons, ih, mk.injEq]
    constructor
    · rintro (⟨rfl, rfl⟩ | ⟨front, rfl, hbefore⟩)
      · exact ⟨[], rfl, rfl⟩
      · exact ⟨c :: front, rfl, by simpa using hbefore⟩
    · rintro ⟨_ | ⟨d, front⟩, hcs, hbefore⟩
      · exact .inl ⟨hbefore, hcs.symm⟩
      · obtain ⟨rfl, hrest⟩ := List.cons.inj hcs
        exact .inr ⟨front, hrest, by simpa using hbefore⟩

end Place

/-- What every step keeps holds of all places that a repetition reaches. -/
theorem forall_mem_times {P : Place → Prop} {f : Place → List Place}
    (hf : ∀ p, P p → ∀ q ∈ f p, P q) (n : Nat) {ps : List Place} (hps : ∀ p ∈ ps, P p) :
    ∀ q ∈ times f n ps, P q := by
  induction n generalizing ps with
  | zero => exact hps
  | succ n ih =>
    refine ih fun q hq => ?_
    obtain ⟨p, hp, hq⟩ := List.mem_flatMap.1 (Place.mem_of_mem_fresh hq)
    exact hf p (hps p hp) q hq

theorem forall_mem_closure {P : Place → Prop} {f : Place → List Place}
    (hf : ∀ p, P p → ∀ q ∈ f p, P q) (n : Nat) {seen ps : List Place} (hseen : ∀ p ∈ seen, P p)
    (hps : ∀ p ∈ ps, P p) : ∀ q ∈ closure f n seen ps, P q := by
  induction n generalizing seen ps with
  | zero => exact hseen
  | succ n ih =>
    have hnext : ∀ q ∈ Place.fresh seen (ps.flatMap f), P q := by
      intro q hq
      obtain ⟨p, hp, hq⟩ := List.mem_flatMap.1 (Place.mem_of_mem_fresh hq)
      exact hf p (hps p hp) q hq
    unfold closure
    split
    · exact hseen
    · rename_i next
      exact ih (List.forall_mem_append.2 ⟨hseen, hnext⟩) hnext

theorem mem_closure_of_mem {f : Place → List Place} (n : Nat) {seen ps : List Place} {p : Place}
    (h : p ∈ seen) : p ∈ closure f n seen ps := by
  induction n generalizing seen ps with
  | zero => exact h
  | succ n ih =>
    unfold closure
    split
    · exact h
    · exact ih (List.mem_append_left _ h)

/-- A place reached from one of a text is in that text. -/
theorem whole_of_mem_ends (r : Regex) : ∀ p, ∀ q ∈ r.ends p, q.whole = p.whole := by
  induction r with
  | empty =>
    intro p q hq
    rw [List.mem_singleton.1 hq]
  | char set =>
    rintro ⟨before, _ | ⟨c, rest⟩⟩ q hq
    · cases hq
    · simp only [ends, Place.step] at hq
      split at hq
      · rw [List.mem_singleton.1 hq]
        simp [Place.whole]
      · cases hq
  | anchor a letters =>
    intro p q hq
    simp only [ends] at hq
    split at hq
    · rw [List.mem_singleton.1 hq]
    · cases hq
  | seq r s hr hs =>
    intro p q hq
    obtain ⟨m, hm, hq⟩ := List.mem_flatMap.1 (Place.mem_of_mem_fresh hq)
    exact (hs m q hq).trans (hr p m hm)
  | alt r s hr hs =>
    intro p q hq
    exact (List.mem_append.1 (Place.mem_of_mem_fresh hq)).elim (hr p q) (hs p q)
  | rep r min max hr =>
    intro p
    have hkeep (m : Place) (hm : m.whole = p.whole) (q : Place) (hq : q ∈ r.ends m) :
        q.whole = p.whole := (hr m q hq).trans hm
    have hstart := forall_mem_times hkeep min (List.forall_mem_singleton.2 rfl)
    exact forall_mem_closure hkeep _ hstart hstart

variable {r s : Regex} {p q : Place}

theorem mem_ends_seq : q ∈ (seq r s).ends p ↔ ∃ m ∈ r.ends p, q ∈ s.ends m := by
  have hplaces : ∀ q ∈ (r.ends p).flatMap s.ends, q.whole = p.whole := by
    intro q hq
    obtain ⟨m, hm, hq⟩ := List.mem_flatMap.1 hq
    exact (whole_of_mem_ends s m q hq).trans (whole_of_mem_ends r p m hm)
  rw [ends, Place.mem_fresh_iff (List.forall_mem_nil _) hplaces, List.mem_flatMap]
  exact and_iff_left List.not_mem_nil

theorem mem_ends_alt : q ∈ (alt r s).ends p ↔ q ∈ r.ends p ∨ q ∈ s.ends p := by
  have hplaces : ∀ q ∈ r.ends p ++ s.ends p, q.whole = p.whole :=
    List.forall_mem_append.2 ⟨whole_of_mem_ends r p, whole_of_mem_ends s p⟩
  rw [ends, Place.mem_fresh_iff (List.forall_mem_nil _) hplaces, List.mem_append]
  exact and_iff_left List.not_mem_nil

theorem mem_ends_concat_cons {rs : List Regex} :
    q ∈ (concat (r :: rs)).ends p ↔ ∃ m ∈ r.ends p, q ∈ (concat rs).ends m := mem_ends_seq

theorem mem_ends_concat_nil : q ∈ (concat []).ends p ↔ q = p := List.mem_singleton

theorem mem_times_one : q ∈ times r.ends 1 [p] ↔ q ∈ r.ends p := by
  change q ∈ Place.fresh [] ([p].flatMap r.ends) ↔ _
  rw [List.flatMap_singleton, Place.mem_fresh_iff (List.forall_mem_nil _) (whole_of_mem_ends r p)]
  exact and_iff_left List.not_mem_nil

theorem mem_ends_optional : q ∈ (optional r).ends p ↔ q = p ∨ q ∈ r.ends p := by
  have hnext : q ∈ Place.fresh [p] ([p].flatMap r.ends) ↔ q ∈ r.ends p ∧ q ≠ p := by
    rw [List.flatMap_singleton, Place.mem_fresh_iff (List.forall_mem_singleton.2 rfl)
      (whole_of_mem_ends r p), List.mem_singleton]
  have hends : (optional r).ends p = [p] ++ Place.fresh [p] ([p].flatMap r.ends) := by
    change closure r.ends 1 [p] [p] = _
    rw [closure]
    split
    · rename_i hnone
      rw [hnone, List.append_nil]
    · rfl
  rw [hends, List.mem_append, List.mem_singleton, hnext]
  by_cases heq : q = p
  · exact iff_of_true (.inl heq) (.inl heq)
  · rw [and_iff_left heq]

theorem mem_ends_atEnd : q ∈ atEnd.ends p ↔ p.after = [] ∧ q = p := by
  unfold atEnd ends
  rw [List.mem_ite_nil_right, List.mem_singleton]
  exact and_congr_left' List.isEmpty_iff

theorem mem_ends_char {set : CharSet} : q ∈ (char set).ends p ↔
    ∃ c, set.contains c ∧ p.after = c :: q.after ∧ q.before = c :: p.before := by
  obtain ⟨before, _ | ⟨d, rest⟩⟩ := p
  · exact iff_of_false List.not_mem_nil nofun
  · obtain ⟨before', after⟩ := q
    simp only [ends, Place.step, List.mem_ite_nil_right, List.mem_singleton, Place.mk.injEq,
      List.cons.injEq]
    constructor
    · rintro ⟨hd, rfl, rfl⟩
      exact ⟨d, hd, ⟨rfl, rfl⟩, rfl⟩
    · rintro ⟨c, hc, ⟨rfl, rfl⟩, rfl⟩
      exact ⟨hc, rfl, rfl⟩

theorem mem_ends_atStart : q ∈ atStart.ends p ↔ p.before = [] ∧ q = p := by
  unfold atStart ends
  rw [List.mem_ite_nil_right, List.mem_singleton]
  exact and_congr_left' List.isEmpty_iff

theorem contains_single {c d : Char} : (CharSet.single c).contains d ↔ d = c := by
  simp only [CharSet.single, CharSet.contains, Bool.and_eq_true, decide_eq_true_eq]
  exact ⟨fun ⟨hc, hd⟩ => Char.le_antisymm hd hc, fun h => h ▸ ⟨Char.le_refl d, Char.le_refl d⟩⟩

theorem mem_ends_single {c : Char} :
    q ∈ (char (.single c)).ends p ↔ p.after = c :: q.after ∧ q.before = c :: p.before := by
  simp only [mem_ends_char, contains_single, exists_eq_left]

/-- A text is passed as it is written. -/
theorem mem_ends_text {w : String} : q ∈ (text w).ends p ↔
    p.after = w.toList ++ q.after ∧ q.before = w.toList.reverse ++ p.before := by
  unfold text
  induction w.toList generalizing p with
  | nil =>
    obtain ⟨before, after⟩ := p
    obtain ⟨before', after'⟩ := q
    simp [ends, eq_comm, and_comm]
  | cons c cs ih =>
    rw [List.foldr_cons, mem_ends_seq]
    constructor
    · rintro ⟨m, hm, hq⟩
      obtain ⟨hafter, hbefore⟩ := mem_ends_single.1 hm
      obtain ⟨hafter', hbefore'⟩ := ih.1 hq
      exact ⟨by rw [hafter, hafter', List.cons_append], by simp [hbefore, hbefore']⟩
    · rintro ⟨hafter, hbefore⟩
      exact ⟨⟨c :: p.before, cs ++ q.after⟩, mem_ends_single.2 ⟨hafter, rfl⟩,
        ih.2 ⟨rfl, by simpa using hbefore⟩⟩

/-- A text matches when it can be parted so that a match begins there. -/
theorem isMatch_iff {text : String} : r.isMatch text ↔
    ∃ front back, text.toList = front ++ back ∧ ∃ q, q ∈ r.ends ⟨front.reverse, back⟩ := by
  simp only [isMatch, List.any_eq_true, Place.mem_onward, List.append_nil, Bool.not_eq_true',
    List.isEmpty_eq_false_iff_exists_mem]
  constructor
  · rintro ⟨⟨before, back⟩, ⟨front, htext, rfl⟩, hends⟩
    exact ⟨front, back, htext, hends⟩
  · rintro ⟨front, back, htext, hends⟩
    exact ⟨⟨front.reverse, back⟩, ⟨front, htext, rfl⟩, hends⟩

end RailsReview.Regex
