import RailsReview.Proofs.LastSegment

/-!
# Singulars of last segments

The rule for "oxen" is the only one that looks at the front of a name, and it is tried after four of
the rules that look at its end. Where it applies it takes two letters out of the front, so the
segments before the last one do not stay as they are. All other rules keep to the last segment.
-/
namespace RailsReview.Inflection

/-- The rules for singulars that are tried before the one for the front of a name. -/
def earlySingulars : List Rule := singulars.takeWhile Rule.isClosing

def lateSingulars : List Rule := (singulars.dropWhile Rule.isClosing).tail

theorem singulars_eq :
    singulars = earlySingulars ++ .opening "ox" "en" "" :: lateSingulars := rfl

theorem closingSingulars_eq : closingSingulars = earlySingulars ++ lateSingulars := rfl

theorem plain_singulars : closingSingulars.all Rule.isPlain := by decide

/-- The endings that are exchanged before the front of a name is looked at. -/
def earlyEndings : List String := ["databases", "quizzes", "matrices", "vertices", "indices"]

/-- Whether a name is written like "oxen" at its front, and no ending is exchanged instead. -/
def LosesEn (cs : List Char) : Prop :=
  "oxen".toList <+: caseless cs ∧ ∀ e ∈ earlyEndings, ¬e.toList <:+ caseless cs

instance (cs : List Char) : Decidable (LosesEn cs) :=
  inferInstanceAs (Decidable (_ ∧ _))

section Fronts
variable {cs p w : List Char}

theorem isSome_early_iff :
    (change? earlySingulars cs).isSome ↔ ∃ e ∈ earlyEndings, e.toList <:+ caseless cs := by
  have htexts : earlySingulars.flatMap Rule.texts = earlyEndings := by decide
  have hlower : ∀ e ∈ earlyEndings, caseless e.toList = e.toList := by decide
  rw [isSome_change?_iff (by decide), htexts]
  exact exists_congr fun e => and_congr_right fun he => by rw [hlower e he]

theorem losesEn_iff :
    LosesEn cs ↔ change? earlySingulars cs = none ∧
      afterLetters? "oxen".toList cs = some (cs.drop 4) := by
  have hfront : caseless "oxen".toList = "oxen".toList := by decide
  have hends : change? earlySingulars cs = none ↔
      ∀ e ∈ earlyEndings, ¬e.toList <:+ caseless cs := by
    rw [← Option.not_isSome_iff_eq_none, isSome_early_iff]
    simp only [not_exists, not_and]
  rw [hends, LosesEn, afterLetters?_eq_some_iff, hfront, and_comm]
  exact and_congr_right fun _ => (and_iff_left rfl).symm

/-- A name in the singular: two letters of its front are taken out, or an ending is exchanged. -/
theorem applyFirst_singulars (cs : List Char) :
    applyFirst singulars cs =
      if LosesEn cs then cs.take 2 ++ cs.drop 4 else altered cs (change? closingSingulars cs) := by
  have hearly : earlySingulars.all Rule.isClosing := by decide
  have hlate : lateSingulars.all Rule.isClosing := by decide
  rw [applyFirst, singulars_eq, List.findSome?_append, List.findSome?_cons,
    findSome?_inflected? hearly, findSome?_inflected? hlate, closingSingulars_eq, change?_append]
  cases hchange : change? earlySingulars cs with
  | some change =>
    rw [if_neg fun h => by simp [(losesEn_iff.1 h).1] at hchange]
    rfl
  | none =>
    by_cases hloses : LosesEn cs
    · rw [if_pos hloses, Rule.inflected?, show ("ox" ++ "en").toList = "oxen".toList from rfl,
        (losesEn_iff.1 hloses).2]
      exact congrArg (· ++ cs.drop 4) (List.append_nil _)
    · have hopens : afterLetters? "oxen".toList cs = none := by
        refine Option.eq_none_iff_forall_ne_some.2 fun rest hrest => hloses ?_
        obtain ⟨-, rfl⟩ := afterLetters?_eq_some_iff.1 hrest
        exact losesEn_iff.2 ⟨hchange, hrest⟩
      rw [if_neg hloses, Rule.inflected?, show ("ox" ++ "en").toList = "oxen".toList from rfl,
        hopens]
      cases change? lateSingulars cs with
      | none => rfl
      | some change => rfl

/-- The front of a name that loses two letters of it. -/
theorem exists_of_losesEn (h : LosesEn cs) :
    ∃ o x e n rest, cs = o :: x :: e :: n :: rest ∧ Text.folded e = 'e' ∧ Text.folded n = 'n' := by
  obtain ⟨rest, hrest⟩ := h.1
  obtain ⟨o, cs, rfl, -, hcs⟩ := List.map_eq_cons_iff.1 hrest.symm
  obtain ⟨x, cs, rfl, -, hcs⟩ := List.map_eq_cons_iff.1 hcs
  obtain ⟨e, cs, rfl, he, hcs⟩ := List.map_eq_cons_iff.1 hcs
  obtain ⟨n, cs, rfl, hn, -⟩ := List.map_eq_cons_iff.1 hcs
  exact ⟨o, x, e, n, cs, rfl, he, hn⟩

/-- Taking two letters out of the front of a name changes the segments before its last one. -/
theorem not_startsWith_of_losesEn (hp : p.getLast?.any isSeparator)
    (hw : ∀ c ∈ w, ¬isSeparator c) (h : LosesEn (p ++ w)) :
    ¬p <+: (p ++ w).take 2 ++ (p ++ w).drop 4 := by
  obtain ⟨sep, hlast, hsep⟩ := (Option.any_eq_true _ _).1 hp
  have hlong : 4 ≤ p.length := by
    obtain ⟨q, rfl⟩ := List.getLast?_eq_some_iff.1 hlast
    have hopens := (losesEn_iff.1 h).2
    rw [List.append_assoc, List.singleton_append, afterLetters?_behind hsep (by decide)] at hopens
    obtain ⟨rest, hrest, -⟩ := Option.map_eq_some_iff.1 hopens
    have hlength : 4 ≤ q.length := by
      simpa [caseless] using (afterLetters?_eq_some_iff.1 hrest).1.length_le
    rw [List.length_append]
    omega
  rw [List.take_append_of_le_length (by omega), List.drop_append_of_le_length hlong,
    ← List.append_assoc]
  rintro ⟨r, hr⟩
  have hshort : (p.take 2 ++ p.drop 4).length + 2 = p.length := by
    rw [List.length_append, List.length_take, List.length_drop]
    omega
  rcases List.append_eq_append_iff.1 hr with ⟨front, hfront, -⟩ | ⟨back, hback, hrest⟩
  · rw [hfront, List.length_append] at hshort
    omega
  · have hmem : sep ∈ back := by
      rcases List.eq_nil_or_concat back with rfl | ⟨back, c, rfl⟩
      · rw [List.append_nil] at hback
        rw [← hback] at hshort
        omega
      · rw [hback, List.concat_eq_append, ← List.append_assoc, List.getLast?_concat] at hlast
        simp [Option.some.inj hlast]
    exact hw sep (by rw [hrest]; exact List.mem_append_left _ hmem) hsep

theorem eq_or_eq_of_take_eq {α : Type} {a b c : α} {z : List α}
    (h : (a :: b :: z).take z.length = z) (hc : c ∈ z) : c = a ∨ c = b := by
  induction z generalizing a b with
  | nil => cases hc
  | cons d z ih =>
    obtain ⟨rfl, hz⟩ := List.cons.inj h
    rcases List.mem_cons.1 hc with rfl | hc
    · exact .inl rfl
    · exact (ih hz hc).symm

/-- An ending in "s" reaches behind an "n". -/
theorem getLast?_of_endsIn_s (front : List Char) {rest ending : List Char} {n : Char}
    (hn : Text.folded n = 'n') (hs : (caseless ending).getLast? = some 's')
    (h : caseless ending <:+ caseless (front ++ n :: rest)) :
    ∃ l, rest.getLast? = some l ∧ Text.folded l = 's' := by
  obtain ⟨before, hword⟩ := h
  have hend := congrArg List.getLast? hword
  rw [List.getLast?_append, hs, Option.some_or, caseless, List.getLast?_map] at hend
  obtain ⟨l, hl, hlower⟩ := Option.map_eq_some_iff.1 hend.symm
  cases rest with
  | nil =>
    obtain rfl : n = l := by simpa using hl
    simp [hn] at hlower
  | cons c rest => exact ⟨l, by simpa using hl, hlower⟩

theorem altered_ne_of_losesEn (h : LosesEn cs) :
    altered cs (changeBehind? closingSingulars cs) ≠ cs.take 2 ++ cs.drop 4 := by
  have hlast : ∀ c ∈ closingSingulars.flatMap Rule.changes,
      c.1.toList.length = c.2.toList.length + 2 →
        (caseless c.1.toList).getLast? = some 's' ∧
          (c.2 = "" ∨ (caseless c.2.toList).getLast?.any (· != 's')) := by decide
  obtain ⟨o, x, e, n, rest, rfl, he, hn⟩ := exists_of_losesEn h
  rw [show (o :: x :: e :: n :: rest).take 2 ++ (o :: x :: e :: n :: rest).drop 4 = o :: x :: rest
    from rfl]
  intro heq
  have hlength := congrArg List.length heq
  cases hchange : changeBehind? closingSingulars (o :: x :: e :: n :: rest) with
  | none =>
    rw [hchange, altered] at hlength
    simp at hlength
    omega
  | some c =>
    obtain ⟨ending, replacement⟩ := c
    obtain ⟨hmem, hends⟩ := mem_changes_of_changeBehind? hchange
    have hshorter := length_le_of_changeBehind? hchange
    rw [hchange, altered] at heq hlength
    simp only [List.length_append, List.length_take, List.length_cons] at hlength hshorter heq
    obtain ⟨hs, htext⟩ := hlast _ hmem (by dsimp only; omega)
    obtain ⟨last, hl, hlower⟩ := getLast?_of_endsIn_s [o, x, e] hn hs hends
    rcases htext with rfl | hother
    · -- Letters of the front stand further back, down to the last one.
      have htake : rest.length + 1 + 1 + 1 + 1 - ending.toList.length = rest.length + 2 := by
        simp at hlength
        omega
      rw [htake] at heq
      have hback : (e :: n :: rest).take rest.length = rest := by simpa using heq
      rcases eq_or_eq_of_take_eq hback (List.mem_of_getLast? hl) with rfl | rfl
      · simp [he] at hlower
      · simp [hn] at hlower
    · have hboth := congrArg (fun l => (caseless l).getLast?) heq
      have hend : (caseless (o :: x :: rest)).getLast? = some 's' := by
        rw [caseless, List.getLast?_map, List.getLast?_cons, List.getLast?_cons, hl]
        exact congrArg some hlower
      obtain ⟨l, hl, hne⟩ := (Option.any_eq_true _ _).1 hother
      simp only [caseless_append, List.getLast?_append, hend, hl, Option.some_or] at hboth
      simp [Option.some.inj hboth] at hne

end Fronts

section Singulars
variable {p word : String}

/-- Whether a word has another singular behind a separator than alone. -/
def SingularApart (word : String) : Prop :=
  isAmong loneSingulars word ∨ LosesEn word.toList ∨ isUncountable word.toList ∧
    (isAmong ["species", "jeans"] word ∨ isAmong ["series"] word ∧ ¬"eries".toList <:+ word.toList)

/-- Whether the singular of a name takes two letters out of the segments before the last one. -/
def FrontApart (p word : String) : Prop :=
  irregularSingular? word = none ∧ LosesEn (p ++ word).toList

instance : Decidable (SingularApart word) :=
  inferInstanceAs (Decidable (_ ∨ _))

instance : Decidable (FrontApart p word) :=
  inferInstanceAs (Decidable (_ ∧ _))

theorem singularize_append {q : List Char} {sep : Char} (hp : p.toList = q ++ [sep])
    (hsep : isSeparator sep) (hword : ∀ c ∈ word.toList, ¬isSeparator c) :
    singularize (p ++ word) =
      if FrontApart p word then
        String.ofList ((p ++ word).toList.take 2 ++ (p ++ word).toList.drop 4)
      else p ++ formBehind irregularSingular? closingSingulars word := by
  have hwhole : (p ++ word).toList = q ++ sep :: word.toList := by simp [hp]
  rw [singularize, inflect_append hp hsep hword, applyFirst_singulars, ← hwhole, formBehind]
  cases hform : irregularSingular? word with
  | some form =>
    have hstays : ¬FrontApart p word := fun h => by
      rw [h.1] at hform
      cases hform
    rw [if_neg hstays]
    rfl
  | none =>
    rw [Option.map_none, Option.getD_none, Option.getD_none]
    by_cases hloses : LosesEn (p ++ word).toList
    · rw [if_pos hloses, if_pos ⟨hform, hloses⟩]
    · rw [if_neg hloses, if_neg fun h => hloses h.2, hwhole, altered_behind plain_singulars q hsep,
        ← String.toList_inj]
      simp [hp]

theorem not_losesEn_of_irregular {form : String} (h : irregularSingular? word = some form) :
    ¬LosesEn word.toList := by
  have hkeeps : ∀ w ∈ irregulars.flatMap fun p => [p.1, p.2], ¬LosesEn w.toList := by decide
  exact hkeeps word (mem_irregulars h)

theorem singularize_alone (hne : word ≠ "") (hword : ∀ c ∈ word.toList, ¬isSeparator c) :
    singularize word =
      if isUncountable word.toList then word
      else if LosesEn word.toList then String.ofList (word.toList.take 2 ++ word.toList.drop 4)
      else formAlone irregularSingular? closingSingulars word := by
  rw [singularize, inflect_alone hne hword, applyFirst_singulars, formAlone,
    apply_ite String.ofList]
  cases hform : irregularSingular? word with
  | some form =>
    have hkeeps := not_losesEn_of_irregular hform
    rw [if_neg hkeeps, if_neg hkeeps]
  | none => rw [Option.getD_none, Option.getD_none]

theorem formBehind_uncountable_iff (h : isUncountable word.toList) :
    formBehind irregularSingular? closingSingulars word = word ↔ ¬SingularApart word := by
  obtain ⟨v, hv, hcase, hlower⟩ := exists_of_isUncountable h
  have hforms : ∀ v ∈ uncountables, v ∉ loneSingulars ∧ ¬"oxen".toList <+: v.toList ∧
      (v ∉ ["species", "jeans", "series"] ∧ changeBehind? closingSingulars v.toList = none ∨
        v ∈ ["species", "jeans"] ∧ (changeBehind? closingSingulars v.toList).any
          (fun c => c.1.toList.length != c.2.toList.length) ∨
        v = "series" ∧ changeBehind? closingSingulars v.toList = some ("eries", "eries")) := by
    decide
  obtain ⟨halone, hfront, hchange⟩ := hforms v hv
  rw [formBehind_uncountable plain_singulars (irregular_of_isUncountable (·.1) h) hcase hlower,
    SingularApart, LosesEn, hlower]
  simp only [isAmong_iff_mem hlower, h, halone, hfront, true_and, false_and, false_or]
  have hlength {c : String × String} (hc : changeBehind? closingSingulars v.toList = some c) :
      c.1.toList.length ≤ word.toList.length := by
    refine length_le_of_changeBehind? (t := c.2) (?_ : changeBehind? closingSingulars _ = _)
    rw [changeBehind?_congr plain_singulars (hlower.trans hcase.symm), hc]
  rcases hchange with ⟨hnot, hchange⟩ | ⟨hmem, hchange⟩ | ⟨rfl, hchange⟩
  · rw [hchange]
    simp only [List.mem_cons, List.not_mem_nil, or_false, not_or] at hnot ⊢
    simp [altered, hnot]
  · obtain ⟨c, hc, hdiffer⟩ := (Option.any_eq_true _ _).1 hchange
    rw [hc, altered_eq_self_iff (hlength hc)]
    simp [hmem, Ne.symm (bne_iff_ne.1 hdiffer)]
  · rw [hchange, altered_eq_self_iff (hlength hchange)]
    simp

theorem startsWith_singularize_iff {q : List Char} {sep : Char} (hp : p.toList = q ++ [sep])
    (hsep : isSeparator sep) (hword : ∀ c ∈ word.toList, ¬isSeparator c) :
    p.toList <+: (singularize (p ++ word)).toList ↔ ¬FrontApart p word := by
  rw [singularize_append hp hsep hword]
  split
  · rename_i hfront
    rw [String.toList_ofList, String.toList_append]
    exact iff_of_false (not_startsWith_of_losesEn (by simp [hp, hsep]) hword
      (String.toList_append ▸ hfront.2)) (not_not_intro hfront)
  · rename_i hstays
    rw [String.toList_append]
    exact iff_of_true (List.prefix_append _ _) hstays

theorem singularize_append_eq_iff {q : List Char} {sep : Char} (hp : p.toList = q ++ [sep])
    (hsep : isSeparator sep) (hne : word ≠ "") (hword : ∀ c ∈ word.toList, ¬isSeparator c) :
    singularize (p ++ word) = p ++ singularize word ↔ ¬SingularApart word ∧ ¬FrontApart p word := by
  have hregular : ∀ w form, irregularSingular? w = some form → ¬isAmong loneSingulars w := by
    have hnone : ∀ w ∈ irregulars.flatMap fun p => [p.1, p.2], ¬isAmong loneSingulars w := by decide
    exact fun w form h => hnone w (mem_irregulars h)
  by_cases hfront : FrontApart p word
  · refine iff_of_false (fun heq => ?_) fun h => h.2 hfront
    refine (startsWith_singularize_iff hp hsep hword).1 ?_ hfront
    rw [heq, String.toList_append]
    exact List.prefix_append _ _
  · rw [singularize_append hp hsep hword, if_neg hfront, String.append_right_inj,
      singularize_alone hne hword, and_iff_left hfront]
    by_cases huncountable : isUncountable word.toList
    · rw [if_pos huncountable, formBehind_uncountable_iff huncountable]
    · rw [if_neg huncountable]
      by_cases hloses : LosesEn word.toList
      · have hform : irregularSingular? word = none :=
          Option.eq_none_iff_forall_ne_some.2 fun form h => not_losesEn_of_irregular h hloses
        rw [if_pos hloses, formBehind, hform, Option.getD_none, String.ofList_inj]
        exact iff_of_false (altered_ne_of_losesEn hloses) fun h => h (.inr (.inl hloses))
      · rw [if_neg hloses, formBehind_eq_formAlone_iff plain_singulars hregular (by decide)
          (by decide) (by decide +kernel), SingularApart]
        simp [huncountable, hloses]

/-- A name behind its last separator is inflected like the word there alone, and nothing else of the
name changes. It is another plural, or another singular, exactly for the words that are known as
whole words or that the separator makes a difference to; and the singular changes the front of the
name exactly where that is written like "oxen" and the end of the name is not exchanged before. -/
theorem inflects_last_segment (hp : p.toList.getLast?.any isSeparator) (hne : word ≠ "")
    (hword : ∀ c ∈ word.toList, ¬isSeparator c) :
    (pluralize (p ++ word) = p ++ pluralize word ↔ ¬PluralApart word) ∧
    p.toList <+: (pluralize (p ++ word)).toList ∧
    (singularize (p ++ word) = p ++ singularize word ↔
      ¬SingularApart word ∧ ¬FrontApart p word) ∧
    (p.toList <+: (singularize (p ++ word)).toList ↔ ¬FrontApart p word) := by
  obtain ⟨sep, hlast, hsep⟩ := (Option.any_eq_true _ _).1 hp
  obtain ⟨q, hfront⟩ := List.getLast?_eq_some_iff.1 hlast
  refine ⟨pluralize_append_eq_iff hfront hsep hne hword, ?_,
    singularize_append_eq_iff hfront hsep hne hword, startsWith_singularize_iff hfront hsep hword⟩
  rw [pluralize_append hfront hsep hword, String.toList_append]
  exact List.prefix_append _ _

theorem inflects_last_segment_categories :
    "admin/blog_".toList.getLast?.any isSeparator ∧ "Categories" ≠ "" ∧
    (∀ c ∈ "Categories".toList, ¬isSeparator c) ∧
    pluralize ("admin/blog_" ++ "Categories") = "admin/blog_" ++ pluralize "Categories" ∧
    singularize ("admin/blog_" ++ "Categories") = "admin/blog_" ++ singularize "Categories" ∧
    singularize "Categories" = "Category" := by
  have hp : "admin/blog_".toList.getLast?.any isSeparator := by decide
  have hword : ∀ c ∈ "Categories".toList, ¬isSeparator c := List.all_iff_forall_prop.1 (by decide)
  obtain ⟨hplural, -, hsingular, -⟩ := inflects_last_segment hp (by decide) hword
  exact ⟨hp, by decide, hword, hplural.2 (by decide), hsingular.2 (by decide +kernel),
    by decide⟩

/-- An uncountable word gets a plural behind a separator, and the singular of a name may change its
front and leave its last segment as it is. -/
theorem segments_inflected_apart :
    pluralize ("admin/" ++ "sheep") ≠ "admin/" ++ pluralize "sheep" ∧
    singularize ("oxen/" ++ "posts") ≠ "oxen/" ++ singularize "posts" ∧
    singularize ("oxen/" ++ "posts") = "ox/posts" := by decide

end Singulars

end RailsReview.Inflection
