import Mathlib.Data.Bool.AllAny
import Mathlib.Data.List.Induction
import Mathlib.Data.List.TakeWhile
import RailsReview.Proofs.InflectionRules

/-!
# The last segment of a name

Only the part of a name behind its last separator is inflected, by the same look-ups and rules as a
word that stands alone. A few words come out differently, because a rule or the list of uncountable
words knows them as whole words only, or because a rule takes the separator for a letter. One rule
looks at the front of the name instead.
-/
namespace RailsReview.Inflection

/-- The form of a word behind a separator. -/
def formBehind (irregular? : String → Option String) (rules : List Rule) (word : String) : String :=
  (irregular? word).getD (String.ofList (altered word.toList (changeBehind? rules word.toList)))

/-- The form of a countable word that stands alone. -/
def formAlone (irregular? : String → Option String) (rules : List Rule) (word : String) : String :=
  (irregular? word).getD (String.ofList (altered word.toList (change? rules word.toList)))

/-- Whether a word is one of these in some case; they are given in lower case. -/
def isAmong (words : List String) (word : String) : Prop :=
  ∃ w ∈ words, w.toList = caseless word.toList

instance (words : List String) (word : String) : Decidable (isAmong words word) :=
  inferInstanceAs (Decidable (∃ w ∈ words, w.toList = caseless word.toList))

theorem isAmong_congr {words : List String} {word word' : String}
    (h : caseless word.toList = caseless word'.toList) :
    isAmong words word ↔ isAmong words word' := by
  rw [isAmong, isAmong, h]

theorem isAmong_iff_mem {words : List String} {word v : String}
    (h : caseless word.toList = v.toList) : isAmong words word ↔ v ∈ words := by
  rw [isAmong, h]
  constructor
  · rintro ⟨w, hw, hsame⟩
    rwa [← String.toList_inj.1 hsame]
  · exact fun hv => ⟨v, hv, rfl⟩

section Segments
variable {q w : List Char} {sep : Char}

theorem lastSegment_of_notMem (hw : ∀ c ∈ w, ¬isSeparator c) : lastSegment w = ([], w) := by
  have hall : ∀ c ∈ w.reverse, !isSeparator c := by simpa using hw
  simp only [lastSegment, List.dropWhile_eq_nil_iff.2 hall, List.takeWhile_eq_self_iff.2 hall,
    List.reverse_nil, List.reverse_reverse]

theorem lastSegment_append (q : List Char) (hsep : isSeparator sep)
    (hw : ∀ c ∈ w, ¬isSeparator c) : lastSegment (q ++ sep :: w) = (q ++ [sep], w) := by
  have hall : ∀ c ∈ w.reverse, !isSeparator c := by simpa using hw
  have hback : (q ++ sep :: w).reverse = w.reverse ++ sep :: q.reverse := by simp
  simp only [lastSegment, hback, List.dropWhile_append_of_pos hall,
    List.takeWhile_append_of_pos hall]
  simp [hsep]

theorem isUncountable_append (q w : List Char) (hsep : isSeparator sep) :
    isUncountable (q ++ sep :: w) = false := by
  refine Bool.eq_false_iff.2 fun h => ?_
  have hnone : ∀ v ∈ uncountables, v.toList.all fun c => ¬isSeparator c := by decide
  have hlower : sep ∈ Text.toLower sep := by
    simp only [isSeparator, Bool.or_eq_true, beq_iff_eq] at hsep
    rcases hsep with rfl | rfl <;> decide
  rw [isUncountable, List.contains_iff_mem] at h
  refine List.all_iff_forall_prop.1 (hnone _ h) sep ?_ hsep
  rw [String.toList_ofList, List.mem_flatMap]
  exact ⟨sep, by simp, hlower⟩

/-- What stands in front of the last segment of a name: nothing, or a text up to a separator. -/
def IsFront (front : List Char) : Prop :=
  front = [] ∨ ∃ q sep, isSeparator sep ∧ front = q ++ [sep]

theorem exists_lastSegment (cs : List Char) :
    ∃ front last, cs = front ++ last ∧ IsFront front ∧ ∀ c ∈ last, ¬isSeparator c := by
  induction cs using List.reverseRecOn with
  | nil => exact ⟨[], [], rfl, .inl rfl, List.forall_mem_nil _⟩
  | append_singleton cs c ih =>
    by_cases hc : isSeparator c
    · exact ⟨cs ++ [c], [], (List.append_nil _).symm, .inr ⟨cs, c, hc, rfl⟩, List.forall_mem_nil _⟩
    · obtain ⟨front, last, rfl, hfront, hlast⟩ := ih
      refine ⟨front, last ++ [c], List.append_assoc .., hfront, ?_⟩
      exact List.forall_mem_append.2 ⟨hlast, by simpa using hc⟩

theorem IsFront.lastSegment {front : List Char} (hfront : IsFront front)
    (hw : ∀ c ∈ w, ¬isSeparator c) : lastSegment (front ++ w) = (front, w) := by
  rcases hfront with rfl | ⟨q, sep, hsep, rfl⟩
  · exact lastSegment_of_notMem hw
  · rw [List.append_assoc]
    exact lastSegment_append q hsep hw

theorem IsFront.isUncountable {front : List Char} (hfront : IsFront front)
    (h : isUncountable (front ++ w)) : front = [] := by
  rcases hfront with rfl | ⟨q, sep, hsep, rfl⟩
  · rfl
  · rw [List.append_assoc, List.singleton_append, isUncountable_append q w hsep] at h
    cases h

/-- An uncountable word is one of the list in some case. -/
theorem exists_of_isUncountable (h : isUncountable w) :
    ∃ v ∈ uncountables, caseless v.toList = v.toList ∧ caseless w = v.toList := by
  have hletters : ∀ v ∈ uncountables, v.toList.all fun d => d.isLower ∧ d ≠ 'k' := by decide
  have hcaseless : ∀ v ∈ uncountables, caseless v.toList = v.toList := by decide
  rw [isUncountable, List.contains_iff_mem] at h
  obtain ⟨hascii, hlower⟩ := Text.map_toLower_of_flatMap (String.toList_ofList).symm
    (List.all_iff_forall_prop.1 (hletters _ h))
  exact ⟨_, h, hcaseless _ h, (Text.map_folded_of_isAscii hascii).trans hlower⟩

theorem inflect_of_isUncountable {word : String} (h : isUncountable word.toList)
    (irregular? : String → Option String) (rules : List Rule) :
    inflect irregular? rules word = word := by
  unfold inflect
  dsimp only
  rw [h, Bool.or_true, if_pos rfl]

theorem inflect_of_countable {word : String} (hne : word ≠ "")
    (hcountable : ¬isUncountable word.toList) (irregular? : String → Option String)
    (rules : List Rule) :
    inflect irregular? rules word =
      ((irregular? (String.ofList (lastSegment word.toList).2)).map
        (String.ofList (lastSegment word.toList).1 ++ ·)).getD
          (String.ofList (applyFirst rules word.toList)) := by
  have hfull : word.toList.isEmpty = false := by
    rw [List.isEmpty_eq_false_iff]
    simpa using hne
  unfold inflect
  dsimp only
  rw [hfull, Bool.false_or, if_neg hcountable]
  cases irregular? (String.ofList (lastSegment word.toList).2) with
  | none => rfl
  | some form => rfl

theorem inflect_append {irregular? : String → Option String} {rules : List Rule} {p word : String}
    {sep : Char} {q : List Char} (hp : p.toList = q ++ [sep]) (hsep : isSeparator sep)
    (hword : ∀ c ∈ word.toList, ¬isSeparator c) :
    inflect irregular? rules (p ++ word) =
      ((irregular? word).map (p ++ ·)).getD
        (String.ofList (applyFirst rules (q ++ sep :: word.toList))) := by
  have hwhole : (p ++ word).toList = q ++ sep :: word.toList := by simp [hp]
  have hne : p ++ word ≠ "" := by
    intro hempty
    simp [hempty] at hwhole
  have hcountable : ¬isUncountable (p ++ word).toList := by
    simp [hwhole, isUncountable_append q word.toList hsep]
  rw [inflect_of_countable hne hcountable, hwhole, lastSegment_append q hsep hword, ← hp,
    String.ofList_toList, String.ofList_toList]

theorem inflect_alone {irregular? : String → Option String} {rules : List Rule} {word : String}
    (hne : word ≠ "") (hword : ∀ c ∈ word.toList, ¬isSeparator c) :
    inflect irregular? rules word =
      if isUncountable word.toList then word
      else (irregular? word).getD (String.ofList (applyFirst rules word.toList)) := by
  split
  · rename_i huncountable
    exact inflect_of_isUncountable huncountable _ _
  · rename_i hcountable
    rw [inflect_of_countable hne hcountable, lastSegment_of_notMem hword, String.ofList_toList]
    cases irregular? word with
    | none => rfl
    | some form => simp

end Segments

section Forms
variable {irregular? : String → Option String} {rules : List Rule} {word : String}

theorem caseless_altered {w w' : List Char} (h : caseless w = caseless w')
    (change : Option (String × String)) :
    caseless (altered w change) = caseless (altered w' change) := by
  have hlength : w.length = w'.length := by simpa [caseless] using congrArg List.length h
  cases change with
  | none => exact h
  | some c =>
    have htake (n : Nat) : caseless (w.take n) = caseless (w'.take n) := by
      rw [caseless, caseless, List.map_take, List.map_take]
      exact congrArg (List.take n) h
    rw [altered, altered, caseless_append, caseless_append, hlength, htake]

/-- A word has the same form alone and behind a separator unless it is one of those that the rules
know as whole words and that come out differently. -/
theorem formBehind_eq_formAlone_iff {apart : List String} (hrules : rules.all Rule.isPlain)
    (hregular : ∀ w form, irregular? w = some form → ¬isAmong apart w)
    (hlower : ∀ v ∈ apart ++ rules.flatMap Rule.loneWords, caseless v.toList = v.toList)
    (happart : ∀ v ∈ apart, caseless (altered v.toList (changeBehind? rules v.toList)) ≠
      caseless (altered v.toList (change? rules v.toList)))
    (hlone : ∀ v ∈ rules.flatMap Rule.loneWords,
      v ∈ apart ∨ changeBehind? rules v.toList = change? rules v.toList) :
    formBehind irregular? rules word = formAlone irregular? rules word ↔ ¬isAmong apart word := by
  rw [formBehind, formAlone]
  constructor
  · rintro hform hamong
    obtain ⟨v, hv, hword⟩ := id hamong
    cases hirregular : irregular? word with
    | some form => exact hregular word form hirregular hamong
    | none =>
      have hcase : caseless v.toList = caseless word.toList :=
        (hlower v (List.mem_append_left _ hv)).trans hword
      rw [hirregular, Option.getD_none, Option.getD_none, String.ofList_inj,
        ← changeBehind?_congr hrules hcase, ← change?_congr rules hcase] at hform
      refine happart v hv ?_
      rw [caseless_altered hcase, hform, caseless_altered hcase]
  · intro hamong
    have hchange : changeBehind? rules word.toList = change? rules word.toList := by
      by_cases hword : ∃ v ∈ rules.flatMap Rule.loneWords, caseless v.toList = caseless word.toList
      · obtain ⟨v, hv, hcase⟩ := hword
        have hsame := (hlone v hv).resolve_left fun hapart =>
          hamong ⟨v, hapart, (hlower v (List.mem_append_right _ hv)).symm.trans hcase⟩
        rw [← changeBehind?_congr hrules hcase, hsame, change?_congr rules hcase]
      · exact changeBehind?_eq_change? hrules fun v hv hcase => hword ⟨v, hv, hcase⟩
    rw [hchange]

theorem altered_eq_self_iff {w : List Char} {e t : String} (h : e.toList.length ≤ w.length) :
    altered w (some (e, t)) = w ↔ t.toList.length = e.toList.length ∧ t.toList <:+ w := by
  rw [altered]
  constructor
  · intro hw
    refine ⟨?_, _, hw⟩
    have hlength := congrArg List.length hw
    rw [List.length_append, List.length_take] at hlength
    omega
  · rintro ⟨hlength, front, rfl⟩
    rw [List.length_append, ← hlength, Nat.add_sub_cancel, List.take_left']
    rfl

end Forms

/-- Words that have a plural of their own where they stand alone. -/
def lonePlurals : List String :=
  ["ox", "oxen", "mice", "lice", "mouse", "louse", "axis", "testis", "y", "fe"]

/-- Words that have a singular of their own where they stand alone. -/
def loneSingulars : List String := ["axis", "axes", "mice", "lice", "ies", "ves"]

/-- The rules for singulars that close a word, without the one that opens it. -/
def closingSingulars : List Rule := singulars.filter Rule.isClosing

section Irregulars
variable {α : Type} {f : String × String → α} {word : String}

theorem mem_irregulars {form : α}
    (h : (irregulars.find? fun p => p.1 == word || p.2 == word).map f = some form) :
    word ∈ irregulars.flatMap fun p => [p.1, p.2] := by
  obtain ⟨p, hp, -⟩ := Option.map_eq_some_iff.1 h
  have hword := List.find?_some hp
  simp only [Bool.or_eq_true, beq_iff_eq] at hword
  refine List.mem_flatMap.2 ⟨p, List.mem_of_find?_eq_some hp, ?_⟩
  rcases hword with rfl | rfl <;> simp

theorem irregular_of_isUncountable (f : String × String → α) (h : isUncountable word.toList) :
    (irregulars.find? fun p => p.1 == word || p.2 == word).map f = none := by
  have hcountable : ∀ w ∈ irregulars.flatMap fun p => [p.1, p.2], ¬isUncountable w.toList := by
    decide
  refine Option.eq_none_iff_forall_ne_some.2 fun form hform => ?_
  exact hcountable word (mem_irregulars hform) h

end Irregulars

section Plurals
variable {p word : String}

/-- Whether a word has another plural behind a separator than alone. -/
def PluralApart (word : String) : Prop :=
  isAmong lonePlurals word ∨ isUncountable word.toList ∧ word.toList.getLast? ≠ some 's'

instance : Decidable (PluralApart word) :=
  inferInstanceAs (Decidable (_ ∨ _))

theorem plain_plurals : plurals.all Rule.isPlain := by decide

theorem pluralize_append {q : List Char} {sep : Char} (hp : p.toList = q ++ [sep])
    (hsep : isSeparator sep) (hword : ∀ c ∈ word.toList, ¬isSeparator c) :
    pluralize (p ++ word) = p ++ formBehind irregularPlural? plurals word := by
  rw [pluralize, inflect_append hp hsep hword, applyFirst_behind plain_plurals q hsep, formBehind]
  cases irregularPlural? word with
  | some form => rfl
  | none =>
    rw [← String.toList_inj]
    simp [hp]

theorem pluralize_alone (hne : word ≠ "") (hword : ∀ c ∈ word.toList, ¬isSeparator c) :
    pluralize word =
      if isUncountable word.toList then word else formAlone irregularPlural? plurals word := by
  have hclosing : plurals.all Rule.isClosing := by decide
  rw [pluralize, inflect_alone hne hword, applyFirst_eq_altered hclosing]
  rfl

theorem formBehind_uncountable {irregular? : String → Option String} {rules : List Rule}
    (hrules : rules.all Rule.isPlain) (hirregular : irregular? word = none) {v : String}
    (hv : caseless v.toList = v.toList) (hword : caseless word.toList = v.toList) :
    formBehind irregular? rules word = word ↔
      altered word.toList (changeBehind? rules v.toList) = word.toList := by
  rw [formBehind, hirregular, Option.getD_none, ← String.toList_inj, String.toList_ofList,
    changeBehind?_congr hrules (hword.trans hv.symm)]

theorem pluralize_append_eq_iff {q : List Char} {sep : Char} (hp : p.toList = q ++ [sep])
    (hsep : isSeparator sep) (hne : word ≠ "") (hword : ∀ c ∈ word.toList, ¬isSeparator c) :
    pluralize (p ++ word) = p ++ pluralize word ↔ ¬PluralApart word := by
  have hregular : ∀ w form, irregularPlural? w = some form → ¬isAmong lonePlurals w := by
    have hnone : ∀ w ∈ irregulars.flatMap fun p => [p.1, p.2], ¬isAmong lonePlurals w := by decide
    exact fun w form h => hnone w (mem_irregulars h)
  rw [pluralize_append hp hsep hword, pluralize_alone hne hword, String.append_right_inj,
    PluralApart]
  by_cases huncountable : isUncountable word.toList
  · have hirregular := irregular_of_isUncountable (·.2) huncountable
    obtain ⟨v, hv, hcase, hlower⟩ := exists_of_isUncountable huncountable
    have hforms : ∀ v ∈ uncountables, ¬isAmong lonePlurals v ∧
        (changeBehind? plurals v.toList).any fun c =>
          if v.toList.getLast? = some 's' then c = ("s", "s")
          else c.1.toList.length ≠ c.2.toList.length := by decide
    obtain ⟨halone, hchange⟩ := hforms v hv
    obtain ⟨c, hc, hdiffer⟩ := (Option.any_eq_true _ _).1 hchange
    have hchanged : changeBehind? plurals word.toList = some c := by
      rw [changeBehind?_congr plain_plurals (hlower.trans hcase.symm), hc]
    have hlength := length_le_of_changeBehind? hchanged
    rw [if_pos huncountable, formBehind_uncountable plain_plurals hirregular hcase hlower, hc,
      altered_eq_self_iff hlength]
    have hlast : word.toList.getLast? = some 's' → v.toList.getLast? = some 's' := by
      intro h
      rw [← hlower, caseless, List.getLast?_map, h]
      rfl
    rw [isAmong_congr (hlower.trans hcase.symm)]
    simp only [halone, huncountable, true_and, false_or, not_not]
    split at hdiffer
    · rw [of_decide_eq_true hdiffer]
      simp [List.singleton_suffix_iff_getLast?_eq_some]
    · rename_i hv
      simp [Ne.symm (of_decide_eq_true hdiffer), mt hlast hv]
  · rw [if_neg huncountable, formBehind_eq_formAlone_iff plain_plurals hregular (by decide)
      (by decide) (by decide +kernel)]
    simp [huncountable]

end Plurals

end RailsReview.Inflection
