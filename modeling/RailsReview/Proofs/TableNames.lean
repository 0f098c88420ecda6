import RailsReview.Proofs.ClassNames
import RailsReview.Proofs.SegmentSingulars

/-!
# Table names

The table of a class is named by the plural of its path. For paths that end in one of eleven
consonants the plural is formed by an "s" and nothing else, with a few exceptions that are listed.
So the singular of the table leads back to the path and by it to the class.
-/
namespace RailsReview.Inflection

section Endings
variable {r : Rule} {rules : List Rule} {back word : List Char}

/-- Whether no text of a rule has this ending; all of them are at least as long. -/
def Rule.avoids (back : List Char) (r : Rule) : Bool :=
  r.texts.all fun text =>
    back.length ≤ text.toList.length && !back.isSuffixOf (caseless text.toList)

def Rule.isWhole : Rule → Bool
  | .closing whole .. => whole
  | .opening .. => false

theorem Rule.ending?_eq_none_of_avoids (hr : r.avoids back) (hback : back <:+ caseless word) :
    r.ending? word = none := by
  refine Option.eq_none_iff_forall_ne_some.2 fun ending hending => ?_
  obtain ⟨text, htext, hword⟩ := r.exists_text hending
  have havoids := List.all_eq_true.1 hr text htext
  rw [Bool.and_eq_true_iff, decide_eq_true_eq, Bool.not_eq_true', ← Bool.not_eq_true,
    List.isSuffixOf_iff_suffix] at havoids
  refine havoids.2 (List.suffix_of_suffix_length_le hback hword ?_)
  simpa [caseless] using havoids.1

theorem Rule.ending?_eq_none_of_isWhole (hr : r.isPlain) (hwhole : r.isWhole)
    (hlone : ∀ w ∈ r.loneWords, caseless w.toList ≠ caseless word) : r.ending? word = none := by
  rw [← r.endingBehind?_eq_ending? hr hlone]
  cases r with
  | opening => rfl
  | closing whole stems endings replacement =>
    obtain rfl : whole = true := hwhole
    refine List.find?_eq_none.2 fun e _ hfits => ?_
    obtain ⟨rest, -, hrest⟩ := (Option.any_eq_true _ _).1 hfits
    cases hrest

theorem change?_eq_none (h : ∀ r ∈ rules, r.ending? word = none) : change? rules word = none :=
  List.findSome?_eq_none_iff.2 fun r hr => by rw [h r hr, Option.map_none]

end Endings

section Paths
variable {u : String} {c : Char} {cs ls : List Char}

/-- A character of a path. -/
def isPathChar (c : Char) : Bool := isSmall c || isSeparator c

theorem IsPath.ne_empty (h : IsPath u) : u ≠ "" := by
  obtain ⟨segments, hne, hsegments, rfl⟩ := h
  obtain ⟨s, more, rfl⟩ := List.exists_cons_of_ne_nil hne
  obtain ⟨c, rest, hs⟩ := List.exists_cons_of_ne_nil
    (mt String.toList_eq_nil_iff.1 (hsegments s List.mem_cons_self).ne_empty)
  intro hempty
  have hlist := congrArg String.toList hempty
  rw [String.toList_intercalate, List.map_cons, hs, List.intercalate_cons_cons_left] at hlist
  cases hlist

theorem IsPath.isPathChar_of_mem (h : IsPath u) (hc : c ∈ u.toList) : isPathChar c := by
  obtain ⟨segments, -, hsegments, rfl⟩ := h
  rw [String.toList_intercalate] at hc
  rcases Text.mem_intercalate hc with hslash | ⟨part, hpart, hc⟩
  · rw [List.mem_singleton.1 hslash]
    rfl
  · obtain ⟨s, hs, rfl⟩ := List.mem_map.1 hpart
    by_cases hjoint : c = '_'
    · rw [hjoint]
      rfl
    · rw [isPathChar, (hsegments s hs).isSmall_of_mem hc hjoint, Bool.true_or]

/-- A character of a path that is a letter of ASCII in some case is that letter, k and s apart. -/
theorem folded_eq_self (hc : isPathChar c) (hletter : (Text.folded c).isLower)
    (hk : Text.folded c ≠ 'k') (hs : Text.folded c ≠ 's') : Text.folded c = c := by
  have hascii := Text.isAscii_of_folded hletter hk hs
  rw [Text.folded_of_isAscii hascii]
  exact Text.ascii_cases (P := fun c => isPathChar c → c.toLower = c) (by decide) hascii hc

theorem eq_of_caseless_eq (hcs : ∀ c ∈ cs, isPathChar c)
    (hls : ∀ l ∈ ls, l.isLower ∧ l ≠ 'k' ∧ l ≠ 's') (h : caseless cs = ls) : cs = ls := by
  have hsame : cs.map Text.folded = cs.map id := by
    refine List.map_congr_left fun c hc => ?_
    obtain ⟨hletter, hk, hs⟩ := hls (Text.folded c) (h ▸ List.mem_map_of_mem hc)
    exact folded_eq_self (hcs c hc) hletter hk hs
  rw [← h, caseless, hsame, List.map_id]

theorem startsWith_of_caseless (hcs : ∀ c ∈ cs, isPathChar c)
    (hls : ∀ l ∈ ls, l.isLower ∧ l ≠ 'k' ∧ l ≠ 's') (h : ls <+: caseless cs) : ls <+: cs := by
  have htake := List.prefix_iff_eq_take.1 h
  rw [caseless, ← List.map_take] at htake
  rw [← eq_of_caseless_eq (fun c hc => hcs c (List.mem_of_mem_take hc)) hls htake.symm]
  exact List.take_prefix _ _

theorem getLast?_slashSegments (hc : c ≠ ':') (h : cs.getLast? = some c) :
    (slashSegments cs).getLast? = some c := by
  induction cs using slashSegments.induct with
  | case1 rest ih =>
    cases hrest : rest.getLast? with
    | none =>
      rw [List.getLast?_eq_none_iff.1 hrest] at h
      exact absurd (Option.some.inj h).symm hc
    | some d =>
      rw [List.getLast?_cons, List.getLast?_cons, hrest] at h
      rw [slashSegments, List.getLast?_cons, ih (hrest.trans h)]
      rfl
  | case2 d rest hother ih =>
    rw [slashSegments, List.getLast?_cons]
    · cases hrest : rest.getLast? with
      | none =>
        obtain rfl := List.getLast?_eq_none_iff.1 hrest
        exact h
      | some e =>
        rw [List.getLast?_cons, hrest] at h
        rw [ih (hrest.trans h)]
        rfl
    · exact hother
  | case3 => cases h

theorem getLast?_separateWords (hc : isPlain c) (before : Option Char) (cs : List Char) :
    (separateWords before (cs ++ [c])).getLast? = some c := by
  induction cs generalizing before with
  | nil =>
    simp only [isPlain, Bool.and_eq_true, Bool.not_eq_true', bne_iff_ne] at hc
    simp [separateWords, hc]
  | cons d cs ih =>
    rw [List.cons_append, separateWords_cons, List.getLast?_append, ih]
    rfl

/-- The path of a class ends in the character that its name ends in. -/
theorem getLast?_underscore {C : String} (hc : isPlain c) (h : C.toList.getLast? = some c) :
    (underscore C).toList.getLast? = some c := by
  have hcolon : c ≠ ':' := by
    rintro rfl
    cases hc
  obtain ⟨init, hinit⟩ := List.getLast?_eq_some_iff.1 (getLast?_slashSegments hcolon h)
  rw [underscore, String.toList_ofList, underscoreChars, hinit]
  exact getLast?_separateWords hc none init

end Paths

section Tables
variable {u : String} {c : Char} {cs : List Char}

/-- The letters that a path may end in for its plural to be formed by an "s". -/
def plainEnds : List Char := "bcdgklnprtv".toList

theorem getLast?_caseless (hc : c ∈ plainEnds) (hlast : cs.getLast? = some c) :
    [c] <:+ caseless cs := by
  have hfolded : ∀ c ∈ plainEnds, Text.folded c = c :=
    List.all_iff_forall_prop.1 (by decide)
  rw [List.singleton_suffix_iff_getLast?_eq_some, caseless, List.getLast?_map, hlast]
  exact congrArg some (hfolded c hc)

theorem applyFirst_plurals (hc : c ∈ plainEnds) (hlast : cs.getLast? = some c)
    (hoxen : caseless "oxen".toList ≠ caseless cs) : applyFirst plurals cs = cs ++ ['s'] := by
  have hrules : ∀ c ∈ plainEnds, ∀ r ∈ plurals.dropLast,
      r.avoids [c] ∨ r.isPlain ∧ r.isWhole ∧ r.loneWords = ["oxen"] :=
    List.all_iff_forall_prop.1 (by decide)
  have hnone : change? plurals.dropLast cs = none := by
    refine change?_eq_none fun r hr => ?_
    rcases hrules c hc r hr with havoids | ⟨hplain, hwhole, hlone⟩
    · exact r.ending?_eq_none_of_avoids havoids (getLast?_caseless hc hlast)
    · refine r.ending?_eq_none_of_isWhole hplain hwhole ?_
      rw [hlone]
      simpa using hoxen
  have hends : plurals = plurals.dropLast ++ [ends [""] [""] "s"] := rfl
  rw [applyFirst_eq_altered (by decide), hends, change?_append, hnone]
  exact congrArg (· ++ ['s']) (List.take_length)

theorem caseless_s : caseless ['s'] = ['s'] := by decide

/-- The plural ends in the letter that the path ends in, and an "s". -/
theorem plural_endsWith (hc : c ∈ plainEnds) (hlast : cs.getLast? = some c) :
    [c, 's'] <:+ caseless (cs ++ ['s']) := by
  obtain ⟨front, hfront⟩ := getLast?_caseless hc hlast
  refine ⟨front, ?_⟩
  rw [caseless_append, caseless_s, ← hfront, List.append_assoc]
  rfl

theorem applyFirst_singulars_plural (hc : c ∈ plainEnds) (hlast : cs.getLast? = some c)
    (hoxen : ¬LosesEn (cs ++ ['s'])) : applyFirst singulars (cs ++ ['s']) = cs := by
  have hrules : ∀ c ∈ plainEnds, ∀ r ∈ closingSingulars.dropLast, r.avoids [c, 's'] :=
    List.all_iff_forall_prop.1 (by decide)
  have hnone : change? closingSingulars.dropLast (cs ++ ['s']) = none :=
    change?_eq_none fun r hr =>
      r.ending?_eq_none_of_avoids (hrules c hc r hr) (plural_endsWith hc hlast)
  have hends : closingSingulars = closingSingulars.dropLast ++ [ends [""] ["s"] ""] := rfl
  have hlose : change? [ends [""] ["s"] ""] (cs ++ ['s']) = some ("s", "") := by
    simp [change?, ends, Rule.ending?, withoutEnding?, afterLetters?, Text.sameLetter, Stem.before?,
      Rule.replacement]
  rw [applyFirst_singulars, if_neg hoxen, hends, change?_append, hnone, hlose]
  simp [altered]

theorem IsFront.getLast? {front last : List Char} (hfront : IsFront front) (hc : c ∈ plainEnds)
    (h : (front ++ last).getLast? = some c) : last.getLast? = some c := by
  have hletters : ∀ c ∈ plainEnds, ¬isSeparator c := List.all_iff_forall_prop.1 (by decide)
  rw [List.getLast?_append] at h
  cases hlast : last.getLast? with
  | some d => rwa [hlast] at h
  | none =>
    rw [hlast, Option.none_or] at h
    rcases hfront with rfl | ⟨q, sep, hsep, rfl⟩
    · cases h
    · rw [List.getLast?_concat] at h
      exact absurd (Option.some.inj h ▸ hsep) (hletters c hc)

/-- The irregular words that end so, but for two plurals, are singulars. -/
theorem exists_irregular {word form : String} (hc : c ∈ plainEnds)
    (hlast : word.toList.getLast? = some c) (hmen : word ≠ "men") (hchildren : word ≠ "children")
    (h : irregularPlural? word = some form) :
    irregularSingular? form = some word ∧ ¬isUncountable form.toList ∧
      ∀ c ∈ form.toList, ¬isSeparator c := by
  have hrows : ∀ w ∈ irregulars.flatMap fun p => [p.1, p.2],
      w.toList.getLast?.any plainEnds.contains → w = "men" ∨ w = "children" ∨
        ∀ form ∈ irregularPlural? w, irregularSingular? form = some w ∧
          ¬isUncountable form.toList ∧ form.toList.all fun c => ¬isSeparator c := by decide
  have hends : word.toList.getLast?.any plainEnds.contains := by
    rw [hlast]
    exact List.contains_iff_mem.2 hc
  rcases hrows word (mem_irregulars h) hends with heq | heq | hform
  · exact absurd heq hmen
  · exact absurd heq hchildren
  · obtain ⟨hback, hcountable, hletters⟩ := hform form h
    exact ⟨hback, hcountable, List.all_iff_forall_prop.1 hletters⟩

theorem irregularSingular?_plural {last : List Char} (hc : c ∈ plainEnds)
    (hlast : last.getLast? = some c) :
    irregularSingular? (String.ofList (last ++ ['s'])) = none := by
  have hrows : ∀ w ∈ irregulars.flatMap fun p => [p.1, p.2],
      plainEnds.all fun c => ¬[c, 's'] <:+ w.toList := by decide
  obtain ⟨front, rfl⟩ := List.getLast?_eq_some_iff.1 hlast
  refine Option.eq_none_iff_forall_ne_some.2 fun form hform => ?_
  refine List.all_iff_forall_prop.1 (hrows _ (mem_irregulars hform)) c hc ⟨front, ?_⟩
  simp

/-- Of the uncountable words "jeans" is the only plural that is formed by an "s" behind such a
letter. -/
theorem plural_countable (hcs : ∀ c ∈ cs, isPathChar c) (hc : c ∈ plainEnds)
    (hlast : cs.getLast? = some c) (hjean : cs ≠ "jean".toList) : ¬isUncountable (cs ++ ['s']) := by
  have hrows : ∀ v ∈ uncountables,
      plainEnds.all fun c => [c, 's'] <:+ v.toList → v = "jeans" := by decide
  intro h
  obtain ⟨v, hv, -, hlower⟩ := exists_of_isUncountable h
  obtain rfl := List.all_iff_forall_prop.1 (hrows v hv) c hc (hlower ▸ plural_endsWith hc hlast)
  have hcase : caseless cs = "jean".toList := by
    rw [caseless_append, caseless_s] at hlower
    exact List.append_cancel_right hlower
  exact hjean (eq_of_caseless_eq hcs (List.all_iff_forall_prop.1 (by decide)) hcase)

theorem plural_keepsEn (hoxen : ¬"oxen".toList <+: caseless cs) : ¬LosesEn (cs ++ ['s']) := by
  rintro ⟨hfront, -⟩
  rw [caseless_append, caseless_s] at hfront
  rcases List.prefix_concat_iff.1 hfront with heq | hfront
  · have hlast := congrArg List.getLast? heq
    rw [List.getLast?_concat] at hlast
    exact absurd hlast (by decide)
  · exact hoxen hfront

section Parts
variable {front last : List Char} {word form : String} (hfront : IsFront front)
include hfront

theorem singularize_irregular (hback : irregularSingular? form = some word)
    (hcountable : ¬isUncountable form.toList) (hletters : ∀ c ∈ form.toList, ¬isSeparator c) :
    singularize (String.ofList front ++ form) = String.ofList front ++ word := by
  have htable : (String.ofList front ++ form).toList = front ++ form.toList := by simp
  have hne : String.ofList front ++ form ≠ "" := by
    intro hempty
    rw [hempty] at htable
    obtain ⟨-, rfl⟩ : front = [] ∧ form = "" := by simpa using htable.symm
    cases hback
  have hcount : ¬isUncountable (String.ofList front ++ form).toList := by
    rw [htable]
    intro h
    rw [hfront.isUncountable h] at h
    exact hcountable h
  rw [singularize, inflect_of_countable hne hcount, htable, hfront.lastSegment hletters,
    String.ofList_toList, hback]
  rfl

theorem singularize_plain (hfree : ∀ c ∈ last, ¬isSeparator c)
    (hchars : ∀ c ∈ front ++ last, isPathChar c) (hc : c ∈ plainEnds)
    (hends : (front ++ last).getLast? = some c)
    (hoxen : ¬"oxen".toList <+: caseless (front ++ last))
    (hjean : front ++ last ≠ "jean".toList) :
    singularize (String.ofList (front ++ last ++ ['s'])) = String.ofList (front ++ last) := by
  have hlast := hfront.getLast? hc hends
  have hfree' : ∀ c ∈ last ++ ['s'], ¬isSeparator c :=
    List.forall_mem_append.2 ⟨hfree, List.forall_mem_singleton.2 (by decide)⟩
  rw [singularize, inflect_of_countable (by simp)
      (by simpa using plural_countable hchars hc hends hjean), String.toList_ofList,
    applyFirst_singulars_plural hc hends (plural_keepsEn hoxen), List.append_assoc,
    hfront.lastSegment hfree']
  dsimp only
  rw [irregularSingular?_plural hc hlast]
  rfl

end Parts

theorem singularize_pluralize (hu : IsPath u) (hc : c ∈ plainEnds)
    (hends : u.toList.getLast? = some c) (hoxen : ¬"oxen".toList <+: u.toList) (hjean : u ≠ "jean")
    (hmen : (lastSegment u.toList).2 ≠ "men".toList)
    (hchildren : (lastSegment u.toList).2 ≠ "children".toList) :
    singularize (pluralize u) = u := by
  have hchars : ∀ c ∈ u.toList, isPathChar c := fun c => hu.isPathChar_of_mem
  have hplain : ¬"oxen".toList <+: caseless u.toList := fun h =>
    hoxen (startsWith_of_caseless hchars (List.all_iff_forall_prop.1 (by decide)) h)
  have hnot : caseless "oxen".toList ≠ caseless u.toList := by
    rw [show caseless "oxen".toList = "oxen".toList by decide]
    exact fun h => hplain (h ▸ List.prefix_refl _)
  by_cases hcount : isUncountable u.toList
  · rw [pluralize, inflect_of_isUncountable hcount, singularize, inflect_of_isUncountable hcount]
  obtain ⟨front, last, hparts, hfront, hfree⟩ := exists_lastSegment u.toList
  have hu' : u = String.ofList (front ++ last) := by rw [← hparts, String.ofList_toList]
  rw [pluralize, inflect_of_countable hu.ne_empty hcount, applyFirst_plurals hc hends hnot]
  rw [hparts] at hends hchars hplain ⊢
  rw [hparts, hfront.lastSegment hfree] at hmen hchildren
  rw [hfront.lastSegment hfree]
  dsimp only
  cases hform : irregularPlural? (String.ofList last) with
  | some form =>
    obtain ⟨hback, hcountable, hletters⟩ := exists_irregular hc
      (by rw [String.toList_ofList]; exact hfront.getLast? hc hends)
      (by simpa [← String.toList_inj] using hmen) (by simpa [← String.toList_inj] using hchildren)
      hform
    rw [Option.map_some, Option.getD_some, singularize_irregular hfront hback hcountable hletters,
      hu', String.ofList_append]
  | none =>
    have hne : front ++ last ≠ "jean".toList := by
      rw [← hparts]
      exact fun h => hjean (String.toList_inj.1 h)
    rw [Option.map_none, Option.getD_none,
      singularize_plain hfront hfree hchars hc hends hplain hne, hu']

/-- A class is found by the name of its table, and the table by that of its class, where the name of
the class ends in one of these letters and is none of those whose table is named otherwise. -/
theorem class_of_table {C : String} (hC : IsClassName C)
    (hends : ∃ c ∈ plainEnds, C.toList.getLast? = some c)
    (hoxen : ¬"oxen".toList <+: (underscore C).toList) (hjean : underscore C ≠ "jean")
    (hmen : (lastSegment (underscore C).toList).2 ≠ "men".toList)
    (hchildren : (lastSegment (underscore C).toList).2 ≠ "children".toList) :
    classify (tableize C) = C ∧ pluralize (singularize (tableize C)) = tableize C := by
  obtain ⟨c, hc, hlast⟩ := hends
  have hplain : ∀ c ∈ plainEnds, isPlain c := List.all_iff_forall_prop.1 (by decide)
  have hback : singularize (tableize C) = underscore C :=
    singularize_pluralize hC.isPath_underscore hc (getLast?_underscore (hplain c hc) hlast) hoxen
      hjean hmen hchildren
  constructor
  · rw [classify, hback, hC.camelize_underscore]
  · rw [hback, tableize]

theorem class_of_table_person :
    IsClassName "Admin::BlogPerson" ∧
    (∃ c ∈ plainEnds, "Admin::BlogPerson".toList.getLast? = some c) ∧
    ¬"oxen".toList <+: (underscore "Admin::BlogPerson").toList ∧
    underscore "Admin::BlogPerson" ≠ "jean" ∧
    (lastSegment (underscore "Admin::BlogPerson").toList).2 ≠ "men".toList ∧
    (lastSegment (underscore "Admin::BlogPerson").toList).2 ≠ "children".toList ∧
    tableize "Admin::BlogPerson" = "admin/blog_people" ∧
    classify (tableize "Admin::BlogPerson") = "Admin::BlogPerson" ∧
    pluralize (singularize (tableize "Admin::BlogPerson")) = tableize "Admin::BlogPerson" := by
  have hwords : ∀ w ∈ [['A', 'd', 'm', 'i', 'n'], ['B', 'l', 'o', 'g'],
      ['P', 'e', 'r', 's', 'o', 'n']], IsWord Char.isUpper w := by decide
  obtain ⟨hadmin, hblog⟩ := List.forall_mem_cons.1 hwords
  have hconstants : ∀ s ∈ ["Admin", "BlogPerson"], IsConstant s :=
    List.forall_mem_cons.2 ⟨⟨_, List.cons_ne_nil _ _, List.forall_mem_singleton.2 hadmin, rfl⟩,
      List.forall_mem_singleton.2 ⟨_, List.cons_ne_nil _ _, hblog, rfl⟩⟩
  have hname : IsClassName "Admin::BlogPerson" :=
    ⟨["Admin", "BlogPerson"], List.cons_ne_nil _ _, hconstants, rfl⟩
  have hends : ∃ c ∈ plainEnds, "Admin::BlogPerson".toList.getLast? = some c :=
    ⟨'n', by decide, rfl⟩
  have hpath : underscore "Admin::BlogPerson" = "admin/blog_person" ∧
      tableize "Admin::BlogPerson" = "admin/blog_people" := by decide
  have hlast : ¬"oxen".toList <+: "admin/blog_person".toList ∧
      (lastSegment "admin/blog_person".toList).2 = "person".toList := by decide
  have hoxen : ¬"oxen".toList <+: (underscore "Admin::BlogPerson").toList := by
    rw [hpath.1]
    exact hlast.1
  have hjean : underscore "Admin::BlogPerson" ≠ "jean" := by
    rw [hpath.1]
    decide
  have hmen : (lastSegment (underscore "Admin::BlogPerson").toList).2 ≠ "men".toList := by
    rw [hpath.1, hlast.2]
    decide
  have hchildren : (lastSegment (underscore "Admin::BlogPerson").toList).2 ≠ "children".toList := by
    rw [hpath.1, hlast.2]
    decide
  exact ⟨hname, hends, hoxen, hjean, hmen, hchildren, hpath.2,
    class_of_table hname hends hoxen hjean hmen hchildren⟩

/-- The classes that are left out are named otherwise by their tables. -/
example : ∀ C ∈ ["Oxen", "Jean", "Men", "Children"], classify (tableize C) ≠ C := by decide

end Tables

end RailsReview.Inflection
