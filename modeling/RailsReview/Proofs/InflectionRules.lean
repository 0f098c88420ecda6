import Mathlib.Data.List.Find
import RailsReview.Inflection.Number
import RailsReview.Proofs.LetterFolding

/-!
# What inflection rules look at

A rule that closes a word looks at letters without regard to case, and never past a separator. So
what it exchanges is the same for words that differ in case only, and the same whatever stands in
front of a separator. It tells a word behind a separator from the same word alone in two cases:
where it asks for a whole word, and where it asks for one more character in front of the ending.
-/
namespace RailsReview.Inflection

/-- The letters of a word without regard to case. -/
def caseless (cs : List Char) : List Char := cs.map Text.folded

theorem caseless_append (cs cs' : List Char) :
    caseless (cs ++ cs') = caseless cs ++ caseless cs' := List.map_append

theorem caseless_reverse (cs : List Char) : caseless cs.reverse = (caseless cs).reverse :=
  List.map_reverse

section Endings
variable {as cs cs' rest : List Char}

theorem afterLetters?_eq_some_iff :
    afterLetters? as cs = some rest ↔ caseless as <+: caseless cs ∧ rest = cs.drop as.length := by
  induction as generalizing cs with
  | nil => simp [afterLetters?, caseless, eq_comm]
  | cons a as ih =>
    cases cs with
    | nil => simp [afterLetters?, caseless]
    | cons c cs =>
      have hstart : caseless (a :: as) <+: caseless (c :: cs) ↔
          Text.folded a = Text.folded c ∧ caseless as <+: caseless cs := List.cons_prefix_cons
      rw [afterLetters?, hstart, List.length_cons, List.drop_succ_cons, Text.sameLetter]
      by_cases h : Text.folded a = Text.folded c
      · rw [if_pos (beq_iff_eq.2 h), ih]
        simp only [h, true_and]
      · rw [if_neg (by simpa using h)]
        simp [h]

theorem caseless_eq_of_afterLetters? (h : afterLetters? as cs = some rest) :
    caseless cs = caseless as ++ caseless rest := by
  obtain ⟨hstart, rfl⟩ := afterLetters?_eq_some_iff.1 h
  have htake := List.prefix_iff_eq_take.1 hstart
  have hlength : (caseless as).length = as.length := List.length_map _
  rw [hlength] at htake
  rw [htake, caseless, caseless, ← List.map_take, ← List.map_append, List.take_append_drop]

theorem afterLetters?_congr (h : caseless cs = caseless cs') :
    (afterLetters? as cs).map caseless = (afterLetters? as cs').map caseless := by
  have hdrop : caseless (cs.drop as.length) = caseless (cs'.drop as.length) := by
    rw [caseless, caseless, List.map_drop, List.map_drop]
    exact congrArg _ h
  ext l
  simp only [Option.map_eq_some_iff, afterLetters?_eq_some_iff, h]
  constructor
  · rintro ⟨_, ⟨hstart, rfl⟩, rfl⟩
    exact ⟨_, ⟨hstart, rfl⟩, hdrop.symm⟩
  · rintro ⟨_, ⟨hstart, rfl⟩, rfl⟩
    exact ⟨_, ⟨hstart, rfl⟩, hdrop⟩

theorem Stem.before?_congr (s : Stem) (h : caseless cs = caseless cs') :
    (s.before? cs).map caseless = (s.before? cs').map caseless := by
  cases s with
  | letters s => exact afterLetters?_congr h
  | except s =>
    cases cs with
    | nil =>
      obtain rfl : cs' = [] := List.map_eq_nil_iff.1 h.symm
      rfl
    | cons c cs =>
      cases cs' with
      | nil => cases h
      | cons c' cs' =>
        obtain ⟨hc, hcs⟩ := List.cons.inj h
        have hsame (a : Char) : Text.sameLetter a c = Text.sameLetter a c' := by
          rw [Text.sameLetter, Text.sameLetter]
          exact congrArg _ hc
        simp only [before?, hsame]
        split
        · rfl
        · exact congrArg some hcs

end Endings

namespace Stem

/-- The characters that a stem names. -/
def text : Stem → String
  | letters s => s
  | except s => s

def isExcept : Stem → Bool
  | letters _ => false
  | except _ => true

end Stem

/-- Whether one of the stems stands before the ending; if `whole` is set, nothing else does. -/
def fits (whole : Bool) (stems : List Stem) (rest : List Char) : Bool :=
  stems.any fun stem => (stem.before? rest).any fun left => !whole || left.isEmpty

theorem withoutEnding?_eq (whole : Bool) (stems : List Stem) (cs : List Char) (ending : String) :
    withoutEnding? whole stems cs ending =
      (afterLetters? ending.toList.reverse cs).filter (fits whole stems) := rfl

theorem isSome_withoutEnding? (whole : Bool) (stems : List Stem) (cs : List Char)
    (ending : String) :
    (withoutEnding? whole stems cs ending).isSome =
      (afterLetters? ending.toList.reverse cs).any (fits whole stems) := by
  rw [withoutEnding?_eq]
  cases afterLetters? ending.toList.reverse cs with
  | none => rfl
  | some rest => cases hfits : fits whole stems rest <;> simp [hfits]

theorem any_congr {α β : Type} {f : α → β} {p : α → Bool} (hp : ∀ {a b}, f a = f b → p a = p b)
    {x y : Option α} (h : x.map f = y.map f) : x.any p = y.any p := by
  cases x with
  | none =>
    obtain rfl : y = none := Option.map_eq_none_iff.1 h.symm
    rfl
  | some a =>
    obtain ⟨b, rfl, hb⟩ := Option.map_eq_some_iff.1 h.symm
    exact hp hb.symm

theorem fits_congr (whole : Bool) (stems : List Stem) {rest rest' : List Char}
    (h : caseless rest = caseless rest') : fits whole stems rest = fits whole stems rest' := by
  have hempty {left left' : List Char} (h : caseless left = caseless left') :
      (!whole || left.isEmpty) = (!whole || left'.isEmpty) := by
    rw [← List.isEmpty_map (f := Text.folded), ← List.isEmpty_map (l := left') (f := Text.folded)]
    exact congrArg (fun l : List Char => !whole || l.isEmpty) h
  have hstem (stem : Stem) := any_congr hempty (stem.before?_congr h)
  simp only [fits, hstem]

namespace Rule

/-- The ending that a closing rule exchanges. -/
def ending? (word : List Char) : Rule → Option String
  | .closing whole stems endings _ =>
    endings.find? fun ending => (withoutEnding? whole stems word.reverse ending).isSome
  | .opening .. => none

def replacement : Rule → String
  | .closing _ _ _ replacement => replacement
  | .opening _ _ replacement => replacement

def isClosing : Rule → Bool
  | .closing .. => true
  | .opening .. => false

/-- The endings that a closing rule may exchange, with what takes their place. -/
def changes : Rule → List (String × String)
  | .closing _ _ endings replacement => endings.map (·, replacement)
  | .opening .. => []

end Rule

/-- A word with an ending exchanged, or as it is. -/
def altered (word : List Char) : Option (String × String) → List Char
  | none => word
  | some (ending, replacement) =>
    word.take (word.length - ending.toList.length) ++ replacement.toList

/-- What the first rule that applies exchanges: an ending, and what takes its place. -/
def change? (rules : List Rule) (word : List Char) : Option (String × String) :=
  rules.findSome? fun r => (r.ending? word).map (·, r.replacement)

section Words
variable {r : Rule} {rules : List Rule} {word word' : List Char}

theorem findSome?_eq_find?_bind {α β : Type} (f : α → Option β) (l : List α) :
    l.findSome? f = (l.find? fun a => (f a).isSome).bind f := by
  induction l with
  | nil => rfl
  | cons a l ih =>
    rw [List.findSome?_cons, List.find?_cons]
    cases h : f a with
    | none => exact ih
    | some b => exact h.symm

theorem findSome?_congr {α β : Type} {f g : α → Option β} {l : List α} (h : ∀ a ∈ l, f a = g a) :
    l.findSome? f = l.findSome? g := by
  induction l with
  | nil => rfl
  | cons a l ih =>
    obtain ⟨ha, hl⟩ := List.forall_mem_cons.1 h
    rw [List.findSome?_cons, List.findSome?_cons, ha, ih hl]

theorem Rule.inflected?_eq (hr : r.isClosing) (word : List Char) :
    r.inflected? word =
      (r.ending? word).map fun ending => altered word (some (ending, r.replacement)) := by
  cases r with
  | opening => cases hr
  | closing whole stems endings text =>
    rw [inflected?, ending?, findSome?_eq_find?_bind]
    cases h : endings.find? fun e => (withoutEnding? whole stems word.reverse e).isSome with
    | none => rfl
    | some ending =>
      have hsome := List.find?_some h
      obtain ⟨rest, hrest⟩ := Option.isSome_iff_exists.1 hsome
      have hdrop : rest = word.reverse.drop ending.toList.length := by
        rw [withoutEnding?_eq, Option.filter_eq_some_iff] at hrest
        simpa using (afterLetters?_eq_some_iff.1 hrest.1).2
      rw [Option.bind_some, hrest, Option.map_some, Option.map_some, hdrop, List.drop_reverse,
        List.reverse_reverse]
      rfl

theorem findSome?_inflected? (hrules : rules.all Rule.isClosing) (word : List Char) :
    rules.findSome? (·.inflected? word) =
      (change? rules word).map fun change => altered word (some change) := by
  induction rules with
  | nil => rfl
  | cons r rules ih =>
    rw [List.all_cons, Bool.and_eq_true_iff] at hrules
    obtain ⟨hr, hrest⟩ := hrules
    rw [List.findSome?_cons, Rule.inflected?_eq hr, change?, List.findSome?_cons]
    cases r.ending? word with
    | none => exact ih hrest
    | some ending => rfl

theorem applyFirst_eq_altered (hrules : rules.all Rule.isClosing) (word : List Char) :
    applyFirst rules word = altered word (change? rules word) := by
  rw [applyFirst, findSome?_inflected? hrules]
  cases change? rules word with
  | none => rfl
  | some change => rfl

theorem change?_append (rules rules' : List Rule) (word : List Char) :
    change? (rules ++ rules') word = (change? rules word).or (change? rules' word) :=
  List.findSome?_append

theorem Rule.ending?_congr (r : Rule) (h : caseless word = caseless word') :
    r.ending? word = r.ending? word' := by
  have hback : caseless word.reverse = caseless word'.reverse := by
    rw [caseless, caseless, List.map_reverse, List.map_reverse]
    exact congrArg _ h
  cases r with
  | opening => rfl
  | closing whole stems endings text =>
    have hending (e : String) : (withoutEnding? whole stems word.reverse e).isSome =
        (withoutEnding? whole stems word'.reverse e).isSome := by
      rw [isSome_withoutEnding?, isSome_withoutEnding?]
      exact any_congr (fits_congr whole stems) (afterLetters?_congr hback)
    simp only [ending?, hending]

/-- The texts that a word has to end with, one of them, for a rule to apply. -/
def Rule.texts : Rule → List String
  | .closing _ stems endings _ => stems.flatMap fun
    | .letters s => endings.map (s ++ ·)
    | .except _ => endings
  | .opening .. => []

theorem Rule.exists_text {ending : String} (h : r.ending? word = some ending) :
    ∃ text ∈ r.texts, caseless text.toList <:+ caseless word := by
  cases r with
  | opening => cases h
  | closing whole stems endings replacement =>
    have hmem := List.mem_of_find?_eq_some h
    have hsome := List.find?_some h
    rw [isSome_withoutEnding?, Option.any_eq_true] at hsome
    obtain ⟨rest, hrest, hfits⟩ := hsome
    obtain ⟨stem, hstem, hleft⟩ := List.any_eq_true.1 hfits
    have hword := congrArg List.reverse (caseless_eq_of_afterLetters? hrest)
    rw [caseless_reverse, caseless_reverse, List.reverse_append, List.reverse_reverse,
      List.reverse_reverse] at hword
    cases stem with
    | except s =>
      exact ⟨ending, List.mem_flatMap.2 ⟨_, hstem, hmem⟩, _, hword.symm⟩
    | letters s =>
      obtain ⟨left, hbefore, -⟩ := (Option.any_eq_true _ _).1 hleft
      refine ⟨s ++ ending, List.mem_flatMap.2 ⟨_, hstem, List.mem_map_of_mem hmem⟩,
        (caseless left).reverse, ?_⟩
      rw [caseless_eq_of_afterLetters? hbefore, caseless_reverse, List.reverse_append,
        List.reverse_reverse, List.append_assoc, ← caseless_append, ← String.toList_append] at hword
      exact hword.symm

/-- Whether a rule asks for no more than that a word ends with one of its texts. -/
def Rule.isLoose : Rule → Bool
  | .closing false stems _ _ => stems.all fun
    | .letters _ => true
    | .except _ => false
  | _ => false

theorem Rule.isSome_ending? (hr : r.isLoose) {text : String} (htext : text ∈ r.texts)
    (h : caseless text.toList <:+ caseless word) : (r.ending? word).isSome := by
  cases r with
  | opening => cases hr
  | closing whole stems endings replacement =>
    cases whole with
    | true => cases hr
    | false =>
      obtain ⟨stem, hstem, htext⟩ := List.mem_flatMap.1 htext
      cases stem with
      | except s => cases List.all_eq_true.1 hr _ hstem
      | letters s =>
        obtain ⟨ending, hending, rfl⟩ := List.mem_map.1 htext
        obtain ⟨front, hword⟩ := h
        have hback : caseless word.reverse = caseless ending.toList.reverse ++
            (caseless s.toList.reverse ++ front.reverse) := by
          rw [caseless_reverse, caseless_reverse, caseless_reverse, ← hword, String.toList_append,
            caseless_append, List.reverse_append, List.reverse_append, List.append_assoc]
        have hrest := afterLetters?_eq_some_iff.2 ⟨⟨_, hback.symm⟩, rfl⟩
        have hfront := caseless_eq_of_afterLetters? hrest
        rw [hback] at hfront
        have hstems : fits false stems (word.reverse.drop ending.toList.reverse.length) := by
          have hbefore := afterLetters?_eq_some_iff.2 ⟨⟨_, List.append_cancel_left hfront⟩, rfl⟩
          exact List.any_eq_true.2 ⟨_, hstem, (Option.any_eq_true _ _).2 ⟨_, hbefore, rfl⟩⟩
        rw [ending?, List.find?_isSome]
        refine ⟨ending, hending, ?_⟩
        rw [isSome_withoutEnding?, Option.any_eq_true]
        exact ⟨_, hrest, hstems⟩

theorem isSome_change?_iff (hrules : rules.all Rule.isLoose) :
    (change? rules word).isSome ↔
      ∃ text ∈ rules.flatMap Rule.texts, caseless text.toList <:+ caseless word := by
  rw [change?, List.findSome?_isSome_iff]
  constructor
  · rintro ⟨r, hr, hsome⟩
    rw [Option.isSome_map, Option.isSome_iff_exists] at hsome
    obtain ⟨ending, hending⟩ := hsome
    obtain ⟨text, htext, hword⟩ := r.exists_text hending
    exact ⟨text, List.mem_flatMap.2 ⟨r, hr, htext⟩, hword⟩
  · rintro ⟨text, htext, hword⟩
    obtain ⟨r, hr, htext⟩ := List.mem_flatMap.1 htext
    refine ⟨r, hr, ?_⟩
    rw [Option.isSome_map]
    exact r.isSome_ending? (List.all_eq_true.1 hrules r hr) htext hword

theorem change?_congr (rules : List Rule) (h : caseless word = caseless word') :
    change? rules word = change? rules word' := by
  have hrule (r : Rule) := r.ending?_congr h
  simp only [change?, hrule]

end Words

section Separators

/-- Whether a character is no separator, in any case. -/
def isLetter (c : Char) : Bool := Text.folded c != '/' && Text.folded c != '_'

namespace Rule

/-- Whether a rule closes words and names no separators; whole words it names letter by letter. -/
def isPlain : Rule → Bool
  | .closing whole stems endings _ =>
    (stems.all fun s => s.text.toList.all isLetter && !(whole && s.isExcept)) &&
      endings.all (·.toList.all isLetter)
  | .opening .. => false

/-- The words that a rule tells from the same words behind a separator. -/
def loneWords : Rule → List String
  | .closing true stems endings _ => stems.flatMap fun s => endings.map (s.text ++ ·)
  | .closing false stems endings _ => if stems.any Stem.isExcept then endings else []
  | .opening .. => []

theorem isClosing_of_isPlain {r : Rule} (h : r.isPlain) : r.isClosing := by
  cases r with
  | closing => rfl
  | opening => cases h

end Rule

/-- Whether one of the stems stands between a separator and the ending. A separator is a character
that is none of those excepted, and it is something else than the stem. -/
def fitsBehind (whole : Bool) (stems : List Stem) (rest : List Char) : Bool :=
  !whole && (fits false stems rest || (rest.isEmpty && stems.any Stem.isExcept))

/-- The ending that a closing rule exchanges behind a separator. -/
def Rule.endingBehind? (word : List Char) : Rule → Option String
  | .closing whole stems endings _ =>
    endings.find? fun ending =>
      (afterLetters? ending.toList.reverse word.reverse).any (fitsBehind whole stems)
  | .opening .. => none

/-- What the first rule that applies exchanges behind a separator. -/
def changeBehind? (rules : List Rule) (word : List Char) : Option (String × String) :=
  rules.findSome? fun r => (r.endingBehind? word).map (·, r.replacement)

variable {sep : Char} (hsep : isSeparator sep) {as cs rest back : List Char} {s : Stem}
  {stems : List Stem} {r : Rule} {rules : List Rule} {word : List Char}

include hsep in
theorem sameLetter_separator {a : Char} (ha : isLetter a) : Text.sameLetter a sep = false := by
  simp only [isLetter, Bool.and_eq_true, bne_iff_ne] at ha
  simp only [isSeparator, Bool.or_eq_true, beq_iff_eq] at hsep
  rw [Text.sameLetter, beq_eq_false_iff_ne]
  rcases hsep with rfl | rfl
  · exact ha.1
  · exact ha.2

include hsep in
theorem afterLetters?_behind (has : as.all isLetter) :
    afterLetters? as (cs ++ sep :: back) = (afterLetters? as cs).map (· ++ sep :: back) := by
  induction as generalizing cs with
  | nil => rfl
  | cons a as ih =>
    rw [List.all_cons, Bool.and_eq_true_iff] at has
    obtain ⟨ha, has⟩ := has
    cases cs with
    | nil =>
      rw [List.nil_append, afterLetters?, if_neg (by rw [sameLetter_separator hsep ha]; simp)]
      rfl
    | cons c cs =>
      rw [List.cons_append, afterLetters?, afterLetters?, ih has]
      split
      · rfl
      · rfl

include hsep in
theorem Stem.before?_behind (hs : s.text.toList.all isLetter) :
    s.before? (rest ++ sep :: back) =
      if rest.isEmpty && s.isExcept then some back
      else (s.before? rest).map (· ++ sep :: back) := by
  cases s with
  | letters s =>
    rw [isExcept, Bool.and_false, if_neg Bool.false_ne_true]
    exact afterLetters?_behind hsep (by rwa [List.all_reverse])
  | except s =>
    cases rest with
    | nil =>
      have hnot : ¬s.toList.any (Text.sameLetter · sep) := by
        rw [List.any_eq_true]
        rintro ⟨a, ha, hsame⟩
        rw [sameLetter_separator hsep (List.all_eq_true.1 hs a ha)] at hsame
        cases hsame
      rw [List.nil_append, before?, if_neg hnot]
      rfl
    | cons c rest =>
      rw [List.cons_append, before?, before?]
      split
      · rfl
      · rfl

include hsep in
theorem fits_behind {whole : Bool}
    (hstems : stems.all fun s => s.text.toList.all isLetter && !(whole && s.isExcept)) :
    fits whole stems (rest ++ sep :: back) = fitsBehind whole stems rest := by
  induction stems with
  | nil => cases whole <;> simp [fits, fitsBehind]
  | cons s stems ih =>
    rw [List.all_cons, Bool.and_eq_true_iff, Bool.and_eq_true_iff] at hstems
    obtain ⟨⟨hletters, hs⟩, hstems⟩ := hstems
    have hcons (rest : List Char) : fits whole (s :: stems) rest =
        ((s.before? rest).any (fun left => !whole || left.isEmpty) || fits whole stems rest) := rfl
    rw [hcons, ih hstems, Stem.before?_behind hsep hletters]
    cases whole with
    | true =>
      have hplain : s.isExcept = false := by simpa using hs
      cases hleft : s.before? rest <;> simp [hplain, fitsBehind]
    | false =>
      have hone (left : Option (List Char)) :
          (left.any fun left => !false || left.isEmpty) = left.isSome := by
        cases left <;> rfl
      have hbefore : (if rest.isEmpty && s.isExcept then some back
          else (s.before? rest).map (· ++ sep :: back)).isSome =
            ((s.before? rest).isSome || rest.isEmpty && s.isExcept) := by
        split
        · rename_i h
          rw [h, Bool.or_true, Option.isSome_some]
        · rename_i h
          rw [Bool.not_eq_true] at h
          rw [h, Bool.or_false, Option.isSome_map]
      have hfits : fits false (s :: stems) rest =
          ((s.before? rest).isSome || fits false stems rest) := by
        rw [← hone]
        rfl
      rw [hone, hbefore, fitsBehind, fitsBehind, hfits, List.any_cons]
      cases rest.isEmpty <;> cases (s.before? rest).isSome <;> cases s.isExcept <;> simp

theorem Rule.ending?_behind (hr : r.isPlain) (q : List Char) (hsep : isSeparator sep)
    (word : List Char) : r.ending? (q ++ sep :: word) = r.endingBehind? word := by
  cases r with
  | opening => cases hr
  | closing whole stems endings text =>
    obtain ⟨hstems, hendings⟩ := Bool.and_eq_true_iff.1 hr
    refine List.find?_congr fun e he => ?_
    have hletters : e.toList.reverse.all isLetter := by
      rw [List.all_reverse]
      exact List.all_eq_true.1 hendings e he
    rw [isSome_withoutEnding?, List.reverse_append, List.reverse_cons, List.append_assoc,
      List.singleton_append, afterLetters?_behind hsep hletters]
    cases afterLetters? e.toList.reverse word.reverse with
    | none => rfl
    | some rest => exact fits_behind hsep hstems

theorem Rule.endingBehind?_eq_ending? (hr : r.isPlain)
    (hlone : ∀ w ∈ r.loneWords, caseless w.toList ≠ caseless word) :
    r.endingBehind? word = r.ending? word := by
  cases r with
  | opening => rfl
  | closing whole stems endings text =>
    refine List.find?_congr fun e he => ?_
    rw [isSome_withoutEnding?]
    cases hrest : afterLetters? e.toList.reverse word.reverse with
    | none => rfl
    | some rest =>
      rw [Option.any_some, Option.any_some]
      cases whole with
      | true =>
        refine Eq.symm (Bool.eq_false_iff.2 fun hfits => ?_)
        obtain ⟨stem, hstem, hleft⟩ := List.any_eq_true.1 hfits
        cases stem with
        | except s =>
          have hnamed := List.all_eq_true.1 (Bool.and_eq_true_iff.1 hr).1 _ hstem
          simp [Stem.isExcept] at hnamed
        | letters s =>
          obtain ⟨left, hbefore, hnil⟩ := (Option.any_eq_true _ _).1 hleft
          obtain rfl : left = [] := by simpa using hnil
          have hword := caseless_eq_of_afterLetters? hrest
          rw [caseless_eq_of_afterLetters? hbefore, caseless_reverse, caseless_reverse,
            caseless_reverse] at hword
          refine hlone (s ++ e) (List.mem_flatMap.2 ⟨_, hstem, List.mem_map_of_mem he⟩) ?_
          rw [String.toList_append, caseless_append]
          simpa [caseless] using (congrArg List.reverse hword).symm
      | false =>
        have hfull : (rest.isEmpty && stems.any Stem.isExcept) = false := by
          refine Bool.eq_false_iff.2 fun hboth => ?_
          obtain ⟨hnil, hexcept⟩ := Bool.and_eq_true_iff.1 hboth
          obtain rfl : rest = [] := List.isEmpty_iff.1 hnil
          have hword := caseless_eq_of_afterLetters? hrest
          rw [caseless_reverse, caseless_reverse] at hword
          refine hlone e ?_ ?_
          · rw [loneWords, if_pos hexcept]
            exact he
          · simpa [caseless] using (congrArg List.reverse hword).symm
        rw [fitsBehind, hfull, Bool.or_false]
        rfl

theorem change?_behind (hrules : rules.all Rule.isPlain) (q : List Char) (hsep : isSeparator sep)
    (word : List Char) : change? rules (q ++ sep :: word) = changeBehind? rules word := by
  refine findSome?_congr fun r hr => ?_
  rw [r.ending?_behind (List.all_eq_true.1 hrules r hr) q hsep]

theorem changeBehind?_eq_change? (hrules : rules.all Rule.isPlain)
    (hlone : ∀ w ∈ rules.flatMap Rule.loneWords, caseless w.toList ≠ caseless word) :
    changeBehind? rules word = change? rules word := by
  refine findSome?_congr fun r hr => ?_
  rw [r.endingBehind?_eq_ending? (List.all_eq_true.1 hrules r hr) fun w hw =>
    hlone w (List.mem_flatMap.2 ⟨r, hr, hw⟩)]

theorem changeBehind?_congr (hrules : rules.all Rule.isPlain) {word' : List Char}
    (h : caseless word = caseless word') :
    changeBehind? rules word = changeBehind? rules word' := by
  have hslash : isSeparator '/' := rfl
  rw [← change?_behind hrules [] hslash, ← change?_behind hrules [] hslash]
  exact change?_congr rules (congrArg (Text.folded '/' :: ·) h)

theorem mem_changes_of_changeBehind? {c : String × String} (h : changeBehind? rules word = some c) :
    c ∈ rules.flatMap Rule.changes ∧ caseless c.1.toList <:+ caseless word := by
  obtain ⟨r, hr, hchange⟩ := List.exists_of_findSome?_eq_some h
  obtain ⟨ending, hending, rfl⟩ := Option.map_eq_some_iff.1 hchange
  cases r with
  | opening => cases hending
  | closing whole stems endings text =>
    have hfits := List.find?_some hending
    obtain ⟨rest, hrest, -⟩ := (Option.any_eq_true _ _).1 hfits
    refine ⟨List.mem_flatMap.2 ⟨_, hr, List.mem_map_of_mem (List.mem_of_find?_eq_some hending)⟩,
      (caseless rest).reverse, ?_⟩
    have hword := congrArg List.reverse (caseless_eq_of_afterLetters? hrest)
    rw [caseless_reverse, caseless_reverse, List.reverse_append, List.reverse_reverse,
      List.reverse_reverse] at hword
    exact hword.symm

theorem length_le_of_changeBehind? {e t : String} (h : changeBehind? rules word = some (e, t)) :
    e.toList.length ≤ word.length := by
  simpa [caseless] using (mem_changes_of_changeBehind? h).2.length_le

theorem altered_append (p : List Char) {change : Option (String × String)}
    (h : ∀ e t, change = some (e, t) → e.toList.length ≤ word.length) :
    altered (p ++ word) change = p ++ altered word change := by
  cases change with
  | none => rfl
  | some c =>
    obtain ⟨e, t⟩ := c
    have hlength := h e t rfl
    have htake : p.length + word.length - e.toList.length =
        p.length + (word.length - e.toList.length) := by omega
    rw [altered, altered, List.length_append, htake, List.take_length_add_append, List.append_assoc]

/-- Behind a separator the last part of a word is altered, and nothing in front of it. -/
theorem altered_behind (hrules : rules.all Rule.isPlain) (q : List Char) (hsep : isSeparator sep)
    (word : List Char) : altered (q ++ sep :: word) (change? rules (q ++ sep :: word)) =
      q ++ sep :: altered word (changeBehind? rules word) := by
  rw [change?_behind hrules q hsep]
  have happend : altered (q ++ [sep] ++ word) (changeBehind? rules word) =
      q ++ [sep] ++ altered word (changeBehind? rules word) :=
    altered_append _ fun e t h => length_le_of_changeBehind? h
  simpa using happend

theorem applyFirst_behind (hrules : rules.all Rule.isPlain) (q : List Char)
    (hsep : isSeparator sep) (word : List Char) :
    applyFirst rules (q ++ sep :: word) = q ++ sep :: altered word (changeBehind? rules word) := by
  have hclosing : rules.all Rule.isClosing := List.all_eq_true.2 fun r hr =>
    r.isClosing_of_isPlain (List.all_eq_true.1 hrules r hr)
  rw [applyFirst_eq_altered hclosing, altered_behind hrules q hsep]

end Separators

end RailsReview.Inflection
