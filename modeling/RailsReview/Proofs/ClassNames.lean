import RailsReview.Inflection.ClassName
import RailsReview.Proofs.LetterCase
import RailsReview.Proofs.Pieces

/-!
# Class names as paths

A path becomes a class name, and a class name a path, segment by segment, and a segment word by
word. For names that are made of words the two ways undo each other.
-/
namespace RailsReview.Inflection

/-- A lower-case letter or a digit. -/
def isSmall (c : Char) : Bool := Text.isLower c || c.isDigit

/-- A character that stays as it is in a path. -/
def isPlain (c : Char) : Bool := !Text.isUpper c && c != '-' && c != ':'

/-- A letter that `initial` admits, with small characters after it. -/
inductive IsWord (initial : Char → Bool) : List Char → Prop
  | mk {c : Char} {rest : List Char} (hc : initial c) (hne : rest ≠ [])
      (hrest : ∀ d ∈ rest, isSmall d) : IsWord initial (c :: rest)

/-- Words in lower case with underscores between them. -/
def IsSegment (s : String) : Prop :=
  ∃ words, words ≠ [] ∧ (∀ w ∈ words, IsWord Char.isLower w) ∧ s.toList = ['_'].intercalate words

def IsPath (p : String) : Prop :=
  ∃ segments, segments ≠ [] ∧ (∀ s ∈ segments, IsSegment s) ∧ p = "/".intercalate segments

/-- Capitalised words in a row. -/
def IsConstant (s : String) : Prop :=
  ∃ words, words ≠ [] ∧ (∀ w ∈ words, IsWord Char.isUpper w) ∧ s.toList = words.flatten

def IsClassName (c : String) : Prop :=
  ∃ constants, constants ≠ [] ∧ (∀ s ∈ constants, IsConstant s) ∧ c = "::".intercalate constants

/-- The other way of `capitalize`. -/
def uncapitalize : List Char → List Char
  | [] => []
  | c :: rest => Text.toLower c ++ rest

theorem not_isUpper_of_isSmall {c : Char} (h : isSmall c) : ¬Text.isUpper c := by
  rcases Bool.or_eq_true_iff.1 h with hlower | hdigit
  · exact Text.not_isUpper_of_isLower hlower
  · exact Text.not_isUpper_of_isDigit hdigit

theorem isPlain_of_isSmall {c : Char} (h : isSmall c) : isPlain c := by
  have hdash : c ≠ '-' := by
    rintro rfl
    exact absurd h (by decide)
  have hcolon : c ≠ ':' := by
    rintro rfl
    exact absurd h (by decide)
  simp [isPlain, not_isUpper_of_isSmall h, hdash, hcolon]

theorem isSmall_of_isLower {c : Char} (h : c.isLower) : isSmall c := by
  rw [isSmall, Text.isLower, if_pos (Text.isAscii_of_isLower h), h, Bool.true_or]

namespace IsWord
variable {initial : Char → Bool} {w : List Char}

theorem cons_iff {c : Char} {rest : List Char} :
    IsWord initial (c :: rest) ↔ initial c ∧ rest ≠ [] ∧ rest.all isSmall := by
  rw [List.all_eq_true]
  constructor
  · rintro ⟨hc, hne, hrest⟩
    exact ⟨hc, hne, hrest⟩
  · rintro ⟨hc, hne, hrest⟩
    exact ⟨hc, hne, hrest⟩

instance decidable : (w : List Char) → Decidable (IsWord initial w)
  | [] => isFalse nofun
  | _ :: _ => decidable_of_iff _ cons_iff.symm

theorem ne_nil (h : IsWord initial w) : w ≠ [] := by
  cases h with
  | mk => exact List.cons_ne_nil _ _

theorem isSmall_of_mem (h : IsWord Char.isLower w) {c : Char} (hc : c ∈ w) : isSmall c := by
  cases h with
  | mk hinitial _ hrest =>
    rcases List.mem_cons.1 hc with rfl | hc
    · exact isSmall_of_isLower hinitial
    · exact hrest c hc

/-- A character that is neither admitted at the front nor small is in no word. -/
theorem notMem (h : IsWord initial w) {c : Char} (hinitial : ¬initial c) (hsmall : ¬isSmall c) :
    c ∉ w := by
  cases h with
  | mk hc _ hrest =>
    intro hmem
    rcases List.mem_cons.1 hmem with rfl | hmem
    · exact hinitial hc
    · exact hsmall (hrest c hmem)

theorem isSmall_of_mem_getLast? (h : IsWord initial w) {c : Char} (hc : c ∈ w.getLast?) :
    isSmall c := by
  cases h with
  | mk _ hne hrest =>
    rw [List.getLast?_cons_of_ne_nil hne] at hc
    exact hrest c (List.mem_of_getLast? hc)

theorem capitalize (h : IsWord Char.isLower w) :
    IsWord Char.isUpper (capitalize w) ∧ uncapitalize (Inflection.capitalize w) = w := by
  cases h with
  | @mk c rest hc hne hrest =>
    have hupper := Text.isUpper_toUpper hc
    rw [Inflection.capitalize, Text.toUpper_of_isLower hc]
    refine ⟨.mk hupper hne hrest, ?_⟩
    rw [List.singleton_append, uncapitalize, Text.toLower_of_isUpper hupper,
      Text.toLower_toUpper hc, List.singleton_append]

theorem uncapitalize (h : IsWord Char.isUpper w) :
    IsWord Char.isLower (uncapitalize w) ∧
      Inflection.capitalize (Inflection.uncapitalize w) = w := by
  cases h with
  | @mk c rest hc hne hrest =>
    have hlower := Text.isLower_toLower hc
    rw [Inflection.uncapitalize, Text.toLower_of_isUpper hc]
    refine ⟨.mk hlower hne hrest, ?_⟩
    rw [List.singleton_append, Inflection.capitalize, Text.toUpper_of_isLower hlower,
      Text.toUpper_toLower hc, List.singleton_append]

end IsWord

section Camelize

theorem camelizeChars_intercalate {parts : List (List Char)} (hne : parts ≠ [])
    (hparts : ∀ part ∈ parts, '/' ∉ part) :
    camelizeChars (['/'].intercalate parts) =
      [':', ':'].intercalate (parts.map camelizeSegment) := by
  rw [camelizeChars, Text.pieces_intercalate hne hparts]

theorem toList_camelize_of_notMem {s : String} (h : '/' ∉ s.toList) :
    (camelize s).toList = camelizeSegment s.toList := by
  have hone : ∀ part ∈ [s.toList], '/' ∉ part := by simpa using h
  have hcamel := camelizeChars_intercalate (List.cons_ne_nil _ _) hone
  rw [camelize, String.toList_ofList]
  simpa using hcamel

theorem camelize_intercalate {parts : List String} (hne : parts ≠ [])
    (hparts : ∀ part ∈ parts, '/' ∉ part.toList) :
    camelize ("/".intercalate parts) = "::".intercalate (parts.map camelize) := by
  have hpart : ∀ part ∈ parts, camelizeSegment part.toList = (camelize part).toList :=
    fun part hpart => (toList_camelize_of_notMem (hparts part hpart)).symm
  rw [← String.toList_inj, camelize, String.toList_ofList, String.toList_intercalate,
    String.toList_intercalate]
  refine (camelizeChars_intercalate (by simpa using hne) (by simpa using hparts)).trans ?_
  rw [List.map_map, List.map_map]
  exact congrArg _ (List.map_congr_left hpart)

theorem camelizeSegment_intercalate {words : List (List Char)} (hne : words ≠ [])
    (hwords : ∀ w ∈ words, IsWord Char.isLower w) :
    camelizeSegment (['_'].intercalate words) = (words.map capitalize).flatten := by
  have hjoint : ∀ w ∈ words, '_' ∉ w := fun w hw => (hwords w hw).notMem (by decide) (by decide)
  have hfull : ∀ w ∈ words, (!w.isEmpty) = true := fun w hw => by
    simpa using (hwords w hw).ne_nil
  rw [camelizeSegment, Text.pieces_intercalate hne hjoint, List.filter_eq_self.2 hfull,
    List.flatMap_def]

end Camelize

section Underscore

theorem slashSegments_cons {c : Char} (hc : c ≠ ':') (rest : List Char) :
    slashSegments (c :: rest) = c :: slashSegments rest := by
  rw [slashSegments]
  rintro _ rfl
  exact absurd rfl hc

theorem slashSegments_append {part : List Char} (hpart : ':' ∉ part) (rest : List Char) :
    slashSegments (part ++ rest) = part ++ slashSegments rest := by
  induction part with
  | nil => rfl
  | cons c part ih =>
    obtain ⟨hc, hpart⟩ := not_or.1 (mt List.mem_cons.2 hpart)
    rw [List.cons_append, slashSegments_cons (Ne.symm hc), ih hpart, List.cons_append]

theorem slashSegments_intercalate {parts : List (List Char)} (hparts : ∀ part ∈ parts, ':' ∉ part) :
    slashSegments ([':', ':'].intercalate parts) = ['/'].intercalate parts := by
  induction parts with
  | nil => rfl
  | cons part parts ih =>
    obtain ⟨hpart, hparts⟩ := List.forall_mem_cons.1 hparts
    cases parts with
    | nil => simpa [slashSegments] using slashSegments_append hpart []
    | cons next parts =>
      rw [List.intercalate_cons_cons, List.intercalate_cons_cons, List.append_assoc,
        slashSegments_append hpart, List.append_assoc]
      exact congrArg (part ++ '/' :: ·) (ih hparts)

theorem wordBegins_slash (before : Option Char) :
    wordBegins before (some '/') = wordBegins before none := by
  cases before <;> rfl

/-- No word begins right after a slash, as none does at the front. -/
theorem separateWords_slash (rest : List Char) :
    separateWords (some '/') rest = separateWords none rest := by
  cases rest with
  | nil => rfl
  | cons c rest => rfl

theorem separateWords_append_slash (before : Option Char) (part rest : List Char) :
    separateWords before (part ++ '/' :: rest) =
      separateWords before part ++ '/' :: separateWords none rest := by
  induction part generalizing before with
  | nil => exact congrArg ('/' :: ·) (separateWords_slash rest)
  | cons c part ih =>
    have hafter : separated before c (part ++ '/' :: rest).head? =
        separated before c part.head? := by
      cases part with
      | nil =>
        rw [List.nil_append, List.head?_cons, List.head?_nil]
        unfold separated
        rw [wordBegins_slash]
      | cons d part => rfl
    rw [List.cons_append, separateWords_cons, separateWords_cons, ih, hafter, List.append_assoc]

theorem separateWords_intercalate (parts : List (List Char)) :
    separateWords none (['/'].intercalate parts) =
      ['/'].intercalate (parts.map (separateWords none)) := by
  induction parts with
  | nil => rfl
  | cons part parts ih =>
    cases parts with
    | nil => simp
    | cons next parts =>
      rw [List.map_cons, List.map_cons, List.intercalate_cons_cons, List.intercalate_cons_cons,
        List.append_assoc, List.append_assoc, List.singleton_append, separateWords_append_slash, ih]
      rfl

theorem toList_underscore_of_notMem {s : String} (h : ':' ∉ s.toList) :
    (underscore s).toList = separateWords none s.toList := by
  have hone : ∀ part ∈ [s.toList], ':' ∉ part := by simpa using h
  have hsame := slashSegments_intercalate hone
  rw [List.intercalate_singleton, List.intercalate_singleton] at hsame
  rw [underscore, String.toList_ofList, underscoreChars, hsame]

theorem underscore_intercalate {parts : List String} (hparts : ∀ part ∈ parts, ':' ∉ part.toList) :
    underscore ("::".intercalate parts) = "/".intercalate (parts.map underscore) := by
  have hpart : ∀ part ∈ parts, separateWords none part.toList = (underscore part).toList :=
    fun part hpart => (toList_underscore_of_notMem (hparts part hpart)).symm
  rw [← String.toList_inj, underscore, String.toList_ofList, String.toList_intercalate,
    String.toList_intercalate]
  refine (congrArg _ (slashSegments_intercalate (by simpa using hparts))).trans ?_
  rw [separateWords_intercalate, List.map_map, List.map_map]
  exact congrArg _ (List.map_congr_left hpart)

theorem separateWords_of_plain {cs : List Char} (h : ∀ c ∈ cs, isPlain c) (before : Option Char)
    (rest : List Char) :
    separateWords before (cs ++ rest) = cs ++ separateWords (cs.getLast?.or before) rest := by
  induction cs generalizing before with
  | nil => rfl
  | cons c cs ih =>
    obtain ⟨hc, hcs⟩ := List.forall_mem_cons.1 h
    have hself (after : Option Char) : separated before c after = [c] := by
      simp only [isPlain, Bool.and_eq_true, Bool.not_eq_true', bne_iff_ne] at hc
      simp [separated, hc]
    rw [List.cons_append, separateWords_cons, hself, ih hcs, Option.or_some, List.getLast?_cons,
      Option.some_or]
    rfl

theorem underscore_eq_self {s : String} (h : ∀ c ∈ s.toList, isPlain c) : underscore s = s := by
  have hcolon : ':' ∉ s.toList := fun hmem => absurd (h _ hmem) (by decide)
  have hsame := separateWords_of_plain h none []
  rw [separateWords, List.append_nil] at hsame
  rw [← String.toList_inj, toList_underscore_of_notMem hcolon, hsame]

theorem separateWords_word {w : List Char} (h : IsWord Char.isUpper w) (before : Option Char)
    (rest : List Char) :
    separateWords before (w ++ rest) =
      (if wordBegins before w.tail.head? then ['_'] else []) ++ uncapitalize w ++
        separateWords w.getLast? rest := by
  cases h with
  | @mk c tail hc hne htail =>
    have hupper : Text.isUpper c := by rw [Text.isUpper, if_pos (Text.isAscii_of_isUpper hc), hc]
    have hhead : (tail ++ rest).head? = tail.head? := by
      rw [List.head?_append, Option.or_of_isSome (List.isSome_head?.2 hne)]
    rw [List.cons_append, separateWords_cons, hhead,
      separateWords_of_plain fun d hd => isPlain_of_isSmall (htail d hd), separated,
      if_pos hupper, Option.or_some, ← List.getLast?_cons]
    simp only [uncapitalize, List.tail_cons, List.append_assoc]
    rfl

/-- The words of a constant in lower case. Where the constant begins, the neighbours decide whether
there is an underscore; within it there is one in front of each word. -/
theorem separateWords_flatten {words : List (List Char)} (hne : words ≠ [])
    (hwords : ∀ w ∈ words, IsWord Char.isUpper w) {before : Option Char} (begins : Bool)
    (hbefore : ∀ after, wordBegins before after = begins) :
    separateWords before words.flatten =
      (if begins then ['_'] else []) ++ ['_'].intercalate (words.map uncapitalize) := by
  induction words generalizing before begins with
  | nil => exact absurd rfl hne
  | cons w words ih =>
    obtain ⟨hw, hwords⟩ := List.forall_mem_cons.1 hwords
    rw [List.flatten_cons, separateWords_word hw, hbefore, List.map_cons]
    cases words with
    | nil => simp [separateWords]
    | cons next words =>
      have hlast : ∀ after, wordBegins w.getLast? after = true := by
        intro after
        obtain ⟨c, hc⟩ : ∃ c, w.getLast? = some c := ⟨_, List.getLast?_eq_some_getLast hw.ne_nil⟩
        rw [hc]
        exact if_pos (hw.isSmall_of_mem_getLast? hc)
      rw [ih (List.cons_ne_nil _ _) hwords true hlast, if_pos rfl, List.map_cons,
        List.intercalate_cons_cons]
      simp only [List.append_assoc]

end Underscore

namespace IsSegment
variable {s : String}

theorem isSmall_of_mem (h : IsSegment s) {c : Char} (hc : c ∈ s.toList) (hjoint : c ≠ '_') :
    isSmall c := by
  obtain ⟨words, -, hwords, hs⟩ := h
  rw [hs] at hc
  rcases Text.mem_intercalate hc with hmem | ⟨w, hw, hcw⟩
  · exact absurd (List.mem_singleton.1 hmem) hjoint
  · exact (hwords w hw).isSmall_of_mem hcw

theorem notMem (h : IsSegment s) {c : Char} (hjoint : c ≠ '_') (hsmall : ¬isSmall c) :
    c ∉ s.toList := fun hc => hsmall (h.isSmall_of_mem hc hjoint)

theorem isPlain_of_mem (h : IsSegment s) {c : Char} (hc : c ∈ s.toList) : isPlain c := by
  by_cases hjoint : c = '_'
  · rw [hjoint]
    decide
  · exact isPlain_of_isSmall (h.isSmall_of_mem hc hjoint)

theorem ne_empty (h : IsSegment s) : s ≠ "" := by
  rintro rfl
  obtain ⟨words, hne, hwords, hs⟩ := h
  obtain ⟨w, more, rfl⟩ := List.exists_cons_of_ne_nil hne
  obtain ⟨c, rest, rfl⟩ := List.exists_cons_of_ne_nil (hwords w List.mem_cons_self).ne_nil
  rw [List.intercalate_cons_cons_left] at hs
  cases hs

end IsSegment

theorem IsConstant.notMem_colon {s : String} (h : IsConstant s) : ':' ∉ s.toList := by
  obtain ⟨words, -, hwords, hs⟩ := h
  rw [hs, List.mem_flatten]
  rintro ⟨w, hw, hcolon⟩
  exact (hwords w hw).notMem (by decide) (by decide) hcolon

theorem IsSegment.camelize {s : String} (h : IsSegment s) :
    IsConstant (camelize s) ∧ underscore (Inflection.camelize s) = s := by
  have hslash : '/' ∉ s.toList := h.notMem (by decide) (by decide)
  obtain ⟨words, hne, hwords, hs⟩ := h
  have hcamel : (Inflection.camelize s).toList = (words.map capitalize).flatten := by
    rw [toList_camelize_of_notMem hslash, hs, camelizeSegment_intercalate hne hwords]
  have hcapitals : ∀ w ∈ words.map capitalize, IsWord Char.isUpper w :=
    List.forall_mem_map.2 fun w hw => (hwords w hw).capitalize.1
  have hback : (words.map capitalize).map uncapitalize = words :=
    map_map_cancel fun w hw => (hwords w hw).capitalize.2
  have hconstant : IsConstant (Inflection.camelize s) :=
    ⟨words.map capitalize, by simpa using hne, hcapitals, hcamel⟩
  refine ⟨hconstant, ?_⟩
  rw [← String.toList_inj, toList_underscore_of_notMem hconstant.notMem_colon, hcamel,
    separateWords_flatten (by simpa using hne) hcapitals false fun _ => rfl, hback, hs]
  rfl

theorem IsConstant.underscore {s : String} (h : IsConstant s) :
    IsSegment (underscore s) ∧ Inflection.camelize (Inflection.underscore s) = s := by
  have hcolon := h.notMem_colon
  obtain ⟨words, hne, hwords, hs⟩ := h
  have hlow : (Inflection.underscore s).toList = ['_'].intercalate (words.map uncapitalize) := by
    rw [toList_underscore_of_notMem hcolon, hs,
      separateWords_flatten hne hwords false fun _ => rfl]
    rfl
  have hlowers : ∀ w ∈ words.map uncapitalize, IsWord Char.isLower w :=
    List.forall_mem_map.2 fun w hw => (hwords w hw).uncapitalize.1
  have hback : (words.map uncapitalize).map capitalize = words :=
    map_map_cancel fun w hw => (hwords w hw).uncapitalize.2
  have hsegment : IsSegment (Inflection.underscore s) :=
    ⟨words.map uncapitalize, by simpa using hne, hlowers, hlow⟩
  refine ⟨hsegment, ?_⟩
  rw [← String.toList_inj, toList_camelize_of_notMem (hsegment.notMem (by decide) (by decide)),
    hlow, camelizeSegment_intercalate (by simpa using hne) hlowers, hback, hs]

theorem IsPath.isClassName_camelize {p : String} (h : IsPath p) : IsClassName (camelize p) := by
  obtain ⟨segments, hne, hsegments, rfl⟩ := h
  refine ⟨segments.map camelize, by simpa using hne,
    List.forall_mem_map.2 fun s hs => (hsegments s hs).camelize.1, ?_⟩
  exact camelize_intercalate hne fun s hs => (hsegments s hs).notMem (by decide) (by decide)

theorem IsClassName.isPath_underscore {c : String} (h : IsClassName c) : IsPath (underscore c) := by
  obtain ⟨constants, hne, hconstants, rfl⟩ := h
  refine ⟨constants.map underscore, by simpa using hne,
    List.forall_mem_map.2 fun s hs => (hconstants s hs).underscore.1, ?_⟩
  exact underscore_intercalate fun s hs => (hconstants s hs).notMem_colon

theorem IsPath.underscore_camelize {p : String} (h : IsPath p) : underscore (camelize p) = p := by
  obtain ⟨segments, hne, hsegments, rfl⟩ := h
  have hslash : ∀ s ∈ segments, '/' ∉ s.toList := fun s hs =>
    (hsegments s hs).notMem (by decide) (by decide)
  have hcolon : ∀ s ∈ segments.map camelize, ':' ∉ s.toList :=
    List.forall_mem_map.2 fun s hs => (hsegments s hs).camelize.1.notMem_colon
  rw [camelize_intercalate hne hslash, underscore_intercalate hcolon,
    map_map_cancel fun s hs => (hsegments s hs).camelize.2]

theorem IsClassName.camelize_underscore {c : String} (h : IsClassName c) :
    camelize (underscore c) = c := by
  obtain ⟨constants, hne, hconstants, rfl⟩ := h
  have hcolon : ∀ s ∈ constants, ':' ∉ s.toList := fun s hs => (hconstants s hs).notMem_colon
  have hslash : ∀ s ∈ constants.map underscore, '/' ∉ s.toList :=
    List.forall_mem_map.2 fun s hs =>
      (hconstants s hs).underscore.1.notMem (by decide) (by decide)
  rw [underscore_intercalate hcolon, camelize_intercalate (by simpa using hne) hslash,
    map_map_cancel fun s hs => (hconstants s hs).underscore.2]

end RailsReview.Inflection
