import Mathlib.Data.List.TakeWhile
import RailsReview.Layout
import RailsReview.Practice.DbIndex
import RailsReview.Survey.Project

/-!
# Cuts

Texts are cut at bytes and lists at places, and a cut fails where no character begins or the list
is over. Each function that cuts has a second form here, with cuts that may fail. It never fails and
comes to the same.
-/
namespace RailsReview

namespace Text

/-- The first `n` items of a list that has as many. -/
def cut? {α : Type} (n : Nat) (l : List α) : Option (List α) :=
  if n ≤ l.length then some (l.take n) else none

/-- The number of bytes of a text. -/
def byteSize : List Char → Nat
  | [] => 0
  | c :: cs => c.utf8Size + byteSize cs

/-- The text in front of a byte, which has to be the first one of a character or the end. -/
def cutBytes? : Nat → List Char → Option (List Char)
  | 0, _ => some []
  | _ + 1, [] => none
  | n + 1, c :: cs =>
    if c.utf8Size ≤ n + 1 then (cutBytes? (n + 1 - c.utf8Size) cs).map (c :: ·) else none

/-- The byte at which the first such character begins. -/
def firstByte? (p : Char → Bool) : List Char → Option Nat
  | [] => none
  | c :: cs => if p c then some 0 else (firstByte? p cs).map (c.utf8Size + ·)

/-- The byte at which the last such character begins. -/
def lastByte? (p : Char → Bool) : List Char → Option Nat
  | [] => none
  | c :: cs =>
    match lastByte? p cs with
    | some n => some (c.utf8Size + n)
    | none => if p c then some 0 else none

theorem cut?_of_le {α : Type} {n : Nat} {l : List α} (h : n ≤ l.length) :
    cut? n l = some (l.take n) := if_pos h

theorem byteSize_append (cs rest : List Char) :
    byteSize (cs ++ rest) = byteSize cs + byteSize rest := by
  induction cs with
  | nil => simp [byteSize]
  | cons c cs ih => simp only [List.cons_append, byteSize, ih, Nat.add_assoc]

/-- A text can be cut where a part of it ends. -/
theorem cutBytes?_byteSize (cs rest : List Char) :
    cutBytes? (byteSize cs) (cs ++ rest) = some cs := by
  induction cs with
  | nil => cases rest <;> rfl
  | cons c cs ih =>
    have hpos := c.utf8Size_pos
    obtain ⟨n, hn⟩ : ∃ n, c.utf8Size + byteSize cs = n + 1 :=
      ⟨c.utf8Size + byteSize cs - 1, by omega⟩
    have hrest : n + 1 - c.utf8Size = byteSize cs := by omega
    rw [byteSize, hn, List.cons_append, cutBytes?, if_pos (by omega), hrest, ih, Option.map_some]

theorem firstByte?_append {p : Char → Bool} {front : List Char} {c : Char} (rest : List Char)
    (hfront : ∀ d ∈ front, p d = false) (hc : p c) :
    firstByte? p (front ++ c :: rest) = some (byteSize front) := by
  induction front with
  | nil => simp [firstByte?, byteSize, hc]
  | cons d front ih =>
    obtain ⟨hd, hrest⟩ := List.forall_mem_cons.1 hfront
    simp [firstByte?, byteSize, hd, ih hrest]

theorem firstByte?_eq_none {p : Char → Bool} {cs : List Char} (h : ∀ d ∈ cs, p d = false) :
    firstByte? p cs = none := by
  induction cs with
  | nil => rfl
  | cons d cs ih =>
    obtain ⟨hd, hrest⟩ := List.forall_mem_cons.1 h
    simp [firstByte?, hd, ih hrest]

theorem lastByte?_eq_none {p : Char → Bool} {cs : List Char} (h : ∀ d ∈ cs, p d = false) :
    lastByte? p cs = none := by
  induction cs with
  | nil => rfl
  | cons d cs ih =>
    obtain ⟨hd, hrest⟩ := List.forall_mem_cons.1 h
    simp [lastByte?, hd, ih hrest]

theorem lastByte?_append {p : Char → Bool} (front : List Char) {c : Char} {rest : List Char}
    (hrest : ∀ d ∈ rest, p d = false) (hc : p c) :
    lastByte? p (front ++ c :: rest) = some (byteSize front) := by
  induction front with
  | nil => simp [lastByte?, lastByte?_eq_none hrest, byteSize, hc]
  | cons d front ih => simp [lastByte?, byteSize, ih]

/-- A text without such a character, or with a first one. -/
theorem none_or_first (p : Char → Bool) (cs : List Char) :
    (∀ d ∈ cs, p d = false) ∨
      ∃ front c rest, cs = front ++ c :: rest ∧ p c ∧ ∀ d ∈ front, p d = false := by
  induction cs with
  | nil => exact .inl nofun
  | cons c cs ih =>
    by_cases hc : p c
    · exact .inr ⟨[], c, cs, rfl, hc, nofun⟩
    · have hc : p c = false := by simpa using hc
      rcases ih with hnone | ⟨front, d, rest, rfl, hd, hfront⟩
      · exact .inl (List.forall_mem_cons.2 ⟨hc, hnone⟩)
      · exact .inr ⟨c :: front, d, rest, rfl, hd, List.forall_mem_cons.2 ⟨hc, hfront⟩⟩

theorem afterStart?_eq_some_iff {start cs rest : List Char} :
    afterStart? start cs = some rest ↔ cs = start ++ rest := by
  induction start generalizing cs with
  | nil => simp [afterStart?]
  | cons a start ih =>
    cases cs with
    | nil => simp [afterStart?]
    | cons c cs =>
      by_cases h : a = c
      · simp [afterStart?, h, ih]
      · simp [afterStart?, h, Ne.symm h]

theorem pieces_ne_nil (sep : Char → Bool) (cs : List Char) : pieces sep cs ≠ [] := by
  cases cs with
  | nil => simp [pieces]
  | cons c cs =>
    unfold pieces
    split
    · simp
    · split <;> simp

theorem findIdx?_pieces_of_notMem {sep : Char → Bool} {c : Char} {cs : List Char} (h : c ∉ cs) :
    (pieces sep cs).findIdx? (·.contains c) = none := by
  induction cs with
  | nil => simp [pieces]
  | cons d cs ih =>
    obtain ⟨hd, hcs⟩ := not_or.1 (mt List.mem_cons.2 h)
    have hrest := ih hcs
    by_cases hsep : sep d
    · simpa [pieces, hsep] using hrest
    · rcases hp : pieces sep cs with _ | ⟨piece, more⟩
      · exact absurd hp (pieces_ne_nil sep cs)
      · rw [hp] at hrest
        simpa [pieces, hsep, hp, hd] using hrest

/-- In front of the first piece with a character there is a separator for each piece. -/
theorem findIdx?_pieces {p : Char → Bool} {c : Char} (hc : p c = false) {front : List Char}
    (hfront : c ∉ front) (rest : List Char) :
    (pieces p (front ++ c :: rest)).findIdx? (·.contains c) = some (front.countP p) := by
  induction front with
  | nil =>
    rcases hs : pieces p rest with _ | ⟨piece, more⟩
    · exact absurd hs (pieces_ne_nil p rest)
    · simp [pieces, hc, hs, List.findIdx?_cons]
  | cons d front ih =>
    obtain ⟨hd, hfront⟩ := not_or.1 (mt List.mem_cons.2 hfront)
    have hrest := ih hfront
    by_cases hp : p d
    · simpa [pieces, hp, List.findIdx?_cons] using hrest
    · rcases hs : pieces p (front ++ c :: rest) with _ | ⟨piece, more⟩
      · exact absurd hs (pieces_ne_nil p _)
      · rw [hs] at hrest
        simpa [pieces, hp, hs, List.findIdx?_cons, hd] using hrest

end Text

theorem mapM_eq_some {α β : Type} {f : α → Option β} {g : α → β} {l : List α}
    (h : ∀ x ∈ l, f x = some (g x)) : l.mapM f = some (l.map g) := by
  induction l with
  | nil => rfl
  | cons x l ih =>
    obtain ⟨hx, hl⟩ := List.forall_mem_cons.1 h
    simp [List.mapM_cons, hx, ih hl]

namespace Layout

/-- The line of the first tab, by the newlines in the text that is cut off there. -/
def cutTabLine? (content : String) : Option (Option Nat) :=
  match Text.firstByte? (· == '\t') content.toList with
  | none => some none
  | some n => (Text.cutBytes? n content.toList).map fun front => some (front.countP (· == '\n') + 1)

theorem cutTabLine?_eq (content : String) : cutTabLine? content = some (tabLine? content) := by
  unfold cutTabLine? tabLine?
  generalize content.toList = cs
  rcases Text.none_or_first (· == '\t') cs with hnone | ⟨front, c, rest, rfl, hc, hfront⟩
  · have htab : '\t' ∉ cs := fun h => by simpa using hnone _ h
    rw [Text.firstByte?_eq_none hnone, Text.findIdx?_pieces_of_notMem htab]
    rfl
  · have htab : '\t' ∉ front := fun h => by simpa using hfront _ h
    have hsep : ('\t' == '\n') = false := rfl
    have hline := Text.findIdx?_pieces (p := (· == '\n')) hsep htab rest
    rw [Text.firstByte?_append rest hfront hc]
    obtain rfl : c = '\t' := by simpa using hc
    simp only [Text.cutBytes?_byteSize, hline, Option.map_some]

end Layout

namespace Inflection

/-- The word cut after its last separator. -/
def cutSegment? (word : List Char) : Option (List Char × List Char) :=
  match Text.lastByte? isSeparator word with
  | none => some ([], word)
  | some n => (Text.cutBytes? (n + 1) word).map fun front => (front, word.drop front.length)

theorem utf8Size_of_isSeparator {c : Char} (h : isSeparator c) : c.utf8Size = 1 := by
  simp only [isSeparator, Bool.or_eq_true, beq_iff_eq] at h
  rcases h with rfl | rfl
  · rfl
  · rfl

theorem cutSegment?_eq (word : List Char) : cutSegment? word = some (lastSegment word) := by
  unfold cutSegment? lastSegment
  rcases Text.none_or_first isSeparator word.reverse with hnone | ⟨back, c, rest, hword, hc, hback⟩
  · have hnone' : ∀ d ∈ word, isSeparator d = false := by simpa using hnone
    have hall : ∀ d ∈ word.reverse, (!isSeparator d) = true := by simpa using hnone
    dsimp only
    rw [Text.lastByte?_eq_none hnone', List.takeWhile_eq_self_iff.2 hall,
      List.dropWhile_eq_nil_iff.2 hall, List.reverse_reverse]
    rfl
  · have hfront : word = (rest.reverse ++ [c]) ++ back.reverse := by
      rw [← List.reverse_reverse word, hword]
      simp
    have hlast : ∀ d ∈ back.reverse, isSeparator d = false := by simpa using hback
    have hall : ∀ d ∈ back, (!isSeparator d) = true := by simpa using hback
    have hsize : Text.byteSize rest.reverse + 1 = Text.byteSize (rest.reverse ++ [c]) := by
      simp [Text.byteSize_append, Text.byteSize, utf8Size_of_isSeparator hc]
    have hbyte : Text.lastByte? isSeparator word = some (Text.byteSize rest.reverse) := by
      rw [hfront, List.append_assoc]
      exact Text.lastByte?_append _ hlast hc
    rw [hbyte, hword]
    simp only [hsize]
    rw [hfront, Text.cutBytes?_byteSize, Option.map_some, List.drop_left,
      List.takeWhile_append_of_pos hall, List.dropWhile_append_of_pos hall]
    simp [hc]

/-- A character of a class name in lower case, with an underscore where a word begins. -/
def separated (before : Option Char) (c : Char) (after : Option Char) : List Char :=
  if Text.isUpper c then (if wordBegins before after then ['_'] else []) ++ Text.toLower c
  else if c == '-' then ['_']
  else [c]

/-- The character in front of a place; there has to be one, unless the place is the first. -/
def before? (cs : List Char) : Nat → Option (Option Char)
  | 0 => some none
  | i + 1 => cs[i]?.map some

theorem separateWords_cons (before : Option Char) (c : Char) (rest : List Char) :
    separateWords before (c :: rest) =
      separated before c rest.head? ++ separateWords (some c) rest := rfl

/-- A class name as a path, by the neighbours of each place. -/
def cutWords? (cs : List Char) : Option (List Char) :=
  (cs.zipIdx.mapM fun x => (before? cs x.2).map (separated · x.1 cs[x.2 + 1]?)).map List.flatten

theorem mapM_before? (front cs : List Char) :
    ((cs.zipIdx front.length).mapM fun x =>
      (before? (front ++ cs) x.2).map (separated · x.1 (front ++ cs)[x.2 + 1]?)).map List.flatten =
        some (separateWords front.getLast? cs) := by
  induction cs generalizing front with
  | nil => rfl
  | cons c cs ih =>
    have hbefore : before? (front ++ c :: cs) front.length = some front.getLast? := by
      rcases List.eq_nil_or_concat front with rfl | ⟨init, d, rfl⟩
      · rfl
      · simp [before?]
    have hrest := ih (front ++ [c])
    simp only [List.append_assoc, List.singleton_append, List.length_append, List.length_singleton,
      List.getLast?_append, List.getLast?_singleton, Option.some_or] at hrest
    have hafter : (front ++ c :: cs)[front.length + 1]? = cs.head? := by
      rw [List.getElem?_append_right (by omega)]
      simp [List.head?_eq_getElem?]
    obtain ⟨words, hwords, hflat⟩ := Option.map_eq_some_iff.1 hrest
    rw [separateWords_cons, ← hflat]
    simp [List.zipIdx_cons, List.mapM_cons, hbefore, hafter, hwords]

theorem cutWords?_eq (cs : List Char) : cutWords? cs = some (separateWords none cs) :=
  mapM_before? [] cs

end Inflection

namespace ClassRecord

/-- The names that the superclass may have, by cuts of the modules around the class. -/
def cutCandidates? (c : ClassRecord) : Option (List String) :=
  if c.baseName = "" then some []
  else if (absolute? c.base).isSome then some [c.baseName]
  else
    ((List.range c.modules.length).reverse.mapM fun depth =>
      (Text.cut? (depth + 1) c.modules).map (qualify · c.baseName)).map (· ++ [c.baseName])

theorem cutCandidates?_eq (c : ClassRecord) : c.cutCandidates? = some c.superclassCandidates := by
  have hcut : ∀ depth ∈ (List.range c.modules.length).reverse,
      (Text.cut? (depth + 1) c.modules).map (qualify · c.baseName) =
        some (qualify (c.modules.take (depth + 1)) c.baseName) := by
    intro depth hdepth
    have hlt : depth < c.modules.length := List.mem_range.1 (List.mem_reverse.1 hdepth)
    rw [Text.cut?_of_le hlt, Option.map_some]
  unfold cutCandidates? superclassCandidates
  rw [mapM_eq_some hcut]
  split_ifs <;> rfl

end ClassRecord

namespace Practice.SchemaScope

/-- Whether an index starts with the columns of `key`, by a cut of an index that is long enough. -/
def cutCovers? (key index : List String) : Option Bool :=
  if key.length ≤ index.length then
    (Text.cut? key.length index).map fun start => key.all start.contains
  else some false

/-- Whether an index on the table starts with the columns of `key`, by such cuts. -/
def cutIndexed? (s : SchemaScope) (table : String) (key : List String) : Option Bool :=
  ((s.indexes.filter (·.1 == table)).mapM fun x => cutCovers? key x.2).map (·.any id)

theorem cutIndexed?_eq (s : SchemaScope) (table : String) (key : List String) :
    s.cutIndexed? table key = some (s.isIndexed table key) := by
  have hcut : ∀ x ∈ s.indexes.filter (·.1 == table), cutCovers? key x.2 =
      some (decide (key.length ≤ x.2.length) && key.all (x.2.take key.length).contains) := by
    intro x _
    unfold cutCovers?
    by_cases h : key.length ≤ x.2.length
    · simp [h, Text.cut?_of_le h]
    · simp [h]
  unfold cutIndexed? isIndexed
  rw [mapM_eq_some hcut]
  simp [List.any_map, List.any_filter, Bool.and_assoc]

end Practice.SchemaScope

namespace Survey

/-- The form of a line that names a gem, with its two parts. -/
structure GemLine (line : List Char) (name version : String) : Prop where
  line_eq : line = "    ".toList ++ name.toList ++ " (".toList ++ version.toList ++ [')']
  name_ne : name ≠ ""
  version_ne : version ≠ ""
  name_chars : ∀ c ∈ name.toList, c ≠ ' ' ∧ c ≠ '('
  version_chars : ∀ c ∈ version.toList, c ≠ ')'

theorem closed?_eq_some_iff {cs version : List Char} :
    closed? cs = some version ↔ cs = version ++ [')'] := by
  unfold closed?
  constructor
  · intro h
    split at h
    · rename_i back hback
      cases h
      rw [← List.reverse_reverse cs, hback, List.reverse_cons]
    · cases h
  · rintro rfl
    simp

/-- Whoever finds a gem in a line has both parts of the line. -/
theorem gem?_eq_some_iff {line : List Char} {name version : String} :
    gem? line = some (name, version) ↔ GemLine line name version := by
  constructor
  · intro h
    simp only [gem?, Option.bind_eq_some_iff, Text.afterStart?_eq_some_iff,
      closed?_eq_some_iff] at h
    obtain ⟨cs, rfl, v, ⟨_, hcs, rfl⟩, hparts⟩ := h
    split at hparts
    · cases hparts
    · rename_i hnot
      obtain ⟨rfl, rfl⟩ := Prod.mk.inj (Option.some.inj hparts)
      simp only [Bool.or_eq_true, List.isEmpty_iff, List.contains_iff_mem, not_or] at hnot
      obtain ⟨⟨hname, hversion⟩, hclosing⟩ := hnot
      have hsplit := List.prefix_iff_eq_append.1
        (List.takeWhile_prefix (fun c => c != ' ' && c != '(') (l := cs))
      rw [hcs] at hsplit
      refine ⟨?_, by simpa using hname, by simpa using hversion, fun c hc => ?_, fun c hc => ?_⟩
      · rw [String.toList_ofList, String.toList_ofList]
        simpa using hsplit.symm
      · rw [String.toList_ofList] at hc
        simpa using List.mem_takeWhile_imp hc
      · rw [String.toList_ofList] at hc
        rintro rfl
        exact hclosing hc
  · rintro ⟨rfl, hname, hversion, hnames, hversions⟩
    have htake : (name.toList ++ " (".toList ++ version.toList ++ [')']).takeWhile
        (fun c => c != ' ' && c != '(') = name.toList := by
      simp only [List.append_assoc]
      rw [List.takeWhile_append_of_pos fun c hc => by simpa using hnames c hc]
      simp
    have hclosing : ')' ∉ version.toList := fun h => hversions _ h rfl
    simp only [gem?, Option.bind_eq_some_iff, Text.afterStart?_eq_some_iff, closed?_eq_some_iff]
    refine ⟨name.toList ++ " (".toList ++ version.toList ++ [')'], by simp, version.toList,
      ⟨version.toList ++ [')'], by rw [htake]; simp, rfl⟩, ?_⟩
    rw [htake, String.ofList_toList, String.ofList_toList]
    simp [hname, hversion, hclosing]

end Survey

/-- Every cut succeeds and gives what the functions of this library give. -/
structure CutsSucceed : Prop where
  tabs : ∀ content, Layout.cutTabLine? content = some (Layout.tabLine? content)
  segments : ∀ word, Inflection.cutSegment? word = some (Inflection.lastSegment word)
  words : ∀ cs, Inflection.cutWords? cs = some (Inflection.separateWords none cs)
  candidates : ∀ c : ClassRecord, c.cutCandidates? = some c.superclassCandidates
  indexes : ∀ (s : Practice.SchemaScope) table key,
    s.cutIndexed? table key = some (s.isIndexed table key)
  gems : ∀ line name version, Survey.gem? line = some (name, version) ↔
    Survey.GemLine line name version

theorem cutsSucceed : CutsSucceed where
  tabs := Layout.cutTabLine?_eq
  segments := Inflection.cutSegment?_eq
  words := Inflection.cutWords?_eq
  candidates := ClassRecord.cutCandidates?_eq
  indexes := Practice.SchemaScope.cutIndexed?_eq
  gems := fun _ _ _ => Survey.gem?_eq_some_iff

end RailsReview
