import Mathlib.Order.Bounds.Defs
import RailsReview.Layout
import RailsReview.Proofs.Cuts
import RailsReview.Proofs.Lexical
import RailsReview.Proofs.Matching
import RailsReview.Proofs.Pieces

/-!
# Numbers of lines

The checks of the layout find lines in different ways: one looks for the first tab, one takes what
is between newlines, one reads lines as they are shown. All of them number the lines alike, and
what they report are the lines at fault.
-/
namespace RailsReview

namespace Text

/-- The line with that number. Lines are what is between newlines, and the first one is number 1. -/
def line? (content : String) : Nat → Option (List Char)
  | 0 => none
  | n + 1 => (content.toList.splitOn '\n')[n]?

/-- The number of characters in a line. A carriage return that the next newline follows does not
count. -/
def lineLength (content : String) (n : Nat) : Nat :=
  match line? content n, line? content (n + 1) with
  | none, _ => 0
  | some line, none => line.length
  | some line, some _ => if line.getLast? = some '\r' then line.length - 1 else line.length

theorem line?_succ (content : String) (n : Nat) :
    line? content (n + 1) = (pieces (· == '\n') content.toList)[n]? := by
  rw [pieces_eq_splitOnP]
  rfl

theorem line?_eq_some_iff {content : String} {n : Nat} {line : List Char} :
    line? content n = some line ↔
      ∃ m, n = m + 1 ∧ (pieces (· == '\n') content.toList)[m]? = some line := by
  cases n with
  | zero => exact iff_of_false nofun fun ⟨m, hm, _⟩ => Nat.succ_ne_zero m hm.symm
  | succ m =>
    rw [line?_succ]
    exact ⟨fun h => ⟨m, rfl, h⟩, fun ⟨_, hm, h⟩ => Nat.succ.inj hm ▸ h⟩

theorem length_dropCarriageReturn (line : List Char) : (dropCarriageReturn line).length =
    if line.getLast? = some '\r' then line.length - 1 else line.length := by
  rw [← List.head?_reverse]
  unfold dropCarriageReturn
  split
  · rename_i rest hrest
    have hlength : line.length = rest.length + 1 := by
      rw [← List.length_reverse, hrest, List.length_cons]
    rw [hrest, List.head?_cons, if_pos rfl, List.length_reverse, hlength, Nat.add_sub_cancel]
  · rename_i hline
    rw [if_neg]
    intro hhead
    obtain ⟨rest, hrest⟩ := List.head?_eq_some_iff.1 hhead
    exact hline rest hrest

theorem dropCarriageReturn_eq_iff {line front : List Char} {c : Char} (hc : c ≠ '\r') :
    dropCarriageReturn line = front ++ [c] ↔ line = front ++ [c] ∨ line = front ++ [c, '\r'] := by
  unfold dropCarriageReturn
  split
  · rename_i rest hrest
    have hline : line = rest.reverse ++ ['\r'] := by
      rw [← List.reverse_reverse line, hrest, List.reverse_cons]
    have hpair : front ++ [c, '\r'] = (front ++ [c]) ++ ['\r'] := by simp
    rw [hline, hpair, List.append_left_inj]
    refine ⟨.inr, fun h => h.resolve_left fun heq => hc ?_⟩
    simpa using (congrArg List.getLast? heq).symm
  · rename_i hline
    refine ⟨.inl, fun h => h.resolve_right fun heq => hline (c :: front.reverse) ?_⟩
    simp [heq]

/-- A line as it is shown has the length of the line with its number. -/
theorem length_lines (content : String) (n : Nat) :
    ((lines content)[n]?.elim 0 List.length) = lineLength content (n + 1) := by
  unfold lineLength lines
  rw [line?_succ, line?_succ]
  generalize pieces (· == '\n') content.toList = parts
  induction parts generalizing n with
  | nil => rfl
  | cons piece more ih =>
    cases more with
    | nil =>
      -- An empty last piece is no line, but it has no characters either.
      cases n with
      | zero => cases piece <;> rfl
      | succ n => cases piece <;> rfl
    | cons next rest =>
      cases n with
      | zero => exact length_dropCarriageReturn piece
      | succ n => exact ih n

/-- The numbers of the items that satisfy `p`, counted from 1. -/
theorem mem_numbers_iff {α : Type} {l : List α} {p : α → Bool} {n : Nat} :
    n ∈ ((l.zipIdx 1).filter (p ·.1)).map (·.2) ↔ ∃ m x, n = m + 1 ∧ l[m]? = some x ∧ p x := by
  constructor
  · intro h
    obtain ⟨⟨x, _⟩, hx, rfl⟩ := List.mem_map.1 h
    obtain ⟨hmem, hp⟩ := List.mem_filter.1 hx
    obtain ⟨hle, hget⟩ := List.mk_mem_zipIdx_iff_le_and_getElem?_sub.1 hmem
    exact ⟨_, x, (Nat.sub_add_cancel hle).symm, hget, hp⟩
  · rintro ⟨m, x, rfl, hget, hp⟩
    refine List.mem_map.2 ⟨(x, m + 1), List.mem_filter.2 ⟨?_, hp⟩, rfl⟩
    exact List.mk_mem_zipIdx_iff_le_and_getElem?_sub.2 ⟨Nat.le_add_left 1 m, hget⟩

theorem pairwise_numbers {α : Type} (l : List α) (p : α → Bool) :
    (((l.zipIdx 1).filter (p ·.1)).map (·.2)).Pairwise (· < ·) := by
  have hall : ((l.zipIdx 1).map (·.2)).Pairwise (· < ·) := by
    rw [List.zipIdx_map_snd]
    exact List.pairwise_lt_range' ..
  exact hall.sublist (List.filter_sublist.map _)

end Text

namespace Layout
open Regex

def blank : Regex := .char (.ofList ['\t', ' '])

/-- Blanks at the end of a line, with a carriage return after them or without. -/
def blankEnd : Regex := .concat [.rep blank 1 none, .optional (.char (.single '\r')), .atEnd]

theorem parse?_blankEnd : Regex.parse? "[ \\t]+\\r?$" = some blankEnd := rfl

theorem mem_ends_blank {p q : Place} : q ∈ blank.ends p ↔
    ∃ c, (c = ' ' ∨ c = '\t') ∧ p.after = c :: q.after ∧ q.before = c :: p.before := by
  have hcontains (c : Char) : (CharSet.ofList ['\t', ' ']).contains c ↔ c = ' ' ∨ c = '\t' := by
    simp only [CharSet.ofList, List.foldr_cons, List.foldr_nil, CharSet.contains, Bool.or_eq_true,
      contains_single, Bool.false_eq_true, or_false]
    exact or_comm
  rw [blank, mem_ends_char]
  exact exists_congr fun c => and_congr_left' (hcontains c)

/-- In front of every place that blanks reach there is a blank. -/
theorem before_of_mem_blanks {p q : Place} (h : q ∈ (rep blank 1 none).ends p) :
    ∃ c front, (c = ' ' ∨ c = '\t') ∧ q.before = c :: front := by
  have hstep (m q : Place) (hq : q ∈ blank.ends m) :
      ∃ c front, (c = ' ' ∨ c = '\t') ∧ q.before = c :: front := by
    obtain ⟨c, hc, -, hbefore⟩ := mem_ends_blank.1 hq
    exact ⟨c, _, hc, hbefore⟩
  have hstart (q : Place) (hq : q ∈ times blank.ends 1 [p]) := hstep p q (mem_times_one.1 hq)
  exact forall_mem_closure (fun m _ => hstep m) _ hstart hstart q h

theorem isMatch_blankEnd_iff {line : List Char} : blankEnd.isMatch (String.ofList line) ↔
    ∃ front c, (c = ' ' ∨ c = '\t') ∧ (line = front ++ [c] ∨ line = front ++ [c, '\r']) := by
  simp only [isMatch_iff, blankEnd, mem_ends_concat_cons, mem_ends_concat_nil, mem_ends_optional,
    mem_ends_single, mem_ends_atEnd, String.toList_ofList]
  constructor
  · rintro ⟨front, back, hline, q, m, hm, m', hreturn, m'', ⟨hend, -⟩, -⟩
    obtain ⟨c, start, hc, hbefore⟩ := before_of_mem_blanks hm
    have hwhole : start.reverse ++ [c] ++ m.after = line := by
      have hsame := whole_of_mem_ends _ _ _ hm
      rw [Place.whole, Place.whole, hbefore, List.reverse_cons, List.reverse_reverse] at hsame
      rw [hsame, hline]
    refine ⟨start.reverse, c, hc, ?_⟩
    rcases hreturn with rfl | ⟨hafter, -⟩
    · rw [hend, List.append_nil] at hwhole
      exact .inl hwhole.symm
    · rw [hafter, hend, List.append_assoc] at hwhole
      exact .inr hwhole.symm
  · rintro ⟨front, c, hc, hline⟩
    -- A single blank is enough, the last one.
    have hblank (rest : List Char) : ⟨c :: front.reverse, rest⟩ ∈
        (rep blank 1 none).ends ⟨front.reverse, c :: rest⟩ :=
      mem_closure_of_mem _ (mem_times_one.2 (mem_ends_blank.2 ⟨c, hc, rfl, rfl⟩))
    rcases hline with rfl | rfl
    · exact ⟨front, [c], rfl, _, _, hblank [], _, .inl rfl, _, ⟨rfl, rfl⟩, rfl⟩
    · exact ⟨front, [c, '\r'], rfl, _, _, hblank ['\r'], ⟨'\r' :: c :: front.reverse, []⟩,
        .inr ⟨rfl, rfl⟩, _, ⟨rfl, rfl⟩, rfl⟩

end Layout

/-- A check of the layout. -/
inductive LayoutCheck where
  | tab
  | trailingBlank
  | lineLength (max : Nat)

namespace LayoutCheck
open Layout Text
variable {ν : Type}

def check (ignored : List FilePattern) : LayoutCheck → Check ν
  | tab => Layout.tab ignored
  | trailingBlank => Layout.trailingBlank ignored
  | lineLength max => Layout.lineLength max ignored

/-- The check after it has reported something. -/
def after (k : LayoutCheck) (ignored : List FilePattern) (found : List Diagnostic) : Check ν :=
  { k.check ignored with diagnostics := found }

/-- Whether the line with that number is at fault. -/
def IsFaulty (content : String) (n : Nat) : LayoutCheck → Prop
  | tab => ∃ line, line? content n = some line ∧ '\t' ∈ line
  | trailingBlank => ∃ line, line? content n = some line ∧ ∃ front blank,
      (blank = ' ' ∨ blank = '\t') ∧ (line = front ++ [blank] ∨ line = front ++ [blank, '\r'])
  | lineLength max => max < Text.lineLength content n

/-- How the lines are found: the first tab by its byte and by the newlines in front of it, blanks by
a pattern for what is between newlines, long lines among those that are shown. -/
def Finds (content : String) (numbers : List Nat) : LayoutCheck → Prop
  | tab => ∃ line?, cutTabLine? content = some line? ∧ numbers = line?.toList
  | trailingBlank => ∃ r, Regex.parse? "[ \\t]+\\r?$" = some r ∧
      numbers = (((pieces (· == '\n') content.toList).zipIdx 1).filter fun l =>
        r.isMatch (String.ofList l.1)).map (·.2)
  | lineLength max =>
    numbers = (((lines content).zipIdx 1).filter fun l => max < l.1.length).map (·.2)

def message (content : String) (n : Nat) : LayoutCheck → String
  | tab => "remove tab, use spaces instead"
  | trailingBlank => "remove trailing whitespace"
  | lineLength max => longLineMessage max (Text.lineLength content n)

/-- Whether these are the numbers of the lines to report: of all tabs the first, of all else every
line at fault. -/
def Reports (content : String) (numbers : List Nat) : LayoutCheck → Prop
  | tab => (numbers = [] ∧ ∀ n, ¬tab.IsFaulty content n) ∨
      ∃ n, numbers = [n] ∧ IsLeast {n | tab.IsFaulty content n} n
  | k => numbers.Pairwise (· < ·) ∧ ∀ n, n ∈ numbers ↔ k.IsFaulty content n

theorem reports_tab (content : String) : tab.Reports content (tabLine? content).toList := by
  have hfaulty (n : Nat) : tab.IsFaulty content n ↔ ∃ m line, n = m + 1 ∧
      (pieces (· == '\n') content.toList)[m]? = some line ∧ line.contains '\t' := by
    simp only [IsFaulty, line?_eq_some_iff, List.contains_iff_mem]
    constructor
    · exact fun ⟨line, ⟨m, hm, hline⟩, htab⟩ => ⟨m, line, hm, hline, htab⟩
    · exact fun ⟨m, line, hm, hline, htab⟩ => ⟨line, ⟨m, hm, hline⟩, htab⟩
  unfold tabLine?
  cases hfirst : (pieces (· == '\n') content.toList).findIdx? (·.contains '\t') with
  | none =>
    refine .inl ⟨rfl, fun n hn => ?_⟩
    obtain ⟨m, line, -, hline, htab⟩ := (hfaulty n).1 hn
    rw [List.findIdx?_eq_none_iff.1 hfirst line (List.mem_of_getElem? hline)] at htab
    cases htab
  | some m =>
    obtain ⟨hm, htab, hbefore⟩ := List.findIdx?_eq_some_iff_getElem.1 hfirst
    refine .inr ⟨m + 1, rfl, (hfaulty _).2 ⟨m, _, rfl, List.getElem?_eq_getElem hm, htab⟩, ?_⟩
    intro n hn
    obtain ⟨m', line, rfl, hline, htab'⟩ := (hfaulty n).1 hn
    obtain ⟨hm', rfl⟩ := List.getElem?_eq_some_iff.1 hline
    by_contra hlt
    exact hbefore m' (by omega) htab'

theorem endsInBlank_iff {line : List Char} : endsInBlank line ↔ ∃ front blank,
    (blank = ' ' ∨ blank = '\t') ∧ (line = front ++ [blank] ∨ line = front ++ [blank, '\r']) := by
  simp only [endsInBlank, Option.any_eq_true, Bool.or_eq_true, beq_iff_eq,
    List.getLast?_eq_some_iff]
  constructor
  · rintro ⟨blank, ⟨front, hline⟩, hblank⟩
    have hreturn : blank ≠ '\r' := by rintro rfl; revert hblank; decide
    exact ⟨front, blank, hblank, (dropCarriageReturn_eq_iff hreturn).1 hline⟩
  · rintro ⟨front, blank, hblank, hline⟩
    have hreturn : blank ≠ '\r' := by rintro rfl; revert hblank; decide
    exact ⟨blank, ⟨front, (dropCarriageReturn_eq_iff hreturn).2 hline⟩, hblank⟩

theorem isMatch_blankEnd (line : List Char) :
    blankEnd.isMatch (String.ofList line) = endsInBlank line :=
  Bool.eq_iff_iff.2 (isMatch_blankEnd_iff.trans endsInBlank_iff.symm)

theorem reports_trailingBlank (content : String) :
    trailingBlank.Reports content (trailingBlankLines content) := by
  refine ⟨pairwise_numbers _ endsInBlank, fun n => ?_⟩
  rw [trailingBlankLines, mem_numbers_iff]
  simp only [IsFaulty, line?_eq_some_iff, endsInBlank_iff]
  constructor
  · exact fun ⟨m, line, hm, hline, hblank⟩ => ⟨line, ⟨m, hm, hline⟩, hblank⟩
  · exact fun ⟨line, ⟨m, hm, hline⟩, hblank⟩ => ⟨m, line, hm, hline, hblank⟩

theorem lt_lineLength_iff {max n : Nat} {content : String} : max < Text.lineLength content n ↔
    ∃ m line, n = m + 1 ∧ (lines content)[m]? = some line ∧ max < line.length := by
  cases n with
  | zero => exact iff_of_false nofun fun ⟨m, _, hm, _⟩ => Nat.succ_ne_zero m hm.symm
  | succ m =>
    rw [← length_lines]
    cases hline : (lines content)[m]? with
    | none =>
      refine iff_of_false (Nat.not_lt_zero max) fun ⟨m', line, hm, hline', _⟩ => ?_
      rw [← Nat.succ.inj hm, hline] at hline'
      cases hline'
    | some line =>
      refine ⟨fun hlt => ⟨m, line, rfl, hline, hlt⟩, fun ⟨m', line', hm, hline', hlt⟩ => ?_⟩
      rw [← Nat.succ.inj hm, hline] at hline'
      exact Option.some.inj hline' ▸ hlt

theorem map_longLines (max : Nat) (content : String) : (longLines max content).map (·.1) =
    (((lines content).zipIdx 1).filter fun l => max < l.1.length).map (·.2) := by
  rw [longLines, List.map_map]
  rfl

theorem reports_lineLength (max : Nat) (content : String) :
    (lineLength max).Reports content ((longLines max content).map (·.1)) := by
  let isLong (line : List Char) : Bool := max < line.length
  rw [map_longLines]
  refine ⟨pairwise_numbers _ isLong, fun n => ?_⟩
  rw [mem_numbers_iff (p := isLong), IsFaulty, lt_lineLength_iff]
  simp only [isLong, decide_eq_true_eq]

/-- In whatever way a check finds lines, it finds the lines at fault. -/
theorem Finds.reports {k : LayoutCheck} {content : String} {numbers : List Nat}
    (h : k.Finds content numbers) : k.Reports content numbers := by
  cases k with
  | tab =>
    obtain ⟨line?, hcut, rfl⟩ := h
    obtain rfl : tabLine? content = line? :=
      Option.some.inj ((cutTabLine?_eq content).symm.trans hcut)
    exact reports_tab content
  | trailingBlank =>
    obtain ⟨r, hr, rfl⟩ := h
    obtain rfl : blankEnd = r := Option.some.inj (parse?_blankEnd.symm.trans hr)
    simp only [isMatch_blankEnd]
    exact reports_trailingBlank content
  | lineLength max =>
    obtain rfl : numbers = _ := h
    rw [← map_longLines]
    exact reports_lineLength max content

/-- The length that is said of a long line is that of the line with its number. -/
theorem length_of_mem_longLines {max n length : Nat} {content : String}
    (h : (n, length) ∈ longLines max content) : length = Text.lineLength content n := by
  obtain ⟨⟨line, _⟩, hl, heq⟩ := List.mem_map.1 h
  obtain ⟨rfl, rfl⟩ := Prod.mk.inj heq
  obtain ⟨hle, hline⟩ := List.mk_mem_zipIdx_iff_le_and_getElem?_sub.1 (List.mem_filter.1 hl).1
  obtain ⟨m, rfl⟩ := Nat.exists_eq_add_of_le' hle
  rw [Nat.add_sub_cancel] at hline
  rw [← length_lines, hline]
  rfl

/-- What the check finds in a text, line by line. -/
def findings (path : Path) (content : String) : LayoutCheck → List Finding
  | tab => (tabLine? content).toList.map fun n => ⟨tab.message content n, path, [n]⟩
  | trailingBlank =>
    (trailingBlankLines content).map fun n => ⟨trailingBlank.message content n, path, [n]⟩
  | lineLength max =>
    (longLines max content).map fun l => ⟨longLineMessage max l.2, path, [l.1]⟩

theorem findings_eq (k : LayoutCheck) (path : Path) (content : String) :
    ∃ numbers, k.Finds content numbers ∧
      k.findings path content = numbers.map fun n => ⟨k.message content n, path, [n]⟩ := by
  cases k with
  | tab => exact ⟨_, ⟨_, cutTabLine?_eq content, rfl⟩, rfl⟩
  | trailingBlank =>
    refine ⟨trailingBlankLines content, ⟨_, parse?_blankEnd, ?_⟩, rfl⟩
    simp only [isMatch_blankEnd]
    rfl
  | lineLength max =>
    refine ⟨_, map_longLines max content, ?_⟩
    rw [List.map_map]
    refine List.map_congr_left fun ⟨n, length⟩ hl => ?_
    rw [length_of_mem_longLines hl]
    rfl

theorem answer_text (k : LayoutCheck) (ignored : List FilePattern) (found : List Diagnostic)
    (path : Path) (content : String) (t : Tables) :
    (Call.text path content).answer (k.after (ν := ν) ignored found) t =
      (k.after ignored (found ++ (k.findings path content).map
        (k.check (ν := ν) ignored).diagnostic), t, [], none) := by
  cases k <;> rfl

/-- In a text that it accepts, a check of the layout reports the lines at fault, whose numbers all
checks count alike. -/
theorem reports_faulty_lines (k : LayoutCheck) (ignored : List FilePattern)
    (found : List Diagnostic) {path : Path} (h : (k.check (ν := ν) ignored).accepts path)
    (content : String) (t : Tables) (notes : List ν) :
    ∃ numbers, k.Finds content numbers ∧ k.Reports content numbers ∧
      Run.text path content ⟨[k.after ignored found], t, notes⟩ =
        (⟨[k.after ignored (found ++ numbers.map fun n =>
          (k.check (ν := ν) ignored).diagnostic ⟨k.message content n, path, [n]⟩)], t, notes⟩,
        none) := by
  obtain ⟨numbers, hnumbers, hfindings⟩ := k.findings_eq path content
  refine ⟨numbers, hnumbers, hnumbers.reports, ?_⟩
  have hreaches : (Call.text path content).reaches (k.after (ν := ν) ignored found) := h
  rw [Run.text_eq, Run.announce_single hreaches (k.answer_text ignored found path content t),
    hfindings, List.map_map]
  rfl

/-- A text with two long lines, where a carriage return counts in the last line only, and with two
lines that end in a blank, the first of which has the first tab. -/
theorem reports_faulty_lines_returns :
    let file : Path := ⟨"lib/post.rb"⟩
    let content := "abcd\r\nab\t\r\n\t \nabé\r"
    let shown (k : LayoutCheck) (numbers : List Nat) : Prop :=
      (k.check (ν := Empty) []).accepts file ∧
      k.Finds content numbers ∧ k.Reports content numbers ∧
      Run.text file content ⟨[k.after (ν := Empty) [] []], {}, []⟩ =
        (⟨[k.after [] (numbers.map fun n =>
          (k.check (ν := Empty) []).diagnostic ⟨k.message content n, file, [n]⟩)], {}, []⟩, none)
    shown tab [2] ∧ shown trailingBlank [2, 3] ∧ shown (lineLength 3) [1, 4] := by
  intro file content shown
  have hshown (k : LayoutCheck) (lines : List Nat)
      (hfile : (k.check (ν := Empty) []).accepts file)
      (hlines : (Run.text file content ⟨[k.after (ν := Empty) [] []], {}, []⟩).1.checks.map
        (·.diagnostics.flatMap (·.lines)) = [lines]) : shown k lines := by
    obtain ⟨numbers, hfound, hnumbers, hrun⟩ := reports_faulty_lines k [] [] hfile content {} []
    rw [hrun] at hlines
    obtain rfl : numbers = lines := by
      simpa [after, Check.diagnostic, List.flatMap_map] using hlines
    exact ⟨hfile, hfound, hnumbers, hrun⟩
  refine ⟨hshown tab [2] ?_ ?_, hshown trailingBlank [2, 3] ?_ ?_,
    hshown (lineLength 3) [1, 4] ?_ ?_⟩
  all_goals decide +kernel

end LayoutCheck
end RailsReview
