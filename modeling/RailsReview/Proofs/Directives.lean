import RailsReview.Proofs.Pieces
import RailsReview.Proofs.Suppression

/-!
# Directives

A directive is a tag of the tool, the word that disables and a list of names. Wherever it begins in
a comment, exactly the names in its list are read. What is switched off then depends on which
comments there are, and not on the order in which they were added.
-/
namespace RailsReview

namespace Text

theorem dropBlank_blanks {blanks : List Char} (h : ∀ c ∈ blanks, isBlank c) (cs : List Char) :
    dropBlank (blanks ++ cs) = dropBlank cs := List.dropWhile_append_of_pos h

theorem dropBlank_eq_self {cs : List Char} (h : ∀ c ∈ cs.head?, ¬isBlank c) :
    dropBlank cs = cs := by
  cases cs with
  | nil => rfl
  | cons c cs => exact List.dropWhile_cons_of_neg (h c rfl)

theorem dropEndWhile_append {α : Type} {p : α → Bool} {xs ys : List α} (hys : ∀ x ∈ ys, p x)
    (hlast : ∀ x ∈ xs.getLast?, ¬p x) : dropEndWhile p (xs ++ ys) = xs := by
  have hback : ∀ x ∈ ys.reverse, p x := fun x hx => hys x (List.mem_reverse.1 hx)
  have hkept : xs.reverse.dropWhile p = xs.reverse := by
    rw [← List.head?_reverse] at hlast
    cases hxs : xs.reverse with
    | nil => rfl
    | cons x rest => exact List.dropWhile_cons_of_neg (hlast x (by rw [hxs]; rfl))
  rw [dropEndWhile, List.reverse_append, List.dropWhile_append_of_pos hback, hkept,
    List.reverse_reverse]

end Text

namespace Directive

/-- The tags of the tool. -/
def tags : List String := ["rails_best_practices:", "railsbp:", "rails_bp:"]

/-- A text that can stand in a list of names. -/
structure IsName (name : String) : Prop where
  nonempty : name ≠ ""
  noComma : ',' ∉ name.toList
  noNewline : '\n' ∉ name.toList
  noBlankFirst : ∀ c ∈ name.toList.head?, ¬Text.isBlank c
  noBlankLast : ∀ c ∈ name.toList.getLast?, ¬Text.isBlank c

/-- A name with the spaces around it. -/
structure Item where
  before : Nat
  name : String
  after : Nat

def spaces (n : Nat) : String := String.ofList (List.replicate n ' ')

def Item.text (x : Item) : String := spaces x.before ++ x.name ++ spaces x.after

/-- A list of names as it is written. -/
def listText (items : List Item) : String := ",".intercalate (items.map Item.text)

@[simp] theorem toList_spaces (n : Nat) : (spaces n).toList = List.replicate n ' ' :=
  String.toList_ofList

theorem isBlank_of_mem_spaces {n : Nat} {c : Char} (h : c ∈ (spaces n).toList) :
    Text.isBlank c := by
  rw [toList_spaces] at h
  rw [List.eq_of_mem_replicate h]
  rfl

theorem listAt?_eq_none {cs : List Char} (h : ¬"rails".toList <+: cs) : listAt? cs = none := by
  have hnone : after? "rails" cs = none :=
    Option.eq_none_iff_forall_ne_some.2 fun rest hrest =>
      h ⟨rest, (Text.afterStart?_eq_some_iff.1 hrest).symm⟩
  rw [listAt?, afterTag?, hnone]
  rfl

/-- A text without the name of the tool does not complete it with what follows, so that the first
directive is not found earlier. -/
theorem list?_append {before rest : List Char} (hbefore : ¬"rails".toList <:+: before)
    (hrest : rest.head? = some 'r') : list? (before ++ rest) = list? rest := by
  induction before with
  | nil => rfl
  | cons c before ih =>
    have htail : ¬"rails".toList <:+: before := fun h => hbefore (List.infix_cons h)
    have hhere : ¬"rails".toList <+: c :: before ++ rest := by
      rintro ⟨after, hafter⟩
      rcases List.append_eq_append_iff.1 hafter with ⟨more, hmore, -⟩ | ⟨more, hmore, hmeet⟩
      · exact hbefore ⟨[], more, by simp [hmore]⟩
      · cases more with
        | nil => exact hbefore ⟨[], [], by simpa using hmore⟩
        | cons d more =>
          -- The name has no second letter of the kind that what follows begins with.
          rw [hmeet, List.cons_append, List.head?_cons, Option.some.injEq] at hrest
          have htail : ['a', 'i', 'l', 's'] = before ++ d :: more := (List.cons.inj hmore).2
          have hmem : d ∈ ['a', 'i', 'l', 's'] := by simp [htail]
          rw [hrest] at hmem
          exact absurd hmem (by decide)
    rw [List.cons_append, list?, ← List.cons_append, listAt?_eq_none hhere, Option.none_or,
      ih htail]

theorem list?_of_listAt? {cs list : List Char} (h : listAt? cs = some list) :
    list? cs = some list := by
  cases cs with
  | nil => cases h
  | cons c rest => rw [list?, h, Option.some_or]

theorem listAt?_tagged {tag : String} (htag : tag ∈ tags) (gap : Nat) {list : List Char}
    (hlist : '\n' ∉ list) :
    listAt? (tag.toList ++ ((spaces gap).toList ++ ("disable ".toList ++ list))) =
      some (Text.dropBlank list) := by
  have hafterTag (rest : List Char) : afterTag? (tag.toList ++ rest) = some rest := by
    simp only [tags, List.mem_cons, List.not_mem_nil, or_false] at htag
    rcases htag with rfl | rfl | rfl <;> rfl
  have hword : Text.dropBlank ((spaces gap).toList ++ ("disable ".toList ++ list)) =
      "disable".toList ++ ' ' :: list :=
    Text.dropBlank_blanks (fun _ => isBlank_of_mem_spaces) _
  have hafter : after? "disable" ("disable".toList ++ ' ' :: list) = some (' ' :: list) :=
    Text.afterStart?_eq_some_iff.2 rfl
  have hline : (Text.dropBlank list).takeWhile (· != '\n') = Text.dropBlank list := by
    refine List.takeWhile_eq_self_iff.2 fun c hc => bne_iff_ne.2 ?_
    rintro rfl
    exact hlist ((List.dropWhile_suffix _).subset hc)
  rw [listAt?, hafterTag, Option.bind_some, hword, hafter, Option.bind_some]
  exact congrArg some hline

/-- The list of a directive is the rest of its line. -/
theorem list?_directive {before tag : String} (hbefore : ¬"rails".toList <:+: before.toList)
    (htag : tag ∈ tags) (gap : Nat) {list : String} (hlist : '\n' ∉ list.toList) :
    list? (before ++ tag ++ spaces gap ++ "disable " ++ list).toList =
      some (Text.dropBlank list.toList) := by
  have hfirst (rest : List Char) : (tag.toList ++ rest).head? = some 'r' := by
    simp only [tags, List.mem_cons, List.not_mem_nil, or_false] at htag
    rcases htag with rfl | rfl | rfl <;> rfl
  simp only [String.toList_append, List.append_assoc]
  rw [list?_append hbefore (hfirst _)]
  exact list?_of_listAt? (listAt?_tagged htag gap hlist)

namespace IsName
variable {x : Item} (h : IsName x.name)
include h

theorem head?_append (rest : List Char) : (x.name.toList ++ rest).head? = x.name.toList.head? := by
  have hne : x.name.toList ≠ [] := fun hnil => h.nonempty (String.toList_eq_nil_iff.1 hnil)
  rw [List.head?_append_of_ne_nil _ hne]

theorem trimChars_text : Text.trimChars x.text.toList = x.name.toList := by
  have hstart : Text.dropBlank x.text.toList = x.name.toList ++ (spaces x.after).toList := by
    rw [Item.text, String.toList_append, String.toList_append, List.append_assoc,
      Text.dropBlank_blanks fun _ => isBlank_of_mem_spaces]
    exact Text.dropBlank_eq_self (by rw [h.head?_append]; exact h.noBlankFirst)
  rw [Text.trimChars, hstart]
  exact Text.dropEndWhile_append (fun _ => isBlank_of_mem_spaces) h.noBlankLast

end IsName

theorem notMem_text {x : Item} {c : Char} (hname : c ∉ x.name.toList) (hspace : c ≠ ' ') :
    c ∉ x.text.toList := by
  simp only [Item.text, String.toList_append, toList_spaces, List.mem_append, List.mem_replicate]
  tauto

theorem toList_listText (items : List Item) :
    (listText items).toList = [','].intercalate (items.map (·.text.toList)) := by
  rw [listText, String.toList_intercalate, List.map_map]
  rfl

/-- The blanks in front of a list are those in front of its first name. -/
theorem dropBlank_listText {x : Item} (hx : IsName x.name) (items : List Item) :
    Text.dropBlank (listText (x :: items)).toList =
      (listText ({ x with before := 0 } :: items)).toList := by
  have hcons (x : Item) : listText (x :: items) =
      spaces x.before ++ (x.name ++ ",".intercalate (spaces x.after :: items.map Item.text)) := by
    rw [listText, List.map_cons, Item.text, String.append_assoc, String.intercalate_cons_append,
      String.intercalate_cons_append]
  have hnone : listText ({ x with before := 0 } :: items) =
      x.name ++ ",".intercalate (spaces x.after :: items.map Item.text) :=
    (hcons _).trans String.empty_append
  rw [hcons, hnone, String.toList_append, Text.dropBlank_blanks fun _ => isBlank_of_mem_spaces]
  refine Text.dropBlank_eq_self ?_
  rw [String.toList_append, hx.head?_append]
  exact hx.noBlankFirst

/-- The names in a list, each without the blanks around it, are the pieces between the commas. -/
theorem map_trimChars_pieces {items : List Item} (hne : items ≠ [])
    (hitems : ∀ x ∈ items, IsName x.name) :
    (Text.pieces (· == ',') (listText items).toList).map Text.trimChars =
      items.map (·.name.toList) := by
  have hcomma : ∀ part ∈ items.map (·.text.toList), ',' ∉ part := by
    intro part hpart
    obtain ⟨x, hx, rfl⟩ := List.mem_map.1 hpart
    exact notMem_text (hitems x hx).noComma (by decide)
  rw [toList_listText, Text.pieces_intercalate (by simpa using hne) hcomma, List.map_map]
  exact List.map_congr_left fun x hx => (hitems x hx).trimChars_text

theorem names?_directive {before tag : String} (hbefore : ¬"rails".toList <:+: before.toList)
    (htag : tag ∈ tags) (gap : Nat) {items : List Item} (hne : items ≠ [])
    (hitems : ∀ x ∈ items, IsName x.name) :
    names? (before ++ tag ++ spaces gap ++ "disable " ++ listText items) =
      some (items.map (·.name)) := by
  have hnewline : '\n' ∉ (listText items).toList := by
    rw [toList_listText]
    intro h
    rcases Text.mem_intercalate h with hsep | ⟨part, hpart, hmem⟩
    · exact absurd hsep (by decide)
    · obtain ⟨x, hx, rfl⟩ := List.mem_map.1 hpart
      exact notMem_text (hitems x hx).noNewline (by decide) hmem
  obtain ⟨x, items, rfl⟩ := List.exists_cons_of_ne_nil hne
  have hread : (Text.pieces (· == ',') (Text.dropBlank (listText (x :: items)).toList)).map
      Text.trimChars = (x :: items).map (·.name.toList) := by
    have hfirst := hitems x List.mem_cons_self
    rw [dropBlank_listText hfirst]
    refine map_trimChars_pieces (List.cons_ne_nil _ _) (List.forall_mem_cons.2 ⟨hfirst, ?_⟩)
    exact fun y hy => hitems y (List.mem_cons_of_mem _ hy)
  have hkept : ((x :: items).map (·.name.toList)).filter (!·.isEmpty) =
      (x :: items).map (·.name.toList) := by
    refine List.filter_eq_self.2 fun cs hcs => ?_
    obtain ⟨y, hy, rfl⟩ := List.mem_map.1 hcs
    simpa using (hitems y hy).nonempty
  have hnames : ((x :: items).map (·.name.toList)).map String.ofList =
      (x :: items).map (·.name) := by
    rw [List.map_map]
    exact List.map_congr_left fun _ _ => String.ofList_toList
  rw [names?, list?_directive hbefore htag gap hnewline, Option.bind_some, hread, hkept]
  exact congrArg some hnames

end Directive

namespace CheckName

theorem withoutEnding?_eq_some_iff {ending name rest : String} :
    withoutEnding? ending name = some rest ↔ name = rest ++ ending := Text.withoutEnd_eq_some_iff

theorem withoutEnding?_eq_none {ending name : String} (h : ¬ending.toList <:+ name.toList) :
    withoutEnding? ending name = none := by
  refine Option.eq_none_iff_forall_ne_some.2 fun rest hrest => h ⟨rest.toList, ?_⟩
  rw [withoutEnding?_eq_some_iff.1 hrest, String.toList_append]

/-- One ending is dropped. -/
theorem base_append (name : String) :
    base (name ++ "Check") = name ∧ base (name ++ "Review") = name := by
  constructor
  · rw [base, withoutEnding?_eq_some_iff.2 rfl, Option.some_or, Option.getD_some]
  · have hcheck : withoutEnding? "Check" (name ++ "Review") = none := by
      refine withoutEnding?_eq_none fun ⟨front, hfront⟩ => ?_
      have hlast := congrArg List.getLast? hfront
      rw [String.toList_append, List.getLast?_append, List.getLast?_append] at hlast
      have hletter : some 'k' = some 'w' := hlast
      cases hletter
    rw [base, hcheck, Option.none_or, withoutEnding?_eq_some_iff.2 rfl, Option.getD_some]

theorem base_eq_self {name : String} (hcheck : ¬"Check".toList <:+ name.toList)
    (hreview : ¬"Review".toList <:+ name.toList) : base name = name := by
  rw [base, withoutEnding?_eq_none hcheck, withoutEnding?_eq_none hreview]
  rfl

end CheckName

theorem Comment.disables_iff {c : Comment} {d : Diagnostic} :
    c.disables d ↔ c.line = d.firstLine ∧ ∃ names, Directive.names? c.text = some names ∧
      ∃ name ∈ names, CheckName.base name = CheckName.base d.check := by
  rw [disables, Bool.and_eq_true, beq_iff_eq, List.any_eq_true, eq_comm]
  refine and_congr_right fun _ => ?_
  cases Directive.names? c.text with
  | none => simp
  | some names =>
    simp only [Option.getD_some, beq_iff_eq, Option.some.injEq, exists_eq_left',
      eq_comm (a := CheckName.base d.check)]

namespace Suppressions

/-- What is switched off after comments were added file by file, in any number of calls. -/
def ofCalls (calls : List (Path × List Comment)) : Suppressions :=
  calls.foldl (fun s x => s.addComments x.1 x.2) {}

/-- All comments that were added, each with its file. -/
def added (calls : List (Path × List Comment)) : List (Path × Comment) :=
  calls.flatMap fun x => x.2.map (x.1, ·)

theorem covers_ofCalls (calls : List (Path × List Comment)) (d : Diagnostic) :
    (ofCalls calls).covers d = (added calls).any fun x => d.file == x.1 && x.2.disables d := by
  have hnone : ({} : Suppressions).covers d = false := rfl
  rw [ofCalls, covers_foldl, hnone, Bool.false_or, added, List.any_flatMap]
  congr 1
  funext x
  rw [List.any_map]
  cases hfile : d.file == x.1 <;> simp [Function.comp_def, hfile]

theorem covers_ofCalls_iff {calls : List (Path × List Comment)} {d : Diagnostic} :
    (ofCalls calls).covers d ↔ ∃ file c, (file, c) ∈ added calls ∧ file == d.file ∧
      c.line = d.lines.headD 0 ∧ ∃ names, Directive.names? c.text = some names ∧
        ∃ name ∈ names, CheckName.base name = CheckName.base d.check := by
  rw [covers_ofCalls, List.any_eq_true, Prod.exists]
  refine exists_congr fun file => exists_congr fun c => and_congr_right fun _ => ?_
  rw [Bool.and_eq_true, Comment.disables_iff, Path.beq_iff, Path.beq_iff, eq_comm]
  rfl

theorem covers_ofCalls_congr {calls calls' : List (Path × List Comment)}
    (h : ∀ x, x ∈ added calls ↔ x ∈ added calls') (d : Diagnostic) :
    (ofCalls calls).covers d = (ofCalls calls').covers d := by
  rw [Bool.eq_iff_iff, covers_ofCalls, covers_ofCalls, List.any_eq_true, List.any_eq_true]
  exact exists_congr fun x => and_congr_left fun _ => h x

end Suppressions

open Directive Suppressions in
/-- A diagnostic is switched off exactly by a directive for its check in a comment on its first
line, and the others are kept in their order. Names of checks count without one ending. It makes no
difference in which order and in which calls the comments are added. A directive names what stands
in its list, whatever stands in front of the tag. -/
theorem suppression_exact :
    (∀ (calls : List (Path × List Comment)) (d : Diagnostic),
      (ofCalls calls).covers d ↔ ∃ file c, (file, c) ∈ added calls ∧ file == d.file ∧
        c.line = d.lines.headD 0 ∧ ∃ names, names? c.text = some names ∧
          ∃ name ∈ names, CheckName.base name = CheckName.base d.check) ∧
    (∀ name : String,
      CheckName.base (name ++ "Check") = name ∧ CheckName.base (name ++ "Review") = name ∧
      (¬"Check".toList <:+ name.toList → ¬"Review".toList <:+ name.toList →
        CheckName.base name = name)) ∧
    (∀ (calls : List (Path × List Comment)) (ds : List Diagnostic),
      (ofCalls calls).filter ds = ds.filter (!(ofCalls calls).covers ·)) ∧
    (∀ calls calls' : List (Path × List Comment), (∀ x, x ∈ added calls ↔ x ∈ added calls') →
      (∀ d, (ofCalls calls).covers d = (ofCalls calls').covers d) ∧
      ∀ ds, (ofCalls calls).filter ds = (ofCalls calls').filter ds) ∧
    ∀ before : String, ¬"rails".toList <:+: before.toList → ∀ tag ∈ tags, ∀ (gap : Nat)
      (items : List Item), items ≠ [] → (∀ x ∈ items, IsName x.name) →
        names? (before ++ tag ++ spaces gap ++ "disable " ++ listText items) =
          some (items.map (·.name)) := by
  refine ⟨fun _ _ => covers_ofCalls_iff, fun name => ?_, fun _ ds => filter_eq _ ds,
    fun calls calls' h => ⟨covers_ofCalls_congr h, fun ds => ?_⟩,
    fun before hbefore tag htag gap items hne hitems =>
      names?_directive hbefore htag gap hne hitems⟩
  · obtain ⟨hcheck, hreview⟩ := CheckName.base_append name
    exact ⟨hcheck, hreview, CheckName.base_eq_self⟩
  · rw [filter_eq, filter_eq, funext (covers_ofCalls_congr h)]

open Directive Suppressions in
theorem suppression_exact_two_names :
    let file : Path := ⟨"app/models/post.rb"⟩
    let one : Comment := ⟨2, "# railsbp:disable RemoveTab"⟩
    let two : Comment := ⟨3, "# rails_bp: disable LongLineReview , RemoveTabCheck"⟩
    ¬"rails".toList <:+: "# ".toList ∧ IsName "LongLineReview" ∧ IsName "RemoveTabCheck" ∧
    names? two.text = some ["LongLineReview", "RemoveTabCheck"] ∧
    (∀ ds, (ofCalls [(file, [one]), (file, [two])]).filter ds =
      (ofCalls [(file, [two, one])]).filter ds) ∧
    (ofCalls [(file, [two, one])]).covers ⟨file, [3, 9], "line too long", "LongLineCheck", none⟩ ∧
    CheckName.base "LongLine" = "LongLine" := by
  intro file one two
  have hbefore : ¬"rails".toList <:+: "# ".toList := by decide
  have hfirst : IsName "LongLineReview" := by
    refine ⟨by decide, by decide, by decide, ?_, ?_⟩
    · rintro c ⟨⟩
      decide
    · rintro c ⟨⟩
      decide
  have hsecond : IsName "RemoveTabCheck" := by
    refine ⟨by decide, by decide, by decide, ?_, ?_⟩
    · rintro c ⟨⟩
      decide
    · rintro c ⟨⟩
      decide
  have htext : two.text = "# " ++ "rails_bp:" ++ spaces 1 ++ "disable " ++
      listText [⟨0, "LongLineReview", 1⟩, ⟨1, "RemoveTabCheck", 0⟩] := by decide +kernel
  obtain ⟨hcovers, hbase, -, horder, hread⟩ := suppression_exact
  have hnames : names? two.text = some ["LongLineReview", "RemoveTabCheck"] := by
    rw [htext]
    refine hread "# " hbefore "rails_bp:" (by decide) 1 _ (by simp) fun x hx => ?_
    rcases List.mem_cons.1 hx with rfl | hx
    · exact hfirst
    · rw [List.mem_singleton.1 hx]
      exact hsecond
  refine ⟨hbefore, hfirst, hsecond, hnames, (horder _ _ fun x => ?_).2, ?_,
    (hbase "LongLine").2.2 (by decide) (by decide)⟩
  · simp only [added, List.flatMap_cons, List.flatMap_nil, List.map_cons, List.map_nil,
      List.mem_append, List.mem_cons, List.not_mem_nil, or_false]
    exact or_comm
  · refine (hcovers _ _).2 ⟨file, two, by simp [added], by decide +kernel, rfl, _, hnames, ?_⟩
    exact ⟨"LongLineReview", by simp, by decide +kernel⟩

end RailsReview
