import RailsReview.Proofs.Cuts

/-!
# Pieces of joined texts

Texts that are joined by a separator, which none of them contains, are the pieces between the
separators again. An ending is looked for from the back.
-/
namespace RailsReview

theorem map_map_cancel {α β : Type} {f : α → β} {g : β → α} {l : List α}
    (h : ∀ x ∈ l, g (f x) = x) : (l.map f).map g = l := by
  rw [List.map_map]
  exact (List.map_congr_left h).trans (List.map_id l)

namespace Text

/-- A text without an ending is what stands in front of it. -/
theorem withoutEnd_eq_some_iff {ending name base : String} :
    ((afterStart? ending.toList.reverse name.toList.reverse).map fun back =>
      String.ofList back.reverse) = some base ↔ name = base ++ ending := by
  rw [Option.map_eq_some_iff]
  constructor
  · rintro ⟨back, hback, rfl⟩
    have hname := congrArg List.reverse (afterStart?_eq_some_iff.1 hback)
    rw [List.reverse_reverse, List.reverse_append, List.reverse_reverse] at hname
    rw [← String.toList_inj, hname, String.toList_append, String.toList_ofList]
  · rintro rfl
    refine ⟨base.toList.reverse, afterStart?_eq_some_iff.2 ?_, ?_⟩
    · rw [String.toList_append, List.reverse_append]
    · rw [List.reverse_reverse, String.ofList_toList]

theorem pieces_eq_splitOnP (sep : Char → Bool) (cs : List Char) :
    pieces sep cs = cs.splitOnP sep := by
  induction cs with
  | nil => rfl
  | cons c cs ih =>
    rw [pieces, List.splitOnP_cons_eq_if_modifyHead, ← ih]
    split
    · rfl
    · rcases hpieces : pieces sep cs with _ | ⟨piece, more⟩
      · exact absurd hpieces (pieces_ne_nil sep cs)
      · rfl

theorem pieces_of_notMem {c : Char} {cs : List Char} (h : c ∉ cs) :
    pieces (· == c) cs = [cs] := by
  rw [pieces_eq_splitOnP]
  exact List.splitOnP_eq_singleton fun d hd => by simpa using fun heq : d = c => h (heq ▸ hd)

theorem pieces_append_cons (c : Char) (front back : List Char) :
    pieces (· == c) (front ++ c :: back) = pieces (· == c) front ++ pieces (· == c) back := by
  simp only [pieces_eq_splitOnP]
  exact List.splitOnP_append_cons front back (beq_self_eq_true c)

theorem intercalate_pieces (c : Char) (cs : List Char) :
    [c].intercalate (pieces (· == c) cs) = cs := by
  rw [pieces_eq_splitOnP]
  exact List.intercalate_splitOn c

theorem pieces_intercalate {sep : Char} {parts : List (List Char)} (hne : parts ≠ [])
    (hparts : ∀ part ∈ parts, sep ∉ part) :
    pieces (· == sep) ([sep].intercalate parts) = parts := by
  rw [pieces_eq_splitOnP]
  exact List.splitOn_intercalate sep hparts hne

theorem split_intercalate {sep : Char} {joint : String} (hjoint : joint.toList = [sep])
    {parts : List String} (hne : parts ≠ []) (hparts : ∀ part ∈ parts, sep ∉ part.toList) :
    split sep (joint.intercalate parts) = parts := by
  rw [split, String.toList_intercalate, hjoint,
    pieces_intercalate (by simpa using hne) (by simpa using hparts)]
  exact map_map_cancel fun part _ => String.ofList_toList

/-- Of joined parts, one that others follow ends at a separator and begins behind one or at the
start. -/
theorem exists_intercalate_eq (c : Char) (before : List (List Char)) (part : List Char)
    {after : List (List Char)} (hafter : after ≠ []) :
    ∃ front back, [c].intercalate (before ++ part :: after) = front ++ part ++ c :: back ∧
      (front = [] ∨ ∃ more, front = more ++ [c]) := by
  induction before with
  | nil =>
    refine ⟨[], [c].intercalate after, ?_, .inl rfl⟩
    rw [List.nil_append, List.intercalate_cons_of_ne_nil hafter, List.append_assoc]
    rfl
  | cons first before ih =>
    obtain ⟨front, back, hback, hfront⟩ := ih
    refine ⟨first ++ c :: front, back, ?_, .inr ?_⟩
    · rw [List.cons_append, List.intercalate_cons_of_ne_nil (by simp), hback]
      simp
    · rcases hfront with rfl | ⟨more, rfl⟩
      · exact ⟨first, rfl⟩
      · exact ⟨first ++ c :: more, by simp⟩

/-- Which pieces there are in front of the last one. -/
theorem mem_dropLast_pieces {c : Char} {part cs : List Char} (hpart : c ∉ part) :
    part ∈ (pieces (· == c) cs).dropLast ↔ ∃ front back, cs = front ++ part ++ c :: back ∧
      (front = [] ∨ ∃ more, front = more ++ [c]) := by
  constructor
  · intro h
    obtain ⟨before, after, hsplit⟩ := List.append_of_mem h
    have hparts := List.dropLast_concat_getLast (pieces_ne_nil (· == c) cs)
    rw [hsplit, List.append_assoc, List.cons_append] at hparts
    obtain ⟨front, back, hcs, hfront⟩ :=
      exists_intercalate_eq c before part (List.concat_ne_nil _ after)
    rw [hparts, intercalate_pieces] at hcs
    exact ⟨front, back, hcs, hfront⟩
  · rintro ⟨front, back, rfl, hfront⟩
    rw [pieces_append_cons, List.dropLast_append_of_ne_nil (pieces_ne_nil _ back)]
    refine List.mem_append_left _ ?_
    rcases hfront with rfl | ⟨more, rfl⟩
    · rw [List.nil_append, pieces_of_notMem hpart]
      exact .head _
    · rw [List.append_assoc, List.singleton_append, pieces_append_cons, pieces_of_notMem hpart]
      exact List.mem_append_right _ (.head _)

theorem mem_intercalate {α : Type} {x : α} {sep : List α} {parts : List (List α)}
    (h : x ∈ sep.intercalate parts) : x ∈ sep ∨ ∃ part ∈ parts, x ∈ part := by
  induction parts with
  | nil => cases h
  | cons part parts ih =>
    cases parts with
    | nil => exact .inr ⟨part, List.mem_singleton_self part, by simpa using h⟩
    | cons next rest =>
      rw [List.intercalate_cons_cons, List.append_assoc, List.mem_append, List.mem_append] at h
      rcases h with hpart | hsep | hrest
      · exact .inr ⟨part, List.mem_cons_self, hpart⟩
      · exact .inl hsep
      · obtain hsep | ⟨other, hother, hx⟩ := ih hrest
        · exact .inl hsep
        · exact .inr ⟨other, List.mem_cons_of_mem _ hother, hx⟩

end Text

end RailsReview
