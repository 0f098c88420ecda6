import Mathlib.Data.List.Basic
import RailsReview.Suppression

/-!
# Suppressions

A set of suppressions covers a diagnostic exactly when one of the comments it was made from is a
directive for it. Filtering by it is filtering by that.
-/
namespace RailsReview

/-- Equal paths have the same components. -/
theorem Path.beq_iff (p q : Path) : p == q ↔ p.components = q.components := by
  change p.components == q.components ↔ _
  exact beq_iff_eq

namespace Suppression

theorem same_iff (a b : Suppression) :
    a.same b ↔ a.file.components = b.file.components ∧ a.line = b.line ∧ a.check = b.check := by
  unfold same
  rw [Bool.and_eq_true, Bool.and_eq_true, Path.beq_iff, beq_iff_eq, beq_iff_eq, and_assoc]

end Suppression

namespace Suppressions

/-- A suppression that is there already adds nothing. -/
theorem any_insert (s : Suppressions) (e x : Suppression) :
    (s.insert e).entries.any x.same = (s.entries.any x.same || x.same e) := by
  unfold insert
  split
  · rename_i h
    obtain ⟨y, hy, hey⟩ := List.any_eq_true.1 h
    have habsorb : x.same e → s.entries.any x.same := by
      intro hxe
      rw [Suppression.same_iff] at hxe hey
      refine List.any_eq_true.2 ⟨y, hy, (Suppression.same_iff x y).2 ?_⟩
      exact ⟨hxe.1.trans hey.1, hxe.2.1.trans hey.2.1, hxe.2.2.trans hey.2.2⟩
    cases hx : x.same e with
    | false => rw [Bool.or_false]
    | true => rw [habsorb hx]; rfl
  · rw [List.any_append, List.any_cons, List.any_nil, Bool.or_false]

theorem any_foldl_insert (es : List Suppression) (s : Suppressions) (x : Suppression) :
    (es.foldl insert s).entries.any x.same = (s.entries.any x.same || es.any x.same) := by
  induction es generalizing s with
  | nil => simp
  | cons e es ih => rw [List.foldl_cons, ih, any_insert, List.any_cons, Bool.or_assoc]

/-- The test for an empty set of suppressions makes no difference. -/
theorem filter_eq (s : Suppressions) (ds : List Diagnostic) :
    s.filter ds = ds.filter (!s.covers ·) := by
  unfold filter
  split
  · rename_i h
    symm
    apply List.filter_eq_self.2
    intro d _
    rw [covers, List.isEmpty_iff.1 h]
    rfl
  · rfl

theorem filter_filter (s : Suppressions) (p : Diagnostic → Bool) (ds : List Diagnostic) :
    s.filter (ds.filter p) = (s.filter ds).filter p := by
  rw [filter_eq, filter_eq, List.filter_filter, List.filter_filter]
  exact List.filter_congr fun d _ => Bool.and_comm _ _

end Suppressions

namespace Comment

/-- Whether a comment is a directive that names the check of a diagnostic, on its line. -/
def disables (c : Comment) (d : Diagnostic) : Bool :=
  d.firstLine == c.line &&
    ((Directive.names? c.text).getD []).any (CheckName.base d.check == CheckName.base ·)

end Comment

theorem Suppressions.any_ofComments (file : Path) (comments : List Comment) (d : Diagnostic) :
    (ofComments file comments).any
        (Suppression.same ⟨d.file, d.firstLine, CheckName.base d.check⟩) =
      (d.file == file && comments.any (·.disables d)) := by
  unfold ofComments Comment.disables Suppression.same
  rw [List.any_flatMap]
  simp only [List.any_map, Function.comp_def]
  cases d.file == file with
  | false => simp
  | true =>
    simp only [Bool.true_and]
    congr 1
    funext c
    cases d.firstLine == c.line <;> simp

/-- Comments cover the diagnostics that they disable in their own file. -/
theorem Suppressions.covers_addComments (s : Suppressions) (file : Path) (comments : List Comment)
    (d : Diagnostic) : (s.addComments file comments).covers d =
      (s.covers d || (d.file == file && comments.any (·.disables d))) := by
  unfold covers addComments
  rw [any_foldl_insert, any_ofComments]

/-- Whichever comments are added first, each of them covers what it disables. -/
theorem Suppressions.covers_foldl {α : Type} (file : α → Path) (comments : α → List Comment)
    (calls : List α) (s : Suppressions) (d : Diagnostic) :
    (calls.foldl (fun s x => s.addComments (file x) (comments x)) s).covers d =
      (s.covers d || calls.any fun x => d.file == file x && (comments x).any (·.disables d)) := by
  induction calls generalizing s with
  | nil => rw [List.foldl_nil, List.any_nil, Bool.or_false]
  | cons x calls ih => rw [List.foldl_cons, ih, covers_addComments, List.any_cons, Bool.or_assoc]

end RailsReview
