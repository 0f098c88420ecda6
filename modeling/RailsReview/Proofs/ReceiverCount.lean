import RailsReview.Practice.Receivers
import RailsReview.Proofs.Descendants
import RailsReview.Proofs.Dictionary
import RailsReview.Proofs.NodeReviews
import RailsReview.Proofs.Receivers

/-!
# How often a receiver is used

The review of a controller method goes through the calls and assignments in its body and keeps a
list of receivers. What it reports in the end is a matter of counting: each receiver that is used
more often than allowed, once, in the order of first use.
-/
namespace RailsReview.Practice
open Node
variable {ν : Type}

/-- The calls and the assignments to attributes in the body of a definition, which has its name and
its parameters before it. -/
def bodyUses (d : Node) : List Node :=
  ((d.slot? 2).elim [] fun body => (occurrencesIn [] body.slots).map (·.2)).filter fun u =>
    u.kind == .call || u.kind == .field

/-- What they are made on, in the same order; nothing is the empty text. -/
def receiverTexts (d : Node) : List String := (bodyUses d).map fun u => textOf u.receiver?

/-- What is to be reported of a definition: every receiver that is used too often, once and in the
order of first use. -/
structure Overused (allowed : Nat) (d : Node) (reported : List String) : Prop where
  once : reported.Nodup
  complete (v : String) : v ∈ reported ↔
    v ≠ "" ∧ v ≠ "self" ∧ v ≠ "@_response" ∧ allowed < (receiverTexts d).count v
  inOrder : reported.Pairwise fun v w => (receiverTexts d).idxOf v < (receiverTexts d).idxOf w

/-- What is to be reported is determined. -/
theorem Overused.eq {allowed : Nat} {d : Node} {reported reported' : List String}
    (h : Overused allowed d reported) (h' : Overused allowed d reported') :
    reported = reported' := by
  have hmem (v : String) : v ∈ reported ↔ v ∈ reported' := (h.complete v).trans (h'.complete v).symm
  have hperm : reported.Perm reported' := (List.perm_ext_iff_of_nodup h.once h'.once).2 hmem
  exact hperm.eq_of_pairwise (fun v w _ _ hlt hgt => absurd hgt (Nat.not_lt.2 (Nat.le_of_lt hlt)))
    h.inOrder h'.inOrder

/-- Whether a receiver counts. -/
def isCounted (v : String) : Bool := v != "" && !uncountedReceivers.contains v

theorem isCounted_iff {v : String} :
    isCounted v ↔ v ≠ "" ∧ v ≠ "self" ∧ v ≠ "@_response" := by
  simp [isCounted, uncountedReceivers]

theorem matchesNode_uses (u : Node) :
    uses.matchesNode u = (u.kind == .call || u.kind == .field) := by
  have hkinds : uses.matchesNode u = [Kind.call, .field].contains u.kind := by
    simp [uses, NodePattern.matchesNode, NodePattern.accepts]
  rw [hkinds, List.contains_cons, List.contains_cons, List.contains_nil, Bool.or_false]

/-- What the list of receivers says after some uses: which receivers counted so far, in the order of
first use, and how often each of them was used. -/
structure Tallies (texts : List String) (counts : Ledger String Nat) : Prop where
  mem (v : String) : v ∈ counts.keys ↔ isCounted v ∧ v ∈ texts
  inOrder : counts.keys.Pairwise fun v w => texts.idxOf v < texts.idxOf w
  count : ∀ v ∈ counts.keys, counts.get? v = some (texts.count v)

namespace Tallies
variable {texts : List String} {counts : Ledger String Nat}

theorem nodup (h : Tallies texts counts) : counts.keys.Nodup := by
  refine h.inOrder.imp ?_
  rintro v w hlt rfl
  exact Nat.lt_irrefl _ hlt

theorem inOrder_append (h : Tallies texts counts) (more : List String) :
    counts.keys.Pairwise fun v w => (texts ++ more).idxOf v < (texts ++ more).idxOf w := by
  refine h.inOrder.imp_of_mem fun {v w} hv hw hlt => ?_
  rwa [List.idxOf_append_of_mem ((h.mem v).1 hv).2, List.idxOf_append_of_mem ((h.mem w).1 hw).2]

/-- What is listed for a receiver stays right when something else is used. -/
theorem get?_of_ne (h : Tallies texts counts) {v w : String} (hw : w ∈ counts.keys) (hne : w ≠ v) :
    counts.get? w = some ((texts ++ [v]).count w) := by
  rw [h.count w hw, List.count_append, List.count_singleton, beq_false_of_ne (Ne.symm hne)]
  rfl

/-- A text that does not count changes nothing. -/
theorem skip (h : Tallies texts counts) {v : String} (hv : ¬isCounted v) :
    Tallies (texts ++ [v]) counts where
  mem w := by
    rw [h.mem, List.mem_append, List.mem_singleton]
    refine and_congr_right fun hw => (or_iff_left ?_).symm
    rintro rfl
    exact hv hw
  inOrder := h.inOrder_append [v]
  count w hw := h.get?_of_ne hw fun heq => hv (heq ▸ ((h.mem w).1 hw).1)

/-- Another use of a receiver that is listed. -/
theorem again (h : Tallies texts counts) {v : String} (hv : v ∈ counts.keys) :
    Tallies (texts ++ [v]) (counts.alter v fun uses => uses.elim 1 (· + 1)) where
  mem w := by
    rw [Ledger.keys_alter_of_mem hv, h.mem, List.mem_append, List.mem_singleton]
    refine and_congr_right fun _ => (or_iff_left_of_imp ?_).symm
    rintro rfl
    exact ((h.mem w).1 hv).2
  inOrder := by
    rw [Ledger.keys_alter_of_mem hv]
    exact h.inOrder_append [v]
  count w hw := by
    rw [Ledger.keys_alter_of_mem hv] at hw
    rw [Ledger.get?_alter]
    by_cases heq : w = v
    · subst heq
      rw [if_pos rfl, h.count w hw, List.count_append, List.count_singleton_self]
      rfl
    · rw [if_neg heq]
      exact h.get?_of_ne hw heq

/-- The first use of a receiver, which is listed last. -/
theorem first (h : Tallies texts counts) {v : String} (hcounted : isCounted v)
    (hv : v ∉ counts.keys) :
    Tallies (texts ++ [v]) (counts.alter v fun uses => uses.elim 1 (· + 1)) := by
  have hfresh : v ∉ texts := fun hmem => hv ((h.mem v).2 ⟨hcounted, hmem⟩)
  have hnone : counts.get? v = none := Dictionary.lookup_eq_none hv
  constructor
  · intro w
    rw [Ledger.keys_alter_of_not_mem hv, List.mem_append, List.mem_append, h.mem,
      List.mem_singleton, and_or_left]
    refine or_congr_right (and_iff_right_of_imp ?_).symm
    rintro rfl
    exact hcounted
  · rw [Ledger.keys_alter_of_not_mem hv, List.pairwise_append]
    refine ⟨h.inOrder_append [v], List.pairwise_singleton _ _, fun w hw w' hw' => ?_⟩
    have hmem := ((h.mem w).1 hw).2
    rw [List.mem_singleton.1 hw', List.idxOf_append_of_mem hmem,
      List.idxOf_append_of_notMem hfresh]
    exact Nat.lt_of_lt_of_le (List.idxOf_lt_length_of_mem hmem) (Nat.le_add_right _ _)
  · intro w hw
    rw [Ledger.get?_alter]
    by_cases heq : w = v
    · subst heq
      rw [if_pos rfl, hnone, List.count_append, List.count_eq_zero_of_not_mem hfresh,
        List.count_singleton_self]
      rfl
    · rw [Ledger.keys_alter_of_not_mem hv, List.mem_append, List.mem_singleton,
        or_iff_left heq] at hw
      rw [if_neg heq]
      exact h.get?_of_ne hw heq

theorem countUse (h : Tallies texts counts) (u : Node) :
    Tallies (texts ++ [textOf u.receiver?]) (countUse counts u) := by
  have hskipped : (textOf u.receiver? == "" || uncountedReceivers.contains (textOf u.receiver?)) =
      !isCounted (textOf u.receiver?) := by
    rw [isCounted, bne, ← Bool.not_or, Bool.not_not]
  simp only [Practice.countUse, hskipped]
  by_cases hcounted : isCounted (textOf u.receiver?)
  · rw [hcounted, Bool.not_true, if_neg Bool.false_ne_true]
    by_cases hv : textOf u.receiver? ∈ counts.keys
    · exact h.again hv
    · exact h.first hcounted hv
  · rw [Bool.eq_false_iff.2 hcounted, Bool.not_false, if_pos rfl]
    exact h.skip hcounted

/-- Going through the uses one by one keeps the list right. -/
theorem foldl (h : Tallies texts counts) (us : List Node) :
    Tallies (texts ++ us.map fun u => textOf u.receiver?) (us.foldl Practice.countUse counts) := by
  induction us generalizing texts counts with
  | nil =>
    rw [List.map_nil, List.append_nil]
    exact h
  | cons u us ih =>
    have hrest := ih (h.countUse u)
    rwa [List.append_assoc, List.singleton_append] at hrest

end Tallies

/-- The list of receivers at the end of a body. -/
theorem tallies_receiverCounts {d : Node} (hkind : d.kind = .methodDef) :
    Tallies (receiverTexts d) (receiverCounts d) := by
  have hbody : d.body?.elim [] uses.findAll = bodyUses d := by
    rw [bodyUses, ← funext matchesNode_uses, body?, hkind]
    change (d.slot? 2).elim [] uses.findAll = _
    cases d.slot? 2 with
    | none => rfl
    | some body => rw [Option.elim_some, Option.elim_some, NodePattern.findAll, descendants_eq]
  have hempty : Tallies [] {} := ⟨fun v => by simp [Ledger.keys], List.Pairwise.nil, nofun⟩
  rw [receiverCounts, hbody]
  exact hempty.foldl (bodyUses d)

theorem overused_overusedReceivers (allowed : Nat) {d : Node} (hkind : d.kind = .methodDef) :
    Overused allowed d (overusedReceivers allowed d) := by
  have h := tallies_receiverCounts hkind
  have hmem (v : String) : v ∈ (receiverCounts d).keys ∧ allowed < (receiverTexts d).count v ↔
      v ∈ overusedReceivers allowed d := by
    rw [overusedReceivers, Ledger.map_filter_entries _ h.nodup (allowed < ·), List.mem_filter]
    refine and_congr_right fun hv => ?_
    rw [h.count v hv, Option.any_some, decide_eq_true_iff]
  have hsub : (overusedReceivers allowed d).Sublist (receiverCounts d).keys :=
    List.filter_sublist.map _
  refine ⟨h.nodup.sublist hsub, fun v => ?_, h.inOrder.sublist hsub⟩
  rw [← hmem, h.mem, isCounted_iff]
  constructor
  · rintro ⟨⟨⟨hne, hself, hresponse⟩, -⟩, hmany⟩
    exact ⟨hne, hself, hresponse, hmany⟩
  · rintro ⟨hne, hself, hresponse, hmany⟩
    have hused := List.count_pos_iff.1 (Nat.zero_lt_of_lt hmany)
    exact ⟨⟨⟨hne, hself, hresponse⟩, hused⟩, hmany⟩

theorem reviewsNodes_modelLogic (allowed : Nat) (ignored : List FilePattern) :
    (modelLogic (ν := ν) allowed ignored).spec.ReviewsNodes .methodDef fun site n _ =>
      (overusedReceivers allowed n).map fun v => site.finding (overuseMessage allowed v) where
  kinds := rfl
  enter := by simp [modelLogic]
  exit := by simp [modelLogic]

/-- The review reports of each controller method the receivers that are used more than `allowed`
times in its body, at the line of the method. The walk from a use to its receiver always ends. -/
theorem overused_receivers_reported (allowed : Nat) (ignored : List FilePattern) (t : Tables)
    (notes : List ν) (trees : List (Path × Node)) :
    let check := modelLogic (ν := ν) allowed ignored
    ∃ reported : Node → List String,
      Attempt.all (trees.map fun x => Run.tree x.2 x.1) ⟨[check], t, notes⟩ =
        (⟨[{ check with
          diagnostics := (((trees.flatMap fun x => x.2.located (x.2.file?.getD x.1)).filter
            fun y => check.accepts y.1 && y.2.kind == .methodDef).flatMap fun y =>
              (reported y.2).map fun v => Site.finding ⟨some y.1, y.2.line?⟩
                (overuseMessage allowed v)).map check.diagnostic }], t, notes⟩, none) ∧
      (∀ d, d.kind = .methodDef → Overused allowed d (reported d)) ∧
      ∀ u : Node, ∃ steps < u.size, ∃ stop,
        ChainWalk u.subject? steps stop ∧ u.receiver? = stop.filter isReceiver := by
  intro check
  refine ⟨overusedReceivers allowed, ?_, fun _ => overused_overusedReceivers allowed,
    exists_walk_receiver?⟩
  exact (reviewsNodes_modelLogic (ν := ν) allowed ignored).trees t notes trees

/-- An action that uses `@post` five times, twice of them in one chain, and `comment` once. -/
def publish : Node :=
  let token (kind : Kind) (s : String) := Node.ofKind kind [.literal (.str s)]
  let call (receiver : Node) (message : String) : Node := .ofKind .call
    [.node receiver, .node (token .period "."), .node (token .identifier message)]
  let post : Node := .ofKind .varRef [.node (token .instanceVariable "@post")]
  let comment : Node := .ofKind .varRef [.node (token .identifier "comment")]
  let statements : List Node := [call (call post "author") "name", call comment "text",
    call post "title", call post "text", call post "save"]
  .ofKind .methodDef [.node (token .identifier "publish"), .absent,
    .node (.ofKind .bodyStatement [.node (.ofKind .list (statements.map .node))])]

/-- The action is reported for `@post`. -/
theorem overused_receivers_reported_publish :
    let file : Path := ⟨"app/controllers/posts_controller.rb"⟩
    publish.kind = .methodDef ∧
    ∃ reported, Overused defaultUseCount publish reported ∧ reported = ["@post"] ∧
      (Run.tree publish file
        (⟨[modelLogic defaultUseCount []], {}, []⟩ : Session Empty)).1.diagnostics.map (·.message) =
          reported.map (overuseMessage defaultUseCount) := by
  intro file
  obtain ⟨reported, hrun, hoverused, -⟩ :=
    overused_receivers_reported (ν := Empty) defaultUseCount [] {} [] [(file, publish)]
  have hpublish := hoverused publish rfl
  refine ⟨rfl, reported publish, hpublish, ?_, ?_⟩
  · rw [hpublish.eq (overused_overusedReceivers defaultUseCount rfl)]
    decide +kernel
  · have haccepts : (modelLogic (ν := Empty) defaultUseCount []).accepts file := by
      decide +kernel
    have hmethod : (publish.located file).filter (fun y => y.2.kind == .methodDef) =
        [(file, publish)] := rfl
    rw [List.map_singleton, Attempt.all_singleton] at hrun
    rw [hrun, List.flatMap_singleton, show publish.file?.getD file = file from rfl,
      ← List.filter_filter, hmethod]
    simp [haccepts, Session.diagnostics, Check.diagnostic, Site.finding, Site.findingAt]

end RailsReview.Practice
