import RailsReview.Practice.Receivers
import RailsReview.Proofs.NodeReviews
import RailsReview.Proofs.Receivers

/-!
# Attributes read through an association

In `variable.association.attribute` the association is one of the model that the variable is named
for, and the attribute one of the class it leads to. The review knows such chains by the variable
they start from and by their last two messages, so longer chains with the same ends pass for them.
-/
namespace RailsReview.Practice
open Node
variable {ν : Type}

/-- The model that the variable is named for belongs to or has one record by way of the association,
and the class of that record has an attribute of this name. -/
structure ReadsThrough (t : Tables) (v : Node) (association name : String) : Prop where
  named : v.text ≠ ""
  recorded : ∃ a,
    (t.associations.ofModel? (modelOfVariable v.text)).bind (·.get? association) = some a ∧
      a.kind ∈ ["belongs_to", "has_one"] ∧ t.attributes.isAttribute a.className name

/-- The call `n` is made on the call `s`, and the chain of both starts from the variable `v`. -/
def ChainFrom (n s v : Node) : Prop :=
  n.subject? = some s ∧ s.kind = .call ∧ isReceiver v ∧ ∃ steps, ChainWalk (some s) steps (some v)

theorem find?_eq_some_iff {t : AssociationTable} {model name : String} {a : Association} :
    t.find? model name delegatableAssociations = some a ↔
      (t.ofModel? model).bind (·.get? name) = some a ∧ a.kind ∈ ["belongs_to", "has_one"] := by
  rw [AssociationTable.find?, Option.filter_eq_some_iff]
  simp [delegatableAssociations]

theorem isChained_iff {n : Node} : isChained n ↔ ∃ s, n.subject? = some s ∧ s.kind = .call := by
  rw [isChained, isKind]
  cases n.subject? with
  | none => simp
  | some s => simp

/-- What the review asks of a call on a call. -/
theorem needsDelegate_iff (t : Tables) {n s : Node} (hs : n.subject? = some s) :
    needsDelegate t n ↔ ∃ v, (isReceiver v ∧ ∃ steps, ChainWalk (some s) steps (some v)) ∧
      ReadsThrough t v s.messageText n.messageText := by
  have hmessage : textOf (n.subject?.bind message?) = s.messageText := by
    rw [hs]
    rfl
  have hreceiver (v : Node) : n.receiver? = some v ↔
      isReceiver v ∧ ∃ steps, ChainWalk (some s) steps (some v) := by
    rw [receiver?_eq_some_iff, hs]
  rw [needsDelegate, hmessage, Bool.and_eq_true, bne_iff_ne, Option.any_eq_true]
  constructor
  · rintro ⟨hnamed, a, ha, hattribute⟩
    obtain ⟨hrecorded, hkind⟩ := find?_eq_some_iff.1 ha
    rcases hv : n.receiver? with _ | v
    · rw [hv] at hnamed
      exact absurd rfl hnamed
    · rw [hv] at hnamed hrecorded
      exact ⟨v, (hreceiver v).1 hv, hnamed, a, hrecorded, hkind, hattribute⟩
  · rintro ⟨v, hv, hnamed, a, hrecorded, hkind, hattribute⟩
    rw [(hreceiver v).2 hv]
    exact ⟨hnamed, a, find?_eq_some_iff.2 ⟨hrecorded, hkind⟩, hattribute⟩

theorem flatMap_filter_ite {α β : Type} (p q : α → Bool) (f : α → β) (xs : List α) :
    ((xs.filter p).flatMap fun x => if q x then [f x] else []) =
      (xs.filter fun x => p x && q x).map f := by
  induction xs with
  | nil => rfl
  | cons x xs ih =>
    rw [List.filter_cons, List.filter_cons]
    cases p x with
    | false => exact ih
    | true =>
      rw [if_pos rfl, List.flatMap_cons, ih, Bool.true_and]
      cases q x with
      | false => rfl
      | true => rfl

/-- What the review reports of a chain. -/
def chainFinding (file : Path) (n : Node) : Finding :=
  Site.finding ⟨some file, n.line?⟩ "law of demeter"

theorem reviewsNodes_demeter (ignored : List FilePattern) :
    (demeter (ν := ν) ignored).spec.ReviewsNodes .call fun site n t =>
      if isChained n && needsDelegate t n then [site.finding "law of demeter"] else [] where
  kinds := rfl
  enter := by simp [demeter]
  exit := by simp [demeter]

/-- The review reports, once and at their lines, the calls at the end of a chain whose variable,
association and attribute the tables know, whatever else stands in the chain between the variable
and the association. When the association is called on the variable itself, a call is reported
exactly if it reads an attribute through it. -/
theorem association_chains_reported (ignored : List FilePattern) (t : Tables) (notes : List ν)
    (trees : List (Path × Node)) :
    let check := demeter (ν := ν) ignored
    ∃ reported : Node → Bool,
      Attempt.all (trees.map fun x => Run.tree x.2 x.1) ⟨[check], t, notes⟩ =
        (⟨[{ check with
          diagnostics := (((trees.flatMap fun x => x.2.located (x.2.file?.getD x.1)).filter
            fun y => check.accepts y.1 && y.2.kind == .call && reported y.2).map fun y =>
              chainFinding y.1 y.2).map check.diagnostic }], t, notes⟩, none) ∧
      (∀ n, reported n ↔ ∃ s v, ChainFrom n s v ∧
        ReadsThrough t v s.messageText n.messageText) ∧
      ∀ n s v, n.subject? = some s → s.kind = .call → s.subject? = some v → ¬isLink v.kind →
        (reported n ↔ isReceiver v ∧ ReadsThrough t v s.messageText n.messageText) := by
  intro check
  have hreported (n : Node) : (isChained n && needsDelegate t n) ↔
      ∃ s v, ChainFrom n s v ∧ ReadsThrough t v s.messageText n.messageText := by
    rw [Bool.and_eq_true, isChained_iff]
    constructor
    · rintro ⟨⟨s, hs, hkind⟩, hneeds⟩
      obtain ⟨v, hchain, hreads⟩ := (needsDelegate_iff t hs).1 hneeds
      exact ⟨s, v, ⟨hs, hkind, hchain⟩, hreads⟩
    · rintro ⟨s, v, ⟨hs, hkind, hchain⟩, hreads⟩
      exact ⟨⟨s, hs, hkind⟩, (needsDelegate_iff t hs).2 ⟨v, hchain, hreads⟩⟩
  refine ⟨fun n => isChained n && needsDelegate t n, ?_, hreported, ?_⟩
  · have hrun := (reviewsNodes_demeter (ν := ν) ignored).trees t notes trees
    rw [flatMap_filter_ite] at hrun
    exact hrun
  · intro n s v hs hkind hv hdirect
    have hlink : isLink s.kind := by rw [hkind]; rfl
    rw [hreported]
    constructor
    · rintro ⟨s', v', ⟨hs', -, hreceiver, steps, hwalk⟩, hreads⟩
      obtain rfl : s = s' := Option.some.inj (hs.symm.trans hs')
      obtain ⟨k, -, hrest⟩ := (ChainWalk.of_link hlink).1 hwalk
      rw [hv] at hrest
      obtain rfl : v' = v := Option.some.inj ((ChainWalk.of_not_link hdirect).1 hrest).2
      exact ⟨hreceiver, hreads⟩
    · rintro ⟨hreceiver, hreads⟩
      refine ⟨s, v, ⟨hs, hkind, hreceiver, 1, .step hlink ?_⟩, hreads⟩
      rw [Option.bind_some, hv]
      exact .stop hdirect

/-- What `@invoice.company.user.name` reads, link by link. -/
def invoiceChain (messages : List String) : Node :=
  let token (kind : Kind) (s : String) := Node.ofKind kind [.literal (.str s)]
  messages.foldl
    (fun n message => .ofKind .call
      [.node n, .node (token .period "."), .node (token .identifier message)])
    (.ofKind .varRef [.node (token .instanceVariable "@invoice")])

/-- The name of the user of an invoice's company is reported like that of the invoice's own user. -/
theorem longer_chain_reported :
    let n := invoiceChain ["company", "user", "name"]
    let t : Tables :=
      { associations := ({} : AssociationTable).add "Invoice" "user" "belongs_to" none
        attributes := ({} : AttributeTable).add "User" "name" "string" }
    n.subject? = some (invoiceChain ["company", "user"]) ∧
      (invoiceChain ["company", "user"]).subject? = some (invoiceChain ["company"]) ∧
      (invoiceChain ["company"]).kind = .call ∧
      (Run.tree n ⟨"app/views/invoices/show.html.erb"⟩
        (⟨[demeter []], t, []⟩ : Session Empty)).1.diagnostics.map (·.message) =
          ["law of demeter"] := by
  exact ⟨rfl, rfl, rfl, by decide +kernel⟩

end RailsReview.Practice
