import Mathlib.Data.List.Forall2
import RailsReview.Proofs.Queries
import RailsReview.Routing.Declaration

/-!
# Respelled trees

Trees may be written differently and still say the same: tokens may stand on other lines, and a call
may have parentheses around its arguments or give them in another order. For any relation under
which related nodes mirror each other in this sense, with related parts, the queries give related
answers, or the same texts.
-/
namespace RailsReview

/-- Slots that hold related nodes, the same literal, or nothing. -/
inductive Slot.Paired (R : Node → Node → Prop) : Slot → Slot → Prop
  | node {n n' : Node} (h : R n n') : Paired R (.node n) (.node n')
  | literal (l : Literal) : Paired R (.literal l) (.literal l)
  | absent : Paired R .absent .absent

namespace Node

/-- Nodes of one kind with paired slots, the line of the second moved by `f`. -/
inductive Aligned (f : Nat → Nat) (R : Node → Node → Prop) : Node → Node → Prop
  | mk {k : Kind} {slots slots' : List Slot} {p p' : Option Position} {own : Option Path}
      (hslots : List.Forall₂ (Slot.Paired R) slots slots')
      (hline : p'.map Position.line = p.map fun x => f x.line) :
      Aligned f R (.mk k slots p own) (.mk k slots' p' own)

/-- Whether a node is a call that consists of a name and arguments without parentheses. Pairs belong
to hashes: neither the name nor the arguments are a pair, and the name holds none. -/
def isBareCall : Node → Bool
  | mk .command [.node name, args] p own =>
    (mk .command [.node name, args] p own).pairs.isEmpty && name.pairs.isEmpty
  | _ => false

/-- The name of a call is a token, which has no parts. Its arguments are no pair. -/
theorem isBareCall_of_token {name args : Node} (hname : name.kind.isToken)
    (hparts : name.children = []) (hargs : args.kind ≠ .assocNew) (p : Option Position)
    (own : Option Path) : (mk .command [.node name, .node args] p own).isBareCall := by
  have hpair : Kind.assocNew.isToken = false := by decide
  have hplain : name.kind ≠ .assocNew := by
    intro hk
    rw [hk, hpair] at hname
    cases hname
  have hchildren : (mk .command [.node name, .node args] p own).children = [name, args] := rfl
  simp [isBareCall, pairs, hchildren, hparts, hplain, hargs]

/-- Aligned nodes, or a call without and one with parentheses. -/
inductive Respelled (f : Nat → Nat) (R : Node → Node → Prop) : Node → Node → Prop
  | aligned {n n' : Node} (h : Aligned f R n n') : Respelled f R n n'
  | parentheses {name name' : Node} {args args' : Slot} {p p' : Option Position}
      {own : Option Path} (hcall : (mk .command [.node name, args] p own).isBareCall)
      (hname : R name name') (hargs : args.Paired R args')
      (hline : p'.map Position.line = p.map fun x => f x.line) :
      Respelled f R (.mk .command [.node name, args] p own)
        (.mk .methodAddArg [.node (.ofKind .functionCall [.node name']),
          .node (.ofKind .argParen [args'])] p' own)

/-- Related nodes are respelled, with related parts. -/
def Respells (f : Nat → Nat) (R : Node → Node → Prop) : Prop :=
  ∀ {n n' : Node}, R n n' → Respelled f R n n'

/-- The slot in which a call keeps its arguments. -/
def argumentPlace? : Kind → Option Nat
  | .command | .methodAddArg => some 1
  | .commandCall => some 3
  | _ => none

/-- Calls whose heads say the same, whatever their arguments are. -/
structure Echoes (f : Nat → Nat) (R : Node → Node → Prop) (n n' : Node) : Prop where
  call : (argumentPlace? n.kind).isSome
  kinds : n'.kind = n.kind ∨ n.kind = .command ∧ n'.kind = .methodAddArg
  route : Routing.isRouteCall n' = Routing.isRouteCall n
  subject : Option.Rel R n.subject? n'.subject?
  message : Option.Rel R n.message? n'.message?
  /-- Given that related nodes below have the same line, the calls have. -/
  line : (∀ m m', m.size < n.size → R m m' → m'.line? = m.line?.map f) → n'.line? = n.line?.map f
  pairs : List.Forall₂ (Aligned f R) n.pairs n'.pairs
  headPairs : List.Forall₂ (Aligned f R) ((n.slot? 0).elim [] Node.pairs)
    ((n'.slot? 0).elim [] Node.pairs)

/-- Aligned nodes, or calls whose heads say the same. -/
inductive Mirrored (f : Nat → Nat) (R : Node → Node → Prop) (n n' : Node) : Prop
  | aligned (h : Aligned f R n n')
  | echoes (h : Echoes f R n n')

/-- Related nodes mirror each other, with related parts. -/
def Mirrors (f : Nat → Nat) (R : Node → Node → Prop) : Prop :=
  ∀ {n n' : Node}, R n n' → Mirrored f R n n'

@[elab_as_elim]
theorem size_induction {P : Node → Prop} (step : ∀ n, (∀ m, m.size < n.size → P m) → P n)
    (n : Node) : P n :=
  (measure size).wf.induction n step

section Related
variable {α β : Type} {R : Node → Node → Prop} {l l' : List Node} {a a' : Option Node}

theorem elim_rel {P : α → α → Prop} (h : Option.Rel R a a') {d : α} (hd : P d d) {g : Node → α}
    (hg : ∀ m m', a = some m → R m m' → P (g m) (g m')) : P (a.elim d g) (a'.elim d g) := by
  cases h with
  | some hr => exact hg _ _ rfl hr
  | none => exact hd

theorem elim_eq_of_rel (h : Option.Rel R a a') {d : α} {g : Node → α}
    (hg : ∀ m m', a = some m → R m m' → g m' = g m) : a'.elim d g = a.elim d g :=
  elim_rel (P := fun x x' => x' = x) h rfl hg

theorem textOf_eq_of_rel (h : Option.Rel R a a')
    (hg : ∀ m m', a = some m → R m m' → m'.text = m.text) : textOf a' = textOf a :=
  elim_eq_of_rel h hg

theorem rel_bind {S : α → β → Prop} {x : Option Node} {x' : Option Node} (h : Option.Rel R x x')
    {g : Node → Option α} {g' : Node → Option β}
    (hg : ∀ m m', x = some m → R m m' → Option.Rel S (g m) (g' m')) :
    Option.Rel S (x.bind g) (x'.bind g') := by
  cases h with
  | some hr => exact hg _ _ rfl hr
  | none => exact .none

theorem map_eq_of_forall₂ (h : List.Forall₂ R l l') {g g' : Node → α}
    (hg : ∀ m ∈ l, ∀ m', R m m' → g' m' = g m) : l'.map g' = l.map g := by
  induction h with
  | nil => rfl
  | cons hr _ ih =>
    obtain ⟨hhead, htail⟩ := List.forall_mem_cons.1 hg
    rw [List.map_cons, List.map_cons, hhead _ hr, ih htail]

theorem findSome?_eq_of_forall₂ (h : List.Forall₂ R l l') {f : α → β} {g : Node → Option α}
    {g' : Node → Option β} (hg : ∀ m ∈ l, ∀ m', R m m' → g' m' = (g m).map f) :
    l'.findSome? g' = (l.findSome? g).map f := by
  induction h with
  | nil => rfl
  | cons hr _ ih =>
    obtain ⟨hhead, htail⟩ := List.forall_mem_cons.1 hg
    rw [List.findSome?_cons, List.findSome?_cons, hhead _ hr, ih htail]
    cases g _ <;> rfl

theorem rel_head? (h : List.Forall₂ R l l') : Option.Rel R l.head? l'.head? := by
  cases h with
  | nil => exact .none
  | cons hr _ => exact .some hr

theorem rel_find? (h : List.Forall₂ R l l') {q q' : Node → Bool}
    (hq : ∀ m m', R m m' → q' m' = q m) : Option.Rel R (l.find? q) (l'.find? q') := by
  induction h with
  | nil => exact .none
  | cons hr _ ih =>
    rw [List.find?_cons, List.find?_cons, hq _ _ hr]
    split
    · exact .some hr
    · exact ih

theorem forall₂_filter (h : List.Forall₂ R l l') {q : Node → Bool}
    (hq : ∀ m m', R m m' → q m' = q m) : List.Forall₂ R (l.filter q) (l'.filter q) :=
  List.rel_filter (fun m m' hr => (congrArg (· = true) (hq m m' hr)).symm.to_iff) h

end Related

variable {f : Nat → Nat} {R : Node → Node → Prop} {n n' : Node}

section Slots
variable {slots slots' : List Slot} (h : List.Forall₂ (Slot.Paired R) slots slots')
include h

theorem rel_getElem? (i : Nat) : Option.Rel (Slot.Paired R) slots[i]? slots'[i]? := by
  induction h generalizing i with
  | nil => exact .none
  | cons hs _ ih =>
    cases i with
    | zero => exact .some hs
    | succ i => exact ih i

theorem rel_nodeAt (i : Nat) : Option.Rel R (nodeAt slots i) (nodeAt slots' i) := by
  have hslot := rel_getElem? h i
  unfold nodeAt
  generalize slots[i]? = s, slots'[i]? = s' at hslot
  cases hslot with
  | none => exact .none
  | some hs =>
    cases hs with
    | node hr => exact .some hr
    | literal _ => exact .none
    | absent => exact .none

theorem forall₂_nodes :
    List.Forall₂ R (slots.filterMap Slot.node?) (slots'.filterMap Slot.node?) := by
  induction h with
  | nil => exact .nil
  | cons hs _ ih =>
    cases hs with
    | node hr => exact .cons hr ih
    | literal _ => exact ih
    | absent => exact ih

end Slots

namespace Aligned
variable (h : Aligned f R n n')
include h

theorem kind_eq : n'.kind = n.kind := by
  cases h with
  | mk => rfl

theorem line_eq : n'.position?.map Position.line = n.position?.map fun x => f x.line := by
  cases h with
  | mk _ hline => exact hline

theorem slot? (i : Nat) : Option.Rel R (n.slot? i) (n'.slot? i) := by
  cases h with
  | mk hslots _ => exact rel_nodeAt hslots i

theorem slots : List.Forall₂ (Slot.Paired R) n.slots n'.slots := by
  cases h with
  | mk hslots _ => exact hslots

theorem children : List.Forall₂ R n.children n'.children := by
  cases h with
  | mk hslots _ => exact forall₂_nodes hslots

theorem leafText_eq : leafText n'.kind n'.slots = leafText n.kind n.slots := by
  cases h with
  | mk hslots _ =>
    cases hslots with
    | nil => rfl
    | cons hs _ =>
      cases hs with
      | node _ => rfl
      | literal l => cases l <;> rfl
      | absent => rfl

theorem tokenText?_eq : n'.tokenText? = n.tokenText? := by
  cases h with
  | mk hslots _ =>
    cases hslots with
    | nil => rfl
    | cons hs _ =>
      cases hs with
      | node _ => rfl
      | literal l => cases l <;> rfl
      | absent => rfl

end Aligned

theorem argumentPlace?_eq_some {k : Kind} {i : Nat} (h : argumentPlace? k = some i) :
    k = .command ∧ i = 1 ∨ k = .methodAddArg ∧ i = 1 ∨ k = .commandCall ∧ i = 3 := by
  unfold argumentPlace? at h
  split at h
  · exact .inl ⟨rfl, (Option.some.inj h).symm⟩
  · exact .inr (.inl ⟨rfl, (Option.some.inj h).symm⟩)
  · exact .inr (.inr ⟨rfl, (Option.some.inj h).symm⟩)
  · cases h

section Calls
variable {n : Node} (h : (argumentPlace? n.kind).isSome)
include h

theorem kind_of_call :
    n.kind = .command ∨ n.kind = .methodAddArg ∨ n.kind = .commandCall := by
  obtain ⟨i, hi⟩ := Option.isSome_iff_exists.1 h
  exact (argumentPlace?_eq_some hi).imp And.left (Or.imp And.left And.left)

theorem argumentValues_of_call : n.argumentValues = [] := by
  rw [argumentValues_eq]
  rcases kind_of_call h with hk | hk | hk
  all_goals rw [hk]

theorem arrayValues_of_call : n.arrayValues = [] := by
  unfold arrayValues
  rcases kind_of_call h with hk | hk | hk
  all_goals rw [hk]

theorem text_of_call : n.text = "" := by
  have hplain : Kind.command.isToken = false := by decide
  have hclosed : Kind.methodAddArg.isToken = false := by decide
  have hreceived : Kind.commandCall.isToken = false := by decide
  rw [text_eq]
  rcases kind_of_call h with hk | hk | hk
  · rw [hk, hplain]
    rfl
  · rw [hk, hclosed]
    rfl
  · rw [hk, hreceived]
    rfl

theorem hashPairs_of_call : n.hashPairs = [] := by
  rw [hashPairs_eq]
  rcases kind_of_call h with hk | hk | hk
  all_goals rw [hk]

theorem stringList_of_call : n.stringList = [n.text] := by
  unfold stringList
  rcases kind_of_call h with hk | hk | hk
  all_goals rw [hk]

end Calls

theorem Echoes.call_right (h : Echoes f R n n') : (argumentPlace? n'.kind).isSome := by
  rcases h.kinds with hk | ⟨-, hk⟩
  · rw [hk]
    exact h.call
  · rw [hk]
    rfl

namespace Mirrored
variable (h : Mirrored f R n n')
include h

/-- The kinds are the same to whatever does not tell a call with parentheses from one without. -/
theorem congr_kind {α : Type} {g : Kind → α} (hg : g .methodAddArg = g .command) :
    g n'.kind = g n.kind := by
  cases h with
  | aligned ha => rw [ha.kind_eq]
  | echoes he =>
    rcases he.kinds with hk | ⟨hk, hk'⟩
    · rw [hk]
    · rw [hk, hk', hg]

theorem aligned_of_not_call (hk : argumentPlace? n.kind = none) : Aligned f R n n' := by
  cases h with
  | aligned ha => exact ha
  | echoes he =>
    have hcall := he.call
    rw [hk] at hcall
    cases hcall

end Mirrored

/-- Below the name of a call there are no pairs; with parentheses the name itself is there. -/
theorem Respells.mirrors (h : Respells f R) : Mirrors f R := by
  intro n n' hn
  cases h hn with
  | aligned ha => exact .aligned ha
  | @parentheses name name' args args' p p' own hcall hname hargs hline =>
    obtain ⟨hpairs, hheld⟩ := Bool.and_eq_true_iff.1 hcall
    refine .echoes ⟨rfl, .inr ⟨rfl, rfl⟩, rfl, .none, .some hname, fun ih => ?_, ?_, ?_⟩
    · cases p with
      | some x =>
        obtain ⟨x', rfl, hx⟩ := Option.map_eq_some_iff.1 hline
        exact congrArg some hx
      | none =>
        obtain rfl : p' = none := Option.map_eq_none_iff.1 hline
        exact ih name name' (size_lt_of_slot? (n := mk _ _ _ _) (i := 0) rfl) hname
    · rw [List.isEmpty_iff.1 hpairs]
      exact .nil
    · have hplain : name.kind ≠ .assocNew := by
        have hmem := List.filter_eq_nil_iff.1 (List.isEmpty_iff.1 hpairs) name
        simpa using hmem (by simp [children, slots, Slot.node?])
      have hplain' : name'.kind ≠ .assocNew := by
        cases h hname with
        | aligned ha => rwa [ha.kind_eq]
        | parentheses =>
          change Kind.methodAddArg ≠ .assocNew
          decide
      change List.Forall₂ (Aligned f R) name.pairs ([name'].filter (·.kind == .assocNew))
      rw [List.isEmpty_iff.1 hheld, List.filter_cons_of_neg (by simpa using hplain')]
      exact .nil

section Queries
variable (h : Mirrors f R) (hn : R n n')
include h hn

theorem subject?_rel : Option.Rel R n.subject? n'.subject? := by
  induction n using size_induction generalizing n' with
  | step n ih =>
    cases h hn with
    | echoes he => exact he.subject
    | aligned ha =>
      have hinner : Option.Rel R ((n.slot? 0).bind subject?) ((n'.slot? 0).bind subject?) :=
        rel_bind (ha.slot? 0) fun m m' hm hr => ih m (size_lt_of_slot? hm) hr
      rw [subject?_eq, subject?_eq, ha.kind_eq]
      split
      all_goals first | exact hinner | exact ha.slot? 0 | exact .none

theorem message?_rel : Option.Rel R n.message? n'.message? := by
  induction n using size_induction generalizing n' with
  | step n ih =>
    cases h hn with
    | echoes he => exact he.message
    | aligned ha =>
      have hinner : Option.Rel R ((n.slot? 0).bind message?) ((n'.slot? 0).bind message?) :=
        rel_bind (ha.slot? 0) fun m m' hm hr => ih m (size_lt_of_slot? hm) hr
      rw [message?_eq, message?_eq, ha.kind_eq]
      split
      all_goals first | exact hinner | exact ha.slot? _ | exact .none

theorem argumentValues_rel : List.Forall₂ R n.argumentValues n'.argumentValues := by
  induction n using size_induction generalizing n' with
  | step n ih =>
    cases h hn with
    | echoes he =>
      rw [argumentValues_of_call he.call, argumentValues_of_call he.call_right]
      exact .nil
    | aligned ha =>
      have hinner : List.Forall₂ R ((n.slot? 0).elim [] argumentValues)
          ((n'.slot? 0).elim [] argumentValues) :=
        elim_rel (ha.slot? 0) .nil fun m m' hm hr => ih m (size_lt_of_slot? hm) hr
      have helements : List.Forall₂ R
          ((n.slot? 0).elim [] fun a => if holdsElements a.kind then a.argumentValues else [])
          ((n'.slot? 0).elim [] fun a => if holdsElements a.kind then a.argumentValues else []) :=
        elim_rel (ha.slot? 0) .nil fun m m' hm hr => by
          rw [(h hr).congr_kind (g := holdsElements) rfl]
          split
          · exact ih m (size_lt_of_slot? hm) hr
          · exact .nil
      rw [argumentValues_eq, argumentValues_eq, ha.kind_eq]
      split
      · exact hinner
      · exact hinner
      · exact ha.children
      · exact List.rel_append hinner (List.forall₂_drop 1 ha.children)
      · exact helements
      · exact .nil

theorem arrayValues_rel : List.Forall₂ R n.arrayValues n'.arrayValues := by
  cases h hn with
  | echoes he =>
    rw [arrayValues_of_call he.call, arrayValues_of_call he.call_right]
    exact .nil
  | aligned ha =>
    unfold arrayValues
    rw [ha.kind_eq]
    split
    · exact argumentValues_rel h hn
    · exact .nil

/-- The arguments of aligned nodes are related, if those of the calls with a block are. -/
theorem Aligned.callArguments_rel {Q : Node → Node → Prop} (ha : Aligned f R n n')
    (hQ : ∀ {m m'}, R m m' → Q m m')
    (hhead : n.kind = .methodAddBlock → ∀ m m', n.slot? 0 = some m → R m m' →
      List.Forall₂ Q m.callArguments m'.callArguments) :
    List.Forall₂ Q n.callArguments n'.callArguments := by
  have hown : List.Forall₂ Q n.argumentValues n'.argumentValues :=
    (argumentValues_rel h hn).imp fun _ _ => hQ
  have hvalues (i : Nat) : List.Forall₂ Q ((n.slot? i).elim [] argumentValues)
      ((n'.slot? i).elim [] argumentValues) :=
    elim_rel (ha.slot? i) .nil fun m m' _ hr => (argumentValues_rel h hr).imp fun _ _ => hQ
  rw [callArguments_eq, callArguments_eq, ha.kind_eq]
  split
  · rename_i hk
    exact elim_rel (ha.slot? 0) .nil (hhead hk)
  · exact hown
  · exact hvalues 1
  · exact hvalues 1
  · exact hvalues 3
  · exact hvalues 0
  · exact .nil

/-- The arguments are related as those of the calls are that are not aligned. -/
theorem callArguments_rel {Q : Node → Node → Prop} (hQ : ∀ {m m'}, R m m' → Q m m')
    (hcalls : ∀ {m m'}, R m m' → ¬Aligned f R m m' →
      List.Forall₂ Q m.callArguments m'.callArguments) :
    List.Forall₂ Q n.callArguments n'.callArguments := by
  induction n using size_induction generalizing n' with
  | step n ih =>
    by_cases ha : Aligned f R n n'
    · exact ha.callArguments_rel h hn hQ fun _ m m' hm hr => ih m (size_lt_of_slot? hm) hr
    · exact hcalls hn ha

theorem text_eq_of_rel : n'.text = n.text := by
  induction n using size_induction generalizing n' with
  | step n ih =>
    cases h hn with
    | echoes he => rw [text_of_call he.call, text_of_call he.call_right]
    | aligned ha =>
      have hslot (i : Nat) : textOf (n'.slot? i) = textOf (n.slot? i) :=
        textOf_eq_of_rel (ha.slot? i) fun m m' hm hr => ih m (size_lt_of_slot? hm) hr
      have hchildren : n'.children.map text = n.children.map text :=
        map_eq_of_forall₂ ha.children fun m hm m' hr => ih m (size_lt_of_mem_children hm) hr
      have harguments : ((n'.slot? 1).elim [] argumentValues).map text =
          ((n.slot? 1).elim [] argumentValues).map text := by
        refine elim_rel (P := fun l l' : List Node => l'.map text = l.map text) (ha.slot? 1) rfl
          fun a a' ha hr => map_eq_of_forall₂ (argumentValues_rel h hr) fun m hm m' hr' => ?_
        exact ih m (Nat.lt_trans (size_lt_of_mem_argumentValues hm) (size_lt_of_slot? ha)) hr'
      rw [text_eq, text_eq, ha.kind_eq]
      simp only [hslot, hchildren, harguments, ← ha.kind_eq, ha.leafText_eq]

theorem line?_eq_of_rel : n'.line? = n.line?.map f := by
  induction n using size_induction generalizing n' with
  | step n ih =>
    cases h hn with
    | echoes he => exact he.line fun m m' hm hr => ih m hm hr
    | aligned ha =>
      have hline := ha.line_eq
      cases hp : n.position? with
      | some x =>
        rw [hp] at hline
        obtain ⟨x', hp', hx⟩ := Option.map_eq_some_iff.1 hline
        rw [line?_of_position hp, line?_of_position hp', hx]
        rfl
      | none =>
        rw [hp] at hline
        have hp' : n'.position? = none := Option.map_eq_none_iff.1 hline
        have hfirst : n'.children.head?.bind line? = (n.children.head?.bind line?).map f := by
          have hhead := rel_head? ha.children
          generalize hone : n.children.head? = a, n'.children.head? = a' at hhead
          cases hhead with
          | none => rfl
          | some hr => exact ih _ (size_lt_of_mem_children (List.mem_of_mem_head? hone)) hr
        have hlast : n'.children.reverse.findSome? line? =
            (n.children.reverse.findSome? line?).map f := by
          refine findSome?_eq_of_forall₂ (List.forall₂_reverse_iff.2 ha.children) ?_
          exact fun m hm m' hr => ih m (size_lt_of_mem_children (List.mem_reverse.1 hm)) hr
        have helement : n'.arrayValues.findSome? line? =
            (n.arrayValues.findSome? line?).map f :=
          findSome?_eq_of_forall₂ (arrayValues_rel h hn) fun m hm m' hr =>
            ih m (size_lt_of_mem_arrayValues hm) hr
        rw [line?_eq n hp, line?_eq n' hp', ha.kind_eq, hfirst, hlast, helement]
        split
        · cases n.arrayValues.findSome? line? <;> rfl
        · split
          · rfl
          · rfl

end Queries

section Pairs
variable (h : Mirrors f R)
include h

theorem forall₂_pairs {l l' : List Node} (hl : List.Forall₂ R l l') :
    List.Forall₂ (Aligned f R) (l.filter (·.kind == .assocNew))
      (l'.filter (·.kind == .assocNew)) := by
  induction hl with
  | nil => exact .nil
  | cons hr _ ih =>
    rw [List.filter_cons, List.filter_cons, (h hr).congr_kind (g := (· == .assocNew)) rfl]
    split
    · rename_i hpair
      exact .cons ((h hr).aligned_of_not_call (by rw [eq_of_beq hpair]; rfl)) ih
    · exact ih

theorem pairs_rel (hn : R n n') : List.Forall₂ (Aligned f R) n.pairs n'.pairs := by
  cases h hn with
  | aligned ha => exact forall₂_pairs h ha.children
  | echoes he => exact he.pairs

theorem slotPairs_rel (hn : R n n') :
    List.Forall₂ (Aligned f R) ((n.slot? 0).elim [] pairs) ((n'.slot? 0).elim [] pairs) := by
  cases h hn with
  | aligned ha => exact elim_rel (ha.slot? 0) .nil fun _ _ _ hr => pairs_rel h hr
  | echoes he => exact he.headPairs

theorem hashPairs_rel (hn : R n n') : List.Forall₂ (Aligned f R) n.hashPairs n'.hashPairs := by
  cases h hn with
  | echoes he =>
    rw [hashPairs_of_call he.call, hashPairs_of_call he.call_right]
    exact .nil
  | aligned ha =>
    rw [hashPairs_eq, hashPairs_eq, ha.kind_eq]
    split
    · exact slotPairs_rel h hn
    · have hslot := ha.slot? 0
      generalize n.slot? 0 = a, n'.slot? 0 = a' at hslot
      cases hslot with
      | none => exact .nil
      | some hr => exact slotPairs_rel h hr
    · exact .nil

theorem pairKey_eq_of_aligned (ha : Aligned f R n n') : pairKey n' = pairKey n :=
  textOf_eq_of_rel (ha.slot? 0) fun _ _ _ hr => text_eq_of_rel h hr

theorem hashKeys_eq_of_rel (hn : R n n') : n'.hashKeys = n.hashKeys :=
  map_eq_of_forall₂ (hashPairs_rel h hn) fun _ _ _ ha => pairKey_eq_of_aligned h ha

theorem hashValue?_rel (hn : R n n') (key : String) :
    Option.Rel R (n.hashValue? key) (n'.hashValue? key) := by
  have hpair : Option.Rel (Aligned f R) (n.hashPairs.find? (pairKey · == key))
      (n'.hashPairs.find? (pairKey · == key)) :=
    rel_find? (hashPairs_rel h hn) fun m m' ha => by rw [pairKey_eq_of_aligned h ha]
  exact rel_bind hpair fun m m' _ ha => ha.slot? 1

theorem hashValues_rel (hn : R n n') : List.Forall₂ (Option.Rel R) n.hashValues n'.hashValues := by
  unfold hashValues
  rw [List.forall₂_map_left_iff, List.forall₂_map_right_iff]
  exact (hashPairs_rel h hn).imp fun _ _ ha => ha.slot? 1

end Pairs

section Texts
variable (h : Mirrors f R)
include h

theorem texts_eq_of_forall₂ {l l' : List Node} (hl : List.Forall₂ R l l') :
    l'.map text = l.map text :=
  map_eq_of_forall₂ hl fun _ _ _ hr => text_eq_of_rel h hr

theorem textOf_eq {a a' : Option Node} (ha : Option.Rel R a a') : textOf a' = textOf a :=
  textOf_eq_of_rel ha fun _ _ _ hr => text_eq_of_rel h hr

theorem stringList_eq_of_rel (hn : R n n') : n'.stringList = n.stringList := by
  have hvalues := texts_eq_of_forall₂ h (arrayValues_rel h hn)
  have htext := text_eq_of_rel h hn
  cases h hn with
  | echoes he =>
    rw [stringList_of_call he.call, stringList_of_call he.call_right, htext]
  | aligned ha =>
    unfold stringList
    rw [ha.kind_eq, hvalues, htext]

end Texts

/-- The arguments of respelled calls are related. -/
theorem Respells.callArguments_rel (h : Respells f R) {Q : Node → Node → Prop}
    (hQ : ∀ {m m'}, R m m' → Q m m') (hn : R n n') :
    List.Forall₂ Q n.callArguments n'.callArguments := by
  refine Node.callArguments_rel h.mirrors hn hQ fun hr hno => ?_
  cases h hr with
  | aligned ha => exact absurd ha hno
  | parentheses _ _ hargs _ =>
    cases hargs with
    | @node m m' hargs =>
      have hvalues : List.Forall₂ Q m.argumentValues m'.argumentValues :=
        (argumentValues_rel h.mirrors hargs).imp fun _ _ => hQ
      exact hvalues
    | literal _ => exact .nil
    | absent => exact .nil

end Node
end RailsReview
