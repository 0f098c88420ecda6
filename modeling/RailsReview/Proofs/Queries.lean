import RailsReview.Tree.Condition
import RailsReview.Tree.Line
import RailsReview.Tree.Pattern
import RailsReview.Tree.Size
import RailsReview.Tree.Text

/-!
# Queries, kind by kind

A query that recurses on a tree does so by way of the node's slots. Here each of them is given by
the kind of the node and by the answers of other queries, whatever the slots look like.
-/
namespace RailsReview.Node

section Slots
variable (slots : List Slot)

/-- What is found by going along the slots up to a place is what the place holds. -/
theorem elim_nodeAt {α : Type} {g : List Slot → Nat → α} {d : α} {q : Node → α}
    (hnil : ∀ i, g [] i = d) (hzero : ∀ s rest, g (s :: rest) 0 = s.node?.elim d q)
    (hsucc : ∀ s rest i, g (s :: rest) (i + 1) = g rest i) (i : Nat) :
    g slots i = (nodeAt slots i).elim d q := by
  induction slots generalizing i with
  | nil => exact hnil i
  | cons s slots ih =>
    cases i with
    | zero => exact hzero s slots
    | succ i => exact (hsucc s slots i).trans (ih i)

theorem textAt_eq (i : Nat) : textAt slots i = textOf (nodeAt slots i) :=
  elim_nodeAt slots (fun _ => rfl) (fun s _ => by cases s <;> rfl)
    (fun s _ _ => by cases s <;> rfl) i

theorem texts_eq : texts slots = (slots.filterMap Slot.node?).map text := by
  induction slots with
  | nil => rfl
  | cons s slots ih =>
    cases s with
    | node n => exact congrArg (n.text :: ·) ih
    | literal _ => exact ih
    | absent => exact ih

theorem firstChildLine?_eq :
    firstChildLine? slots = (slots.filterMap Slot.node?).head?.bind line? := by
  induction slots with
  | nil => rfl
  | cons s slots ih =>
    cases s with
    | node n => rfl
    | literal _ => exact ih
    | absent => exact ih

theorem lastLine?_eq :
    lastLine? slots = (slots.filterMap Slot.node?).reverse.findSome? line? := by
  induction slots with
  | nil => rfl
  | cons s slots ih =>
    cases s with
    | node n =>
      have hcons : (Slot.node n :: slots).filterMap Slot.node? =
          n :: slots.filterMap Slot.node? := rfl
      rw [hcons, List.reverse_cons, List.findSome?_append, ← ih, lastLine?]
      cases lastLine? slots <;> simp
    | literal _ => exact ih
    | absent => exact ih

theorem someLine?_eq : someLine? slots = (slots.filterMap Slot.node?).findSome? line? := by
  induction slots with
  | nil => rfl
  | cons s slots ih =>
    cases s with
    | node n => cases h : n.line? <;> simp [someLine?, Slot.node?, h, ih]
    | literal _ => exact ih
    | absent => exact ih

theorem laterLine?_eq :
    laterLine? slots = ((slots.filterMap Slot.node?).drop 1).findSome? line? := by
  induction slots with
  | nil => rfl
  | cons s slots ih =>
    cases s with
    | node n => exact someLine?_eq slots
    | literal _ => exact ih
    | absent => exact ih

theorem statementsAt_eq (i : Nat) :
    statementsAt slots i = (nodeAt slots i).elim [] statements :=
  elim_nodeAt slots (fun _ => rfl) (fun s _ => by cases s <;> rfl)
    (fun s _ _ => by cases s <;> rfl) i

theorem conditionsAt_eq (i : Nat) :
    conditionsAt slots i = (nodeAt slots i).elim [none] allConditions :=
  elim_nodeAt slots (fun _ => rfl) (fun s _ => by cases s <;> rfl)
    (fun s _ _ => by cases s <;> rfl) i

end Slots

theorem subject?_eq (n : Node) : n.subject? =
    match n.kind with
    | .methodAddArg | .methodAddBlock => (n.slot? 0).bind subject?
    | .assign | .field | .call | .binary | .commandCall => n.slot? 0
    | _ => none := by
  obtain ⟨k, slots, p, own⟩ := n
  rcases slots with _ | ⟨s, rest⟩
  · cases k <;> rfl
  · cases s <;> cases k <;> rfl

theorem message?_eq (n : Node) : n.message? =
    match n.kind with
    | .methodAddArg | .methodAddBlock => (n.slot? 0).bind message?
    | .command | .functionCall => n.slot? 0
    | .binary => n.slot? 1
    | .call | .commandCall | .field => n.slot? 2
    | _ => none := by
  obtain ⟨k, slots, p, own⟩ := n
  rcases slots with _ | ⟨s, rest⟩
  · cases k <;> rfl
  · cases s <;> cases k <;> rfl

theorem argumentValues_eq (n : Node) : n.argumentValues =
    match n.kind with
    | .argsAddBlock | .argParen => (n.slot? 0).elim [] argumentValues
    | .list => n.children
    | .argsAddStar => (n.slot? 0).elim [] argumentValues ++ n.children.drop 1
    | .array => (n.slot? 0).elim [] fun a => if holdsElements a.kind then a.argumentValues else []
    | _ => [] := by
  obtain ⟨k, slots, p, own⟩ := n
  rcases slots with _ | ⟨s, rest⟩
  · cases k <;> rfl
  · cases s <;> cases k <;> rfl

theorem callArguments_eq (n : Node) : n.callArguments =
    match n.kind with
    | .methodAddBlock => (n.slot? 0).elim [] callArguments
    | .array => n.argumentValues
    | .command | .methodAddArg => (n.slot? 1).elim [] argumentValues
    | .commandCall => (n.slot? 3).elim [] argumentValues
    | .argParen => (n.slot? 0).elim [] argumentValues
    | _ => [] := by
  obtain ⟨k, slots, p, own⟩ := n
  rcases slots with _ | ⟨s, rest⟩
  · cases k <;> rfl
  · cases s <;> cases k <;> rfl

theorem argumentTexts_eq (n : Node) : n.argumentTexts = n.argumentValues.map text := by
  fun_induction argumentValues n with
  | case1 a rest p f ih => exact ih
  | case2 a rest p f ih => exact ih
  | case3 slots p f => exact texts_eq slots
  | case4 a rest p f ih => rw [argumentTexts, ih, texts_eq, List.map_append]
  | case5 s rest p f hs => rw [argumentTexts, texts_eq, List.map_drop]; exact hs
  | case6 a rest p f h ih => rw [argumentTexts, if_pos h, ih]
  | case7 a rest p f h => rw [argumentTexts, if_neg h]; rfl
  | case8 => simp_all [argumentTexts]

theorem argumentsLine?_eq (n : Node) : n.argumentsLine? = n.argumentValues.findSome? line? := by
  fun_induction argumentValues n with
  | case1 a rest p f ih => exact ih
  | case2 a rest p f ih => exact ih
  | case3 slots p f => exact someLine?_eq slots
  | case4 a rest p f ih =>
    rw [argumentsLine?, ih, someLine?_eq, List.findSome?_append]
    cases List.findSome? line? a.argumentValues <;> rfl
  | case5 s rest p f hs => rw [argumentsLine?, laterLine?_eq]; exact hs
  | case6 a rest p f h ih => rw [argumentsLine?, if_pos h, ih]
  | case7 a rest p f h => rw [argumentsLine?, if_neg h]; rfl
  | case8 => simp_all [argumentsLine?]

theorem argumentTextsAt_eq (slots : List Slot) (i : Nat) :
    argumentTextsAt slots i = ((nodeAt slots i).elim [] argumentValues).map text := by
  have hplace : argumentTextsAt slots i = (nodeAt slots i).elim [] argumentTexts :=
    elim_nodeAt slots (fun _ => rfl) (fun s _ => by cases s <;> rfl)
      (fun s _ _ => by cases s <;> rfl) i
  rw [hplace]
  cases nodeAt slots i with
  | none => rfl
  | some n => exact n.argumentTexts_eq

theorem elementsLine?_eq (slots : List Slot) :
    elementsLine? slots =
      ((nodeAt slots 0).elim [] fun a =>
        if holdsElements a.kind then a.argumentValues else []).findSome? line? := by
  rcases slots with _ | ⟨s, rest⟩
  · rfl
  · cases s with
    | node a =>
      change (if holdsElements a.kind then a.argumentsLine? else none) =
        (if holdsElements a.kind then a.argumentValues else []).findSome? line?
      rw [argumentsLine?_eq]
      split
      · rfl
      · rfl
    | literal _ => rfl
    | absent => rfl

theorem line?_of_position {n : Node} {x : Position} (h : n.position? = some x) :
    n.line? = some x.line := by
  obtain ⟨k, slots, p, own⟩ := n
  obtain rfl : p = some x := h
  rfl

/-- The line of a node without a position of its own. -/
theorem line?_eq (n : Node) (h : n.position? = none) : n.line? =
    match n.kind with
    | .array => (n.arrayValues.findSome? line?).or (n.children.head?.bind line?)
    | k =>
      if beginsAtFirstChild k then n.children.head?.bind line?
      else n.children.reverse.findSome? line? := by
  obtain ⟨k, slots, p, own⟩ := n
  obtain rfl : p = none := h
  simp only [line?, elementsLine?_eq, firstChildLine?_eq, lastLine?_eq]
  cases k
  case array =>
    have hvalues : (mk .array slots none own).arrayValues = (nodeAt slots 0).elim [] fun a =>
        if holdsElements a.kind then a.argumentValues else [] := argumentValues_eq _
    rw [hvalues]
    generalize List.findSome? line? _ = first?
    cases first? <;> rfl
  all_goals rfl

theorem text_eq (n : Node) : n.text =
    if n.kind.isToken then leafText n.kind n.slots
    else match n.kind with
      | .stringContent | .word => String.join (n.children.map text)
      | .stringLiteral | .shellLiteral | .symbolLiteral | .symbol | .dynamicSymbol | .constRef
      | .varRef | .variableCall | .varField => textOf (n.slot? 0)
      | .topConstRef => "::" ++ textOf (n.slot? 0)
      | .constPathRef => textOf (n.slot? 0) ++ "::" ++ textOf (n.slot? 1)
      | .index =>
        textOf (n.slot? 0) ++ "[" ++
          (((n.slot? 1).elim [] argumentValues).map text).headD "" ++ "]"
      | .call | .field => textOf (n.slot? 0) ++ "." ++ textOf (n.slot? 2)
      | _ => "" := by
  obtain ⟨k, slots, p, own⟩ := n
  simp only [text, textAt_eq, texts_eq, argumentTextsAt_eq]
  rfl

/-- The pairs among the children of a node. -/
def pairs (n : Node) : List Node := n.children.filter (·.kind == .assocNew)

theorem hashPairs_eq (n : Node) : n.hashPairs =
    match n.kind with
    | .bareAssocHash => (n.slot? 0).elim [] pairs
    | .hash => ((n.slot? 0).bind (·.slot? 0)).elim [] pairs
    | _ => [] := by
  have hfilter (holder : Option Node) :
      (holder.elim [] children).filter (·.kind == .assocNew) = holder.elim [] pairs := by
    cases holder <;> rfl
  obtain ⟨k, slots, p, own⟩ := n
  rw [hashPairs, hfilter]
  cases k <;> rfl

theorem statements_eq (n : Node) : n.statements =
    match n.kind with
    | .program | .bodyStatement => nonVoid ((n.slot? 0).elim [] children)
    | .list => nonVoid n.children
    | k => if hasStatementBody k then n.body?.elim [] statements else [] := by
  obtain ⟨k, slots, p, own⟩ := n
  simp only [statements, statementsAt_eq]
  cases k <;> rfl

theorem allConditions_eq (n : Node) : n.allConditions =
    if n.isCombinator then
      (n.slot? 0).elim [none] allConditions ++ (n.slot? 2).elim [none] allConditions
    else [some n] := by
  obtain ⟨k, slots, p, own⟩ := n
  simp only [allConditions, conditionsAt_eq]
  rfl

end RailsReview.Node
