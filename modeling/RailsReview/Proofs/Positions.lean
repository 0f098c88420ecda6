import RailsReview.Proofs.Respelling
import RailsReview.Tree.OfJson
import RailsReview.Tree.Pattern

/-!
# Positions

The line and column at the end of a token say where it was written, and nothing else. When they
change, all lines by one function, the tree stays the same up to positions. Every line that is found
in it changes by that function, and all other queries answer as before.
-/
namespace RailsReview

namespace Json

/-- The line and column that end a token. -/
def tokenEnd? (tag : String) (items : List Json) : Option Position :=
  if tag.toList.head? == some '@' then items.getLast?.bind Node.positionOf? else none

/-- The items of an array; a token ends with the new line and column. -/
def moveEnd (f : Nat → Nat) (column : Nat) : List Json → List Json
  | .str tag :: rest =>
    match tokenEnd? tag rest with
    | some p => .str tag :: (rest.dropLast ++ [.arr [.int (f p.line), .int column]])
    | none => .str tag :: rest
  | items => items

mutual

/-- Moves every token to another line, by `f`, and to any column. -/
def relocate (f : Nat → Nat) (columns : List Nat → Nat) : Json → Json
  | .arr items => .arr (moveEnd f (columns []) (relocateItems f columns 0 items))
  | .obj fields => .obj (relocateFields f columns 0 fields)
  | v => v

def relocateItems (f : Nat → Nat) (columns : List Nat → Nat) (i : Nat) : List Json → List Json
  | [] => []
  | v :: rest =>
    relocate f (fun place => columns (i :: place)) v :: relocateItems f columns (i + 1) rest

def relocateFields (f : Nat → Nat) (columns : List Nat → Nat) (i : Nat) :
    List (String × Json) → List (String × Json)
  | [] => []
  | (key, v) :: rest =>
    (key, relocate f (fun place => columns (i :: place)) v) ::
      relocateFields f columns (i + 1) rest

end

example :
    let call (line column : Nat) := Json.arr
      [.str "vcall", .arr [.str "@ident", .str "title", .arr [.int line, .int column]]]
    (call 3 5).relocate (· + 1) (fun _ => 0) = call 4 0 := by
  rfl

section Relocate
variable (f : Nat → Nat) (columns : List Nat → Nat)

theorem nat?_relocate (v : Json) : (relocate f columns v).nat? = v.nat? := by
  cases v <;> rfl

/-- A tag is no line. -/
theorem positionOf?_of_tag (tag : String) (items : List Json) :
    Node.positionOf? (.arr (.str tag :: items)) = none := by
  rcases items with _ | ⟨_, _ | _⟩ <;> rfl

theorem positionOf?_relocate (v : Json) :
    Node.positionOf? (relocate f columns v) = Node.positionOf? v := by
  have untagged (columns columns' : List Nat → Nat) (v : Json) (items : List Json) :
      Node.positionOf? (.arr (relocate f columns v :: relocateItems f columns' 1 items)) =
        Node.positionOf? (.arr (v :: items)) := by
    rcases items with _ | ⟨w, _ | _⟩
    · rfl
    · simp only [relocateItems, Node.positionOf?, nat?_relocate]
    · rfl
  cases v with
  | arr items =>
    rcases items with _ | ⟨v, items⟩
    · rfl
    · cases v with
      | str tag =>
        simp only [relocate, relocateItems, moveEnd, positionOf?_of_tag]
        split
        · exact positionOf?_of_tag tag _
        · exact positionOf?_of_tag tag _
      | _ => exact untagged _ columns _ items
  | _ => rfl

theorem getLast?_relocateItems (i : Nat) (items : List Json) :
    (relocateItems f columns i items).getLast?.bind Node.positionOf? =
      items.getLast?.bind Node.positionOf? := by
  induction items generalizing i with
  | nil => rfl
  | cons v rest ih =>
    cases rest with
    | nil => exact positionOf?_relocate f _ v
    | cons w rest => exact ih (i + 1)

theorem tokenEnd?_relocateItems (tag : String) (i : Nat) (items : List Json) :
    tokenEnd? tag (relocateItems f columns i items) = tokenEnd? tag items := by
  rw [tokenEnd?, getLast?_relocateItems]
  rfl

theorem tokenEnd?_append {tag : String} {items : List Json} {p : Position}
    (h : tokenEnd? tag items = some p) (items' : List Json) (line column : Nat) :
    tokenEnd? tag (items' ++ [.arr [.int line, .int column]]) = some ⟨line, column⟩ := by
  have htag : tag.toList.head? == some '@' := by
    by_contra hother
    rw [tokenEnd?, if_neg hother] at h
    cases h
  rw [tokenEnd?, if_pos htag, List.getLast?_append]
  rfl

end Relocate

end Json

theorem Kind.tag_ofTag (tag : String) : (Kind.ofTag tag).tag = tag := by
  unfold ofTag
  cases h : known.find? (·.tag == tag) with
  | none => rfl
  | some k =>
    have hk := List.find?_some h
    exact eq_of_beq hk

namespace Node

theorem tokenPosition?_eq (tag : String) (items : List Json) :
    tokenPosition? (.ofTag tag) items = Json.tokenEnd? tag items := by
  rw [tokenPosition?, Kind.isToken, Kind.tag_ofTag]
  rfl

theorem slotsOf_eq (items : List Json) : slotsOf items = items.map slotOf := by
  induction items with
  | nil => rw [slotsOf, List.map_nil]
  | cons v rest ih => rw [slotsOf, ih, List.map_cons]

/-- Nodes that come from an array and from the same one with its tokens moved. -/
def Moved (f : Nat → Nat) (n n' : Node) : Prop :=
  ∃ items items' columns, Json.relocate f columns (.arr items) = .arr items' ∧
    ofItems items = n ∧ ofItems items' = n'

section Moved
variable {f : Nat → Nat}

theorem paired_slotOf (columns : List Nat → Nat) (v : Json) :
    (slotOf v).Paired (Moved f) (slotOf (v.relocate f columns)) := by
  cases v with
  | arr items =>
    simp only [Json.relocate, slotOf]
    exact .node ⟨items, _, columns, rfl, rfl, rfl⟩
  | null =>
    simp only [Json.relocate, slotOf]
    exact .absent
  | obj fields =>
    simp only [Json.relocate, slotOf]
    exact .absent
  | int i =>
    simp only [Json.relocate, slotOf]
    split
    · exact .literal _
    · exact .literal _
  | _ =>
    simp only [Json.relocate, slotOf]
    exact .literal _

theorem paired_slots (columns : List Nat → Nat) (i : Nat) (items : List Json) :
    List.Forall₂ (Slot.Paired (Moved f)) (items.map slotOf)
      ((Json.relocateItems f columns i items).map slotOf) := by
  induction items generalizing i with
  | nil => exact .nil
  | cons v rest ih => exact .cons (paired_slotOf _ v) (ih (i + 1))

theorem forall₂_dropLast {S : Slot → Slot → Prop} {l l' : List Slot} (h : List.Forall₂ S l l') :
    List.Forall₂ S l.dropLast l'.dropLast := by
  rw [List.dropLast_eq_take, List.dropLast_eq_take, h.length_eq]
  exact List.forall₂_take _ h

theorem ofItems_of_tag (tag : String) (items : List Json) :
    ofItems (.str tag :: items) =
      assemble (.ofTag tag) (Json.tokenEnd? tag items) (items.map slotOf) := by
  rw [ofItems, tokenPosition?_eq, slotsOf_eq]

theorem Moved.aligned {n n' : Node} (h : Moved f n n') : Aligned f (Moved f) n n' := by
  obtain ⟨items, items', columns, hitems, rfl, rfl⟩ := h
  obtain rfl := Json.arr.inj hitems
  have hslots := paired_slots (f := f) columns 0 items
  rcases items with _ | ⟨v, rest⟩
  · simp only [Json.relocateItems, Json.moveEnd, ofItems, slotsOf_eq]
    exact .mk .nil rfl
  · cases v with
    | str tag =>
      have hrest := paired_slots (f := f) columns 1 rest
      have hend := Json.tokenEnd?_relocateItems f columns tag 1 rest
      simp only [Json.relocateItems, Json.relocate, Json.moveEnd, hend]
      cases hp : Json.tokenEnd? tag rest with
      | none =>
        simp only [ofItems_of_tag, hend, hp, assemble]
        exact .mk hrest rfl
      | some p =>
        have hdropped := forall₂_dropLast hrest
        rw [← List.map_dropLast (l := Json.relocateItems f columns 1 rest)] at hdropped
        simp only [ofItems_of_tag, hp, Json.tokenEnd?_append hp, assemble, List.map_append,
          List.map_cons, List.map_nil, List.dropLast_concat]
        exact .mk hdropped rfl
    | _ =>
      simp only [Json.relocateItems, Json.relocate, Json.moveEnd, ofItems, slotsOf_eq]
      exact .mk hslots rfl

end Moved

/-- Related nodes are of one kind, with related parts. -/
def Aligns (f : Nat → Nat) (R : Node → Node → Prop) : Prop :=
  ∀ {n n' : Node}, R n n' → Aligned f R n n'

section Aligns
variable {f : Nat → Nat} {R : Node → Node → Prop} {n n' : Node} (h : Aligns f R) (hn : R n n')
include h hn

theorem strip_eq_of_rel : n'.strip = n.strip := by
  induction n using size_induction generalizing n' with
  | step n ih =>
    obtain ⟨k, slots, p, own⟩ := n
    cases h hn with
    | mk hslots _ =>
      have hstripped {l l' : List Slot} (hl : List.Forall₂ (Slot.Paired R) l l')
          (hsub : l ⊆ slots) : stripSlots l' = stripSlots l := by
        induction hl with
        | nil => rfl
        | cons hs _ ihl =>
          obtain ⟨hmem, hrest⟩ := List.cons_subset.1 hsub
          cases hs with
          | node hr =>
            rw [stripSlots, stripSlots, ihl hrest, ih _ (size_lt_of_mem_slots (n := mk ..) hmem) hr]
          | literal l => rw [stripSlots, stripSlots, ihl hrest]
          | absent => rw [stripSlots, stripSlots, ihl hrest]
      rw [strip, strip, hstripped hslots (List.Subset.refl _)]

theorem operator?_eq_of_rel : n'.operator? = n.operator? := by
  have ha := h hn
  have hoperator (i : Nat) : operatorIn? n'.slots i = operatorIn? n.slots i := by
    have hslot := rel_getElem? ha.slots i
    unfold operatorIn?
    generalize n.slots[i]? = s, n'.slots[i]? = s' at hslot
    cases hslot with
    | none => rfl
    | some hs =>
      cases hs with
      | node hr => exact (h hr).tokenText?_eq
      | literal _ => rfl
      | absent => rfl
  rw [operator?, operator?, ha.kind_eq, hoperator, hoperator]

theorem allConditions_rel :
    List.Forall₂ (Option.Rel R) n.allConditions n'.allConditions := by
  induction n using size_induction generalizing n' with
  | step n ih =>
    have ha := h hn
    have hjoin : n'.isCombinator = n.isCombinator := by
      rw [isCombinator, isCombinator, operator?_eq_of_rel h hn, ha.kind_eq]
    have hoperand (i : Nat) : List.Forall₂ (Option.Rel R)
        ((n.slot? i).elim [none] allConditions) ((n'.slot? i).elim [none] allConditions) :=
      elim_rel (ha.slot? i) (.cons .none .nil) fun m m' hm hr => ih m (size_lt_of_slot? hm) hr
    rw [allConditions_eq, allConditions_eq, hjoin]
    split
    · exact List.rel_append (hoperand 0) (hoperand 2)
    · exact .cons (.some hn) .nil

theorem statements_rel : List.Forall₂ R n.statements n'.statements := by
  induction n using size_induction generalizing n' with
  | step n ih =>
    have ha := h hn
    have hnonVoid {l l' : List Node} (hl : List.Forall₂ R l l') :
        List.Forall₂ R (nonVoid l) (nonVoid l') :=
      forall₂_filter hl fun m m' hr => by rw [(h hr).kind_eq]
    have hfirst : List.Forall₂ R ((n.slot? 0).elim [] children) ((n'.slot? 0).elim [] children) :=
      elim_rel (ha.slot? 0) .nil fun m m' _ hr => (h hr).children
    have hbody : List.Forall₂ R (n.body?.elim [] statements) (n'.body?.elim [] statements) := by
      unfold body?
      rw [ha.kind_eq]
      cases bodyPlace? n.kind with
      | none => exact .nil
      | some i => exact elim_rel (ha.slot? i) .nil fun m m' hm hr => ih m (size_lt_of_slot? hm) hr
    rw [statements_eq, statements_eq, ha.kind_eq]
    split
    · exact hnonVoid hfirst
    · exact hnonVoid hfirst
    · exact hnonVoid ha.children
    · split
      · exact hbody
      · exact .nil

theorem matchesNode_eq_of_rel (p : NodePattern) : p.matchesNode n' = p.matchesNode n := by
  have hmirrors : Mirrors f R := fun hr => .aligned (h hr)
  have hsubject := textOf_eq hmirrors (subject?_rel hmirrors hn)
  have hmessage := textOf_eq hmirrors (message?_rel hmirrors hn)
  have htext := text_eq_of_rel hmirrors hn
  simp only [NodePattern.matchesNode, (h hn).kind_eq, hsubject, hmessage, htext]

end Aligns

/-- The node at a place: the slots that lead to it, from the root on. -/
def at? (root : Node) (place : List Nat) : Option Node := place.foldlM slot? root

theorem at?_cons (n : Node) (i : Nat) (place : List Nat) :
    n.at? (i :: place) = (n.slot? i).bind (·.at? place) := List.foldlM_cons

/-- Nodes at the same place of two trees. -/
def Corresponds (root root' n n' : Node) : Prop :=
  ∃ place, root.at? place = some n ∧ root'.at? place = some n'

/-- What the queries answer at two nodes when `f` moves lines. -/
structure ReadsAlike (f : Nat → Nat) (R : Node → Node → Prop) (n n' : Node) : Prop where
  line : n'.line? = n.line?.map f
  text : n'.text = n.text
  operator : n'.operator? = n.operator?
  hashKeys : n'.hashKeys = n.hashKeys
  stringList : n'.stringList = n.stringList
  statements : List.Forall₂ R n.statements n'.statements
  callArguments : List.Forall₂ R n.callArguments n'.callArguments
  conditions : List.Forall₂ (Option.Rel R) n.allConditions n'.allConditions
  patterns : ∀ p : NodePattern, p.matchesNode n' = p.matchesNode n

theorem Aligns.readsAlike {f : Nat → Nat} {R : Node → Node → Prop} (h : Aligns f R) {n n' : Node}
    (hn : R n n') : ReadsAlike f R n n' := by
  have hmirrors : Mirrors f R := fun hr => .aligned (h hr)
  exact {
    line := line?_eq_of_rel hmirrors hn
    text := text_eq_of_rel hmirrors hn
    operator := operator?_eq_of_rel h hn
    hashKeys := hashKeys_eq_of_rel hmirrors hn
    stringList := stringList_eq_of_rel hmirrors hn
    statements := statements_rel h hn
    callArguments := callArguments_rel hmirrors hn id fun hr hno => absurd (h hr) hno
    conditions := allConditions_rel h hn
    patterns := matchesNode_eq_of_rel h hn }

theorem at?_rel {f : Nat → Nat} {R : Node → Node → Prop} (h : Aligns f R) {root root' : Node}
    (hroot : R root root') (place : List Nat) :
    Option.Rel R (root.at? place) (root'.at? place) := by
  induction place generalizing root root' with
  | nil => exact .some hroot
  | cons i place ih =>
    have hslot := (h hroot).slot? i
    simp only [at?, List.foldlM_cons]
    exact rel_bind hslot fun m m' _ hr => ih hr

theorem at?_concat {root n : Node} {place : List Nat} (h : root.at? place = some n) (i : Nat) :
    root.at? (place ++ [i]) = n.slot? i := by
  have hplace : place.foldlM slot? root = some n := h
  rw [at?, List.foldlM_append, hplace]
  exact bind_pure (n.slot? i)

/-- The parts of corresponding nodes correspond, if they are paired at all. -/
theorem Corresponds.aligned {f : Nat → Nat} {R : Node → Node → Prop} {root root' n n' : Node}
    (hn : Corresponds root root' n n') (ha : Aligned f R n n') :
    Aligned f (Corresponds root root') n n' := by
  obtain ⟨place, hplace, hplace'⟩ := hn
  cases ha with
  | @mk k slots slots' p p' own hslots hline =>
    refine .mk (List.forall₂_iff_get.2 ⟨hslots.length_eq, fun i hi hi' => ?_⟩) hline
    have hpair := (List.forall₂_iff_get.1 hslots).2 i hi hi'
    have hget : slots[i]? = some (slots.get ⟨i, hi⟩) := List.getElem?_eq_getElem hi
    have hget' : slots'[i]? = some (slots'.get ⟨i, hi'⟩) := List.getElem?_eq_getElem hi'
    generalize slots.get ⟨i, hi⟩ = s, slots'.get ⟨i, hi'⟩ = s' at hpair hget hget'
    cases hpair with
    | literal l => exact .literal l
    | absent => exact .absent
    | node _ =>
      refine .node ⟨place ++ [i], ?_, ?_⟩
      · rw [at?_concat hplace]
        exact congrArg (·.bind Slot.node?) hget
      · rw [at?_concat hplace']
        exact congrArg (·.bind Slot.node?) hget'

theorem corresponds_aligns {f : Nat → Nat} {R : Node → Node → Prop} (h : Aligns f R)
    {root root' : Node} (hroot : R root root') : Aligns f (Corresponds root root') := by
  rintro n n' ⟨place, hplace, hplace'⟩
  have hrel := at?_rel h hroot place
  rw [hplace, hplace'] at hrel
  cases hrel with
  | some hr => exact Corresponds.aligned ⟨place, hplace, hplace'⟩ (h hr)

mutual

theorem strip_strip : ∀ n : Node, n.strip.strip = n.strip
  | .mk k slots p own => by rw [strip, strip, stripSlots_stripSlots]

theorem stripSlots_stripSlots :
    ∀ slots : List Slot, stripSlots (stripSlots slots) = stripSlots slots
  | [] => rfl
  | .node n :: rest => by
    rw [stripSlots, stripSlots, strip_strip, stripSlots_stripSlots]
  | .literal l :: rest => by rw [stripSlots, stripSlots, stripSlots_stripSlots]
  | .absent :: rest => by rw [stripSlots, stripSlots, stripSlots_stripSlots]

end

/-- Where the tokens of a tree stand decides the lines in it, and nothing but the lines. -/
theorem layout_independent (f : Nat → Nat) (columns : List Nat → Nat) (items : List Json) :
    (∃ root root', ofJson (.arr items) = .ok root ∧
      ofJson ((Json.arr items).relocate f columns) = .ok root' ∧ root'.strip = root.strip ∧
      ∀ place, Option.Rel (ReadsAlike f (Corresponds root root'))
        (root.at? place) (root'.at? place)) ∧
    ∀ n : Node, n.strip.strip = n.strip := by
  refine ⟨⟨ofItems items, _, rfl, rfl, ?_⟩, strip_strip⟩
  generalize hroot' : ofItems _ = root'
  have hmoved : Moved f (ofItems items) root' := ⟨items, _, columns, rfl, rfl, hroot'⟩
  have haligns : Aligns f (Moved f) := Moved.aligned
  have hcorresponds : Aligns f (Corresponds (ofItems items) root') :=
    corresponds_aligns haligns hmoved
  refine ⟨strip_eq_of_rel haligns hmoved, fun place => ?_⟩
  have hrel := at?_rel haligns hmoved place
  generalize hn : (ofItems items).at? place = a, hn' : root'.at? place = a' at hrel
  cases hrel with
  | none => exact .none
  | some _ => exact .some (hcorresponds.readsAlike ⟨place, hn, hn'⟩)

end Node
end RailsReview
