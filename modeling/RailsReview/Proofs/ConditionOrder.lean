import RailsReview.Proofs.Positions

/-!
# The order of conditions

The operands of a node that joins two conditions may join conditions themselves, on either side and
to any depth. Flattened, the node is made of the operands at which this ends, each of them once and
in the order of the source, and there is one more of them than there are joins.
-/
namespace RailsReview.Node

/-- The node is a binary expression whose operator, a literal or a token, is a boolean one. -/
def Joins (n : Node) : Prop :=
  n.kind = .binary ∧ ∃ op ∈ ["&&", "||", "and", "or"],
    n.literal? 1 = some (.str op) ∨ ∃ token, n.slot? 1 = some token ∧ token.tokenText? = some op

/-- The place of a join that is reached from a node by way of operands that are joins. -/
inductive JoinAt : Node → List Nat → Prop
  | self {n : Node} : n.Joins → JoinAt n []
  | operand {n m : Node} {i : Nat} {place : List Nat} : n.Joins → i = 0 ∨ i = 2 →
      n.slot? i = some m → JoinAt m place → JoinAt n (i :: place)

theorem operatorIn?_eq_some_iff {slots : List Slot} {i : Nat} {op : String} :
    operatorIn? slots i = some op ↔ slots[i]?.bind Slot.literal? = some (.str op) ∨
      ∃ token, nodeAt slots i = some token ∧ token.tokenText? = some op := by
  unfold operatorIn? nodeAt
  rcases slots[i]? with _ | s
  · simp
  · cases s with
    | node n => simp [Slot.literal?, Slot.node?]
    | literal l => cases l <;> simp [Slot.literal?, Slot.node?]
    | absent => simp [Slot.literal?, Slot.node?]

theorem isBooleanOperator_iff {op : String} :
    isBooleanOperator op ↔ op ∈ ["&&", "||", "and", "or"] := by
  simp [isBooleanOperator, or_assoc]

theorem isCombinator_iff {n : Node} : n.isCombinator ↔ n.Joins := by
  rw [isCombinator, Bool.and_eq_true, beq_iff_eq]
  refine and_congr_right fun hkind => ?_
  have hoperator (op : String) : n.operator? = some op ↔ n.literal? 1 = some (.str op) ∨
      ∃ token, n.slot? 1 = some token ∧ token.tokenText? = some op := by
    rw [operator?, hkind]
    exact operatorIn?_eq_some_iff
  simp only [Option.any_eq_true, isBooleanOperator_iff, hoperator, and_comm]

instance (n : Node) : Decidable n.Joins := decidable_of_iff _ isCombinator_iff

theorem allConditions_of_not_joins {n : Node} (h : ¬ n.Joins) : n.allConditions = [some n] := by
  rw [allConditions_eq, if_neg (isCombinator_iff.not.2 h)]

theorem allConditions_of_joins {n : Node} (h : n.Joins) : n.allConditions =
    (n.slot? 0).elim [none] allConditions ++ (n.slot? 2).elim [none] allConditions := by
  rw [allConditions_eq, if_pos (isCombinator_iff.2 h)]

theorem JoinAt.joins {n : Node} {place : List Nat} (h : n.JoinAt place) : n.Joins := by
  cases h <;> assumption

theorem joinAt_nil {n : Node} : n.JoinAt [] ↔ n.Joins :=
  ⟨JoinAt.joins, .self⟩

theorem joinAt_cons {n : Node} {i : Nat} {place : List Nat} : n.JoinAt (i :: place) ↔
    n.Joins ∧ (i = 0 ∨ i = 2) ∧ ∃ m ∈ n.slot? i, m.JoinAt place := by
  constructor
  · rintro (_ | ⟨hn, hi, hm, h⟩)
    exact ⟨hn, hi, _, hm, h⟩
  · rintro ⟨hn, hi, m, hm, h⟩
    exact .operand hn hi hm h

/-- The place of an operand of a join that is reached, or of the node at the start, if there is one
at all. -/
def OperandAt (n? : Option Node) (place : List Nat) : Prop :=
  place = [] ∨ ∃ n ∈ n?, ∃ outer i, n.JoinAt outer ∧ (i = 0 ∨ i = 2) ∧ place = outer ++ [i]

theorem operandAt_cons {n : Node} {i : Nat} {place : List Nat} : OperandAt (some n) (i :: place) ↔
    n.Joins ∧ (i = 0 ∨ i = 2) ∧ OperandAt (n.slot? i) place := by
  constructor
  · rintro (h | ⟨_, ⟨⟩, outer, j, hjoin, hj, hplace⟩)
    · cases h
    · rcases outer with _ | ⟨k, outer⟩
      · obtain ⟨rfl, rfl⟩ := List.cons.inj hplace
        exact ⟨joinAt_nil.1 hjoin, hj, .inl rfl⟩
      · obtain ⟨rfl, rfl⟩ := List.cons.inj hplace
        obtain ⟨hn, hi, m, hm, hinner⟩ := joinAt_cons.1 hjoin
        exact ⟨hn, hi, .inr ⟨m, hm, outer, j, hinner, hj, rfl⟩⟩
  · rintro ⟨hn, hi, rfl | ⟨m, hm, outer, j, hinner, hj, rfl⟩⟩
    · exact .inr ⟨n, rfl, [], i, .self hn, hi, rfl⟩
    · exact .inr ⟨n, rfl, i :: outer, j, .operand hn hi hm hinner, hj, rfl⟩

/-- The first place comes before the second one, and the second one is not in it. -/
def LeftOf (place later : List Nat) : Prop := place < later ∧ ¬ place <+: later

theorem LeftOf.cons {place later : List Nat} (h : LeftOf place later) (i : Nat) :
    LeftOf (i :: place) (i :: later) :=
  ⟨.cons h.1, fun hprefix => h.2 (List.cons_prefix_cons.1 hprefix).2⟩

theorem leftOf_of_lt {i j : Nat} (h : i < j) (place later : List Nat) :
    LeftOf (i :: place) (j :: later) :=
  ⟨.rel h, fun hprefix => Nat.ne_of_lt h (List.cons_prefix_cons.1 hprefix).1⟩

/-- The joins that are reached from a node, if there is one, and the places at which its conditions
are found. -/
structure Flattened (n? : Option Node) (joins conditions : List (List Nat)) : Prop where
  joins_sorted : joins.Pairwise (· < ·)
  mem_joins : ∀ place, place ∈ joins ↔ ∃ n ∈ n?, n.JoinAt place
  conditions_sorted : conditions.Pairwise LeftOf
  mem_conditions : ∀ place, place ∈ conditions ↔
    OperandAt n? place ∧ ∀ m ∈ n?.bind (·.at? place), ¬ m.Joins
  nodes : n?.elim [none] allConditions = conditions.map fun place => n?.bind (·.at? place)
  length_conditions : conditions.length = joins.length + 1

section Operands
variable {places : Nat → List (List Nat)}

/-- The places in the left operand and then those in the right one. -/
def inOperands (places : Nat → List (List Nat)) : List (List Nat) :=
  (places 0).map (0 :: ·) ++ (places 2).map (2 :: ·)

theorem nil_notMem_inOperands : [] ∉ inOperands places := by
  simp [inOperands]

theorem cons_mem_inOperands {i : Nat} {place : List Nat} :
    i :: place ∈ inOperands places ↔ (i = 0 ∨ i = 2) ∧ place ∈ places i := by
  have hoperand (k : Nat) : i :: place ∈ (places k).map (k :: ·) ↔ i = k ∧ place ∈ places i := by
    rw [List.mem_map]
    constructor
    · rintro ⟨_, h, ⟨⟩⟩
      exact ⟨rfl, h⟩
    · rintro ⟨rfl, h⟩
      exact ⟨place, h, rfl⟩
  rw [inOperands, List.mem_append, hoperand, hoperand, or_and_right]

/-- An order that looks at the first slot first is kept when operands are put side by side. -/
theorem pairwise_inOperands {r : List Nat → List Nat → Prop}
    (hcons : ∀ {place later}, r place later → ∀ i : Nat, r (i :: place) (i :: later))
    (happart : ∀ place later, r (0 :: place) (2 :: later)) (h : ∀ i, (places i).Pairwise r) :
    (inOperands places).Pairwise r := by
  rw [inOperands, List.pairwise_append, List.pairwise_map, List.pairwise_map]
  refine ⟨(h 0).imp fun hr => hcons hr 0, (h 2).imp fun hr => hcons hr 2,
    fun place hplace later hlater => ?_⟩
  obtain ⟨inner, -, rfl⟩ := List.mem_map.1 hplace
  obtain ⟨inner', -, rfl⟩ := List.mem_map.1 hlater
  exact happart inner inner'

theorem length_inOperands :
    (inOperands places).length = (places 0).length + (places 2).length := by
  simp [inOperands]

theorem map_at?_inOperands (n : Node) : (inOperands places).map n.at? =
    ((places 0).map fun place => (n.slot? 0).bind (·.at? place)) ++
      (places 2).map fun place => (n.slot? 2).bind (·.at? place) := by
  simp only [inOperands, List.map_append, List.map_map, Function.comp_def, at?_cons]

end Operands

/-- Where nothing is joined, what there is is the only condition. -/
theorem Flattened.single {n? : Option Node} (h : ∀ n ∈ n?, ¬ n.Joins) : Flattened n? [] [[]] where
  joins_sorted := .nil
  mem_joins place := by
    refine iff_of_false List.not_mem_nil ?_
    rintro ⟨n, hn, hplace⟩
    exact h n hn hplace.joins
  conditions_sorted := List.pairwise_singleton ..
  mem_conditions place := by
    rw [List.mem_singleton]
    constructor
    · rintro rfl
      refine ⟨.inl rfl, fun m hm => h m ?_⟩
      obtain ⟨n, hn, hm⟩ := Option.bind_eq_some_iff.1 hm
      exact hn.trans hm
    · rintro ⟨rfl | ⟨n, hn, _, _, hjoin, -⟩, -⟩
      · rfl
      · exact absurd hjoin.joins (h n hn)
  nodes := by
    cases n? with
    | none => rfl
    | some n => rw [Option.elim_some, allConditions_of_not_joins (h n rfl)]; rfl
  length_conditions := rfl

/-- The conditions of a join are those of its left operand, followed by those of the right one. -/
theorem Flattened.join {n : Node} (hn : n.Joins) {joins conditions : Nat → List (List Nat)}
    (h : ∀ i, Flattened (n.slot? i) (joins i) (conditions i)) :
    Flattened (some n) ([] :: inOperands joins) (inOperands conditions) where
  joins_sorted := by
    refine List.pairwise_cons.2 ⟨fun place hplace => ?_,
      pairwise_inOperands (fun hlt _ => .cons hlt) (fun _ _ => .rel (by decide))
        fun i => (h i).joins_sorted⟩
    cases place with
    | nil => exact absurd hplace nil_notMem_inOperands
    | cons i inner => exact .nil
  mem_joins place := by
    simp only [Option.mem_some_iff, exists_eq_left', List.mem_cons]
    cases place with
    | nil => exact iff_of_true (.inl rfl) (.self hn)
    | cons i inner =>
      rw [or_iff_right (List.cons_ne_nil i inner), cons_mem_inOperands, joinAt_cons,
        (h i).mem_joins, and_iff_right hn]
  conditions_sorted :=
    pairwise_inOperands LeftOf.cons (leftOf_of_lt (by decide)) fun i => (h i).conditions_sorted
  mem_conditions place := by
    cases place with
    | nil => exact iff_of_false nil_notMem_inOperands fun hnone => hnone.2 n rfl hn
    | cons i inner =>
      rw [cons_mem_inOperands, operandAt_cons, (h i).mem_conditions, and_iff_right hn, and_assoc,
        Option.bind_some, at?_cons]
  nodes := by
    rw [Option.elim_some, allConditions_of_joins hn, (h 0).nodes, (h 2).nodes]
    exact (map_at?_inOperands n).symm
  length_conditions := by
    rw [List.length_cons, length_inOperands, length_inOperands, (h 0).length_conditions,
      (h 2).length_conditions]
    omega

theorem exists_flattened (n : Node) : ∃ joins conditions, Flattened (some n) joins conditions := by
  induction n using size_induction with
  | step n ih =>
    by_cases hn : n.Joins
    · -- Every slot is laid out, so that a missing operand needs no case of its own in the step.
      have hslots (i : Nat) : ∃ joins conditions, Flattened (n.slot? i) joins conditions := by
        rcases hm : n.slot? i with _ | m
        · exact ⟨_, _, .single nofun⟩
        · exact ih m (size_lt_of_slot? hm)
      choose joins conditions hflat using hslots
      exact ⟨_, _, .join hn hflat⟩
    · exact ⟨_, _, .single fun m hm => Option.some.inj hm ▸ hn⟩

/-- A node that joins nothing is a condition by itself. A join is flattened into those operands of
the joins reached in it that are no joins themselves, each of them to the left of the next, and
there is one more of them than there are joins. -/
theorem conditions_in_order (n : Node) :
    (¬ n.Joins → n.allConditions = [some n]) ∧
    (n.Joins → ∃ joins conditions : List (List Nat),
      joins.Pairwise (· < ·) ∧ (∀ place, place ∈ joins ↔ n.JoinAt place) ∧
      conditions.Pairwise LeftOf ∧
      (∀ place, place ∈ conditions ↔
        (∃ outer i, n.JoinAt outer ∧ (i = 0 ∨ i = 2) ∧ place = outer ++ [i]) ∧
          ∀ m ∈ n.at? place, ¬ m.Joins) ∧
      n.allConditions = conditions.map n.at? ∧
      (∀ m, some m ∈ n.allConditions → ¬ m.Joins) ∧
      n.allConditions.length = joins.length + 1) := by
  refine ⟨allConditions_of_not_joins, fun hn => ?_⟩
  obtain ⟨joins, conditions, h⟩ := exists_flattened n
  have hnodes : n.allConditions = conditions.map n.at? := h.nodes
  refine ⟨joins, conditions, h.joins_sorted, fun place => ?_, h.conditions_sorted, fun place => ?_,
    hnodes, fun m hm => ?_, ?_⟩
  · simpa using h.mem_joins place
  · rw [h.mem_conditions]
    constructor
    · rintro ⟨rfl | ⟨_, ⟨⟩, hplace⟩, hnone⟩
      · exact absurd hn (hnone n rfl)
      · exact ⟨hplace, hnone⟩
    · rintro ⟨hplace, hnone⟩
      exact ⟨.inr ⟨n, rfl, hplace⟩, hnone⟩
  · rw [hnodes, List.mem_map] at hm
    obtain ⟨place, hplace, hm⟩ := hm
    exact ((h.mem_conditions place).1 hplace).2 m hm
  · rw [hnodes, List.length_map, h.length_conditions]

/-- A binary expression on two sides of an operator. -/
def binaryTree (left op right : Slot) : Node := .ofKind .binary [left, op, right]

/-- A sum or nothing, and one of two words; an operand is missing, and two operators are tokens. -/
def mixedTree (sum c d : Node) : Node :=
  binaryTree (.node (binaryTree (.node sum) (.literal (.str "||")) .absent))
    (.node (.ofKind .operator [.literal (.str "&&")]))
    (.node (binaryTree (.node c) (.node (.ofKind .keyword [.literal (.str "or")])) (.node d)))

theorem conditions_in_order_mixed :
    let word (s : String) := Node.ofKind .variableCall [.literal (.str s)]
    let sum := binaryTree (.node (word "a")) (.literal (.str "+")) (.node (word "b"))
    let chain := mixedTree sum (word "c") (word "d")
    ¬ sum.Joins ∧ sum.allConditions = [some sum] ∧ chain.Joins ∧
      chain.allConditions = [some sum, none, some (word "c"), some (word "d")] ∧
      ∃ joins : List (List Nat), (∀ place, place ∈ joins ↔ chain.JoinAt place) ∧
        joins.length = 3 := by
  intro word sum chain
  have hsum : ¬ sum.Joins := by decide +kernel
  have hchain : chain.Joins := by decide +kernel
  obtain ⟨joins, _, -, hjoins, -, -, -, -, hlength⟩ := (conditions_in_order chain).2 hchain
  exact ⟨hsum, (conditions_in_order sum).1 hsum, hchain, rfl, joins, hjoins,
    Nat.succ.inj hlength.symm⟩

end RailsReview.Node
