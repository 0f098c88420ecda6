import RailsReview.Practice.Routes
import RailsReview.Proofs.Descendants
import RailsReview.Proofs.Dictionary
import RailsReview.Proofs.RouteSpelling

/-!
# Options in another order

The options of a resource stand at the end of its arguments, behind whatever the parser puts around
them. Giving them in another order changes what the call is written like, but nothing of what is
asked about it or about the nodes around it.
-/
namespace RailsReview

/-- Whether a slot holds a key with its value. -/
def Slot.isPair (s : Slot) : Bool := s.node?.any (·.kind == .assocNew)

namespace Node

/-- Whether a node is a call that declares routes. -/
def declaresRoutes (n : Node) : Bool :=
  Routing.isRouteCall n && (Routing.isResource n.messageText ||
    Routing.verbs.contains n.messageText || n.messageText == "root")

/-- There are no calls that declare routes and no blocks in a tree. -/
def Routeless (n : Node) : Prop :=
  ∀ m ∈ n.preorder, ¬declaresRoutes m ∧ m.kind ≠ .methodAddBlock

instance (n : Node) : Decidable (Routeless n) :=
  inferInstanceAs (Decidable (∀ m ∈ n.preorder, ¬declaresRoutes m ∧ m.kind ≠ .methodAddBlock))

/-- The kinds of node that checks of routes listen to. -/
def routeKinds : List Kind := .methodAddBlock :: Routing.callKinds

/-- Keyword arguments whose pairs stand in another order. What stands between them, such as a hash
that is spread out, keeps its order. The parser puts them all in one node, which is no call. -/
inductive PairsPermuted : Node → Node → Prop
  | mk {k : Kind} {slots slots' rest : List Slot} {p p' : Option Position} {own own' : Option Path}
      (hholder : k ∉ routeKinds)
      (hpairs : (slots'.filter Slot.isPair).Perm (slots.filter Slot.isPair))
      (hothers : slots'.filter (!·.isPair) = slots.filter (!·.isPair)) :
      PairsPermuted (.mk .bareAssocHash (.node (.mk k slots p own) :: rest) p' own')
        (.mk .bareAssocHash (.node (.mk k slots' p own) :: rest) p' own')

/-- Options in another order, where no two have the same key and none holds a route declaration. -/
structure OptionsPermuted (n n' : Node) : Prop where
  pairs : PairsPermuted n n'
  keys : n.hashKeys.Nodup
  routeless : ∀ pair ∈ n.hashPairs, pair.Routeless

/-- Arguments of which one value is exchanged, wherever the parser puts it: a list of them, or what
stands behind an argument that is spread out, or other arguments inside. -/
inductive ArgumentChanged (S : Node → Node → Prop) : Node → Node → Prop
  | value {m m' : Node} {k : Kind} {front back : List Slot} {p : Option Position}
      {own : Option Path} (hk : k = .list ∨ k = .argsAddStar ∧ front ≠ []) (h : S m m') :
      ArgumentChanged S (.mk k (front ++ .node m :: back) p own)
        (.mk k (front ++ .node m' :: back) p own)
  | inside {m m' : Node} {k : Kind} {back : List Slot} {p : Option Position} {own : Option Path}
      (hk : k ∈ [Kind.argParen, .argsAddBlock, .argsAddStar, .array])
      (h : ArgumentChanged S m m') :
      ArgumentChanged S (.mk k (.node m :: back) p own) (.mk k (.node m' :: back) p own)

/-- A tree with the options of one of its resources in another order, or as it is. -/
inductive Reordered : Node → Node → Prop
  | same (n : Node) : Reordered n n
  | options {k : Kind} {args args' : Node} {front back : List Slot} {p : Option Position}
      {own : Option Path} (hplace : argumentPlace? k = some front.length)
      (hcall : Routing.isResource (mk k (front ++ .node args :: back) p own).messageText)
      (hargs : ArgumentChanged OptionsPermuted args args') :
      Reordered (.mk k (front ++ .node args :: back) p own)
        (.mk k (front ++ .node args' :: back) p own)
  | inside {m m' : Node} {k : Kind} {front back : List Slot} {p : Option Position}
      {own : Option Path} (h : Reordered m m') :
      Reordered (.mk k (front ++ .node m :: back) p own) (.mk k (front ++ .node m' :: back) p own)

section Pairs

theorem pairs_mk (k : Kind) (slots : List Slot) (p : Option Position) (own : Option Path) :
    (mk k slots p own).pairs = (slots.filter Slot.isPair).filterMap Slot.node? := by
  change (slots.filterMap Slot.node?).filter (·.kind == .assocNew) = _
  induction slots with
  | nil => rfl
  | cons s slots ih =>
    cases s with
    | node n =>
      have hpair : (Slot.node n).isPair = (n.kind == .assocNew) := rfl
      simp only [List.filterMap_cons, Slot.node?, List.filter_cons, hpair, ih]
      split
      · rfl
      · rfl
    | literal _ => exact ih
    | absent => exact ih

theorem PairsPermuted.hashPairs {n n' : Node} (h : PairsPermuted n n') :
    n'.hashPairs.Perm n.hashPairs := by
  cases h with
  | mk _ hpairs _ =>
    rw [hashPairs_eq, hashPairs_eq]
    change (Node.pairs _).Perm (Node.pairs _)
    rw [pairs_mk, pairs_mk]
    exact hpairs.filterMap _

theorem PairsPermuted.kind {n n' : Node} (h : PairsPermuted n n') :
    n.kind = .bareAssocHash ∧ n'.kind = .bareAssocHash := by
  cases h with
  | mk => exact ⟨rfl, rfl⟩

/-- What stands under a key is the same in any order. -/
theorem OptionsPermuted.hashValue? {n n' : Node} (h : OptionsPermuted n n') (key : String) :
    n'.hashValue? key = n.hashValue? key := by
  rw [Node.hashValue?, Node.hashValue?, FirstMatch.find?_eq_of_perm h.pairs.hashPairs]
  intro x hx y hy hkx hky
  exact List.inj_on_of_nodup_map h.keys hx hy ((eq_of_beq hkx).trans (eq_of_beq hky).symm)

end Pairs

section Arguments
variable {R S : Node → Node → Prop} {n n' : Node}

theorem ArgumentChanged.kind_eq (h : ArgumentChanged S n n') : n'.kind = n.kind := by
  cases h with
  | value => rfl
  | inside => rfl

theorem ArgumentChanged.kind_mem (h : ArgumentChanged S n n') :
    n.kind ∈ [Kind.list, .argParen, .argsAddBlock, .argsAddStar, .array] := by
  cases h with
  | value hk _ =>
    rcases hk with rfl | ⟨rfl, -⟩
    · exact List.mem_cons_self
    · exact List.mem_of_elem_eq_true rfl
  | inside hk _ => exact List.mem_cons_of_mem _ hk

/-- No check of routes listens to what holds arguments. -/
theorem ArgumentChanged.kind_not_route (h : ArgumentChanged S n n') : n.kind ∉ routeKinds := by
  have hmem := h.kind_mem
  intro hroute
  simp only [List.mem_cons, List.not_mem_nil, or_false] at hmem
  rcases hmem with hk | hk | hk | hk | hk
  all_goals
    rw [hk] at hroute
    exact absurd hroute (by decide)

theorem ArgumentChanged.kind_not_route' (h : ArgumentChanged S n n') : n'.kind ∉ routeKinds :=
  h.kind_eq ▸ h.kind_not_route

/-- All values but one are the same. -/
theorem ArgumentChanged.argumentValues (hR : ∀ m, R m m) (hS : ∀ {m m'}, S m m' → R m m')
    (h : ArgumentChanged S n n') : List.Forall₂ R n.argumentValues n'.argumentValues := by
  have hrefl (l : List Node) : List.Forall₂ R l l := List.forall₂_same.2 fun m _ => hR m
  have hone {m m' : Node} (h : S m m') (front back : List Slot) :
      List.Forall₂ R ((front ++ Slot.node m :: back).filterMap Slot.node?)
        ((front ++ Slot.node m' :: back).filterMap Slot.node?) := by
    rw [List.filterMap_append, List.filterMap_append]
    exact List.rel_append (hrefl _) (.cons (hS h) (hrefl _))
  induction h with
  | @value m m' k front back p own hk h =>
    rw [argumentValues_eq, argumentValues_eq]
    rcases hk with rfl | ⟨rfl, hfront⟩
    · exact hone h front back
    · cases front with
      | nil => exact absurd rfl hfront
      | cons s front =>
        exact List.rel_append (hrefl _) (List.forall₂_drop 1 (hone h (s :: front) back))
  | @inside m m' k back p own hk h ih =>
    rw [argumentValues_eq, argumentValues_eq]
    simp only [List.mem_cons, List.not_mem_nil, or_false] at hk
    rcases hk with rfl | rfl | rfl | rfl
    · exact ih
    · exact ih
    · exact List.rel_append ih (hrefl _)
    · change List.Forall₂ R (if holdsElements m.kind then m.argumentValues else [])
        (if holdsElements m'.kind then m'.argumentValues else [])
      rw [h.kind_eq]
      split
      · exact ih
      · exact .nil

end Arguments

section Reordered
variable {n n' : Node}

theorem aligned_same (n : Node) : Aligned id Reordered n n := by
  obtain ⟨k, slots, p, own⟩ := n
  refine .mk (List.forall₂_same.2 fun s _ => ?_) (by cases p <;> rfl)
  cases s with
  | node m => exact .node (.same m)
  | literal l => exact .literal l
  | absent => exact .absent

theorem aligned_inside {m m' : Node} (h : Reordered m m') {k : Kind} {front back : List Slot}
    {p : Option Position} {own : Option Path} :
    Aligned id Reordered (.mk k (front ++ .node m :: back) p own)
      (.mk k (front ++ .node m' :: back) p own) := by
  have hslots (slots : List Slot) : List.Forall₂ (Slot.Paired Reordered) slots slots := by
    cases aligned_same (.mk k slots p own) with
    | mk hslots _ => exact hslots
  exact .mk (List.rel_append (hslots front) (.cons (.node h) (hslots back))) (by cases p <;> rfl)

theorem OptionsPermuted.sameArgument (h : OptionsPermuted n n') : SameArgument Reordered n n' := by
  refine .options h.pairs.kind.1 h.pairs.kind.2 fun key => ?_
  rw [h.hashValue? key]
  cases n.hashValue? key with
  | none => exact .none
  | some m => exact .some (.same m)

section Calls
variable {k : Kind} {front back : List Slot} {p : Option Position} {own : Option Path}
  (hplace : argumentPlace? k = some front.length)
include hplace

/-- The name of a call stands in front of its arguments. -/
theorem message?_front (s : Slot) :
    (mk k (front ++ s :: back) p own).message? = (mk k front p own).message? := by
  have hslot (i : Nat) (hi : i < front.length) :
      (mk k (front ++ s :: back) p own).slot? i = (mk k front p own).slot? i :=
    congrArg (·.bind Slot.node?) (List.getElem?_append_left hi)
  rw [message?_eq, message?_eq]
  rcases argumentPlace?_eq_some hplace with
    ⟨rfl, hfront⟩ | ⟨rfl, hfront⟩ | ⟨rfl, hfront⟩
  · exact hslot 0 (by omega)
  · exact congrArg (·.bind message?) (hslot 0 (by omega))
  · exact hslot 2 (by omega)

theorem subject?_front (s : Slot) :
    (mk k (front ++ s :: back) p own).subject? = (mk k front p own).subject? := by
  have hslot : 0 < front.length → (mk k (front ++ s :: back) p own).slot? 0 =
      (mk k front p own).slot? 0 := fun hi =>
    congrArg (·.bind Slot.node?) (List.getElem?_append_left hi)
  rw [subject?_eq, subject?_eq]
  rcases argumentPlace?_eq_some hplace with
    ⟨rfl, hfront⟩ | ⟨rfl, hfront⟩ | ⟨rfl, hfront⟩
  · rfl
  · exact congrArg (·.bind subject?) (hslot (by omega))
  · exact hslot (by omega)

theorem callArguments_front (a : Node) :
    (mk k (front ++ .node a :: back) p own).callArguments = a.argumentValues := by
  have hslot : (mk k (front ++ .node a :: back) p own).slot? front.length = some a := by
    change (front ++ Slot.node a :: back)[front.length]?.bind Slot.node? = some a
    rw [List.getElem?_append_right (Nat.le_refl _), Nat.sub_self]
    rfl
  rw [callArguments_eq]
  rcases argumentPlace?_eq_some hplace with
    ⟨rfl, hfront⟩ | ⟨rfl, hfront⟩ | ⟨rfl, hfront⟩
  all_goals
    rw [hfront] at hslot
    exact congrArg (·.elim [] argumentValues) hslot

theorem isRouteCall_front (s : Slot) :
    Routing.isRouteCall (mk k (front ++ s :: back) p own) =
      Routing.isRouteCall (mk k front p own) := by
  rcases argumentPlace?_eq_some hplace with ⟨rfl, hfront⟩ | ⟨rfl, hfront⟩ | ⟨rfl, hfront⟩
  · rfl
  · exact congrArg (isKind .functionCall ·)
      (congrArg (·.bind Slot.node?) (List.getElem?_append_left (by omega)))
  · rfl

/-- A call with a name has its first node in front of the arguments. -/
theorem head?_front (s : Slot) (hname : (mk k front p own).message? ≠ none) :
    (mk k (front ++ s :: back) p own).children.head? = (mk k front p own).children.head? := by
  have hnodes : front.filterMap Slot.node? ≠ [] := by
    intro hnone
    have hslot (i : Nat) : (mk k front p own).slot? i = none := by
      cases hi : (mk k front p own).slot? i with
      | none => rfl
      | some m =>
        obtain ⟨s, hs, hm⟩ := Option.bind_eq_some_iff.1 hi
        exact absurd hm (List.filterMap_eq_nil_iff.1 hnone s (List.mem_of_getElem? hs) ▸ nofun)
    refine hname ?_
    rw [message?_eq]
    rcases argumentPlace?_eq_some hplace with ⟨rfl, -⟩ | ⟨rfl, -⟩ | ⟨rfl, -⟩
    · exact hslot 0
    · exact congrArg (·.bind message?) (hslot 0)
    · exact hslot 2
  change ((front ++ s :: back).filterMap Slot.node?).head? = _
  rw [List.filterMap_append]
  exact List.head?_append_of_ne_nil _ hnodes

end Calls

/-- Only the arguments differ, and nothing that mirroring asks for is read off them. -/
theorem echoes_options {k : Kind} {args args' : Node} {front back : List Slot} {p : Option Position}
    {own : Option Path} (hplace : argumentPlace? k = some front.length)
    (hcall : Routing.isResource (mk k (front ++ .node args :: back) p own).messageText)
    (hargs : ArgumentChanged OptionsPermuted args args') :
    Echoes id Reordered (.mk k (front ++ .node args :: back) p own)
      (.mk k (front ++ .node args' :: back) p own) := by
  have hsame {a : Option Node} : Option.Rel Reordered a a := by
    cases a with
    | none => exact .none
    | some m => exact .some (.same m)
  have haligned (l : List Node) : List.Forall₂ (Aligned id Reordered) l l :=
    List.forall₂_same.2 fun m _ => aligned_same m
  have hname : (mk k front p own).message? ≠ none := by
    intro hnone
    rw [messageText, message?_front hplace, hnone] at hcall
    exact absurd hcall (by decide)
  have hplain : args.kind ≠ .assocNew := by
    intro hk
    have hmem := hargs.kind_mem
    rw [hk] at hmem
    exact absurd hmem (by decide)
  have hpairs {a : Node} (ha : a.kind ≠ .assocNew) :
      (mk k (front ++ .node a :: back) p own).pairs = (mk k (front ++ back) p own).pairs := by
    simp [pairs, children, slots, Slot.node?, ha]
  refine ⟨Option.isSome_of_eq_some hplace, .inl rfl, ?_, ?_, ?_, fun _ => ?_, ?_, ?_⟩
  · rw [isRouteCall_front hplace, isRouteCall_front hplace]
  · rw [subject?_front hplace, subject?_front hplace]
    exact hsame
  · rw [message?_front hplace, message?_front hplace]
    exact hsame
  · rw [Option.map_id, id]
    cases p with
    | some x => rfl
    | none =>
      rw [line?_eq _ rfl, line?_eq _ rfl, head?_front hplace _ hname, head?_front hplace _ hname]
      rcases argumentPlace?_eq_some hplace with ⟨rfl, -⟩ | ⟨rfl, -⟩ | ⟨rfl, -⟩
      all_goals rfl
  · rw [hpairs hplain, hpairs (hargs.kind_eq ▸ hplain)]
    exact haligned _
  · have hslot (s : Slot) : (mk k (front ++ s :: back) p own).slot? 0 =
        (mk k front p own).slot? 0 :=
      congrArg (·.bind Slot.node?) (List.getElem?_append_left
        (by rcases argumentPlace?_eq_some hplace with ⟨-, h⟩ | ⟨-, h⟩ | ⟨-, h⟩ <;> omega))
    rw [hslot, hslot]
    exact haligned _

theorem options_arguments {k : Kind} {args args' : Node} {front back : List Slot}
    {p : Option Position} {own : Option Path} (hplace : argumentPlace? k = some front.length)
    (hargs : ArgumentChanged OptionsPermuted args args') :
    List.Forall₂ (SameArgument Reordered)
      (mk k (front ++ .node args :: back) p own).callArguments
      (mk k (front ++ .node args' :: back) p own).callArguments := by
  rw [callArguments_front hplace, callArguments_front hplace]
  exact hargs.argumentValues (fun m => .related (.same m)) OptionsPermuted.sameArgument

theorem mirrors_reordered : Mirrors id Reordered := by
  intro n n' h
  cases h with
  | same => exact .aligned (aligned_same n)
  | options hplace hcall hargs => exact .echoes (echoes_options hplace hcall hargs)
  | inside h => exact .aligned (aligned_inside h)

/-- Where nothing is a resource, no arguments were touched. -/
theorem Reordered.callArguments (h : Reordered n n') (hother : ¬Routing.isResource n.messageText) :
    List.Forall₂ Reordered n.callArguments n'.callArguments := by
  induction n using size_induction generalizing n' with
  | step n ih =>
    cases h with
    | same => exact List.forall₂_same.2 fun m _ => .same m
    | options _ hcall => exact absurd hcall hother
    | inside h =>
      refine (aligned_inside h).callArguments_rel mirrors_reordered (.inside h) id ?_
      -- The message of a block is that of the call it belongs to.
      refine fun hk m m' hm hr => ih m (size_lt_of_slot? hm) hr ?_
      rwa [messageText, message?_eq, hk, hm] at hother

theorem recounts_reordered : Recounts id Reordered where
  mirrors := mirrors_reordered
  arguments hn := by
    refine callArguments_rel mirrors_reordered hn .related fun {m m'} hm hno => ?_
    cases hm with
    | same => exact absurd (aligned_same _) hno
    | inside h => exact absurd (aligned_inside h) hno
    | options hplace _ hargs => exact options_arguments hplace hargs
  others hn hother := hn.callArguments hother

theorem Reordered.kind_eq (h : Reordered n n') : n'.kind = n.kind := by
  cases h with
  | same => rfl
  | options => rfl
  | inside => rfl

theorem Reordered.file?_eq (h : Reordered n n') : n'.file? = n.file? := by
  cases h with
  | same => rfl
  | options => rfl
  | inside => rfl

theorem Reordered.line?_eq (h : Reordered n n') : n'.line? = n.line? :=
  (line?_eq_of_rel mirrors_reordered h).trans (congrFun Option.map_id n.line?)

end Reordered

end Node

namespace Practice
open Node

section Counting

/-- What a slot adds to the routes for request methods around it. -/
def verbWeight (s : Slot) : Nat :=
  s.node?.elim 0 fun n =>
    if isResourceBlock n then 0 else if isVerbCommand n then 1 + verbCount n else verbCount n

theorem verbCountSlots_cons (s : Slot) (slots : List Slot) :
    verbCountSlots (s :: slots) = verbWeight s + verbCountSlots slots := by
  cases s with
  | node n => rfl
  | literal _ => exact (Nat.zero_add _).symm
  | absent => exact (Nat.zero_add _).symm

theorem verbCountSlots_perm {slots slots' : List Slot} (h : slots'.Perm slots) :
    verbCountSlots slots' = verbCountSlots slots := by
  induction h with
  | nil => rfl
  | cons s _ ih => rw [verbCountSlots_cons, verbCountSlots_cons, ih]
  | swap s t slots =>
    simp only [verbCountSlots_cons]
    exact Nat.add_left_comm _ _ _
  | trans _ _ ih ih' => exact ih.trans ih'

/-- The count of a node whose slots but one are the same. -/
theorem verbCount_hole {m m' : Node} (h : verbWeight (.node m') = verbWeight (.node m)) {k : Kind}
    (front : List Slot) {back : List Slot} {p : Option Position} {own : Option Path} :
    verbCount (.mk k (front ++ .node m' :: back) p own) =
      verbCount (.mk k (front ++ .node m :: back) p own) := by
  simp only [verbCount]
  induction front with
  | nil => rw [List.nil_append, List.nil_append, verbCountSlots_cons, verbCountSlots_cons, h]
  | cons s front ih => rw [List.cons_append, List.cons_append, verbCountSlots_cons, ih,
      ← verbCountSlots_cons]

/-- A node of another kind than a call or a block adds what is below it. -/
theorem verbWeight_of_not_route {n : Node} (hk : n.kind ∉ routeKinds) :
    verbWeight (.node n) = verbCount n := by
  have hblock : ¬isResourceBlock n := fun h =>
    hk (eq_of_beq (Bool.and_eq_true_iff.1 h).1 ▸ List.mem_cons_self)
  have hcommand : ¬isVerbCommand n := fun h =>
    hk (eq_of_beq (Bool.and_eq_true_iff.1 h).1 ▸ by decide)
  change (if isResourceBlock n then 0 else if isVerbCommand n then 1 + verbCount n
    else verbCount n) = _
  rw [if_neg hblock, if_neg hcommand]

variable {n n' : Node}

theorem verbCount_pairsPermuted (h : PairsPermuted n n') : verbCount n' = verbCount n := by
  cases h with
  | @mk k slots slots' rest p p' own own' hholder hpairs hothers =>
    have hperm : slots'.Perm slots :=
      ((List.filter_append_perm Slot.isPair slots').symm.trans
        (hpairs.append (.of_eq hothers))).trans (List.filter_append_perm Slot.isPair slots)
    have hcount : verbCount (mk k slots' p own) = verbCount (mk k slots p own) :=
      verbCountSlots_perm hperm
    refine verbCount_hole ?_ []
    rw [verbWeight_of_not_route (n := mk k slots' p own) hholder,
      verbWeight_of_not_route (n := mk k slots p own) hholder, hcount]

theorem verbCount_argumentChanged (h : ArgumentChanged OptionsPermuted n n') :
    verbCount n' = verbCount n := by
  induction h with
  | value _ h =>
    refine verbCount_hole ?_ _
    obtain ⟨hk, hk'⟩ := h.pairs.kind
    rw [verbWeight_of_not_route (by rw [hk']; decide), verbWeight_of_not_route (by rw [hk]; decide),
      verbCount_pairsPermuted h.pairs]
  | inside _ h ih =>
    refine verbCount_hole ?_ []
    rw [verbWeight_of_not_route h.kind_not_route', verbWeight_of_not_route h.kind_not_route, ih]

theorem verbCount_reordered (h : Reordered n n') : verbCount n' = verbCount n := by
  induction h with
  | same => rfl
  | options _ _ hargs =>
    refine verbCount_hole ?_ _
    rw [verbWeight_of_not_route hargs.kind_not_route', verbWeight_of_not_route hargs.kind_not_route,
      verbCount_argumentChanged hargs]
  | @inside m m' k front back p own h ih =>
    refine verbCount_hole ?_ _
    have hmessage := messageText_eq_of_rel mirrors_reordered h
    have hblock : isResourceBlock m' = isResourceBlock m := by
      rw [isResourceBlock, isResourceBlock, h.kind_eq, hmessage]
    have hcommand : isVerbCommand m' = isVerbCommand m := by
      rw [isVerbCommand, isVerbCommand, h.kind_eq, hmessage]
    simp only [verbWeight, Slot.node?, Option.elim_some, hblock, hcommand, ih]

theorem optionCount_eq_of_rel {f : Nat → Nat} {R : Node → Node → Prop} (h : Recounts f R)
    (hn : R n n') : optionCount n' = optionCount n := by
  have hcount (key : String) : (option? n'.options? key).elim 0 hashSize =
      (option? n.options? key).elim 0 hashSize :=
    elim_eq_of_rel (option?_rel h.mirrors (options?_rel h hn) key) fun _ _ _ hr =>
      (hashPairs_rel h.mirrors hr).length_eq.symm
  simp only [optionCount, hcount]

theorem customRouteCount_reordered (h : Reordered n n') (hk : n.kind = .methodAddBlock) :
    customRouteCount n' = customRouteCount n := by
  have ha := (mirrors_reordered h).aligned_of_not_call (by rw [hk]; rfl)
  have hblock (n : Node) (hk : n.kind = .methodAddBlock) : n.block? = n.slot? 1 := by
    rw [block?, hk]
  rw [customRouteCount, customRouteCount, hblock n hk, hblock n' (ha.kind_eq.trans hk)]
  congr 1
  · exact elim_eq_of_rel (ha.slot? 0) fun _ _ _ hr => optionCount_eq_of_rel recounts_reordered hr
  · exact elim_eq_of_rel (ha.slot? 1) fun _ _ _ hr => verbCount_reordered hr

end Counting

end Practice
end RailsReview
