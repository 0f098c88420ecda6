import RailsReview.Proofs.Descendants
import RailsReview.Proofs.Positions
import RailsReview.Proofs.TreeDelivery
import RailsReview.Tree.Pattern

/-!
# The order of a walk

A walk ends, and what it has visited are the places below its start in the order of the source, each
of them once. This is the order that plain recursion gives, and in which a tree is delivered to a
check that wants to know of all its nodes.
-/
namespace RailsReview

/-- The walk visits these nodes in turn, and then it is over. -/
inductive Walk.Yields : Walk → List Node → Prop
  | over {w : Walk} : w.next? = none → Yields w []
  | next {w w' : Walk} {n : Node} {ns : List Node} : w.next? = some (n, w') → Yields w' ns →
      Yields w (n :: ns)

theorem Walk.yields_toList (w : Walk) : w.Yields w.toList := by
  fun_induction toList w with
  | case1 w hnext => exact .over hnext
  | case2 w n w' hnext ih => exact .next hnext ih

namespace Node

theorem preorder_eq_cons (n : Node) : n.preorder = n :: n.descendants := by
  rw [preorder_eq, descendants, Walk.toList_eq]
  rfl

/-- Each child is followed by what is below it, from left to right. -/
theorem descendants_eq_flatMap (n : Node) :
    n.descendants = n.children.flatMap fun m => m :: m.descendants := by
  simp only [← preorder_eq_cons]
  exact Walk.toList_eq (Walk.below n)

mutual

/-- The places below a node in the order of the source. -/
def places : Node → List (List Nat)
  | .mk _ slots _ _ => placesFrom 0 slots

/-- The places in and below slots of which the first has the number `i`. -/
def placesFrom (i : Nat) : List Slot → List (List Nat)
  | [] => []
  | .node n :: rest => ([] :: n.places).map (i :: ·) ++ placesFrom (i + 1) rest
  | _ :: rest => placesFrom (i + 1) rest

end

theorem mem_placesFrom {i : Nat} {slots : List Slot} {place : List Nat} :
    place ∈ placesFrom i slots ↔ ∃ j m inner, slots[j]? = some (.node m) ∧
      inner ∈ [] :: m.places ∧ place = (i + j) :: inner := by
  induction slots generalizing i with
  | nil => simp [placesFrom]
  | cons s rest ih =>
    -- The places in later slots, seen from the first one.
    have hlater : place ∈ placesFrom (i + 1) rest ↔ ∃ j m inner,
        (s :: rest)[j + 1]? = some (.node m) ∧ inner ∈ [] :: m.places ∧
          place = (i + (j + 1)) :: inner := by
      simp only [ih, List.getElem?_cons_succ, Nat.add_assoc, Nat.add_comm 1]
    rw [← Nat.or_exists_add_one, ← hlater]
    cases s with
    | node n =>
      rw [placesFrom, List.mem_append, List.mem_map]
      refine or_congr_left ⟨?_, ?_⟩
      · exact fun ⟨inner, hinner, hplace⟩ => ⟨n, inner, rfl, hinner, hplace.symm⟩
      · rintro ⟨m, inner, ⟨⟩, hinner, hplace⟩
        exact ⟨inner, hinner, hplace.symm⟩
    | literal l => exact (or_iff_right fun ⟨_, _, h, _⟩ => nomatch h).symm
    | absent => exact (or_iff_right fun ⟨_, _, h, _⟩ => nomatch h).symm

theorem slot?_eq_some_iff {n m : Node} {i : Nat} :
    n.slot? i = some m ↔ n.slots[i]? = some (.node m) := by
  refine ⟨fun h => ?_, fun h => Option.bind_eq_some_iff.2 ⟨_, h, rfl⟩⟩
  obtain ⟨s, hs, hm⟩ := Option.bind_eq_some_iff.1 h
  rw [hs, mem_of_node?_eq hm]

theorem mem_places {n : Node} {place : List Nat} : place ∈ n.places ↔ ∃ i m inner,
    n.slot? i = some m ∧ inner ∈ [] :: m.places ∧ place = i :: inner := by
  obtain ⟨k, slots, p, own⟩ := n
  simp only [places, mem_placesFrom, slot?_eq_some_iff, Nat.zero_add]
  rfl

theorem nil_notMem_places (n : Node) : [] ∉ n.places := by
  rw [mem_places]
  exact fun ⟨_, _, _, _, _, h⟩ => nomatch h

/-- The places below a node are those at which there is a node. -/
theorem mem_places_iff {n : Node} {place : List Nat} :
    place ∈ n.places ↔ place ≠ [] ∧ (n.at? place).isSome := by
  induction place generalizing n with
  | nil => exact iff_of_false n.nil_notMem_places fun h => h.1 rfl
  | cons i inner ih =>
    have hinner (m : Node) : inner ∈ [] :: m.places ↔ (m.at? inner).isSome := by
      rw [List.mem_cons, ih]
      by_cases hnil : inner = []
      · exact iff_of_true (.inl hnil) (hnil ▸ rfl)
      · exact ⟨fun h => (h.resolve_left hnil).2, fun h => .inr ⟨hnil, h⟩⟩
    rw [mem_places, at?_cons]
    constructor
    · rintro ⟨_, m, _, hm, hplace, ⟨⟩⟩
      rw [hm]
      exact ⟨List.cons_ne_nil i inner, (hinner m).1 hplace⟩
    · rintro ⟨-, h⟩
      rcases hm : n.slot? i with _ | m
      · rw [hm] at h
        cases h
      · rw [hm] at h
        exact ⟨i, m, inner, hm, (hinner m).2 h, rfl⟩

mutual

/-- In the order of the source a place comes before the places in it and those in later slots. -/
theorem pairwise_places : ∀ n : Node, n.places.Pairwise (· < ·)
  | .mk _ slots _ _ => pairwise_placesFrom 0 slots

theorem pairwise_placesFrom (i : Nat) : ∀ slots : List Slot, (placesFrom i slots).Pairwise (· < ·)
  | [] => .nil
  | .node n :: rest => by
    have hfirst : (([] :: n.places).map (i :: ·)).Pairwise (· < ·) := by
      rw [List.pairwise_map]
      refine (List.pairwise_cons.2 ⟨fun place hplace => ?_, pairwise_places n⟩).imp .cons
      obtain ⟨j, inner, rfl⟩ := List.exists_cons_of_ne_nil fun h => n.nil_notMem_places (h ▸ hplace)
      exact .nil
    rw [placesFrom, List.pairwise_append]
    refine ⟨hfirst, pairwise_placesFrom (i + 1) rest, fun place hplace later hlater => ?_⟩
    obtain ⟨inner, -, rfl⟩ := List.mem_map.1 hplace
    obtain ⟨j, _, inner', -, -, rfl⟩ := mem_placesFrom.1 hlater
    exact .rel (by omega)
  | .literal _ :: rest => pairwise_placesFrom (i + 1) rest
  | .absent :: rest => pairwise_placesFrom (i + 1) rest

end

mutual

/-- At the places below a node are its descendants. -/
theorem map_at?_places : ∀ n : Node, n.places.map n.at? = n.descendants.map some
  | .mk k slots p own => by
    have hslots := map_at?_placesFrom (.mk k slots p own) 0 slots fun j => by rw [Nat.zero_add]; rfl
    rw [places, hslots, descendants, Walk.toList_eq]
    rfl

theorem map_at?_placesFrom (root : Node) (i : Nat) :
    ∀ slots : List Slot, (∀ j, root.slots[i + j]? = slots[j]?) →
      (placesFrom i slots).map root.at? =
        ((slots.filterMap Slot.node?).flatMap preorder).map some
  | [], _ => rfl
  | .node n :: rest, h => by
    have hrest := map_at?_placesFrom root (i + 1) rest fun j => by
      rw [Nat.add_right_comm]; exact h (j + 1)
    have hslot : root.slot? i = some n := slot?_eq_some_iff.2 (h 0)
    have hinner : ([] :: n.places).map (root.at? ∘ (i :: ·)) = n.preorder.map some := by
      have hat : root.at? ∘ (i :: ·) = n.at? := by
        funext inner
        rw [Function.comp_apply, at?_cons, hslot, Option.bind_some]
      rw [hat, List.map_cons, map_at?_places n, preorder_eq_cons]
      rfl
    rw [placesFrom, List.map_append, List.map_map, hrest, hinner, ← List.map_append]
    rfl
  | .literal _ :: rest, h => map_at?_placesFrom root (i + 1) rest fun j => by
    rw [Nat.add_right_comm]; exact h (j + 1)
  | .absent :: rest, h => map_at?_placesFrom root (i + 1) rest fun j => by
    rw [Nat.add_right_comm]; exact h (j + 1)

end

mutual

/-- In a tree that names no file all nodes are of the file it comes from. -/
theorem located_of_isPlain (file : Path) :
    ∀ n : Node, n.isPlain → n.located file = n.preorder.map (file, ·)
  | .mk k slots p own, h => by
    simp only [isPlain, Bool.and_eq_true, Option.isNone_iff_eq_none] at h
    obtain ⟨rfl, hslots⟩ := h
    have hfile : (mk k slots p none).fileBelow file = file := rfl
    rw [located, hfile, locatedSlots_of_arePlain file slots hslots, preorder_eq]
    rfl

theorem locatedSlots_of_arePlain (file : Path) : ∀ slots : List Slot, arePlain slots →
    locatedSlots file slots = ((slots.filterMap Slot.node?).flatMap preorder).map (file, ·)
  | [], _ => rfl
  | .node n :: rest, h => by
    obtain ⟨hn, hrest⟩ := Bool.and_eq_true_iff.1 h
    rw [locatedSlots, located_of_isPlain file n hn, locatedSlots_of_arePlain file rest hrest,
      ← List.map_append]
    rfl
  | .literal _ :: rest, h => locatedSlots_of_arePlain file rest h
  | .absent :: rest, h => locatedSlots_of_arePlain file rest h

end

end Node

/-- What a log shows to have been made are the first deliveries that were due, after a success all
of them. -/
theorem Attempt.Logged.map_fst_prefix {ε δ φ : Type} {fails : δ → φ → ε → Prop} {due : List δ}
    {after : List (δ × Option φ)} {e : Option ε} (h : Logged fails due [] after e) :
    after.map (·.1) <+: due ∧ (e = none → after.map (·.1) = due) := by
  cases e with
  | none =>
    have hall : after.map (·.1) = due := by
      rw [show after = [] ++ due.map (·, none) from h, List.nil_append, List.map_map]
      exact List.map_id due
    exact ⟨hall ▸ List.prefix_rfl, fun _ => hall⟩
  | some e =>
    obtain ⟨made, d, left, x, rfl, rfl, -⟩ := h
    refine ⟨⟨left, ?_⟩, nofun⟩
    simp [Function.comp_def]

variable {ν : Type}

/-- The nodes that the check at a place is told to enter when a tree is delivered. -/
def Session.entered (s : Session ν) (root : Node) (path : Path) (i : Nat) : List (Path × Node) :=
  ((Watched.deliveries (Run.tree root path s.watched).1.notes).filter (·.check == i)).filterMap
    (·.call.entered?)

theorem Session.deliveries_watched (s : Session ν) (root : Node) (path : Path) :
    let seen := Watched.deliveries (Run.tree root path s.watched).1.notes
    let due := Call.deliveries s.checks.zipIdx (Call.ofTree path root)
    seen <+: due ∧ ((Run.tree root path s).2 = none → seen = due) := by
  have hnodes : ∀ call ∈ Call.ofTree path root, ∀ c ∈ s.checks, call.seen false c := by
    intro call hcall c _
    obtain ⟨phase, f, n, rfl⟩ := (Call.nested_below _ root).exists_node hcall
    rfl
  obtain ⟨-, -, hlog⟩ := Run.hear_watched false (Call.ofTree path root) _ s.watches_watched hnodes
  have hzip : s.checks.zip (List.range s.checks.length) = s.checks.zipIdx := by
    rw [List.range_eq_range', ← List.zipIdx_eq_zip_range']
  rw [← Run.tree_eq, ← Run.tree_eq, hzip, s.outcomes_watched] at hlog
  exact hlog.map_fst_prefix

/-- A check enters the nodes that it accepts in the order of the source. A failure only ends this
early. -/
theorem Session.entered_prefix (s : Session ν) (root : Node) (path : Path) {i : Nat} {c : Check ν}
    (hc : s.checks[i]? = some c) :
    let due := (root.located (root.file?.getD path)).filter fun x =>
      c.kinds.contains x.2.kind && c.accepts x.1
    s.entered root path i <+: due ∧
      ((Run.tree root path s).2 = none → s.entered root path i = due) := by
  have hdue : ((Call.deliveries s.checks.zipIdx (Call.ofTree path root)).filter
      (·.check == i)).filterMap (·.call.entered?) =
        (root.located (root.file?.getD path)).filter fun x =>
          c.kinds.contains x.2.kind && c.accepts x.1 := by
    have hreceived := Call.received_zipIdx s.checks 0 hc (Call.ofTree path root)
    rw [Nat.zero_add] at hreceived
    rw [← Call.entered_below, ← Call.entered_filter_reaches, ← Call.ofTree, ← hreceived,
      List.filterMap_map]
    rfl
  obtain ⟨hfirst, hall⟩ := s.deliveries_watched root path
  rw [← hdue]
  exact ⟨(hfirst.filter _).filterMap _, fun h => by rw [entered, hall h]⟩

/-- A check that accepts a tree and wants to know of all its nodes enters them in the order of the
source. -/
theorem Session.entered_of_isPlain (s : Session ν) {root : Node} {path : Path} {i : Nat}
    {c : Check ν} (hc : s.checks[i]? = some c) (haccepts : c.accepts path) (hplain : root.isPlain)
    (hkinds : ∀ m ∈ root :: root.descendants, m.kind ∈ c.kinds) :
    s.entered root path i <+: (root :: root.descendants).map (path, ·) ∧
      ((Run.tree root path s).2 = none →
        s.entered root path i = (root :: root.descendants).map (path, ·)) := by
  have hfile : root.file?.getD path = path := by
    obtain ⟨k, slots, p, own⟩ := root
    simp only [Node.isPlain, Bool.and_eq_true, Option.isNone_iff_eq_none] at hplain
    rw [hplain.1]
    rfl
  have hdue : (root.located path).filter (fun x => c.kinds.contains x.2.kind && c.accepts x.1) =
      (root :: root.descendants).map (path, ·) := by
    rw [Node.located_of_isPlain path root hplain, Node.preorder_eq_cons, List.filter_eq_self]
    refine List.forall_mem_map.2 fun m hm => ?_
    rw [haccepts, Bool.and_true]
    exact List.contains_iff_mem.2 (hkinds m hm)
  have hentered := s.entered_prefix root path hc
  rw [hfile, hdue] at hentered
  exact hentered

/-- The nodes below a node, if there is one, are visited in the order in which plain recursion finds
them, which is that of their places, and each place once. Searches go through them, and so does
whoever is told of all nodes of a tree. -/
theorem Node.descendants_in_order (n? : Option Node) :
    let children := n?.elim [] Node.children
    let below := n?.elim [] Node.descendants
    (⟨children⟩ : Walk).Yields below ∧
    below = (children.flatMap fun m => m :: m.descendants) ∧
    (∀ p : NodePattern, n?.elim [] p.findAll = below.filter p.matchesNode) ∧
    ∀ root ∈ n?,
      (∃ places : List (List Nat), places.Pairwise (· < ·) ∧
        (∀ place, place ∈ places ↔ place ≠ [] ∧ (root.at? place).isSome) ∧
        places.map root.at? = below.map some) ∧
      ∀ (s : Session ν) (path : Path) (i : Nat) (c : Check ν), s.checks[i]? = some c →
        c.accepts path → root.isPlain → (∀ m ∈ root :: below, m.kind ∈ c.kinds) →
        s.entered root path i <+: (root :: below).map (path, ·) ∧
        ((Run.tree root path s).2 = none →
          s.entered root path i = (root :: below).map (path, ·)) := by
  cases n? with
  | none => exact ⟨.over rfl, rfl, fun _ => rfl, nofun⟩
  | some n =>
    refine ⟨(Walk.below n).yields_toList, n.descendants_eq_flatMap, fun _ => rfl, ?_⟩
    rintro _ ⟨⟩
    refine ⟨⟨n.places, n.pairwise_places, fun _ => mem_places_iff, n.map_at?_places⟩, ?_⟩
    exact fun s path i c => s.entered_of_isPlain

/-- A class with a definition in it, and a definition after it. -/
def definitionsTree : Node :=
  .ofKind .program [.node (.ofKind .classDef [.absent, .node (.ofKind .methodDef [])]),
    .node (.ofKind .methodDef [.literal (.str "x")])]

/-- A check of the definitions in models and one of all definitions, classes and programs. -/
def treeChecks : Session Empty where
  checks :=
    [{ spec := Spec.interestedIn { name := "Models", files := [.regex FilePattern.modelFiles] }
        [.methodDef]
       state := () },
      { spec := Spec.interestedIn { name := "All", files := [.all] }
          [.methodDef, .classDef, .program]
        state := () }]

theorem Node.descendants_in_order_definitions :
    let path : Path := ⟨"lib/posts.rb"⟩
    let inner := Node.ofKind .methodDef []
    let outer := Node.ofKind .classDef [.absent, .node inner]
    let last := Node.ofKind .methodDef [.literal (.str "x")]
    definitionsTree.descendants = [outer, inner, last] ∧
    treeChecks.entered definitionsTree path 1 =
      [(path, definitionsTree), (path, outer), (path, inner), (path, last)] := by
  have hbelow : definitionsTree.descendants = [_, _, _] := (List.cons.inj
    (definitionsTree.preorder_eq_cons.symm.trans rfl)).2
  have hdone : (Run.tree definitionsTree ⟨"lib/posts.rb"⟩ treeChecks).2 = none :=
    Option.isNone_iff_eq_none.1 (by decide +kernel)
  obtain ⟨-, -, -, hroot⟩ := Node.descendants_in_order (ν := Empty) (some definitionsTree)
  obtain ⟨-, hentered⟩ := hroot definitionsTree rfl
  have hall := (hentered treeChecks ⟨"lib/posts.rb"⟩ 1 _ rfl (by decide +kernel) (by decide +kernel)
    (by simp only [Option.elim_some, hbelow]; decide +kernel)).2 hdone
  refine ⟨hbelow, hall.trans ?_⟩
  simp only [Option.elim_some, hbelow]
  rfl

end RailsReview
