import RailsReview.Proofs.Call

/-!
# Lexical context

The calls of a tree open and close its nodes one inside the other. At every call the open nodes are
therefore the ancestors of the node that is called, and after a tree none is left open. A property
of sessions that follows the open nodes step by step holds at every call with the ancestors in
their place.
-/
namespace RailsReview

theorem Slot.filterMap_node (ns : List Node) : (ns.map node).filterMap node? = ns := by
  simp [List.filterMap_map, Function.comp_def, node?]

namespace Node

mutual

/-- Whether no node of the tree names a file. -/
def isPlain : Node → Bool
  | .mk _ slots _ own => own.isNone && arePlain slots

def arePlain : List Slot → Bool
  | [] => true
  | .node n :: rest => n.isPlain && arePlain rest
  | _ :: rest => arePlain rest

end

mutual

/-- The nodes of a tree, each before the nodes below it and with its ancestors, the innermost
first; `outer` are the ancestors of the tree. -/
def occurrences (outer : List Node) : Node → List (List Node × Node)
  | .mk k slots p own =>
    let n := Node.mk k slots p own
    (outer, n) :: occurrencesIn (n :: outer) slots

def occurrencesIn (outer : List Node) : List Slot → List (List Node × Node)
  | [] => []
  | .node n :: rest => occurrences outer n ++ occurrencesIn outer rest
  | _ :: rest => occurrencesIn outer rest

end

mutual

/-- What is around a tree is around every node of it. -/
theorem subset_of_mem_occurrences (outer : List Node) :
    ∀ (n : Node) (x : List Node × Node), x ∈ occurrences outer n → outer ⊆ x.1
  | .mk k slots p own, x, hx => by
    rw [occurrences] at hx
    rcases List.mem_cons.1 hx with rfl | hx
    · exact List.Subset.refl outer
    · exact List.Subset.trans (List.subset_cons_self _ _)
        (subset_of_mem_occurrencesIn _ slots x hx)

theorem subset_of_mem_occurrencesIn (outer : List Node) :
    ∀ (slots : List Slot) (x : List Node × Node), x ∈ occurrencesIn outer slots → outer ⊆ x.1
  | .node n :: rest, x, hx => by
    rcases List.mem_append.1 hx with hx | hx
    · exact subset_of_mem_occurrences outer n x hx
    · exact subset_of_mem_occurrencesIn outer rest x hx
  | .literal _ :: rest, x, hx => subset_of_mem_occurrencesIn outer rest x hx
  | .absent :: rest, x, hx => subset_of_mem_occurrencesIn outer rest x hx

end

mutual

/-- The nodes of a tree do not depend on what is around it. -/
theorem nodes_occurrences (outer outer' : List Node) :
    ∀ n : Node, (n.occurrences outer).map (·.2) = (n.occurrences outer').map (·.2)
  | .mk k slots p own => by
    simp only [occurrences, List.map_cons]
    rw [nodes_occurrencesIn _ (.mk k slots p own :: outer') slots]

theorem nodes_occurrencesIn (outer outer' : List Node) :
    ∀ slots : List Slot,
      (occurrencesIn outer slots).map (·.2) = (occurrencesIn outer' slots).map (·.2)
  | [] => rfl
  | .node n :: rest => by
    simp only [occurrencesIn, List.map_append]
    rw [nodes_occurrences outer outer' n, nodes_occurrencesIn outer outer' rest]
  | .literal _ :: rest => nodes_occurrencesIn outer outer' rest
  | .absent :: rest => nodes_occurrencesIn outer outer' rest

end

end Node

namespace Phase

/-- The nodes that are open before a call, the innermost first; `outer` are those around its own. -/
def openBefore (outer : List Node) (n : Node) : Phase → List Node
  | enter => outer
  | exit => n :: outer

def openAfter (outer : List Node) (n : Node) : Phase → List Node
  | enter => n :: outer
  | exit => outer

end Phase

namespace Call

mutual

/-- The calls of a tree that names no other file, each with the ancestors of its node. -/
def around (file : Path) (outer : List Node) : Node → List (List Node × Call)
  | .mk k slots p own =>
    let n := Node.mk k slots p own
    (outer, node .enter file n) ::
      (aroundSlots file (n :: outer) slots ++ [(outer, node .exit file n)])

def aroundSlots (file : Path) (outer : List Node) : List Slot → List (List Node × Call)
  | [] => []
  | .node n :: rest => around file outer n ++ aroundSlots file outer rest
  | _ :: rest => aroundSlots file outer rest

end

/-- The node that a call enters, with its ancestors. -/
def occurrence? : List Node × Call → Option (List Node × Node)
  | (outer, node .enter _ n) => some (outer, n)
  | _ => none

/-- The calls of trees that come from files. -/
def ofTrees (trees : List (Path × Node)) : List Call := trees.flatMap fun x => ofTree x.1 x.2

mutual

theorem around_calls (file : Path) (outer : List Node) :
    ∀ n : Node, n.isPlain → (around file outer n).map (·.2) = below file n
  | .mk k slots p own, h => by
    simp only [Node.isPlain, Bool.and_eq_true, Option.isNone_iff_eq_none] at h
    obtain ⟨rfl, hslots⟩ := h
    have hfile : (Node.mk k slots p none).fileBelow file = file := rfl
    simp only [around, below, List.map_cons, List.map_append, List.map_nil, hfile]
    rw [around_callsSlots file _ slots hslots]

theorem around_callsSlots (file : Path) (outer : List Node) :
    ∀ slots : List Slot, Node.arePlain slots →
      (aroundSlots file outer slots).map (·.2) = belowSlots file slots
  | [], _ => rfl
  | .node n :: rest, h => by
    simp only [Node.arePlain, Bool.and_eq_true] at h
    simp only [aroundSlots, belowSlots, List.map_append]
    rw [around_calls file outer n h.1, around_callsSlots file outer rest h.2]
  | .literal _ :: rest, h => around_callsSlots file outer rest h
  | .absent :: rest, h => around_callsSlots file outer rest h

end

mutual

theorem around_occurrences (file : Path) (outer : List Node) :
    ∀ n : Node, (around file outer n).filterMap occurrence? = n.occurrences outer
  | .mk k slots p own => by
    simp only [around, List.filterMap_cons, List.filterMap_append, List.filterMap_nil, occurrence?,
      List.append_nil, Node.occurrences]
    rw [around_occurrencesIn file _ slots]

theorem around_occurrencesIn (file : Path) (outer : List Node) :
    ∀ slots : List Slot,
      (aroundSlots file outer slots).filterMap occurrence? = Node.occurrencesIn outer slots
  | [] => rfl
  | .node n :: rest => by
    simp only [aroundSlots, List.filterMap_append, Node.occurrencesIn]
    rw [around_occurrences file outer n, around_occurrencesIn file outer rest]
  | .literal _ :: rest => around_occurrencesIn file outer rest
  | .absent :: rest => around_occurrencesIn file outer rest

end

theorem ofTree_of_isPlain (path : Path) {root : Node} (h : root.isPlain) :
    ofTree path root = (around path [] root).map (·.2) := by
  rw [around_calls path [] root h]
  cases root with
  | mk k slots p own =>
    simp only [Node.isPlain, Bool.and_eq_true, Option.isNone_iff_eq_none] at h
    rw [h.1]
    rfl

/-- Calls that lead from some open nodes to others: what is entered is open until it is left. Each
call comes with the nodes around its own. -/
inductive Lexical (file : Path) : List Node → List (List Node × Call) → List Node → Prop
  | nil (outer : List Node) : Lexical file outer [] outer
  | enter {outer : List Node} {n : Node} {rest : List (List Node × Call)} {last : List Node} :
      Lexical file (n :: outer) rest last →
      Lexical file outer ((outer, node .enter file n) :: rest) last
  | exit {outer : List Node} {n : Node} {rest : List (List Node × Call)} {last : List Node} :
      Lexical file outer rest last →
      Lexical file (n :: outer) ((outer, node .exit file n) :: rest) last

namespace Lexical
variable {file : Path} {first mid last : List Node} {calls calls' : List (List Node × Call)}

theorem append (h : Lexical file first calls mid) (h' : Lexical file mid calls' last) :
    Lexical file first (calls ++ calls') last := by
  induction h with
  | nil => exact h'
  | enter _ ih => exact .enter (ih h')
  | exit _ ih => exact .exit (ih h')

theorem split (h : Lexical file first (calls ++ calls') last) :
    ∃ mid, Lexical file first calls mid ∧ Lexical file mid calls' last := by
  induction calls generalizing first with
  | nil => exact ⟨first, .nil first, h⟩
  | cons call calls ih =>
    cases h with
    | enter h =>
      obtain ⟨mid, hmid, hlast⟩ := ih h
      exact ⟨mid, .enter hmid, hlast⟩
    | exit h =>
      obtain ⟨mid, hmid, hlast⟩ := ih h
      exact ⟨mid, .exit hmid, hlast⟩

/-- What is open at a call is what its ancestors say. -/
theorem upTo {outer : List Node} {phase : Phase} {file' : Path} {n : Node}
    (h : Lexical file first (calls ++ (outer, node phase file' n) :: calls') last) :
    Lexical file first calls (phase.openBefore outer n) := by
  obtain ⟨mid, hmid, hcall⟩ := h.split
  cases hcall with
  | enter => exact hmid
  | exit => exact hmid

theorem exists_node (h : Lexical file first calls last) {x : List Node × Call} (hx : x ∈ calls) :
    ∃ phase n, x.2 = .node phase file n := by
  induction h with
  | nil => simp at hx
  | enter _ ih =>
    rcases List.mem_cons.1 hx with rfl | hx
    · exact ⟨_, _, rfl⟩
    · exact ih hx
  | exit _ ih =>
    rcases List.mem_cons.1 hx with rfl | hx
    · exact ⟨_, _, rfl⟩
    · exact ih hx

end Lexical

mutual

/-- Whatever is open around a tree is open again after it, and nothing else. -/
theorem lexical_around (file : Path) (outer : List Node) :
    ∀ n : Node, Lexical file outer (around file outer n) outer
  | .mk k slots p own =>
    .enter ((lexical_aroundSlots file (.mk k slots p own :: outer) slots).append (.exit (.nil _)))

theorem lexical_aroundSlots (file : Path) (outer : List Node) :
    ∀ slots : List Slot, Lexical file outer (aroundSlots file outer slots) outer
  | [] => .nil outer
  | .node n :: rest => (lexical_around file outer n).append (lexical_aroundSlots file outer rest)
  | .literal _ :: rest => lexical_aroundSlots file outer rest
  | .absent :: rest => lexical_aroundSlots file outer rest

end

mutual

/-- What is called stands in the tree, with its ancestors. -/
theorem mem_occurrences_of_mem_around {file : Path} {inside : List Node} {phase : Phase} {m : Node}
    (outer : List Node) : ∀ n : Node, (inside, .node phase file m) ∈ around file outer n →
      (inside, m) ∈ n.occurrences outer
  | .mk k slots p own, h => by
    rw [Node.occurrences]
    rcases List.mem_cons.1 h with h | h
    · cases h
      exact .head _
    · rcases List.mem_append.1 h with h | h
      · exact .tail _ (mem_occurrences_of_mem_aroundSlots _ slots h)
      · cases List.mem_singleton.1 h
        exact .head _

theorem mem_occurrences_of_mem_aroundSlots {file : Path} {inside : List Node} {phase : Phase}
    {m : Node} (outer : List Node) :
    ∀ slots : List Slot, (inside, .node phase file m) ∈ aroundSlots file outer slots →
      (inside, m) ∈ Node.occurrencesIn outer slots
  | .node n :: rest, h => by
    rcases List.mem_append.1 h with h | h
    · exact List.mem_append_left _ (mem_occurrences_of_mem_around outer n h)
    · exact List.mem_append_right _ (mem_occurrences_of_mem_aroundSlots outer rest h)
  | .literal _ :: rest, h => mem_occurrences_of_mem_aroundSlots outer rest h
  | .absent :: rest, h => mem_occurrences_of_mem_aroundSlots outer rest h

end

/-- An element of two lists in a row has its place in the first or in the second. -/
theorem append_eq_append_cons {α : Type} {l l' made rest : List α} {x : α}
    (h : l ++ l' = made ++ x :: rest) :
    (∃ later, l = made ++ x :: later) ∨ ∃ inner, made = l ++ inner ∧ l' = inner ++ x :: rest := by
  rcases List.append_eq_append_iff.1 h with ⟨inner, hmade, hl'⟩ | ⟨later, hl, hlater⟩
  · exact .inr ⟨inner, hmade, hl'⟩
  · cases later with
    | nil => exact .inr ⟨[], by rw [hl, List.append_nil, List.append_nil], hlater.symm⟩
    | cons y later =>
      obtain ⟨rfl, -⟩ := List.cons.inj hlater
      exact .inl ⟨later, hl⟩

/-- A call is made inside of the open node `b`, after these calls. -/
def Inside (file : Path) (b : Node) (made : List (List Node × Call)) (x : List Node × Call) :
    Prop :=
  ∃ before outer inner later, made = before ++ (outer, .node .enter file b) :: inner ∧
    aroundSlots file (b :: outer) b.slots = inner ++ x :: later

theorem Inside.prepend {file : Path} {b : Node} {made : List (List Node × Call)}
    {x : List Node × Call} (h : Inside file b made x) (earlier : List (List Node × Call)) :
    Inside file b (earlier ++ made) x := by
  obtain ⟨before, outer, inner, later, rfl, hslots⟩ := h
  exact ⟨earlier ++ before, outer, inner, later, (List.append_assoc _ _ _).symm, hslots⟩

mutual

/-- A call with an open node around it is made inside of that node. -/
theorem inside_of_around {file : Path} {b : Node} {x : List Node × Call} (hb : b ∈ x.1)
    (outer : List Node) :
    ∀ (n : Node) (made rest : List (List Node × Call)), around file outer n = made ++ x :: rest →
      b ∈ outer ∨ Inside file b made x
  | .mk k slots p own, made, rest, h => by
    cases made with
    | nil =>
      obtain ⟨rfl, -⟩ := List.cons.inj h
      exact .inl hb
    | cons y made =>
      obtain ⟨rfl, hinside⟩ := List.cons.inj h
      -- The call is made below this node, or it is the one that leaves the node.
      rcases append_eq_append_cons hinside with ⟨later, hslots⟩ | ⟨inner, rfl, hexit⟩
      · rcases inside_of_aroundSlots hb _ slots made later hslots with hopen | hdeeper
        · rcases List.mem_cons.1 hopen with rfl | houter
          · exact .inr ⟨[], outer, made, later, rfl, hslots⟩
          · exact .inl houter
        · exact .inr (hdeeper.prepend [_])
      · have hlast : x ∈ [(outer, Call.node .exit file (.mk k slots p own))] := by
          rw [hexit]
          exact List.mem_append_right _ (.head _)
        rw [List.mem_singleton.1 hlast] at hb
        exact .inl hb

theorem inside_of_aroundSlots {file : Path} {b : Node} {x : List Node × Call} (hb : b ∈ x.1)
    (outer : List Node) :
    ∀ (slots : List Slot) (made rest : List (List Node × Call)),
      aroundSlots file outer slots = made ++ x :: rest → b ∈ outer ∨ Inside file b made x
  | [], made, rest, h => absurd h.symm (List.append_ne_nil_of_right_ne_nil _ (List.cons_ne_nil _ _))
  | .node n :: more, made, rest, h => by
    rcases append_eq_append_cons h with ⟨later, hn⟩ | ⟨inner, rfl, hmore⟩
    · exact inside_of_around hb outer n made later hn
    · exact (inside_of_aroundSlots hb outer more inner rest hmore).imp id (·.prepend _)
  | .literal _ :: more, made, rest, h => inside_of_aroundSlots hb outer more made rest h
  | .absent :: more, made, rest, h => inside_of_aroundSlots hb outer more made rest h

end

/-- A check that does not accept a file is not told of its nodes. -/
theorem not_reaches_ofTree {ν : Type} {c : Check ν} {path : Path} (hfile : ¬c.accepts path)
    {root : Node} (h : root.isPlain) : ∀ call ∈ ofTree path root, ¬call.reaches c := by
  intro call hcall hr
  rw [ofTree_of_isPlain path h] at hcall
  obtain ⟨x, hx, rfl⟩ := List.mem_map.1 hcall
  obtain ⟨phase, n, hnode⟩ := (lexical_around path [] root).exists_node hx
  rw [hnode] at hr
  exact hfile (Bool.and_eq_true_iff.1 hr).2

end Call

namespace Run
open Call
variable {ν : Type} {file : Path} {s s' : Session ν}

theorem trees_eq (trees : List (Path × Node)) :
    Attempt.all (trees.map fun x => tree x.2 x.1) = hear (ν := ν) (ofTrees trees) := by
  induction trees with
  | nil => rfl
  | cons x trees ih =>
    have hrest : ofTrees (x :: trees) = ofTree x.1 x.2 ++ ofTrees trees := List.flatMap_cons
    rw [List.map_cons, Attempt.all, ih, tree_eq, hrest, hear_append]

theorem hear_of_append (calls : List Call) {calls' : List Call}
    (h : hear (calls ++ calls') s = (s', none)) :
    ∃ mid, hear calls s = (mid, none) ∧ hear calls' mid = (s', none) := by
  rw [hear_append] at h
  rcases hfirst : hear calls s with ⟨mid, _ | e⟩
  · rw [Attempt.andThen_of_none _ hfirst] at h
    exact ⟨mid, rfl, h⟩
  · rw [Attempt.andThen_of_some _ hfirst] at h
    cases h

/-- A run through a tree is made of entering it, what is below it, and leaving it. -/
theorem hear_below {k : Kind} {slots : List Slot} {p : Option Position} {entered inside : Session ν}
    (henter : announce (.node .enter file (.mk k slots p none)) s = (entered, none))
    (hinside : hear (belowSlots file slots) entered = (inside, none))
    (hexit : announce (.node .exit file (.mk k slots p none)) inside = (s', none)) :
    hear (below file (.mk k slots p none)) s = (s', none) := by
  have hbelow : (Node.mk k slots p none).fileBelow file = file := rfl
  rw [below, hbelow, hear_cons, Attempt.andThen_of_none _ henter, hear_append,
    Attempt.andThen_of_none _ hinside, hear_singleton, hexit]

/-- A property that follows the open nodes at every step follows them through all calls. -/
theorem hear_lexical {Inside : List Node → Session ν → Prop}
    (step : ∀ phase outer n s s', Inside (Phase.openBefore outer n phase) s →
      announce (.node phase file n) s = (s', none) → Inside (phase.openAfter outer n) s')
    {first last : List Node} {calls : List (List Node × Call)}
    (h : Lexical file first calls last) (hs : Inside first s)
    (hrun : hear (calls.map (·.2)) s = (s', none)) : Inside last s' := by
  induction h generalizing s with
  | nil =>
    obtain rfl : s = s' := congrArg Prod.fst hrun
    exact hs
  | @enter outer n rest _ _ ih =>
    obtain ⟨mid, hfirst, hrest⟩ := hear_of_append [.node .enter file n] hrun
    rw [hear_singleton] at hfirst
    exact ih (step .enter outer n s mid hs hfirst) hrest
  | @exit outer n rest _ _ ih =>
    obtain ⟨mid, hfirst, hrest⟩ := hear_of_append [.node .exit file n] hrun
    rw [hear_singleton] at hfirst
    exact ih (step .exit outer n s mid hs hfirst) hrest

/-- What a call makes of the check at a place. -/
theorem announce_at {call : Call} {i : Nat} {c : Check ν} (hc : s.checks[i]? = some c)
    (h : announce call s = (s', none)) :
    (¬call.reaches c ∧ s'.checks[i]? = some c) ∨ (call.reaches c ∧
      ∃ t, (call.answer c t).2.2.2 = none ∧ s'.checks[i]? = some (call.answer c t).1) := by
  obtain ⟨checks, t, notes⟩ := s
  change announceTo call checks t notes = _ at h
  induction checks generalizing t notes i s' with
  | nil => simp at hc
  | cons d checks ih =>
    have hlater {d' : Check ν} {t' : Tables} {notes' : List ν}
        (hstep : ({ (announceTo call checks t' notes').1 with
            checks := d' :: (announceTo call checks t' notes').1.checks },
          (announceTo call checks t' notes').2) = (s', none)) {j : Nat}
        (hj : checks[j]? = some c) : (¬call.reaches c ∧ s'.checks[j + 1]? = some c) ∨
          (call.reaches c ∧ ∃ t, (call.answer c t).2.2.2 = none ∧
            s'.checks[j + 1]? = some (call.answer c t).1) := by
      rcases hrest : announceTo call checks t' notes' with ⟨r, e⟩
      rw [hrest] at hstep
      obtain ⟨rfl, rfl⟩ := Prod.mk.inj hstep
      have later := ih t' notes' hj hrest
      exact later
    by_cases hr : call.reaches d
    · rcases ha : call.answer d t with ⟨d', t', new, _ | e⟩
      · simp only [announceTo, hr, if_true, ha] at h
        cases i with
        | zero =>
          obtain rfl : d = c := by simpa using hc
          refine .inr ⟨hr, t, by rw [ha], ?_⟩
          rw [← (Prod.mk.inj h).1, ha]
          rfl
        | succ j => exact hlater h (by simpa using hc)
      · simp only [announceTo, hr, if_true, ha] at h
        cases h
    · simp only [announceTo, hr, Bool.false_eq_true, if_false] at h
      cases i with
      | zero =>
        obtain rfl : d = c := by simpa using hc
        refine .inl ⟨hr, ?_⟩
        rw [← (Prod.mk.inj h).1]
        rfl
      | succ j => exact hlater h (by simpa using hc)

/-- Calls that do not reach the check at a place leave it alone. -/
theorem hear_at_of_not_reaches {calls : List Call} {i : Nat} {c : Check ν}
    (hc : s.checks[i]? = some c) (hout : ∀ call ∈ calls, ¬call.reaches c)
    (h : hear calls s = (s', none)) : s'.checks[i]? = some c := by
  induction calls generalizing s with
  | nil =>
    obtain rfl : s = s' := congrArg Prod.fst h
    exact hc
  | cons call calls ih =>
    obtain ⟨mid, hfirst, hrest⟩ := hear_of_append [call] h
    rw [hear_singleton] at hfirst
    have hmid : mid.checks[i]? = some c := by
      rcases announce_at hc hfirst with ⟨-, hsame⟩ | ⟨hr, -⟩
      · exact hsame
      · exact absurd hr (hout call (by simp))
    exact ih hmid (fun call hcall => hout call (List.mem_cons_of_mem _ hcall)) hrest

/-- A call in a run of a single check. -/
theorem announce_single {call : Call} {c c' : Check ν} {t t' : Tables} (hr : call.reaches c)
    (h : call.answer c t = (c', t', [], none)) (notes : List ν) :
    announce call ⟨[c], t, notes⟩ = (⟨[c'], t', notes⟩, none) := by
  simp only [announce, announceTo, hr, if_true, h, List.append_nil]

theorem announce_single_of_not_reaches {call : Call} {c : Check ν} (hr : ¬call.reaches c)
    (t : Tables) (notes : List ν) :
    announce call ⟨[c], t, notes⟩ = (⟨[c], t, notes⟩, none) := by
  simp only [announce, announceTo, hr, Bool.false_eq_true, if_false]

theorem hear_single_of_not_reaches {calls : List Call} {c : Check ν}
    (hout : ∀ call ∈ calls, ¬call.reaches c) (t : Tables) (notes : List ν) :
    hear calls ⟨[c], t, notes⟩ = (⟨[c], t, notes⟩, none) := by
  induction calls with
  | nil => rfl
  | cons call calls ih =>
    have hfirst := announce_single_of_not_reaches (hout call (by simp)) t notes
    rw [hear_cons, Attempt.andThen_of_none _ hfirst]
    exact ih fun call hcall => hout call (List.mem_cons_of_mem _ hcall)

/-- If each part of some calls adds its findings to those that were made, all parts do. -/
theorem hear_flatMap {α β : Type} (session : List α → Session ν) (calls : β → List Call)
    (findings : β → List α) {parts : List β}
    (h : ∀ x ∈ parts, ∀ found,
      hear (calls x) (session found) = (session (found ++ findings x), none)) (found : List α) :
    hear (parts.flatMap calls) (session found) =
      (session (found ++ parts.flatMap findings), none) := by
  induction parts generalizing found with
  | nil =>
    rw [List.flatMap_nil, List.flatMap_nil, List.append_nil]
    rfl
  | cons x parts ih =>
    have hrest := ih (fun y hy => h y (.tail _ hy)) (found ++ findings x)
    rw [List.flatMap_cons, List.flatMap_cons, hear_append,
      Attempt.andThen_of_none _ (h x (by simp) found), hrest, List.append_assoc]

/-- What is found in trees is found tree by tree; those of other files are passed over. -/
theorem hear_ofTrees {α : Type} (session : List α → Session ν) {accepts : Path → Bool}
    {findings : Path × Node → List α} {trees : List (Path × Node)}
    (haccepted : ∀ x ∈ trees, accepts x.1 → ∀ found,
      hear (ofTree x.1 x.2) (session found) = (session (found ++ findings x), none))
    (hother : ∀ x ∈ trees, ¬accepts x.1 → ∀ found,
      hear (ofTree x.1 x.2) (session found) = (session found, none)) (found : List α) :
    hear (ofTrees trees) (session found) =
      (session (found ++ (trees.filter fun x => accepts x.1).flatMap findings), none) := by
  have hfilter : (trees.filter fun x => accepts x.1).flatMap findings =
      trees.flatMap fun x => if accepts x.1 then findings x else [] := by
    induction trees with
    | nil => rfl
    | cons x trees ih =>
      have hrest := ih (fun y hy => haccepted y (.tail _ hy)) fun y hy => hother y (.tail _ hy)
      rw [List.flatMap_cons, List.filter_cons, ← hrest]
      split
      · rw [List.flatMap_cons]
      · rfl
  rw [hfilter]
  refine hear_flatMap session _ _ (fun x hx found => ?_) found
  by_cases hfile : accepts x.1
  · rw [if_pos hfile]
    exact haccepted x hx hfile found
  · rw [if_neg hfile, List.append_nil]
    exact hother x hx hfile found

end Run
end RailsReview
