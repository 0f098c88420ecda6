import RailsReview.Proofs.RouteSpelling

/-!
# Parentheses in routes

A route may be declared by a call with parentheses or by one without. Whichever calls of a tree are
given parentheses, the checks that read routes come to the same.
-/
namespace RailsReview

namespace Node

/-- The slots of a call without parentheses, its arguments put in parentheses. -/
def enclose : List Slot → List Slot
  | [] => []
  | name :: args => [.node (.ofKind .functionCall [name]), .node (.ofKind .argParen args)]

mutual

/-- The tree with parentheses in the chosen calls. A call is chosen by its place, which is given by
the slots that lead to it. -/
def parenthesize (chosen : List Nat → Bool) : Node → Node
  | .mk k slots p own =>
    let inside := parenthesizeSlots chosen 0 slots
    if chosen [] && isBareCall (.mk k slots p own) then .mk .methodAddArg (enclose inside) p own
    else .mk k inside p own

/-- The same of the slots from place `i` on. -/
def parenthesizeSlots (chosen : List Nat → Bool) (i : Nat) : List Slot → List Slot
  | [] => []
  | .node n :: rest =>
    .node (parenthesize (fun place => chosen (i :: place)) n) ::
      parenthesizeSlots chosen (i + 1) rest
  | s :: rest => s :: parenthesizeSlots chosen (i + 1) rest

end

mutual

theorem parenthesize_none : ∀ n : Node, n.parenthesize (fun _ => false) = n
  | .mk k slots p own => by
    rw [parenthesize, Bool.false_and, if_neg Bool.false_ne_true, parenthesizeSlots_none 0 slots]

theorem parenthesizeSlots_none (i : Nat) :
    ∀ slots : List Slot, parenthesizeSlots (fun _ => false) i slots = slots
  | [] => rfl
  | .node n :: rest => by
    rw [parenthesizeSlots, parenthesize_none n, parenthesizeSlots_none (i + 1) rest]
  | .literal l :: rest => congrArg (Slot.literal l :: ·) (parenthesizeSlots_none (i + 1) rest)
  | .absent :: rest => congrArg (Slot.absent :: ·) (parenthesizeSlots_none (i + 1) rest)

end

/-- Every call of a name may be chosen, and chosen alone. -/
theorem parenthesize_of_token {name args : Node} (hname : name.kind.isToken)
    (hparts : name.children = []) (hargs : args.kind ≠ .assocNew) (p : Option Position)
    (own : Option Path) :
    (mk .command [.node name, .node args] p own).parenthesize List.isEmpty =
      mk .methodAddArg [.node (.ofKind .functionCall [.node name]),
        .node (.ofKind .argParen [.node args])] p own := by
  have hinside : parenthesizeSlots List.isEmpty 0 [.node name, .node args] =
      [.node name, .node args] := parenthesizeSlots_none 0 [.node name, .node args]
  rw [parenthesize, isBareCall_of_token hname hparts hargs p own, hinside]
  rfl

example :
    let name := Node.ofKind .identifier [.literal (.str "resources")]
    let args := Node.ofKind .list [.node (.ofKind .identifier [.literal (.str "posts")])]
    (Node.ofKind .command [.node name, .node args]).parenthesize (fun _ => true) =
      .ofKind .methodAddArg [.node (.ofKind .functionCall [.node name]),
        .node (.ofKind .argParen [.node args])] := by
  rfl

/-- Nodes without and with parentheses. -/
def Parenthesized (n n' : Node) : Prop := ∃ chosen, n.parenthesize chosen = n'

theorem paired_parenthesizeSlots (chosen : List Nat → Bool) (i : Nat) (slots : List Slot) :
    List.Forall₂ (Slot.Paired Parenthesized) slots (parenthesizeSlots chosen i slots) := by
  induction slots generalizing i with
  | nil => exact .nil
  | cons s rest ih =>
    cases s with
    | node n => exact .cons (.node ⟨_, rfl⟩) (ih (i + 1))
    | literal l => exact .cons (.literal l) (ih (i + 1))
    | absent => exact .cons .absent (ih (i + 1))

theorem exists_of_isBareCall {n : Node} (h : n.isBareCall) :
    ∃ name args p own, n = .mk .command [.node name, args] p own := by
  unfold isBareCall at h
  split at h
  · exact ⟨_, _, _, _, rfl⟩
  · cases h

theorem parenthesized_respells : Respells id Parenthesized := by
  rintro ⟨k, slots, p, own⟩ n' ⟨chosen, rfl⟩
  have hslots := paired_parenthesizeSlots chosen 0 slots
  have hline : p.map Position.line = p.map fun x => id x.line := rfl
  rw [parenthesize]
  generalize parenthesizeSlots chosen 0 slots = inside at hslots
  split
  · rename_i hchosen
    have hcall := (Bool.and_eq_true_iff.1 hchosen).2
    obtain ⟨name, args, _, _, hn⟩ := exists_of_isBareCall hcall
    cases hn
    cases hslots with
    | cons hname hrest =>
      cases hname with
      | node hname =>
        cases hrest with
        | cons hargs hnil =>
          cases hnil with
          | nil => exact .parentheses hcall hname hargs hline
  · exact .aligned (.mk hslots hline)

end Node

variable {ν σ : Type}

namespace Handler

/-- A handler that does the same at a node, whatever parentheses the calls there are given. -/
def Overlooks (k : Kind) (g : Handler ν σ Node) : Prop :=
  ∀ {n n'}, Node.Parenthesized n n' → n.kind = k → ∀ site s t, g site n' s t = g site n s t

end Handler

/-- A check to which a call with parentheses is the same as one without. -/
structure Spec.Overlooks (s : Spec ν σ) : Prop where
  parts : .functionCall ∉ s.kinds ∧ .argParen ∉ s.kinds
  calls : Kind.methodAddArg ∈ s.kinds ↔ Kind.command ∈ s.kinds
  handlers : ∀ phase, s.handlers phase .methodAddArg = s.handlers phase .command
  nodes : s.AllAt fun _ k g => g.Overlooks k

def Check.Overlooks (c : Check ν) : Prop := c.spec.Overlooks

theorem Check.overlooks_congr {c c' : Check ν} (hd : c.design = c'.design) (h : c.Overlooks) :
    c'.Overlooks := by
  obtain ⟨s, ds, rfl⟩ := Check.eq_of_design_eq hd
  exact h

theorem Node.line?_parenthesized {n n' : Node} (hn : Parenthesized n n') : n'.line? = n.line? := by
  rw [line?_eq_of_rel parenthesized_respells.mirrors hn]
  exact congrFun Option.map_id n.line?

theorem Check.Overlooks.equates {c : Check ν} (hc : c.Overlooks) {n n' : Node}
    (hn : Node.Parenthesized n n') (phase : Phase) : c.Equates phase n n' where
  kinds := by
    refine (Node.parenthesized_respells.mirrors hn).congr_kind (g := c.kinds.contains) ?_
    rw [Bool.eq_iff_iff, List.contains_iff_mem, List.contains_iff_mem]
    exact hc.calls
  handlers := (Node.parenthesized_respells.mirrors hn).congr_kind (hc.handlers phase)
  nodes g hg := hc.nodes.handlers g hg hn rfl

/-- A session all of whose checks overlook parentheses. -/
def Session.Overlooks (s : Session ν) : Prop := ∀ c ∈ s.checks, c.Overlooks

namespace Call
open Node

theorem heardAlike_parenthesized {n n' : Node} (hn : Parenthesized n n') (phase : Phase)
    (file : Path) :
    HeardAlike (ν := ν) Check.Overlooks [.node phase file n'] [.node phase file n] :=
  .node_of_equates (line?_parenthesized hn) fun _ hc => hc.equates hn phase

/-- What nobody listens to may be left out around other calls. -/
theorem heardAlike_ofKind {k : Kind} (hk : ∀ c : Check ν, c.Overlooks → k ∉ c.kinds) (file : Path)
    (slots : List Slot) :
    HeardAlike (ν := ν) Check.Overlooks (below file (.ofKind k slots)) (belowSlots file slots) :=
  .around_idle Check.overlooks_congr
    (fun _ => .node_of_idle fun c hc hkind => absurd hkind (hk c hc)) (.refl _)

theorem heardAlike_enclose (file : Path) (slots : List Slot) :
    HeardAlike (ν := ν) Check.Overlooks (belowSlots file (enclose slots))
      (belowSlots file slots) := by
  cases slots with
  | nil => exact .refl _
  | cons name args =>
    have hcons : belowSlots file (name :: args) = belowSlots file [name] ++ belowSlots file args :=
      belowSlots_append file [name] args
    rw [hcons, enclose, belowSlots, belowSlots, belowSlots, List.append_nil]
    exact (heardAlike_ofKind (fun c hc => hc.parts.1) file [name]).append Check.overlooks_congr
      (heardAlike_ofKind (fun c hc => hc.parts.2) file args)

mutual

theorem heardAlike_parenthesize (parent : Path) : ∀ (n : Node) (chosen : List Nat → Bool),
    HeardAlike (ν := ν) Check.Overlooks (below parent (n.parenthesize chosen)) (below parent n)
  | .mk k slots p own, chosen => by
    have hinside (file : Path) := heardAlike_parenthesizeSlots file slots chosen 0
    -- With parentheses or without, the node is heard around the same slots.
    have hn : Parenthesized (.mk k slots p own) _ := ⟨chosen, rfl⟩
    rw [parenthesize] at hn ⊢
    by_cases hchosen : chosen [] && isBareCall (.mk k slots p own)
    · rw [if_pos hchosen] at hn ⊢
      exact .around Check.overlooks_congr (heardAlike_parenthesized hn · _)
        ((heardAlike_enclose _ _).trans (hinside _))
    · rw [if_neg hchosen] at hn ⊢
      exact .around Check.overlooks_congr (heardAlike_parenthesized hn · _) (hinside _)

theorem heardAlike_parenthesizeSlots (file : Path) :
    ∀ (slots : List Slot) (chosen : List Nat → Bool) (i : Nat),
      HeardAlike (ν := ν) Check.Overlooks (belowSlots file (parenthesizeSlots chosen i slots))
        (belowSlots file slots)
  | [], _, _ => .refl _
  | .node n :: rest, chosen, i => by
    rw [parenthesizeSlots, belowSlots, belowSlots]
    exact (heardAlike_parenthesize file n _).append Check.overlooks_congr
      (heardAlike_parenthesizeSlots file rest chosen (i + 1))
  | .literal _ :: rest, chosen, i => heardAlike_parenthesizeSlots file rest chosen (i + 1)
  | .absent :: rest, chosen, i => heardAlike_parenthesizeSlots file rest chosen (i + 1)

end

end Call

namespace Run
open Node

/-- Parentheses make no difference to checks that overlook them. -/
theorem tree_parenthesize (chosen : List Nat → Bool) (root : Node) (path : Path) {s : Session ν}
    (hs : s.Overlooks) : tree (root.parenthesize chosen) path s = tree root path s := by
  have hfile : (root.parenthesize chosen).file? = root.file? := by
    obtain ⟨k, slots, p, own⟩ := root
    rw [parenthesize]
    split
    · rfl
    · rfl
  rw [tree_eq, tree_eq, Call.ofTree, Call.ofTree, hfile]
  exact Call.heardAlike_parenthesize _ root chosen s hs

end Run

/-- The survey of routes and the two reviews of declared resources. -/
inductive RouteReader where
  | survey
  | routeOptions
  | nestedRoutes (allowed : Nat)

/-- One of these checks in the middle of a run. -/
structure RouteCheck where
  reader : RouteReader
  ignored : List FilePattern
  scope : RouteScope
  diagnostics : List Diagnostic

namespace RouteCheck

def spec (c : RouteCheck) : Spec ν RouteScope :=
  match c.reader with
  | .survey => (Survey.routes c.ignored).spec
  | .routeOptions => (Practice.routeOptions c.ignored).spec
  | .nestedRoutes allowed => (Practice.nestedRoutes allowed c.ignored).spec

def check (c : RouteCheck) : Check ν := ⟨c.spec, c.scope, c.diagnostics⟩

end RouteCheck

section Readers
open Node Routing

/-- A check that keeps the open route blocks and listens to calls, before it does anything else. -/
theorem Spec.overlooks_start {name : String} {url : Option String}
    {files ignored : List FilePattern} :
    ((Spec.trackRoutes .whole { name, url, files, ignored } :
      Spec ν RouteScope).interestedIn callKinds).Overlooks where
  parts := by simp [trackRoutes, callKinds]
  calls := by simp [trackRoutes, callKinds]
  handlers phase := by simp [trackRoutes]
  nodes := Spec.respects_start parenthesized_respells.recounts

theorem Spec.Overlooks.onCalls {s : Spec ν σ} (h : s.Overlooks) (phase : Phase)
    {g : Handler ν σ Node} (hg : ∀ k, g.Overlooks k) : (s.onEach phase callKinds g).Overlooks where
  parts := by
    rw [kinds_onEach]
    exact h.parts
  calls := by
    rw [kinds_onEach]
    exact h.calls
  handlers phase' := by
    have hnodup : callKinds.Nodup := by decide
    rw [handlers_onEach _ _ _ _ _ hnodup, handlers_onEach _ _ _ _ _ hnodup, h.handlers]
    simp only [callKinds, List.mem_cons, true_or, or_true]
  nodes := h.nodes.onEach fun k _ => hg k

theorem Survey.overlooks_routes (ignored : List FilePattern) :
    (routes (ν := ν) ignored).Overlooks :=
  Spec.overlooks_start.onCalls _ (respects_addRoutes parenthesized_respells.recounts)

namespace Practice

theorem overlooks_routeOptions (ignored : List FilePattern) :
    (routeOptions (ν := ν) ignored).Overlooks :=
  Spec.overlooks_start.onCalls _ (respects_excessRoutes parenthesized_respells.recounts)
    |>.onCalls _ (respects_visitResource parenthesized_respells.mirrors)

theorem overlooks_nestedRoutes (allowed : Nat) (ignored : List FilePattern) :
    (nestedRoutes (ν := ν) allowed ignored).Overlooks :=
  Spec.overlooks_start.onCalls _ (respects_isTooDeep parenthesized_respells.mirrors allowed _)
    |>.onCalls _ (respects_visitResource parenthesized_respells.mirrors)

end Practice

theorem RouteCheck.overlooks_check (c : RouteCheck) : (c.check (ν := ν)).Overlooks := by
  obtain ⟨reader, ignored, scope, ds⟩ := c
  cases reader with
  | survey => exact Survey.overlooks_routes ignored
  | routeOptions => exact Practice.overlooks_routeOptions ignored
  | nestedRoutes allowed => exact Practice.overlooks_nestedRoutes allowed ignored

end Readers

/-- Parentheses do not matter in routes: whichever calls of a tree are given parentheses, the routes
that are recorded and everything that is reported about them are the same. -/
theorem RouteCheck.parentheses_irrelevant (chosen : List Nat → Bool) (root : Node) (path : Path)
    (checks : List RouteCheck) (t : Tables) (notes : List ν) :
    Run.tree (root.parenthesize chosen) path ⟨checks.map check, t, notes⟩ =
      Run.tree root path ⟨checks.map check, t, notes⟩ := by
  refine Run.tree_parenthesize chosen root path fun c hc => ?_
  obtain ⟨c, _, rfl⟩ := List.mem_map.1 hc
  exact c.overlooks_check

example :
    let word (k : Kind) (s : String) := Node.ofKind k [.literal (.str s)]
    let symbol (s : String) := Node.ofKind .symbolLiteral [.node (word .identifier s)]
    let call (name argument : String) := Node.ofKind .command
      [.node (word .identifier name), .node (.ofKind .list [.node (symbol argument)])]
    let root := Node.ofKind .methodAddBlock [.node (call "resource" "account"),
      .node (.ofKind .doBlock [.absent, .node (call "get" "bills")])]
    let start : Session Empty := ⟨[RouteCheck.check ⟨.survey, [], {}, []⟩], {}, []⟩
    let found (root : Node) :=
      (Run.tree root ⟨"config/routes.rb"⟩ start).1.tables.routes.routes.map Route.text
    found (root.parenthesize fun _ => true) = found root ∧
      (found root).getLast? = some "AccountsController#bills" := by
  decide +kernel

end RailsReview
