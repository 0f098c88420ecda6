import RailsReview.Practice.Routes
import RailsReview.Proofs.RouteScope

/-!
# Deeply nested resources

How deep a resource is declared can be read off a tree: every block of a resource that it stands in
counts, its own block does not. The review, which goes by the open blocks and by the declarations it
has seen in them, counts the same, but it looks at declarations without a block of their own only.
-/
namespace RailsReview

namespace Routing
open Practice

/-- A resource declaration of a tree. -/
structure ResourceDeclaration where
  call : Node
  /-- The declarations in whose blocks it stands, the innermost first. -/
  outer : List Node
  hasBlock : Bool

/-- Whether a resource is declared `shallow: true`. -/
def declaresShallow (call : Node) : Bool := Node.optionText call.options? "shallow" == "true"

namespace ResourceDeclaration

/-- Whether a declaration stands in `allowed` blocks or more, none of them shallow. -/
def isDeep (allowed : Nat) (d : ResourceDeclaration) : Bool :=
  decide (allowed ≤ d.outer.length) && !d.outer.any declaresShallow

/-- The same declaration in further blocks. -/
def within (outer : List Node) (d : ResourceDeclaration) : ResourceDeclaration :=
  { d with outer := d.outer ++ outer }

end ResourceDeclaration

mutual

/-- The resource declarations of a tree that stands in blocks of `outer`, in the order of the
source. -/
def declarations (outer : List Node) : Node → List ResourceDeclaration
  | .mk k slots p own =>
    let n := Node.mk k slots p own
    if isResourceBlock n then
      match slots with
      | .node call :: body => ⟨call, outer, true⟩ :: declarationsIn (call :: outer) body
      | _ => []
    else (if declaresResource n then [⟨n, outer, false⟩] else []) ++ declarationsIn outer slots

def declarationsIn (outer : List Node) : List Slot → List ResourceDeclaration
  | [] => []
  | .node n :: rest => declarations outer n ++ declarationsIn outer rest
  | _ :: rest => declarationsIn outer rest

end

mutual

/-- Whether every resource block of a tree belongs to a call that declares the resource, and none is
declared among the arguments of that call. -/
def isHeaded : Node → Bool
  | .mk k slots p own =>
    (match slots with
      | .node call :: _ =>
        !isResourceBlock (.mk k slots p own) ||
          (declaresResource call && (declarationsIn [] call.slots).isEmpty)
      | _ => true) && areHeaded slots

def areHeaded : List Slot → Bool
  | [] => true
  | .node n :: rest => isHeaded n && areHeaded rest
  | _ :: rest => areHeaded rest

end

section Declarations
variable {k : Kind} {slots body : List Slot} {p : Option Position} {own : Option Path} {call : Node}

theorem exists_head_of_isResourceBlock (h : isResourceBlock (.mk k slots p own)) :
    ∃ call body, slots = .node call :: body := by
  obtain ⟨hk, hresource⟩ := Bool.and_eq_true_iff.1 h
  obtain rfl : k = .methodAddBlock := eq_of_beq hk
  have hnameless : ¬isResource "" := by decide
  match slots with
  | .node call :: body => exact ⟨call, body, rfl⟩
  | [] | .literal _ :: _ | .absent :: _ => exact absurd hresource hnameless

theorem declarations_of_block (h : isResourceBlock (.mk k (.node call :: body) p own))
    (outer : List Node) : declarations outer (.mk k (.node call :: body) p own) =
      ⟨call, outer, true⟩ :: declarationsIn (call :: outer) body := by
  rw [declarations]
  exact if_pos h

theorem declarations_of_other (h : ¬isResourceBlock (.mk k slots p own)) (outer : List Node) :
    declarations outer (.mk k slots p own) =
      (if declaresResource (.mk k slots p own) then [⟨.mk k slots p own, outer, false⟩] else []) ++
        declarationsIn outer slots := by
  unfold declarations
  exact if_neg h

end Declarations

mutual

/-- The blocks around a tree are around all its declarations. -/
theorem declarations_append (outer : List Node) : ∀ (n : Node) (inner : List Node),
    declarations (inner ++ outer) n = (declarations inner n).map (·.within outer)
  | .mk k slots p own, inner => by
    by_cases h : isResourceBlock (.mk k slots p own)
    · match slots with
      | .node call :: body =>
        rw [declarations_of_block h, declarations_of_block h, List.map_cons,
          ← declarationsIn_append outer body (call :: inner)]
        rfl
      | [] | .literal _ :: _ | .absent :: _ =>
        obtain ⟨_, _, hslots⟩ := exists_head_of_isResourceBlock h
        cases hslots
    · rw [declarations_of_other h, declarations_of_other h, List.map_append,
        ← declarationsIn_append outer slots inner]
      split
      · rfl
      · rfl

theorem declarationsIn_append (outer : List Node) : ∀ (slots : List Slot) (inner : List Node),
    declarationsIn (inner ++ outer) slots = (declarationsIn inner slots).map (·.within outer)
  | [], _ => rfl
  | .node n :: rest, inner => by
    rw [declarationsIn, declarationsIn, List.map_append, declarations_append outer n inner,
      declarationsIn_append outer rest inner]
  | .literal _ :: rest, inner => declarationsIn_append outer rest inner
  | .absent :: rest, inner => declarationsIn_append outer rest inner

end

theorem declarationsIn_eq_nil {slots : List Slot} (h : declarationsIn [] slots = [])
    (outer : List Node) : declarationsIn outer slots = [] := by
  have happend := declarationsIn_append outer slots []
  rwa [h, List.nil_append, List.map_nil] at happend

end Routing

namespace RouteBlock
open Routing

theorem of_resource {n : Node} (h : isResource n.messageText) :
    ∃ name controller, of n = resource name controller
      (Node.optionText ((n.slot? 0).bind Node.options?) "shallow" == "true") false := by
  have hspace : n.messageText ≠ "namespace" := by
    intro hn
    rw [hn] at h
    exact absurd h (by decide)
  have hscope : n.messageText ≠ "scope" := by
    intro hn
    rw [hn] at h
    exact absurd h (by decide)
  exact ⟨_, _, (if_neg hspace).trans ((if_neg hscope).trans (if_pos h))⟩

theorem of_other {n : Node} (h : ¬isResource n.messageText) :
    of n = other ∨ ∃ name, of n = space name := by
  unfold of
  by_cases hspace : n.messageText = "namespace"
  · exact .inr ⟨_, if_pos hspace⟩
  · rw [if_neg hspace]
    by_cases hscope : n.messageText = "scope"
    · exact .inr ⟨_, if_pos hscope⟩
    · rw [if_neg hscope, if_neg h]
      exact .inl rfl

end RouteBlock

namespace RouteScope
open Practice Routing
variable {outer : List Node} {s : RouteScope} {n : Node}

/-- The scope where the blocks of these resources are open and their declarations were seen. -/
structure StandsIn (outer : List Node) (s : RouteScope) : Prop where
  settled : s.visitResource = (some s.depth, s)
  depth : s.depth = outer.length
  inShallow : s.inShallow = outer.any declaresShallow

theorem StandsIn.start : StandsIn [] {} := ⟨rfl, rfl, rfl⟩

theorem StandsIn.inside (h : s.StandsIn outer) (hn : ¬isResourceBlock n) :
    (s.inside n).StandsIn outer := by
  unfold RouteScope.inside
  by_cases hk : n.kind = .methodAddBlock
  · have hmessage : ¬isResource n.messageText := by
      intro hresource
      exact hn (Bool.and_eq_true_iff.2 ⟨beq_iff_eq.2 hk, hresource⟩)
    rw [if_pos hk, enter]
    rcases RouteBlock.of_other hmessage with hblock | ⟨name, hblock⟩
    · rw [hblock]
      exact ⟨rfl, h.depth, h.inShallow⟩
    · rw [hblock]
      exact ⟨rfl, h.depth, h.inShallow⟩
  · rwa [if_neg hk]

/-- The first declaration in the block of a resource is the one that it belongs to. -/
theorem StandsIn.head (h : s.StandsIn outer) (hn : isResourceBlock n) {call : Node}
    (hcall : n.slot? 0 = some call) :
    (s.enter n).visitResource.1 = none ∧
      (s.enter n).visitResource.2.StandsIn (call :: outer) ∧
      (s.enter n).visitResource.2.leave = s := by
  obtain ⟨name, controller, hblock⟩ := RouteBlock.of_resource (Bool.and_eq_true_iff.1 hn).2
  rw [hcall] at hblock
  rw [enter, hblock]
  refine ⟨rfl, ⟨rfl, ?_, ?_⟩, rfl⟩
  · rw [List.length_cons, ← h.depth]
    simp [visitResource, RouteScope.depth, resourceNames, RouteBlock.resourceName?]
  · rw [List.any_cons, ← h.inShallow]
    simp [visitResource, RouteScope.inShallow, RouteBlock.isShallow, declaresShallow]

end RouteScope

namespace Practice
open Routing
variable {ν : Type}

theorem isTooDeep_of_not_declaresResource {n : Node} (h : ¬declaresResource n) (allowed : Nat)
    (s : RouteScope) : isTooDeep allowed n s = false := by
  rw [isTooDeep, eq_false_of_ne_true h, Bool.false_and, Bool.false_and]

theorem isTooDeep_of_standsIn {outer : List Node} {s : RouteScope} (h : s.StandsIn outer)
    {n : Node} (hn : declaresResource n) (allowed : Nat) :
    isTooDeep allowed n s = ResourceDeclaration.isDeep allowed ⟨n, outer, false⟩ := by
  rw [isTooDeep, hn, h.settled, h.depth, h.inShallow]
  rfl

/-- What the review reports of a node that is too deep. -/
def nestingFinding (allowed : Nat) (file : Path) (n : Node) : Finding :=
  Site.finding ⟨some file, n.line?⟩
    ("needless deep nesting (nested_count > " ++ toString allowed ++ ")")

theorem followsRoutes_nestedRoutes (allowed : Nat) (ignored : List FilePattern) :
    (nestedRoutes (ν := ν) allowed ignored).spec.FollowsRoutes
      [.report fun site n scope _ => if isTooDeep allowed n scope then
          [site.finding ("needless deep nesting (nested_count > " ++ toString allowed ++ ")")]
        else [],
        .update visitResource] where
  kinds k := by simp [nestedRoutes, Spec.trackRoutes]
  enterBlock := rfl
  leaveBlock := rfl
  enterCall k hk := by
    have hnodup : callKinds.Nodup := by decide
    have hblock := ne_block_of_mem_callKinds hk
    simp [hblock.symm, hk, hnodup, nestedRoutes, Spec.trackRoutes]
  leaveCall k hk := by
    have hnodup : callKinds.Nodup := by decide
    have hblock := ne_block_of_mem_callKinds hk
    simp [hblock.symm, hnodup, nestedRoutes, Spec.trackRoutes]

section Steps
variable (allowed : Nat) (ignored : List FilePattern) (t : Tables) (notes : List ν)

/-- The review alone, with these blocks open and these findings made. -/
def nesting (s : RouteScope) (found : List Finding) : Session ν :=
  let check := nestedRoutes allowed ignored
  ⟨[⟨check.spec, s, found.map check.diagnostic⟩], t, notes⟩

variable (s : RouteScope) (found : List Finding) {file : Path}
  (hfile : (nestedRoutes (ν := ν) allowed ignored).accepts file) (n : Node)
include hfile

theorem announce_enter_nesting :
    Run.announce (.node .enter file n) (nesting allowed ignored t notes s found) =
      (nesting allowed ignored t notes (visitResource n (s.inside n))
        (found ++ if isTooDeep allowed n s then [nestingFinding allowed file n] else []),
        none) := by
  have hsilent (site : Site) (n : Node) (s : RouteScope) (h : ¬declaresResource n) :
      (if isTooDeep allowed n s then
        [site.finding ("needless deep nesting (nested_count > " ++ toString allowed ++ ")")]
      else []) = [] := by
    rw [isTooDeep_of_not_declaresResource h, if_neg Bool.false_ne_true]
  have hreview := (followsRoutes_nestedRoutes (ν := ν) allowed ignored).announce_review
    (fun site n s _ => hsilent site n s) hfile s
    (found.map (nestedRoutes (ν := ν) allowed ignored).diagnostic) t notes (n := n)
  rw [nesting, nesting, List.map_append]
  exact hreview

/-- The declaration that a block belongs to is not reported. -/
theorem announce_enter_head {n : Node} (hn : declaresResource n)
    (hhead : s.visitResource.1 = none) :
    Run.announce (.node .enter file n) (nesting allowed ignored t notes s found) =
      (nesting allowed ignored t notes s.visitResource.2 found, none) := by
  have hinside : s.inside n = s :=
    if_neg (ne_block_of_mem_callKinds (mem_callKinds_of_declaresResource hn))
  have hdeep : isTooDeep allowed n s = false := by
    rw [isTooDeep, hhead, Option.any_none, Bool.and_false, Bool.false_and]
  rw [announce_enter_nesting allowed ignored t notes s found hfile, hinside, hdeep,
    if_neg Bool.false_ne_true, List.append_nil, visitResource, if_pos hn]

theorem announce_exit_nesting :
    Run.announce (.node .exit file n) (nesting allowed ignored t notes s found) =
      (nesting allowed ignored t notes (s.follow .exit n) found, none) :=
  (followsRoutes_nestedRoutes allowed ignored).announce_other s _ t notes hfile (.inl rfl)

end Steps

/-- What is reported of declarations: those that are deep, if they have no block of their own. -/
def nestingFindings (allowed : Nat) (file : Path) (ds : List ResourceDeclaration) : List Finding :=
  (ds.filter fun d => !d.hasBlock && d.isDeep allowed).map fun d =>
    nestingFinding allowed file d.call

theorem nestingFindings_append (allowed : Nat) (file : Path) (ds ds' : List ResourceDeclaration) :
    nestingFindings allowed file (ds ++ ds') =
      nestingFindings allowed file ds ++ nestingFindings allowed file ds' := by
  rw [nestingFindings, List.filter_append, List.map_append]
  rfl

theorem nestingFindings_withBlock (allowed : Nat) (file : Path) (call : Node) (outer : List Node)
    (ds : List ResourceDeclaration) :
    nestingFindings allowed file (⟨call, outer, true⟩ :: ds) = nestingFindings allowed file ds :=
  rfl

/-- What is reported of a node that is not a resource block, apart from the nodes below it. -/
theorem nestingFindings_own {outer : List Node} {s : RouteScope} (h : s.StandsIn outer) (n : Node)
    (allowed : Nat) (file : Path) :
    nestingFindings allowed file (if declaresResource n then [⟨n, outer, false⟩] else []) =
      if isTooDeep allowed n s then [nestingFinding allowed file n] else [] := by
  by_cases hn : declaresResource n
  · rw [if_pos hn, isTooDeep_of_standsIn h hn, nestingFindings]
    cases hdeep : ResourceDeclaration.isDeep allowed ⟨n, outer, false⟩ with
    | true => simp [hdeep]
    | false => simp [hdeep]
  · rw [if_neg hn, isTooDeep_of_not_declaresResource hn, if_neg Bool.false_ne_true]
    rfl

theorem StandsIn.visitResource_inside {outer : List Node} {s : RouteScope} (h : s.StandsIn outer)
    {n : Node} (hn : ¬isResourceBlock n) :
    (visitResource n (s.inside n)).StandsIn outer ∧
      (visitResource n (s.inside n)).follow .exit n = s := by
  have hinside := h.inside hn
  have hsame : visitResource n (s.inside n) = s.inside n := by
    unfold visitResource
    split
    · rw [hinside.settled]
    · rfl
  rw [hsame]
  exact ⟨hinside, s.follow_exit_inside n⟩

theorem kind_of_isResourceBlock {n : Node} (h : isResourceBlock n) : n.kind = .methodAddBlock :=
  eq_of_beq (Bool.and_eq_true_iff.1 h).1

theorem not_declaresResource_of_block {n : Node} (h : isResourceBlock n) : ¬declaresResource n :=
  fun hn => ne_block_of_mem_callKinds (mem_callKinds_of_declaresResource hn)
    (kind_of_isResourceBlock h)

theorem visitResource_inside_block {n : Node} (h : isResourceBlock n) (s : RouteScope) :
    visitResource n (s.inside n) = s.enter n := by
  rw [visitResource_of_not_declaresResource (not_declaresResource_of_block h)]
  exact if_pos (kind_of_isResourceBlock h)

theorem declaresResource_of_head {k : Kind} {call : Node} {body : List Slot} {p : Option Position}
    {own : Option Path} (hblock : isResourceBlock (.mk k (.node call :: body) p own))
    (hhead : (!isResourceBlock (.mk k (.node call :: body) p own) ||
      (declaresResource call && (declarationsIn [] call.slots).isEmpty)) = true) :
    declaresResource call ∧ declarationsIn [] call.slots = [] := by
  rw [hblock, Bool.not_true, Bool.false_or, Bool.and_eq_true, List.isEmpty_iff] at hhead
  exact hhead

section Trees
variable {allowed : Nat} {ignored : List FilePattern} {t : Tables} {notes : List ν} {file : Path}

/-- What is found in the body of a resource block is found in the block, after which the open blocks
are what they were. -/
theorem hear_block (hfile : (nestedRoutes (ν := ν) allowed ignored).accepts file)
    {outer : List Node} {s : RouteScope} (h : s.StandsIn outer) {k k' : Kind}
    {arguments body : List Slot} {p p' : Option Position} {found found' : List Finding}
    (hblock : isResourceBlock (.mk k (.node (.mk k' arguments p' none) :: body) p none))
    (hcall : declaresResource (.mk k' arguments p' none))
    (harguments : let scope :=
        (s.enter (.mk k (.node (.mk k' arguments p' none) :: body) p none)).visitResource.2
      Run.hear (Call.belowSlots file arguments) (nesting allowed ignored t notes scope found) =
        (nesting allowed ignored t notes scope found, none))
    (hbody : let scope :=
        (s.enter (.mk k (.node (.mk k' arguments p' none) :: body) p none)).visitResource.2
      Run.hear (Call.belowSlots file body) (nesting allowed ignored t notes scope found) =
        (nesting allowed ignored t notes scope found', none)) :
    Run.hear (Call.below file (.mk k (.node (.mk k' arguments p' none) :: body) p none))
        (nesting allowed ignored t notes s found) =
      (nesting allowed ignored t notes s found', none) := by
  obtain ⟨hunmarked, -, hleft⟩ := h.head hblock rfl
  have hnotCall := not_declaresResource_of_block hblock
  have henter := announce_enter_nesting allowed ignored t notes s found hfile
    (.mk k (.node (.mk k' arguments p' none) :: body) p none)
  rw [visitResource_inside_block hblock, isTooDeep_of_not_declaresResource hnotCall,
    if_neg Bool.false_ne_true, List.append_nil] at henter
  have hexit := announce_exit_nesting allowed ignored t notes
    (s.enter (.mk k (.node (.mk k' arguments p' none) :: body) p none)).visitResource.2 found' hfile
    (.mk k (.node (.mk k' arguments p' none) :: body) p none)
  rw [RouteScope.follow, if_pos (kind_of_isResourceBlock hblock), hleft] at hexit
  have hexitCall := announce_exit_nesting allowed ignored t notes
    (s.enter (.mk k (.node (.mk k' arguments p' none) :: body) p none)).visitResource.2 found hfile
    (.mk k' arguments p' none)
  rw [RouteScope.follow_of_not_block (ne_block_of_mem_callKinds
    (mem_callKinds_of_declaresResource hcall))] at hexitCall
  have hhead := Run.hear_below
    (announce_enter_head allowed ignored t notes _ found hfile hcall hunmarked) harguments hexitCall
  refine Run.hear_below henter ?_ hexit
  rw [Call.belowSlots, Run.hear_append, Attempt.andThen_of_none _ hhead]
  exact hbody

mutual

/-- Where nothing is left to be seen of the open blocks, a tree leaves them as they are, and its
deep declarations are found. -/
theorem hear_below_nesting (hfile : (nestedRoutes (ν := ν) allowed ignored).accepts file) :
    ∀ n : Node, n.isPlain → isHeaded n → ∀ (outer : List Node) (s : RouteScope)
      (found : List Finding), s.StandsIn outer →
    Run.hear (Call.below file n) (nesting allowed ignored t notes s found) =
      (nesting allowed ignored t notes s
        (found ++ nestingFindings allowed file (declarations outer n)), none)
  | .mk k slots p own, hplain, hheaded, outer, s, found, h => by
    simp only [Node.isPlain, Bool.and_eq_true, Option.isNone_iff_eq_none] at hplain
    obtain ⟨rfl, hslots⟩ := hplain
    obtain ⟨hhead, hheads⟩ := Bool.and_eq_true_iff.1 hheaded
    by_cases hblock : isResourceBlock (.mk k slots p none)
    · match slots with
      | .node (.mk k' slots' p' own') :: body =>
        simp only [Node.arePlain, Node.isPlain, Bool.and_eq_true,
          Option.isNone_iff_eq_none] at hslots
        obtain ⟨⟨rfl, hslots'⟩, hbody⟩ := hslots
        simp only [areHeaded, isHeaded, Bool.and_eq_true] at hheads
        obtain ⟨⟨-, hheads'⟩, hheadsBody⟩ := hheads
        obtain ⟨hcall, hnone⟩ := declaresResource_of_head hblock hhead
        obtain ⟨-, hstands, -⟩ := h.head hblock rfl
        have harguments := hear_belowSlots_nesting hfile slots' hslots' hheads' _ _ found hstands
        have hempty : declarationsIn [] slots' = [] := hnone
        rw [declarationsIn_eq_nil hempty, nestingFindings, List.filter_nil, List.map_nil,
          List.append_nil] at harguments
        have hinside := hear_belowSlots_nesting hfile body hbody hheadsBody _ _ found hstands
        rw [← nestingFindings_withBlock, ← declarations_of_block hblock] at hinside
        exact hear_block hfile h hblock hcall harguments hinside
      | [] | .literal _ :: _ | .absent :: _ =>
        obtain ⟨_, _, hslots⟩ := exists_head_of_isResourceBlock hblock
        cases hslots
    · have henter := announce_enter_nesting allowed ignored t notes s found hfile
        (.mk k slots p none)
      obtain ⟨hstands, hleft⟩ := StandsIn.visitResource_inside h hblock
      have hinside := hear_belowSlots_nesting hfile slots hslots hheads outer _
        (found ++ nestingFindings allowed file
          (if declaresResource (.mk k slots p none) then [⟨.mk k slots p none, outer, false⟩]
          else [])) hstands
      have hexit := announce_exit_nesting allowed ignored t notes
        (visitResource (.mk k slots p none) (s.inside (.mk k slots p none)))
        (found ++ nestingFindings allowed file (declarations outer (.mk k slots p none))) hfile
        (.mk k slots p none)
      rw [hleft] at hexit
      rw [← nestingFindings_own h] at henter
      rw [List.append_assoc, ← nestingFindings_append, ← declarations_of_other hblock] at hinside
      exact Run.hear_below henter hinside hexit

theorem hear_belowSlots_nesting (hfile : (nestedRoutes (ν := ν) allowed ignored).accepts file) :
    ∀ slots : List Slot, Node.arePlain slots → areHeaded slots → ∀ (outer : List Node)
      (s : RouteScope) (found : List Finding), s.StandsIn outer →
    Run.hear (Call.belowSlots file slots) (nesting allowed ignored t notes s found) =
      (nesting allowed ignored t notes s
        (found ++ nestingFindings allowed file (declarationsIn outer slots)), none)
  | [], _, _, outer, s, found, _ => by
    rw [declarationsIn, nestingFindings, List.filter_nil, List.map_nil, List.append_nil]
    rfl
  | .node n :: rest, hplain, hheaded, outer, s, found, h => by
    simp only [Node.arePlain, Bool.and_eq_true] at hplain
    simp only [areHeaded, Bool.and_eq_true] at hheaded
    rw [Call.belowSlots, Run.hear_append,
      Attempt.andThen_of_none _ (hear_below_nesting hfile n hplain.1 hheaded.1 outer s found h),
      hear_belowSlots_nesting hfile rest hplain.2 hheaded.2 outer s _ h, declarationsIn,
      nestingFindings_append, List.append_assoc]
  | .literal _ :: rest, hplain, hheaded, outer, s, found, h =>
    hear_belowSlots_nesting hfile rest hplain hheaded outer s found h
  | .absent :: rest, hplain, hheaded, outer, s, found, h =>
    hear_belowSlots_nesting hfile rest hplain hheaded outer s found h

end

end Trees

/-- The review reports every declaration without a block that stands in `allowed` resource blocks or
more, none of them shallow, once and at its line, in the order of the source. It reports nothing
else, and no declaration that has a block of its own. -/
theorem deep_leaves_reported (allowed : Nat) (ignored : List FilePattern) (t : Tables)
    (notes : List ν) (trees : List (Path × Node)) (hplain : ∀ x ∈ trees, x.2.isPlain)
    (hheaded : ∀ x ∈ trees, isHeaded x.2) :
    let check := nestedRoutes (ν := ν) allowed ignored
    Attempt.all (trees.map fun x => Run.tree x.2 x.1) ⟨[check], t, notes⟩ =
      (⟨[{ check with
        diagnostics := ((trees.filter fun x => check.accepts x.1).flatMap fun x =>
          ((declarations [] x.2).filter fun d => !d.hasBlock && d.isDeep allowed).map fun d =>
            nestingFinding allowed x.1 d.call).map check.diagnostic }], t, notes⟩, none) := by
  intro check
  rw [Run.trees_eq]
  refine Run.hear_ofTrees (nesting allowed ignored t notes {}) ?_ ?_ []
  · intro x hx hfile found
    rw [Call.ofTree_of_isPlain x.1 (hplain x hx), Call.around_calls x.1 [] x.2 (hplain x hx)]
    exact hear_below_nesting hfile x.2 (hplain x hx) (hheaded x hx) [] {} found .start
  · intro x hx hfile found
    exact Run.hear_single_of_not_reaches (c := ⟨check.spec, {}, found.map check.diagnostic⟩)
      (Call.not_reaches_ofTree hfile (hplain x hx)) t notes

/-- The call `resources` with a name, written on a line. -/
def resourceOn (line : Nat) (name : String) : Node :=
  let word (s : String) (p : Option Position) := Node.mk .identifier [.literal (.str s)] p none
  .ofKind .command [.node (word "resources" (some ⟨line, 0⟩)),
    .node (.ofKind .list [.node (.ofKind .symbolLiteral [.node (word name none)])])]

def withBlock (call : Node) (body : List Node) : Node :=
  .ofKind .methodAddBlock [.node call,
    .node (.ofKind .doBlock [.absent, .node (.ofKind .list (body.map .node))])]

/-- A declaration in the blocks of two resources. -/
def nestedTwice (likes : Node) : Node :=
  withBlock (resourceOn 1 "posts") [withBlock (resourceOn 2 "comments") [likes]]

theorem deep_leaves_reported_likes :
    let trees := [((⟨"config/routes.rb"⟩ : Path), nestedTwice (resourceOn 3 "likes"))]
    (∀ x ∈ trees, x.2.isPlain) ∧ (∀ x ∈ trees, isHeaded x.2) ∧
      (Attempt.all (trees.map fun x => Run.tree x.2 x.1)
        (⟨[nestedRoutes 2 []], {}, []⟩ : Session Empty)).1.diagnostics.map (·.lines) = [[3]] := by
  intro trees
  have hplain : ∀ x ∈ trees, x.2.isPlain := by decide +kernel
  have hheaded : ∀ x ∈ trees, isHeaded x.2 := by decide +kernel
  refine ⟨hplain, hheaded, ?_⟩
  have hreported := deep_leaves_reported (ν := Empty) 2 [] {} [] trees hplain hheaded
  rw [hreported]
  decide +kernel

/-- The same declaration with a block of its own stands as deep, but is not reported. -/
theorem block_hides_deep_resource :
    let root := nestedTwice (withBlock (resourceOn 3 "likes") [])
    root.isPlain ∧ isHeaded root ∧
      (∃ d ∈ declarations [] root, d.isDeep 2 ∧ d.hasBlock ∧ d.call.line? = some 3) ∧
      (Run.tree root ⟨"config/routes.rb"⟩
        (⟨[nestedRoutes 2 []], {}, []⟩ : Session Empty)).1.diagnostics.map (·.lines) = [] := by
  decide +kernel

end Practice
end RailsReview
