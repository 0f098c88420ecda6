import RailsReview.Proofs.Alone
import RailsReview.Scope.Access

/-!
# The access section around a node

An access word switches the innermost open section wherever it stands. So the access of a section is
that of the last word in the part of the tree that belongs to the section and not to a nested one,
be it a statement of the body or something inside of one.
-/
namespace RailsReview

namespace Node

/-- The access that a bare word gives to its section. -/
def bareAccess? (n : Node) : Option Access :=
  match n.kind with
  | .variableCall | .varRef => Access.ofName? n.text
  | _ => none

def opensSection (n : Node) : Bool := Spec.sectionKinds.contains n.kind

mutual

/-- The access words of a tree in order, but for those in nested sections. -/
def switches : Node → List Access
  | .mk k slots p own =>
    let n := Node.mk k slots p own
    if n.opensSection then [] else n.bareAccess?.toList ++ switchesIn slots

def switchesIn : List Slot → List Access
  | [] => []
  | .node n :: rest => switches n ++ switchesIn rest
  | _ :: rest => switchesIn rest

end

theorem switchesIn_eq (slots : List Slot) :
    switchesIn slots = (slots.filterMap Slot.node?).flatMap switches := by
  induction slots with
  | nil => rfl
  | cons slot slots ih =>
    cases slot with
    | node n => exact congrArg (n.switches ++ ·) ih
    | literal l => exact ih
    | absent => exact ih

end Node

/-- The access of a section after some words. -/
def Access.after (a : Access) (words : List Access) : Access := words.getLast?.getD a

theorem Access.after_append (a : Access) (words more : List Access) :
    a.after (words ++ more) = (a.after words).after more := by
  simp only [after, List.getLast?_append]
  cases more.getLast? <;> rfl

namespace AccessScope

/-- What becomes of the scope at a node. -/
def follow (phase : Phase) (n : Node) (s : AccessScope) : AccessScope :=
  match phase with
  | .enter =>
    if n.opensSection then s.openSection
    else if n.kind = .command then s.beginInline n
    else n.bareAccess?.elim s s.switch
  | .exit =>
    if n.opensSection then s.closeSection
    else if n.kind = .command then s.endInline n
    else s

/-- What becomes of the scope at a call, if the file is one of those that are looked at. -/
def hear (accepts : Path → Bool) (s : AccessScope) : Call → AccessScope
  | .node phase file n => if accepts file then s.follow phase n else s
  | _ => s

/-- What becomes of the scope through calls. -/
def hearAll (accepts : Path → Bool) (s : AccessScope) (calls : List Call) : AccessScope :=
  calls.foldl (hear accepts) s

variable {accepts : Path → Bool} {s : AccessScope} {file : Path} {n : Node} {top : Access}
  {rest : List Access}

theorem hearAll_append (accepts : Path → Bool) (s : AccessScope) (calls more : List Call) :
    s.hearAll accepts (calls ++ more) = (s.hearAll accepts calls).hearAll accepts more :=
  List.foldl_append

@[simp] theorem sections_openSection (s : AccessScope) :
    s.openSection.sections = .public_ :: s.sections := rfl

@[simp] theorem sections_closeSection (s : AccessScope) :
    s.closeSection.sections = s.sections.tail := rfl

theorem bareAccess?_other (hcall : n.kind ≠ .variableCall) (href : n.kind ≠ .varRef) :
    n.bareAccess? = none := by
  rw [Node.bareAccess?]
  split
  · contradiction
  · contradiction
  · rfl

/-- A kind that has nothing to do with access changes nothing. -/
theorem follow_other (h : n.kind ∉ Spec.sectionKinds ++ [.variableCall, .varRef, .command])
    (phase : Phase) (s : AccessScope) : s.follow phase n = s := by
  simp only [List.mem_append, List.mem_cons, List.not_mem_nil, or_false, not_or] at h
  obtain ⟨hsection, hcall, href, hcommand⟩ := h
  have hopen : ¬n.opensSection := fun hopen => hsection (List.contains_iff_mem.1 hopen)
  cases phase with
  | enter => rw [follow, if_neg hopen, if_neg hcommand, bareAccess?_other hcall href, Option.elim]
  | exit => rw [follow, if_neg hopen, if_neg hcommand]

section Sections

theorem bareAccess?_of_command (h : n.kind = .command) : n.bareAccess? = none :=
  bareAccess?_other (by simp [h]) (by simp [h])

/-- A node that opens no section may switch the one that it is in. -/
theorem sections_follow_enter (h : ¬n.opensSection) (hs : s.sections = top :: rest) :
    (s.follow .enter n).sections = top.after n.bareAccess?.toList :: rest := by
  rw [follow, if_neg h]
  by_cases hcommand : n.kind = .command
  · rw [if_pos hcommand, bareAccess?_of_command hcommand, beginInline]
    split
    · exact hs
    · exact hs
  · rw [if_neg hcommand]
    cases n.bareAccess? with
    | none => exact hs
    | some a => simp [switch, hs, Access.after]

theorem sections_follow_exit (h : ¬n.opensSection) (s : AccessScope) :
    (s.follow .exit n).sections = s.sections := by
  rw [follow, if_neg h]
  split
  · rw [endInline]
    split
    · rfl
    · rfl
  · rfl

mutual

/-- A tree switches the section around it to its last access word. -/
theorem sections_around (hfile : accepts file) (outer : List Node) (rest : List Access) :
    ∀ (n : Node) (s : AccessScope) (top : Access), s.sections = top :: rest →
      (s.hearAll accepts ((Call.around file outer n).map (·.2))).sections =
        top.after n.switches :: rest
  | .mk k slots p own, s, top, hs => by
    let n := Node.mk k slots p own
    have hcalls : s.hearAll accepts ((Call.around file outer n).map (·.2)) =
        ((s.follow .enter n).hearAll accepts
          ((Call.aroundSlots file (n :: outer) slots).map (·.2))).follow .exit n := by
      simp [n, Call.around, hearAll, hear, hfile]
    rw [hcalls]
    by_cases hopen : n.opensSection
    · -- What is switched inside is the new section, which is closed in the end.
      have henter : (s.follow .enter n).sections = .public_ :: top :: rest := by
        rw [follow, if_pos hopen, sections_openSection, hs]
      have hinside := sections_aroundSlots hfile (n :: outer) (top :: rest) slots _ _ henter
      have hnone : n.switches = [] := by simp only [n, Node.switches, if_pos hopen]
      have hexit (s' : AccessScope) : s'.follow .exit n = s'.closeSection := by
        rw [follow, if_pos hopen]
      rw [hnone, hexit, sections_closeSection, hinside]
      rfl
    · have hinside := sections_aroundSlots hfile (n :: outer) rest slots _ _
        (sections_follow_enter hopen hs)
      have hwords : n.switches = n.bareAccess?.toList ++ Node.switchesIn slots := by
        simp only [n, Node.switches, if_neg hopen]
      rw [sections_follow_exit hopen, hinside, hwords, Access.after_append]

theorem sections_aroundSlots (hfile : accepts file) (outer : List Node) (rest : List Access) :
    ∀ (slots : List Slot) (s : AccessScope) (top : Access), s.sections = top :: rest →
      (s.hearAll accepts ((Call.aroundSlots file outer slots).map (·.2))).sections =
        top.after (Node.switchesIn slots) :: rest
  | [], s, top, hs => hs
  | .node n :: slots, s, top, hs => by
    have hfirst := sections_around hfile outer rest n s top hs
    rw [Call.aroundSlots, List.map_append, hearAll_append, Node.switchesIn, Access.after_append]
    exact sections_aroundSlots hfile outer rest slots _ _ hfirst
  | .literal _ :: slots, s, top, hs => sections_aroundSlots hfile outer rest slots s top hs
  | .absent :: slots, s, top, hs => sections_aroundSlots hfile outer rest slots s top hs

end

end Sections

section Inline

/-- If a definition comes with an access of its own, it is that of a command that is open. -/
def InlineOf (outer : List Node) (s : AccessScope) : Prop :=
  s.inline?.isSome → ∃ m ∈ outer, m.kind = .command ∧ (inlineAccess? m).isSome

theorem inlineOf_follow {phase : Phase} {outer : List Node}
    (h : s.InlineOf (phase.openBefore outer n)) :
    (s.follow phase n).InlineOf (phase.openAfter outer n) := by
  cases phase with
  | enter =>
    have hkept {s' : AccessScope} (hsame : s'.inline? = s.inline?) : s'.InlineOf (n :: outer) := by
      intro hsome
      obtain ⟨m, hm, hcommand⟩ := h (hsame ▸ hsome)
      exact ⟨m, List.mem_cons_of_mem _ hm, hcommand⟩
    rw [follow]
    split
    · exact hkept rfl
    · split
      · rename_i hcommand
        rw [beginInline]
        split
        · rename_i a hinline
          exact fun _ => ⟨n, List.mem_cons_self, hcommand, by rw [hinline]; rfl⟩
        · exact hkept rfl
      · cases n.bareAccess? with
        | none => exact hkept rfl
        | some a => exact hkept rfl
  | exit =>
    -- The command is still open unless it is the one that is left.
    have hkept {s' : AccessScope} (hsame : s'.inline? = s.inline?)
        (hn : ¬(n.kind = .command ∧ (inlineAccess? n).isSome)) : s'.InlineOf outer := by
      intro hsome
      obtain ⟨m, hm, hcommand⟩ := h (hsame ▸ hsome)
      rcases List.mem_cons.1 hm with rfl | hm
      · exact absurd hcommand hn
      · exact ⟨m, hm, hcommand⟩
    rw [follow]
    split
    · rename_i hopen
      refine hkept rfl fun hn => ?_
      rw [Node.opensSection, hn.1] at hopen
      cases hopen
    · split
      · rw [endInline]
        split
        · exact nofun
        · rename_i hinline
          exact hkept rfl fun hn => hinline hn.2
      · rename_i hcommand
        exact hkept rfl fun hn => hcommand hn.1

/-- What comes with an access of its own is inside of the command, at every call. -/
theorem inlineOf_hearAll {first last : List Node} {calls : List (List Node × Call)}
    (hcalls : Call.Lexical file first calls last) (hfile : accepts file) (h : s.InlineOf first) :
    (s.hearAll accepts (calls.map (·.2))).InlineOf last := by
  induction hcalls generalizing s with
  | nil outer => exact h
  | @enter outer n rest _ _ ih =>
    have hfirst : (s.follow .enter n).InlineOf (n :: outer) := inlineOf_follow h
    rw [List.map_cons, hearAll, List.foldl_cons, hear, if_pos hfile]
    exact ih hfirst
  | @exit outer n rest _ _ ih =>
    have hfirst : (s.follow .exit n).InlineOf outer := inlineOf_follow h
    rw [List.map_cons, hearAll, List.foldl_cons, hear, if_pos hfile]
    exact ih hfirst

/-- After trees no definition is being made. -/
theorem inlineOf_trees {trees : List (Path × Node)} (hplain : ∀ x ∈ trees, x.2.isPlain)
    (h : s.InlineOf []) : (s.hearAll accepts (Call.ofTrees trees)).InlineOf [] := by
  induction trees generalizing s with
  | nil => exact h
  | cons x trees ih =>
    obtain ⟨hroot, hrest⟩ := List.forall_mem_cons.1 hplain
    have hcalls : Call.ofTrees (x :: trees) = Call.ofTree x.1 x.2 ++ Call.ofTrees trees :=
      List.flatMap_cons
    have hlexical := Call.lexical_around x.1 [] x.2
    rw [hcalls, hearAll_append, Call.ofTree_of_isPlain x.1 hroot]
    refine ih hrest ?_
    by_cases hfile : accepts x.1
    · exact inlineOf_hearAll hlexical hfile h
    · have hskipped : s.hearAll accepts ((Call.around x.1 [] x.2).map (·.2)) = s := by
        refine List.foldlRecOn (motive := (· = s)) _ _ rfl fun s' hs' call hcall => ?_
        obtain ⟨y, hy, rfl⟩ := List.mem_map.1 hcall
        obtain ⟨phase, n, hnode⟩ := hlexical.exists_node hy
        rw [hs', hnode, hear, if_neg hfile]
      rwa [hskipped]

end Inline

end AccessScope

namespace Spec
variable {ν σ : Type}

/-- The same update at nodes of several kinds. -/
def updatesAt (phase : Phase) (kinds : List Kind) (f : Node → σ → σ) :
    List ((Phase × Kind) × Handler ν σ Node) := kinds.map fun k => ((phase, k), .update f)

/-- The handlers that keep track of access sections. -/
def accessHandlers (scope : Field σ AccessScope) : List ((Phase × Kind) × Handler ν σ Node) :=
  updatesAt .enter sectionKinds (fun _ => scope.modify .openSection) ++
    updatesAt .exit sectionKinds (fun _ => scope.modify .closeSection) ++
    updatesAt .enter [.variableCall, .varRef] (fun n => scope.modify (.switchAt n)) ++
    updatesAt .enter [.command] (fun n => scope.modify (.beginInline n)) ++
    updatesAt .exit [.command] (fun n => scope.modify (.endInline n))

theorem trackAccess_onNode (scope : Field σ AccessScope) (s : Spec ν σ) :
    (s.trackAccess scope).onNode = s.onNode ++ accessHandlers scope := by
  simp [trackAccess, on, onEach, interestedIn, sectionKinds, accessHandlers, updatesAt]

/-- A check that tracks access sections. Its other handlers leave the scope alone. -/
structure TracksAccess (scope : Field σ AccessScope) (s : Spec ν σ) : Prop where
  onNode : ∃ earlier later, s.onNode = earlier ++ (accessHandlers scope ++ later) ∧
    ∀ h ∈ earlier ++ later, h.2.Keeps scope
  kinds : sectionKinds ++ [.variableCall, .varRef, .command] ⊆ s.kinds
  lawful : scope.Lawful

variable {scope : Field σ AccessScope} {spec : Spec ν σ} {site : Site} {phase : Phase} {n : Node}

theorem handleAll_accessHandlers (hscope : scope.Lawful) {e : Effect ν σ} (he : e.failure = none) :
    scope.get (Run.handleAll site n (addedFor phase n.kind (accessHandlers scope)) e).state =
      (scope.get e.state).follow phase n := by
  by_cases hkind : n.kind ∈ sectionKinds ++ [.variableCall, .varRef, .command]
  · simp only [sectionKinds, List.mem_append, List.mem_cons, List.not_mem_nil, or_false] at hkind
    rcases hkind with (hk | hk | hk) | hk | hk | hk
    all_goals cases phase <;>
      simp [addedFor, accessHandlers, updatesAt, sectionKinds, AccessScope.follow,
        Node.opensSection, Node.bareAccess?, hk, Run.handleAll, he, Handler.update, Field.modify,
        hscope _ _, AccessScope.switchAt]
  · have hnone : addedFor phase n.kind (accessHandlers (ν := ν) scope) = [] := by
      simp only [sectionKinds, List.mem_append, List.mem_cons, List.not_mem_nil, or_false,
        not_or] at hkind
      obtain ⟨⟨hclass, hmodule, hsingleton⟩, hcall, href, hcommand⟩ := hkind
      simp [addedFor, accessHandlers, updatesAt, sectionKinds, Ne.symm hclass, Ne.symm hmodule,
        Ne.symm hsingleton, Ne.symm hcall, Ne.symm href, Ne.symm hcommand]
    rw [hnone, AccessScope.follow_other hkind]
    rfl

namespace TracksAccess

/-- What the check makes of its scope at a node. -/
theorem handleAll (h : spec.TracksAccess scope) (hquiet : spec.All Handler.Quiet) (site : Site)
    (phase : Phase) (n : Node) (st : σ) (t : Tables) :
    scope.get (Run.handleAll site n (spec.handlers phase n.kind)
      { state := st, tables := t }).state = (scope.get st).follow phase n := by
  obtain ⟨earlier, later, honNode, hkept⟩ := h.onNode
  have hkept' {hs : List ((Phase × Kind) × Handler ν σ Node)} (hs' : hs ⊆ earlier ++ later) :
      ∀ g ∈ addedFor phase n.kind hs, g.Keeps scope := fun g hg =>
    hkept _ (hs' (mem_addedFor.1 hg))
  have hearlier := hkept' (List.subset_append_left earlier later)
  have hlater := hkept' (List.subset_append_right earlier later)
  have hquiet' : ∀ g ∈ addedFor phase n.kind earlier, g.Quiet := fun g hg =>
    hquiet.onNode _ (by rw [honNode]; exact List.mem_append_left _ (mem_addedFor.1 hg))
  have hhandlers : spec.handlers phase n.kind = addedFor phase n.kind spec.onNode := rfl
  have hstart : ({ state := st, tables := t } : Effect ν σ).failure = none := rfl
  have hok : (Run.handleAll site n (addedFor phase n.kind earlier)
      { state := st, tables := t }).failure = none := (Run.handleAll_quiet hquiet' rfl hstart).2
  rw [hhandlers, honNode, addedFor_append, addedFor_append, Run.handleAll_append,
    Run.handleAll_append, Run.handleAll_keeps hlater, handleAll_accessHandlers h.lawful hok,
    Run.handleAll_keeps hearlier]

/-- A check that tracks access follows the calls when it runs alone. -/
theorem hear (h : spec.TracksAccess scope) (hquiet : spec.All Handler.Quiet) {calls : List Call}
    (hnodes : ∀ call ∈ calls, ∃ phase file n, call = .node phase file n) (st : σ)
    (ds : List Diagnostic) (t : Tables) (notes : List ν) :
    ∃ st' ds' t', Run.hear calls ⟨[⟨spec, st, ds⟩], t, notes⟩ =
        (⟨[⟨spec, st', ds'⟩], t', notes⟩, none) ∧
      scope.get st' = (scope.get st).hearAll spec.accepts calls := by
  let Follows : List Call → σ → List Diagnostic → Tables → Prop :=
    fun done st' _ _ => scope.get st' = (scope.get st).hearAll spec.accepts done
  have hstep {done : List Call} {st' : σ} {phase : Phase} {file : Path} {n : Node}
      (hdone : scope.get st' = (scope.get st).hearAll spec.accepts done) :
      (scope.get st).hearAll spec.accepts (done ++ [.node phase file n]) =
        if spec.accepts file then (scope.get st').follow phase n else scope.get st' := by
    rw [AccessScope.hearAll_append, ← hdone]
    rfl
  refine Run.hear_alone (I := Follows) hquiet hnodes ?_ ?_ [] rfl notes
  · intro done phase file n st' ds' t' _ hfile _ hdone
    exact (h.handleAll hquiet _ phase n st' t').trans ((hstep hdone).trans (if_pos hfile)).symm
  · intro done phase file n st' ds' t' _ hout hdone
    refine ((hstep hdone).trans ?_).symm
    split
    · rename_i hfile
      exact AccessScope.follow_other (fun hkind => hout ⟨hfile, h.kinds hkind⟩) _ _
    · rfl

end TracksAccess

theorem AllAt.tracksAccess (h : spec.AllAt fun _ _ g => g.Keeps scope) (hscope : scope.Lawful) :
    (spec.trackAccess scope).TracksAccess scope := by
  refine ⟨⟨spec.onNode, [], ?_, ?_⟩, ?_, hscope⟩
  · rw [trackAccess_onNode, List.append_nil]
  · rw [List.append_nil]
    exact h
  · intro k hk
    have hkinds : (spec.trackAccess scope).kinds =
        (spec.interestedIn (sectionKinds ++ [.variableCall, .varRef, .command])).kinds := by
      simp only [Spec.trackAccess, kinds_on, kinds_onEach]
    rw [hkinds]
    exact mem_interestedIn.2 (.inr hk)

namespace TracksAccess

theorem interestedIn (h : spec.TracksAccess scope) (kinds : List Kind) :
    (spec.interestedIn kinds).TracksAccess scope :=
  ⟨h.onNode, fun _ hk => mem_interestedIn.2 (.inl (h.kinds hk)), h.lawful⟩

theorem on (h : spec.TracksAccess scope) {phase : Phase} {k : Kind} {g : Handler ν σ Node}
    (hg : g.Keeps scope) : (spec.on phase k g).TracksAccess scope := by
  obtain ⟨⟨earlier, later, honNode, hkept⟩, hkinds, hscope⟩ := h
  refine ⟨⟨earlier, later ++ [((phase, k), g)], ?_, ?_⟩, hkinds, hscope⟩
  · simp only [Spec.on, honNode, List.append_assoc]
  · rw [← List.append_assoc]
    exact List.forall_mem_append.2 ⟨hkept, List.forall_mem_singleton.2 hg⟩

end TracksAccess

end Spec
end RailsReview
