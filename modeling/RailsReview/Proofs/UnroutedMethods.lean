import RailsReview.Proofs.Alone
import RailsReview.Proofs.QuietRuns
import RailsReview.Proofs.UnusedReport

/-!
# Methods that no route leads to

A public method of a controller whose name is used nowhere is reported unless a route leads to a
method of that name. The route counts as a call that does not show its class, as a name in a view
does, so it may lead to any other controller.
-/
namespace RailsReview
open Tables

namespace Node

/-- The node uses the name, passes it to a call, or assigns to the setter of that name. -/
inductive Names (name : String) (n : Node) : Prop
  | uses : name ∈ Usage.namesAt n → Names name n
  | passes {m : Node} : n.kind ∈ [.command, .methodAddArg] → m ∈ n.callArguments →
      name ∈ Usage.names m → Names name n
  | assigns {target : Node} : n.kind = .assign → n.leftValue? = some target →
      target.kind = .varField → target.text ++ "=" = name → Names name n

end Node

def Evidence.name : Evidence → String
  | call _ name => name
  | publish _ name => name

def Mark.name : Mark → String
  | used _ name => name
  | public_ _ name => name
  | called name => name

theorem Evidence.name_of_mem_marks {t : MethodTable} {classes? : Option ClassTable} {e : Evidence}
    {x : Mark} (hx : x ∈ e.marks t classes?) : x.name = e.name := by
  cases e with
  | call className name =>
    rw [marks] at hx
    split at hx
    · cases hx
    · rcases List.mem_append.1 hx with hx | hx
      · obtain ⟨c, -, rfl⟩ := List.mem_map.1 hx
        rfl
      · rw [List.mem_singleton.1 hx]
        rfl
  | publish className name =>
    rw [List.mem_singleton.1 hx]
    rfl

namespace MethodTable
variable {name : String}

/-- Nothing was learned about the methods of that name. -/
structure SameAbout (name : String) (t t' : MethodTable) : Prop where
  records : t'.all.filter (·.name == name) = t.all.filter (·.name == name)
  called : name ∈ t'.calledNames ↔ name ∈ t.calledNames

namespace SameAbout

theorem refl (t : MethodTable) : t.SameAbout name t := ⟨rfl, Iff.rfl⟩

theorem trans {t t' t'' : MethodTable} (h : t.SameAbout name t') (h' : t'.SameAbout name t'') :
    t.SameAbout name t'' :=
  ⟨h'.records.trans h.records, h'.called.trans h.called⟩

theorem mem_all_iff {t t' : MethodTable} (h : t.SameAbout name t') {m : MethodRecord}
    (hm : m.name = name) : m ∈ t'.all ↔ m ∈ t.all := by
  have hmem := congrArg (m ∈ ·) h.records
  simpa [hm] using hmem

theorem mem_unused_iff {t t' : MethodTable} (h : t.SameAbout name t') {m : MethodRecord}
    (hm : m.name = name) : m ∈ t'.unused none ↔ m ∈ t.unused none := by
  rw [mem_unused, mem_unused, h.mem_all_iff hm, hm, h.called]

end SameAbout

theorem sameAbout_update (t : MethodTable) (className : String) {other : String}
    {f : MethodRecord → MethodRecord} (hf : ∀ m, (f m).name = m.name) (hother : other ≠ name) :
    t.SameAbout name (t.update className other f) := by
  have hrecords (ms : List MethodRecord) :
      (ms.map fun m => if m.name = other then f m else m).filter (·.name == name) =
        ms.filter (·.name == name) := by
    induction ms with
    | nil => rfl
    | cons m ms ih =>
      rw [List.map_cons, List.filter_cons, List.filter_cons, ih]
      by_cases hm : m.name = other
      · have hne : m.name ≠ name := hm ▸ hother
        simp [hm, hf, hother]
      · simp [hm]
  refine ⟨?_, Iff.rfl⟩
  simp only [all, Dictionary.values, update, Dictionary.modify, List.filter_flatten, List.map_map]
  congr 1
  apply List.map_congr_left
  intro e _
  by_cases hkey : e.1 = className
  · simp only [Function.comp_apply, hkey, if_true, hrecords]
  · simp only [Function.comp_apply, hkey, if_false]

theorem sameAbout_apply (t : MethodTable) {x : Mark} (hx : x.name ≠ name) :
    t.SameAbout name (x.apply t) := by
  cases x with
  | used className other => exact t.sameAbout_update className (fun _ => rfl) hx
  | public_ className other => exact t.sameAbout_update className (fun _ => rfl) hx
  | called other =>
    refine ⟨rfl, mem_insertSorted.trans (or_iff_right fun heq => hx ?_)⟩
    exact heq.symm

theorem sameAbout_foldl_apply (t : MethodTable) {marks : List Mark}
    (h : ∀ x ∈ marks, x.name ≠ name) : t.SameAbout name (marks.foldl Mark.apply t) := by
  induction marks generalizing t with
  | nil => exact .refl t
  | cons x marks ih =>
    obtain ⟨hx, hrest⟩ := List.forall_mem_cons.1 h
    exact (t.sameAbout_apply hx).trans (ih _ hrest)

end MethodTable

namespace Tables
variable {name : String}

/-- Nothing was learned but of controller methods of other names. -/
structure SameAbout (name : String) (t t' : Tables) : Prop where
  facts : t.SameFacts t'
  methods : t.controllerMethods.SameAbout name t'.controllerMethods

namespace SameAbout

theorem refl (t : Tables) : t.SameAbout name t := ⟨.refl t, .refl _⟩

theorem trans {t t' t'' : Tables} (h : t.SameAbout name t') (h' : t'.SameAbout name t'') :
    t.SameAbout name t'' :=
  ⟨h.facts.trans h'.facts, h.methods.trans h'.methods⟩

end SameAbout

theorem sameFacts_learn (t : Tables) (found : List Evidence) :
    t.SameFacts (t.learn .controllers found) := by
  refine .foldl (fun t e => ?_) found t
  cases e with
  | call className name => exact t.sameFacts_callMethod className name
  | publish className name =>
    exact .withControllerMethods t fun c n => t.controllerMethods.has_publicize className name c n

/-- Evidence about other methods says nothing of those of the name. -/
theorem sameAbout_learn (t : Tables) {found : List Evidence} (h : ∀ e ∈ found, e.name ≠ name) :
    t.SameAbout name (t.learn .controllers found) := by
  refine ⟨t.sameFacts_learn found, ?_⟩
  rw [learn_eq_marks]
  apply MethodTable.sameAbout_foldl_apply
  intro x hx
  obtain ⟨e, he, hmark⟩ := List.mem_flatMap.1 hx
  rw [Evidence.name_of_mem_marks hmark]
  exact h e he

theorem sameAbout_callMethod (t : Tables) (className : String) {other : String}
    (h : other ≠ name) : t.SameAbout name (t.callMethod .controllers className other) :=
  have hother : ∀ e ∈ [Evidence.call className other], e.name ≠ name :=
    List.forall_mem_singleton.2 h
  t.sameAbout_learn hother

/-- A call notes the name of its method. -/
theorem mem_calledNames_learn (t : Tables) {found : List Evidence} {className : String}
    (h : .call className name ∈ found) (hname : name ≠ "") :
    name ∈ (t.learn .controllers found).controllerMethods.calledNames := by
  have hmark : Mark.called name ∈
      (t.learn .controllers found).marksOf .controllers (.call className name) := by
    rw [marksOf, Evidence.marks, if_neg hname]
    exact List.mem_append_right _ (List.mem_singleton_self _)
  exact MethodTable.mem_calledNames_of_noteCall (apply_mark (apply_learn h) hmark)

end Tables

namespace Usage

theorem names_of_hash {n : Node} (h : n.kind = .bareAssocHash ∨ n.kind = .hash) :
    names n = n.hashValues.flatMap fun v => v.elim [] names := by
  have hattach : n.hashValues.flatMap (fun v => v.elim [] names) =
      n.hashValues.attach.flatMap fun x => x.1.elim [] names := by
    conv_lhs => rw [← List.attach_map_subtype_val n.hashValues, List.flatMap_map]
  rw [names.eq_def, hattach]
  rcases h with h | h
  · simp only [h]
    congr 1
    funext x
    rcases x with ⟨v, hv⟩
    cases v <;> rfl
  · simp only [h]
    congr 1
    funext x
    rcases x with ⟨v, hv⟩
    cases v <;> rfl

theorem mem_names_of_hashValue? {n v : Node} {key : String} (h : n.hashValue? key = some v)
    (hv : v.text ≠ "") : v.text ∈ names n := by
  obtain ⟨pair, hpair, hslot⟩ := Option.bind_eq_some_iff.1 h
  have hmem : pair ∈ n.hashPairs := List.mem_of_find?_eq_some hpair
  have hkind : n.kind = .bareAssocHash ∨ n.kind = .hash := by
    by_contra hkind
    obtain ⟨hbare, hhash⟩ := not_or.1 hkind
    unfold Node.hashPairs at hmem
    dsimp only at hmem
    split at hmem
    · contradiction
    · contradiction
    · cases hmem
  rw [names_of_hash hkind]
  exact List.mem_flatMap.2 ⟨some v, List.mem_map.2 ⟨pair, hmem, hslot⟩, mem_names hv⟩

end Usage

namespace Practice
variable {ν : Type} {name : String}

section Marks
variable {t : Tables} {n : Node} {arguments : List Node}

theorem sameAbout_publicizeAll (className : String) (h : ∀ m ∈ arguments, m.text ≠ name) :
    t.SameAbout name (publicizeAll className arguments t) := by
  rw [publicizeAll_eq]
  exact t.sameAbout_learn (List.forall_mem_map.2 h)

theorem sameAbout_markCell (h : ∀ m ∈ arguments, m.text ≠ name) :
    t.SameAbout name (markCell arguments t) := by
  unfold markCell
  split
  · exact t.sameAbout_callMethod _ (h _ (by simp))
  · exact .refl t

theorem sameAbout_markDelegated (moduleName : String) (h : ∀ m ∈ arguments, m.text ≠ name) :
    t.SameAbout name (markDelegated moduleName arguments t) := by
  unfold markDelegated
  split
  · split
    · exact sameAbout_publicizeAll _ fun m hm => h m (List.dropLast_subset _ hm)
    · exact .refl t
  · exact .refl t

variable (hname : name ≠ "") (hn : ¬n.Names name)
include hname hn

/-- A name that is not passed to a call is not the text of an argument. -/
theorem text_ne_of_not_names (hkind : n.kind ∈ [.command, .methodAddArg]) :
    ∀ m ∈ n.callArguments, m.text ≠ name := by
  rintro m hm rfl
  exact hn (.passes hkind hm (Usage.mem_names hname))

theorem sameAbout_markCommand (hkind : n.kind = .command) (classes : ClassScope) :
    t.SameAbout name (markCommand n classes t) := by
  have htexts := text_ne_of_not_names hname hn (by simp [hkind])
  unfold markCommand
  dsimp only
  split
  · exact sameAbout_markCell htexts
  · -- The state is a value of a hash, so it is passed with the hash.
    refine t.sameAbout_callMethod _ ?_
    rintro rfl
    cases hstate : n.callArguments.head?.bind (·.hashValue? "state") with
    | none => exact hname (by rw [hstate]; rfl)
    | some v =>
      rw [hstate] at hname hn
      obtain ⟨m, hm, hv⟩ := Option.bind_eq_some_iff.1 hstate
      exact hn (.passes (by simp [hkind]) (List.mem_of_mem_head? hm)
        (Usage.mem_names_of_hashValue? hv hname))
  · exact sameAbout_publicizeAll _ htexts
  · exact sameAbout_markDelegated _ htexts
  · exact .refl t

theorem sameAbout_markCall (hkind : n.kind = .methodAddArg) (classes : ClassScope) :
    t.SameAbout name (markCall n classes t) := by
  have htexts := text_ne_of_not_names hname hn (by simp [hkind])
  unfold markCall
  dsimp only
  split
  · exact sameAbout_markCell htexts
  · refine t.sameAbout_callMethod _ ?_
    cases hhead : n.callArguments.head? with
    | none => exact hname.symm
    | some m => exact htexts m (List.mem_of_mem_head? hhead)
  · exact .refl t

omit hname in
theorem sameAbout_markSetter (hkind : n.kind = .assign) (classes : ClassScope) :
    t.SameAbout name (markSetter n classes t) := by
  unfold markSetter
  split
  · rename_i target htarget
    split
    · rename_i hfield
      exact t.sameAbout_callMethod _ fun htext =>
        hn (.assigns hkind htarget (by simpa using hfield) htext)
    · exact .refl t
  · exact .refl t

end Marks

theorem sameAbout_markHooks (hhooks : name ∉ InheritedResources.hooks) (s : UsageScope)
    (t : Tables) : t.SameAbout name (markHooks s t) := by
  unfold markHooks
  split
  · split
    · refine List.foldlRecOn _ _ (.refl t) fun t' ht' other hother => ht'.trans ?_
      exact t'.sameAbout_callMethod _ fun heq => hhooks (heq ▸ hother)
    · exact .refl t
  · exact .refl t

/-- At the node the handler finds nothing and learns nothing of methods of the name. -/
def Bypasses (name : String) (n : Node) (h : Handler ν UsageScope Node) : Prop :=
  ∀ site s t, (h site n s t).findings = [] ∧ t.SameAbout name (h site n s t).tables

theorem bypasses_update (f : Node → UsageScope → UsageScope) (n : Node) :
    Bypasses (ν := ν) name n (.update f) := fun _ _ t => ⟨rfl, .refl t⟩

theorem bypasses_record {f : Site → Node → UsageScope → Tables → Tables} {n : Node}
    (h : ∀ site s (t : Tables), t.SameAbout name (f site n s t)) :
    Bypasses (ν := ν) name n (.record f) :=
  fun site s t => ⟨rfl, h site s t⟩

section Review
variable (exceptions : List String) (ignored : List FilePattern)

/-- No handler learns anything of methods of a name at a node that does not have the name. -/
theorem bypasses_unusedActions (hname : name ≠ "") (hhooks : name ∉ InheritedResources.hooks) :
    (unusedSpec (ν := ν) exceptions ignored).AllAt fun _ k g =>
      ∀ n : Node, n.kind = k → ¬n.Names name → Bypasses name n g := by
  have huse (n : Node) (hn : ¬n.Names name) : Bypasses (ν := ν) name n useHandler := by
    refine bypasses_record fun _ s t => ?_
    rw [Usage.mark_eq]
    refine t.sameAbout_learn (List.forall_mem_map.2 fun used hused => ?_)
    rintro rfl
    exact hn (.uses hused)
  unfold unusedSpec unusedActions
  exact Spec.AllAt.start
    |>.trackClasses (fun _ _ f n _ _ => bypasses_update _ n)
    |>.interestedIn _ |>.onEach (fun _ _ n _ hn => huse n hn) |>.interestedIn _
    |>.on (fun n _ _ => bypasses_update _ n)
    |>.on (fun n _ _ => bypasses_record fun _ s t => sameAbout_markHooks hhooks s t)
    |>.on (fun n _ _ => bypasses_update _ n)
    |>.on (fun n hk hn => bypasses_record fun _ s _ => sameAbout_markCommand hname hn hk s.classes)
    |>.on (fun n _ _ => bypasses_update _ n)
    |>.on (fun n _ _ => bypasses_update _ n)
    |>.on (fun n hk hn => bypasses_record fun _ s _ => sameAbout_markCall hname hn hk s.classes)
    |>.on (fun n hk hn => bypasses_record fun _ s _ => sameAbout_markSetter hn hk s.classes)
    |>.withEnd _ |>.withEnd _

theorem handleAll_bypassed (hname : name ≠ "") (hhooks : name ∉ InheritedResources.hooks)
    (site : Site) (phase : Phase) {n : Node} (hn : ¬n.Names name) {t : Tables}
    {e : Effect ν UsageScope} (he : e.findings = [] ∧ t.SameAbout name e.tables) :
    let e' := Run.handleAll site n ((unusedSpec exceptions ignored).handlers phase n.kind) e
    e'.findings = [] ∧ t.SameAbout name e'.tables := by
  refine Run.handleAll_invariant (I := fun e => e.findings = [] ∧ t.SameAbout name e.tables)
    (fun g hg e _ he => ?_) he
  obtain ⟨hnone, hlast⟩ := (bypasses_unusedActions exceptions ignored hname hhooks).handlers g hg
    n rfl hn site e.state e.tables
  exact ⟨by simp [Effect.andThen, he.1, hnone], he.2.trans hlast⟩

/-- Trees in which the name is used nowhere teach nothing about the methods of that name. -/
theorem hear_bypassed (hname : name ≠ "") (hhooks : name ∉ InheritedResources.hooks)
    {calls : List Call} (hnodes : ∀ call ∈ calls, ∃ phase file n, call = .node phase file n)
    (hnames : ∀ phase file n, .node phase file n ∈ calls →
      (unusedSpec (ν := ν) exceptions ignored).accepts file → ¬n.Names name)
    (t : Tables) (notes : List ν) : ∃ st t', t.SameAbout name t' ∧
      Run.hear calls ⟨[unusedActions exceptions ignored], t, notes⟩ =
        (⟨[⟨unusedSpec exceptions ignored, st, []⟩], t', notes⟩, none) := by
  have hquiet : (unusedSpec (ν := ν) exceptions ignored).All Handler.Quiet :=
    (marksUses_unusedActions exceptions ignored).mono fun _ => Handler.MarksUses.quiet
  let Unnamed : List Call → UsageScope → List Diagnostic → Tables → Prop :=
    fun _ _ ds t' => ds = [] ∧ t.SameAbout name t'
  obtain ⟨st, ds, t', hrun, rfl, hsame⟩ := Run.hear_alone (I := Unnamed) hquiet hnodes
    (fun done phase file n st ds t' hcall hfile _ h => by
      obtain ⟨hnone, hsame⟩ := handleAll_bypassed exceptions ignored hname hhooks
        ⟨some file, n.line?⟩ phase (hnames phase file n hcall hfile) (t := t)
        (e := { state := st, tables := t' }) ⟨rfl, h.2⟩
      exact ⟨by rw [hnone, h.1]; rfl, hsame⟩)
    (fun _ _ _ _ _ _ _ _ _ h => h) [] (.intro rfl (.refl t) : Unnamed [] {} [] t) notes
  exact ⟨st, t', hsame, hrun⟩

end Review

theorem mem_routedMethods_congr {t t' : Tables} (h : t.SameFacts t') (r : Route) :
    name ∈ routedMethods t' r ↔ name ∈ routedMethods t r := by
  unfold routedMethods
  split
  · rw [← List.contains_iff_mem, ← List.contains_iff_mem, ← MethodTable.has_eq_names,
      ← MethodTable.has_eq_names, h.has]
  · rfl

/-- Routes to methods of other names teach nothing about those of the name. -/
theorem sameAbout_markRoutes {t : Tables}
    (h : ∀ r ∈ t.routes.routes, name ∉ routedMethods t r) : t.SameAbout name (markRoutes t) := by
  rw [markRoutes_eq]
  refine t.sameAbout_learn fun e he => ?_
  obtain ⟨r, hr, hcall⟩ := List.mem_flatMap.1 he
  obtain ⟨other, hother, rfl⟩ := List.mem_map.1 hcall
  rintro rfl
  exact h r hr hother

/-- A route to a method of the name notes the name, whatever the controller is. -/
theorem mem_calledNames_markRoutes {t : Tables} {r : Route} (hr : r ∈ t.routes.routes)
    (hrouted : name ∈ routedMethods t r) (hname : name ≠ "") :
    name ∈ (markRoutes t).controllerMethods.calledNames := by
  rw [markRoutes_eq]
  exact t.mem_calledNames_learn
    (List.mem_flatMap.2 ⟨r, hr, List.mem_map.2 ⟨name, hrouted, rfl⟩⟩) hname

/-- Once the routes have been read, a public method is unused exactly if it was before and no route
leads to a method of its name. -/
theorem mem_unused_markRoutes {t t' : Tables} {d : MethodRecord} (hsame : t.SameAbout d.name t')
    (hname : d.name ≠ "") (hpublic : d.access = .public_) :
    d ∈ (markRoutes t').controllerMethods.unused none ↔
      d ∈ t.controllerMethods.unused none ∧ ∀ r ∈ t.routes.routes, d.name ∉ routedMethods t r := by
  have hroutes : t.routes = t'.routes := hsame.facts.field _ fun _ => rfl
  by_cases hunrouted : ∀ r ∈ t.routes.routes, d.name ∉ routedMethods t r
  · have hfinal : t.SameAbout d.name (markRoutes t') := by
      refine hsame.trans (sameAbout_markRoutes fun r hr hrouted => ?_)
      rw [← hroutes] at hr
      exact hunrouted r hr ((mem_routedMethods_congr hsame.facts r).1 hrouted)
    rw [hfinal.methods.mem_unused_iff rfl]
    exact (and_iff_left hunrouted).symm
  · refine iff_of_false (fun hunused => hunrouted fun r hr hrouted => ?_) fun h => hunrouted h.2
    refine (MethodTable.mem_unused.1 hunused).2.2 ⟨hpublic, ?_⟩
    rw [hroutes] at hr
    exact mem_calledNames_markRoutes hr ((mem_routedMethods_congr hsame.facts r).2 hrouted) hname

/-- A public method whose name is used nowhere is reported exactly if no use of it was known before
and no route leads to a method of its name. It does not matter to which controller such a route
leads. -/
theorem unnamed_method_reported {ν : Type} (exceptions : List String) (ignored : List FilePattern)
    {trees : List (Path × Node)} {t : Tables} {d : MethodRecord}
    (hkeyed : t.controllerMethods.Keyed) (hd : d ∈ t.controllerMethods.all)
    (hpublic : d.access = .public_) (hfile : FilePattern.anyMatch ignored d.file = false)
    (hexception : (exceptions ++ frameworkMethods).any (isException t.controllers d) = false)
    (hhooks : d.name ∉ InheritedResources.hooks)
    (hnames : ∀ phase file n, .node phase file n ∈ Call.ofTrees trees →
      (unusedActions (ν := ν) exceptions ignored).accepts file → ¬n.Names d.name)
    (notes : List ν) :
    ∃ s : Session ν, review trees ⟨[unusedActions exceptions ignored], t, notes⟩ = (s, none) ∧
      s.diagnostics = ((unusedMethods exceptions ignored s.tables).map unusedFinding).map
        (unusedActions (ν := ν) exceptions ignored).diagnostic ∧
      (d ∈ unusedMethods exceptions ignored s.tables ↔
        d ∈ t.controllerMethods.unused none ∧
          ∀ r ∈ t.routes.routes, d.name ∉ routedMethods t r) := by
  have hname := hkeyed.name_ne hd
  obtain ⟨st, t', hsame, hrun⟩ := hear_bypassed exceptions ignored hname hhooks
    (fun _ => Call.exists_node_of_mem_ofTrees) hnames t notes
  have hreview : review trees ⟨[unusedActions exceptions ignored], t, notes⟩ =
      (⟨[⟨unusedSpec exceptions ignored, st,
        ((unusedMethods exceptions ignored (markRoutes t')).map unusedFinding).map
          (unusedActions (ν := ν) exceptions ignored).diagnostic⟩], markRoutes t', notes⟩,
        none) := by
    rw [review, Run.trees_eq, Attempt.andThen_of_none _ hrun, Run.finish_eq]
    exact Run.announce_single rfl rfl notes
  refine ⟨_, hreview, by rw [Session.diagnostics, List.flatMap_singleton], ?_⟩
  have hcontrollers : (markRoutes t').controllers = t.controllers :=
    (hsame.facts.trans (sameFacts_markRoutes t')).controllers.symm
  have hother : (!FilePattern.anyMatch ignored d.file &&
      !(exceptions ++ frameworkMethods).any (isException t.controllers d)) = true := by
    rw [hfile, hexception]
    rfl
  rw [unusedMethods, List.mem_filter, hcontrollers, hother,
    mem_unused_markRoutes hsame hname hpublic]
  exact and_iff_left rfl

/-- Two controllers with an action of the same name, and a route to the first of them. -/
def indexTables (action : String) : Tables where
  controllers := (({} : ClassTable).add ⟨"PostsController", "ApplicationController", []⟩).add
    ⟨"CommentsController", "ApplicationController", []⟩
  controllerMethods :=
    (({} : MethodTable).add "PostsController" "index"
      ⟨"app/controllers/posts_controller.rb"⟩ 2 .public_).add "CommentsController" "index"
        ⟨"app/controllers/comments_controller.rb"⟩ 2 .public_
  routes := ({} : RouteTable).add [] "posts" action

/-- The action of the second controller. -/
def commentsIndex : MethodRecord :=
  ⟨"CommentsController", "index", .public_, ⟨"app/controllers/comments_controller.rb"⟩, 2, false⟩

theorem keyed_indexTables (action : String) : (indexTables action).controllerMethods.Keyed :=
  (MethodTable.keyed_empty.add "PostsController" "index"
    ⟨"app/controllers/posts_controller.rb"⟩ 2 .public_).add "CommentsController" "index"
      ⟨"app/controllers/comments_controller.rb"⟩ 2 .public_

theorem mem_indexTables (action : String) :
    commentsIndex ∈ (indexTables action).controllerMethods.unused none :=
  List.mem_cons_self

theorem unnamed_method_reported_comments :
    (indexTables "show").controllerMethods.Keyed ∧
      (∀ phase file n, .node phase file n ∈ Call.ofTrees [postsView "title"] →
        ¬n.Names commentsIndex.name) ∧
      ∃ s : Session Empty,
        review [postsView "title"] ⟨[unusedActions [] []], indexTables "show", []⟩ = (s, none) ∧
        s.diagnostics = ((unusedMethods [] [] s.tables).map unusedFinding).map
          (unusedActions (ν := Empty) [] []).diagnostic ∧
        commentsIndex ∈ unusedMethods [] [] s.tables := by
  have hkeyed := keyed_indexTables "show"
  have hd : commentsIndex ∈ (indexTables "show").controllerMethods.all := List.mem_cons_self
  have hnames : ∀ phase file n, .node phase file n ∈ Call.ofTrees [postsView "title"] →
      ¬n.Names commentsIndex.name := by
    intro phase file n hcall
    simp only [Call.ofTrees, Call.ofTree, Call.below, Call.belowSlots, postsView, Node.ofKind,
      List.flatMap_singleton, List.mem_cons, List.append_nil, List.cons_append, List.nil_append,
      List.not_mem_nil, or_false, Call.node.injEq] at hcall
    rcases hcall with ⟨-, -, rfl⟩ | ⟨-, -, rfl⟩ | ⟨-, -, rfl⟩ | ⟨-, -, rfl⟩
    all_goals
      rintro (h | ⟨hkind, -, -⟩ | ⟨hkind, -, -, -⟩)
      · exact absurd h (by decide +kernel)
      · exact absurd hkind (by decide)
      · cases hkind
  obtain ⟨s, hrun, hdiagnostics, hreported⟩ := unnamed_method_reported (ν := Empty) [] [] hkeyed hd
    rfl rfl (by decide +kernel) (by decide +kernel)
    (fun phase file n hcall _ => hnames phase file n hcall) []
  have hunrouted : ∀ r ∈ (indexTables "show").routes.routes,
      commentsIndex.name ∉ routedMethods (indexTables "show") r := by decide +kernel
  exact ⟨hkeyed, hnames, s, hrun, hdiagnostics,
    hreported.2 ⟨mem_indexTables "show", hunrouted⟩⟩

/-- A route to an action of one controller hides the action of the same name of another one that
has nothing to do with it. -/
theorem routed_name_hides_method :
    let t := indexTables "index"
    commentsIndex ∈ t.controllerMethods.unused none ∧
      commentsIndex.name ∉ InheritedResources.hooks ∧
      t.routes.routes.map Route.controllerClass = ["PostsController"] ∧
      t.controllers.superclassOf? "PostsController" = some "ApplicationController" ∧
      t.controllers.superclassOf? "CommentsController" = some "ApplicationController" ∧
      (review (ν := Empty) [] ⟨[unusedActions [] []], t, []⟩).1.diagnostics.map (·.message) = [] :=
  ⟨mem_indexTables "index", by decide +kernel, by decide +kernel, by decide +kernel,
    by decide +kernel, by decide +kernel⟩

end Practice
end RailsReview
