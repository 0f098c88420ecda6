import RailsReview.Proofs.UsageOrder
import RailsReview.Proofs.UsedMethods

/-!
# Reports of unused methods

In an analysis with the checks of a configuration, the review of unused methods comes to what it
comes to alone. So it reports no method that a name in a tree may mean, and none that a route leads
to.
-/
namespace RailsReview
variable {ν : Type}

namespace Node

/-- The node uses the name: it sends it, reads it like a variable, gives it another name, decides by
it, or passes it to a command. -/
inductive Mentions (name : String) (n : Node) : Prop
  | sends {m : Node} : n.kind ∈ [.call, .commandCall, .functionCall, .command] →
      n.message? = some m → m.text = name → Mentions name n
  | reads : n.kind ∈ [.variableCall, .varRef] → n.text = name → Mentions name n
  | renames {m : Node} : n.kind = .aliasDef → n.oldName? = some m → m.text = name → Mentions name n
  | decides {m : Node} : n.kind = .assocNew → textOf (n.slot? 0) ∈ ["if", "unless"] →
      n.slot? 1 = some m → m.text = name → Mentions name n
  | passes {m : Node} : n.kind = .command → m ∈ n.callArguments → m.text = name → Mentions name n

theorem text_of_collection {n : Node} (h : n.kind ∈ [.bareAssocHash, .hash, .array]) :
    n.text = "" := by
  obtain ⟨k, slots, p, own⟩ := n
  simp only [kind, List.mem_cons, List.not_mem_nil, or_false] at h
  rcases h with rfl | rfl | rfl
  all_goals rfl

end Node

namespace Usage

theorem mem_names {e : Node} (h : e.text ≠ "") : e.text ∈ names e := by
  have hkind : e.kind ∉ [.bareAssocHash, .hash, .array] := fun hk => h (Node.text_of_collection hk)
  simp only [List.mem_cons, List.not_mem_nil, or_false, not_or] at hkind
  obtain ⟨hpairs, hhash, harray⟩ := hkind
  rw [names.eq_def]
  split
  · contradiction
  · contradiction
  · contradiction
  · exact List.mem_singleton_self _

/-- A name that is mentioned is used, unless it is empty. -/
theorem mem_namesAt {n : Node} {name : String} (h : n.Mentions name) (hname : name ≠ "") :
    name ∈ namesAt n := by
  have of_expression {e : Node} (he : some e ∈ expressions n) (htext : e.text = name) :
      name ∈ namesAt n := by
    refine List.mem_flatMap.2 ⟨some e, he, ?_⟩
    rw [← htext]
    exact mem_names (by rw [htext]; exact hname)
  cases h with
  | sends hkind hm htext =>
    refine of_expression ?_ htext
    simp only [List.mem_cons, List.not_mem_nil, or_false] at hkind
    rcases hkind with hk | hk | hk | hk
    all_goals simp [expressions, hk, hm]
  | reads hkind htext =>
    refine of_expression ?_ htext
    simp only [List.mem_cons, List.not_mem_nil, or_false] at hkind
    rcases hkind with hk | hk
    all_goals simp [expressions, hk]
  | renames hkind hm htext => exact of_expression (by simp [expressions, hkind, hm]) htext
  | decides hkind hkey hm htext =>
    refine of_expression ?_ htext
    have hcondition : conditionKeys.contains (Node.textOf (n.slot? 0)) :=
      List.contains_iff_mem.2 hkey
    simp only [expressions, hkind, hcondition, if_true, hm, List.mem_singleton]
  | passes hkind hm htext => exact of_expression (by simp [expressions, hkind, hm]) htext

end Usage

/-- The route leads to the method. -/
def Route.LeadsTo (r : Route) (m : MethodRecord) : Prop :=
  r.controllerClass = m.className ∧ (r.action = m.name ∨ r.action = "*")

namespace Builtin

/-- The review that marks uses. -/
def marking : Builtin ν :=
  ⟨markingName, .practice, fun o => Practice.unusedActions (o.texts "except_methods")⟩

/-- There is one check of that name. -/
theorem all_split : ∃ before after, all (ν := ν) = before ++ marking :: after ∧
    (∀ b ∈ before, b.name ≠ markingName) ∧ ∀ b ∈ after, b.name ≠ markingName := by
  refine ⟨all.take 12, all.drop 13, rfl, ?_, ?_⟩
  · simp [all, plain, markingName]
  · simp [all, plain, markingName]

end Builtin

namespace CheckSet
open Builtin Check
variable {c : Configuration} {bs bs' : List (Builtin ν)} {s s' : CheckSet ν}

theorem addAll_append [PatternLanguage] (h : addAll c (bs ++ bs') s = .ok s') :
    ∃ mid, addAll c bs s = .ok mid ∧ addAll c bs' mid = .ok s' := by
  induction bs generalizing s with
  | nil => exact ⟨s, rfl, h⟩
  | cons b bs ih =>
    obtain ⟨check, hb, hrest⟩ := addAll_cons c b (bs ++ bs') h
    obtain ⟨mid, hmid, hlast⟩ := ih hrest
    refine ⟨mid, ?_, hlast⟩
    rw [addAll, hb]
    exact hmid

/-- The checks that are kept are those that were, if none is added that is kept. -/
theorem kept_addAll_of_neg [PatternLanguage] (keep : String → Bool) (hbs : bs ⊆ Builtin.all)
    (hkeep : ∀ b ∈ bs, ¬keep b.name) (h : addAll c bs s = .ok s') :
    (s'.kept keep).layout = (s.kept keep).layout ∧
      (s'.kept keep).practice = (s.kept keep).practice := by
  refine addAll_invariant (P := fun t => (t.kept keep).layout = (s.kept keep).layout ∧
    (t.kept keep).practice = (s.kept keep).practice) (fun b hb options ignored t ht => ?_)
    ⟨rfl, rfl⟩ h
  by_cases hsurvey : b.stage = .survey
  · rw [hsurvey]
    exact ht
  · have hname := (Builtin.reporter_of_mem (hbs hb) hsurvey options ignored).named
    rw [kept_add_of_neg t hsurvey (by rw [hname]; exact hkeep b hb)]
    exact ht

/-- The checks of the name of the marking review: there is none, or one. -/
theorem kept_marking [PatternLanguage] (h : ofConfiguration c = .ok s) :
    (s.kept (· == markingName)).layout = [] ∧
      ((s.kept (· == markingName)).practice = [] ∨ ∃ exceptions ignored,
        (s.kept (· == markingName)).practice = [Practice.unusedActions exceptions ignored]) := by
  obtain ⟨before, after, hall, hbefore, hafter⟩ := Builtin.all_split (ν := ν)
  have hsub : before ⊆ Builtin.all ∧ after ⊆ Builtin.all := by
    rw [hall]
    exact ⟨List.subset_append_left _ _, fun b hb => by simp [hb]⟩
  unfold ofConfiguration at h
  rw [hall, List.filter_append] at h
  obtain ⟨s₁, h₁, h⟩ := addAll_append h
  have hkept₁ := kept_addAll_of_neg (· == markingName)
    (fun b hb => hsub.1 (List.mem_filter.1 hb).1)
    (fun b hb => by simpa using hbefore b (List.mem_filter.1 hb).1) h₁
  have hlater {t : CheckSet ν} (ht : addAll c (after.filter (·.isWanted c)) t = .ok s) :=
    kept_addAll_of_neg (· == markingName)
      (fun b hb => hsub.2 (List.mem_filter.1 hb).1)
      (fun b hb => by simpa using hafter b (List.mem_filter.1 hb).1) ht
  by_cases hwanted : marking.isWanted (ν := ν) c
  · rw [List.filter_cons_of_pos hwanted] at h
    obtain ⟨check, hb, hrest⟩ := addAll_cons c _ _ h
    obtain ⟨-, ignored, rfl⟩ := Builtin.configured_ok hb
    have hkept := hlater hrest
    have hkeep : (marking.build (c.optionsOf markingName) ignored : Check ν).name == markingName :=
      beq_self_eq_true markingName
    rw [kept_add_of_pos s₁ _ hkeep] at hkept
    have hpractice : (s.kept (· == markingName)).practice = (s₁.kept (· == markingName)).practice ++
        [Practice.unusedActions ((c.optionsOf markingName).texts "except_methods") ignored] :=
      hkept.2
    rw [hkept₁.2] at hpractice
    exact ⟨hkept.1.trans hkept₁.1, .inr ⟨_, ignored, hpractice⟩⟩
  · rw [List.filter_cons_of_neg hwanted] at h
    have hkept := hlater h
    exact ⟨hkept.1.trans hkept₁.1, .inl (hkept.2.trans hkept₁.2)⟩

end CheckSet

namespace Run

theorem hear_nobody (calls : List Call) (t : Tables) (notes : List ν) :
    hear calls ⟨[], t, notes⟩ = (⟨[], t, notes⟩, none) := by
  induction calls with
  | nil => rfl
  | cons call calls ih =>
    rw [hear_cons, Attempt.andThen_of_none _ (rfl : announce call ⟨[], t, notes⟩ = (_, none))]
    exact ih

end Run

namespace Bench
open Attempt

theorem onTexts_nobody (calls : List Call) {b : Bench ν} (hb : b.texts = []) :
    onTexts (Run.hear calls) b = (b, none) := by
  simp only [onTexts, hb, Run.hear_nobody]
  rw [← hb]

/-- Without text checks a stage is a run of the others. -/
theorem stage_of_no_texts (files : List SourceFile) (parsed : List (SourceFile × ParsedSource))
    {b : Bench ν} (hb : b.texts = []) : stage files parsed b =
      onTrees ((Run.hear (Call.ofParsed parsed)).andThen Run.finish) b := by
  have hsame (calls : List Call) (r : Run ν) : ∀ b : Bench ν, b.texts = [] →
      ((onTexts (Run.hear calls)).andThen (onTrees r)) b = onTrees r b :=
    fun b hb => andThen_of_none _ (onTexts_nobody calls hb)
  rw [stage_eq, onTrees_andThen, Run.finish_eq, ← Run.hear_singleton]
  refine andThen_congr (P := fun b => b.texts = []) (hsame _ _) (hsame _ _) ?_ b hb
  exact fun b hb => hb

end Bench

namespace Analysis
open Bench CheckSet Builtin Practice
variable {plan : AnalysisPlan} {set : CheckSet ν} {all : List SourceFile} {parser : Parser}
  {report : Report} {tables : Tables}

theorem run_ok (h : (run plan set all parser).2 = .ok (report, tables)) :
    let files := chosenFiles plan all
    let parsed := parsedFiles parser files
    ∃ layout survey practice, layoutStage set.layout files = (layout, none) ∧
      surveyStage plan set.survey files parsed layout = (survey, none) ∧
      practiceStage set.practice files parsed survey = (practice, none) ∧
      report = Report.sort ⟨(suppressions parsed).filter
        (layout.diagnostics ++ practice.diagnostics), files.length⟩ ∧
      tables = practice.tables := by
  intro files parsed
  rcases hL : layoutStage set.layout files with ⟨layout, _ | e⟩
  · cases hp : parseAll plan.failOnParseError parser files with
    | error e =>
      rw [run_of_unparsed hL hp] at h
      cases h
    | ok parsed' =>
      obtain rfl : parsed' = parsed := parsed_of_parseAll hp
      rcases hS : surveyStage plan set.survey files parsed layout with ⟨survey, _ | e⟩
      · rcases hR : practiceStage set.practice files parsed survey with ⟨practice, _ | e⟩
        · rw [run_of_finished hL hp hS hR] at h
          cases h
          exact ⟨layout, survey, practice, rfl, hS, hR, rfl, rfl⟩
        · rw [run_of_practice_failed hL hp hS hR] at h
          cases h
      · rw [run_of_survey_failed hL hp hS] at h
        cases h
  · rw [run_of_layout_failed hL] at h
    cases h

theorem layoutStage_nobody (files : List SourceFile) :
    layoutStage (ν := ν) [] files = (⟨[], [], {}, []⟩, none) := by
  rw [layoutStage, readTexts_eq, Run.finish_eq, ← Run.hear_singleton,
    Attempt.andThen_of_none _ (onTexts_nobody _ rfl)]
  exact onTexts_nobody _ rfl

/-- The trees of an analysis. -/
def treesOf (parsed : List (SourceFile × ParsedSource)) : List (Path × Node) :=
  parsed.map fun x => (x.1.path, x.2.tree)

/-- The stage of practices with the one review that marks uses. -/
theorem practiceStage_single (exceptions : List String) (ignored : List FilePattern)
    (files : List SourceFile) (parsed : List (SourceFile × ParsedSource)) (before : Bench ν) :
    practiceStage [unusedActions exceptions ignored] files parsed before =
      onTrees (review (treesOf parsed))
        ⟨[], [unusedActions exceptions ignored], before.tables, before.notes⟩ := by
  have hstart : ofChecks [unusedActions exceptions ignored] before.tables before.notes =
      ⟨[], [unusedActions exceptions ignored], before.tables, before.notes⟩ := rfl
  have hcalls : Call.ofParsed parsed = Call.ofTrees (treesOf parsed) := by
    simp only [Call.ofParsed, Call.ofTrees, treesOf, List.flatMap_map]
  rw [practiceStage, hstart, stage_of_no_texts _ _ rfl, review, Run.trees_eq, hcalls]

/-- What is reported of one check is a part of what it found. -/
theorem subperm_report (s : Suppressions) (ds : List Diagnostic) (n : Nat)
    (p : Diagnostic → Bool) :
    ((Report.sort ⟨s.filter ds, n⟩).diagnostics.filter p).Subperm (ds.filter p) := by
  rw [← Report.sort_filter, ← Suppressions.filter_filter, Suppressions.filter_eq]
  have hsorted := List.mergeSort_perm ((ds.filter p).filter (!s.covers ·))
    fun a b => (a.order b).isLE
  exact hsorted.subperm.trans List.filter_sublist.subperm

/-- In the analysis of an application the review comes to what it comes to alone, on tables in which
every method is kept under its class. -/
theorem marking_run [PatternLanguage] {c : Configuration} (hset : ofConfiguration c = .ok set)
    (hrun : (run plan set all parser).2 = .ok (report, tables)) {chk : Check ν}
    (hchk : chk ∈ set.practice) (hname : chk.name = markingName) :
    ∃ exceptions ignored before notes, chk = unusedActions exceptions ignored ∧
      before.controllerMethods.Keyed ∧ ∃ s : Session ν,
        review (treesOf (parsedFiles parser (chosenFiles plan all))) ⟨[chk], before, notes⟩ =
          (s, none) ∧
        tables = s.tables ∧
        (report.diagnostics.filter (·.check == markingName)).Subperm s.diagnostics := by
  obtain ⟨layout, survey, practice, hL, hS, hR, rfl, rfl⟩ := run_ok hrun
  have hcomparable := comparable_ofConfiguration hset
  obtain ⟨hnolayout, hkept⟩ := kept_marking hset
  have hmem : chk ∈ (set.kept (· == markingName)).practice :=
    List.mem_filter.2 ⟨hchk, by simpa using hname⟩
  obtain ⟨exceptions, ignored, hone⟩ : ∃ exceptions ignored,
      (set.kept (· == markingName)).practice = [unusedActions exceptions ignored] := by
    rcases hkept with hnone | hone
    · rw [hnone] at hmem
      cases hmem
    · exact hone
  rw [hone] at hmem
  obtain rfl := List.mem_singleton.1 hmem
  -- Checks of the layout change no tables and none of them has this name.
  obtain ⟨hselL, -, -⟩ := layoutStage_selects hcomparable (· == markingName) (chosenFiles plan all)
  rw [hL, hnolayout, layoutStage_nobody] at hselL
  have hempty : layout.tables = {} := hselL.tables
  have hkeyed : Survey.MethodsKeyed survey.tables := by
    have hsurveys := survey_maintains hset
    have hstart : Survey.MethodsKeyed layout.tables := by
      rw [hempty]
      exact MethodTable.keyed_empty
    have hmaintained := surveyStage_maintains hsurveys hstart plan (chosenFiles plan all)
      (parsedFiles parser (chosenFiles plan all))
    rwa [hS] at hmaintained
  obtain ⟨hselR, -, herr⟩ := practiceStage_selects hcomparable (· == markingName)
    (chosenFiles plan all) (parsedFiles parser (chosenFiles plan all)) survey
  rw [hR, hone, practiceStage_single] at hselR
  rw [hone, practiceStage_single] at herr
  refine ⟨exceptions, ignored, survey.tables, survey.notes, rfl, hkeyed, ?_⟩
  rcases hreview : review (treesOf (parsedFiles parser (chosenFiles plan all)))
      ⟨[unusedActions exceptions ignored], survey.tables, survey.notes⟩ with ⟨s, e⟩
  simp only [onTrees, hreview] at hselR herr
  obtain rfl : e = none := herr
  refine ⟨s, rfl, ?_, ?_⟩
  · have htables := hselR.tables
    rw [beq_self_eq_true] at htables
    exact htables
  · have hfound : s.diagnostics =
        (layout.diagnostics ++ practice.diagnostics).filter (·.check == markingName) := by
      rw [List.filter_append, ← hselL.diagnostics, ← hselR.diagnostics]
      rfl
    rw [hfound]
    exact subperm_report _ _ _ _

/-- Every method that a route leads to is among those that are called for it. -/
theorem mem_routeCalls {t : Tables} {m : MethodRecord} {r : Route} (ht : t.controllerMethods.Keyed)
    (hm : m ∈ t.controllerMethods.all) (hr : r ∈ t.routes.routes) (h : r.LeadsTo m) :
    .call m.className m.name ∈ routeCalls t t.routes.routes := by
  obtain ⟨hclass, haction⟩ := h
  refine List.mem_flatMap.2 ⟨r, hr, List.mem_map.2 ⟨m.name, ?_, by rw [hclass]⟩⟩
  unfold routedMethods
  split
  · rw [hclass]
    exact List.mem_map_of_mem (ht.mem_ofClass hm)
  · rename_i hother
    rcases haction with hname | hall
    · rw [hname]
      exact List.mem_singleton_self _
    · exact absurd hall hother

/-- The methods that the review reports are unused ones. None is what a name in a tree that it reads
may mean in the class around it, and no route leads to one. -/
theorem used_methods_unreported [PatternLanguage] {c : Configuration}
    (hset : ofConfiguration c = .ok set)
    (hplain : ∀ x ∈ parsedFiles parser (chosenFiles plan all), x.2.tree.isPlain)
    (hrun : (run plan set all parser).2 = .ok (report, tables)) {chk : Check ν}
    (hchk : chk ∈ set.practice) (hname : chk.name = markingName) :
    ∃ reported : List MethodRecord,
      reported.Sublist (tables.controllerMethods.unused none) ∧
      (report.diagnostics.filter (·.check == markingName)).Subperm
        (reported.map fun m => chk.diagnostic (unusedFinding m)) ∧
      ∀ m ∈ reported,
        (∀ x ∈ parsedFiles parser (chosenFiles plan all), chk.accepts x.1.path →
          ∀ y ∈ x.2.tree.occurrences [], y.2.Mentions m.name →
            ¬tables.MayMean (Node.enclosingClass y.1) m) ∧
        ∀ r ∈ tables.routes.routes, ¬r.LeadsTo m := by
  obtain ⟨exceptions, ignored, before, notes, rfl, hkeyed, s, hreview, rfl, hdiagnostics⟩ :=
    marking_run hset hrun hchk hname
  obtain ⟨learned, hlessons, hlearned⟩ := exists_review (ν := ν) exceptions ignored
  have htrees : ∀ x ∈ treesOf (parsedFiles parser (chosenFiles plan all)), x.2.isPlain := by
    intro x hx
    obtain ⟨y, hy, rfl⟩ := List.mem_map.1 hx
    exact hplain y hy
  obtain ⟨st, hfinal⟩ := hlearned _ htrees before notes
  obtain rfl := congrArg Prod.fst (hreview.symm.trans hfinal)
  generalize hfound : (treesOf (parsedFiles parser (chosenFiles plan all))).flatMap learned ++
    routeCalls before before.routes.routes = found at hdiagnostics ⊢
  have hfinalKeyed := Tables.keyed_learn hkeyed found
  refine ⟨unusedMethods exceptions ignored (before.learn .controllers found), List.filter_sublist,
    ?_, fun m hm => ?_⟩
  · simp only [Session.diagnostics, List.flatMap_singleton, List.map_map] at hdiagnostics
    exact hdiagnostics
  · have hunused := (List.mem_filter.1 hm).1
    have hall := (MethodTable.mem_unused.1 hunused).1
    have hcalled {className : String} (hcall : .call className m.name ∈ found) :
        ¬(before.learn .controllers found).MayMean className m :=
      Tables.not_mayMean hfinalKeyed hunused (Tables.apply_learn hcall)
    refine ⟨fun x hx hfile y hy hmention => hcalled ?_, fun r hr hleads => ?_⟩
    · have hlesson := hlessons (x.1.path, x.2.tree) (hplain x hx)
      have hcall := hlesson.uses hfile y hy m.name
        (Usage.mem_namesAt hmention (hfinalKeyed.name_ne hall))
      rw [← hfound]
      refine List.mem_append_left _ (List.mem_flatMap.2 ⟨_, ?_, hcall⟩)
      exact List.mem_map.2 ⟨x, hx, rfl⟩
    · refine @hcalled m.className ?_ (.own rfl)
      have hcall := mem_routeCalls hfinalKeyed hall hr hleads
      simp only [routes_learn] at hcall
      rw [← hfound]
      refine List.mem_append_right _ ?_
      simpa only [routeCalls, routedMethods_learn] using hcall

/-- A controller that calls the second of its two methods. -/
def blogTree : Node :=
  let name (s : String) : Slot := .node (.ofKind .identifier [.literal (.str s)])
  .ofKind .classDef [.node (.ofKind .constant [.literal (.str "PostsController")]), .absent,
    .node (.ofKind .methodDef [name "show", .node (.ofKind .variableCall [name "load"])]),
    .node (.ofKind .methodDef [name "load"])]

def blogFiles : List SourceFile := [⟨⟨"app/controllers/posts_controller.rb"⟩, ""⟩]

def blogParser : Parser := fun _ _ => .ok ⟨blogTree, []⟩

def blogPlan : AnalysisPlan := ⟨[], [], [], false, false⟩

/-- What the review says of the blog. -/
def blogMessages (set : CheckSet Empty) : Option (List String) :=
  (run blogPlan set blogFiles blogParser).2.toOption.map fun r =>
    (r.1.diagnostics.filter (·.check == markingName)).map (·.message)

theorem used_methods_unreported_blog : ∃ (set : CheckSet Empty) (report : Report)
    (tables : Tables) (chk : Check Empty), ofConfiguration {} = .ok set ∧
      (run blogPlan set blogFiles blogParser).2 = .ok (report, tables) ∧
      blogMessages set = some ["remove unused methods (PostsController#show)"] ∧
      chk ∈ set.practice ∧ chk.name = markingName ∧
      ∃ reported : List MethodRecord,
        reported.Sublist (tables.controllerMethods.unused none) ∧
        (report.diagnostics.filter (·.check == markingName)).Subperm
          (reported.map fun m => chk.diagnostic (unusedFinding m)) ∧
        ∀ m ∈ reported,
          (∀ x ∈ parsedFiles blogParser (chosenFiles blogPlan blogFiles), chk.accepts x.1.path →
            ∀ y ∈ x.2.tree.occurrences [], y.2.Mentions m.name →
              ¬tables.MayMean (Node.enclosingClass y.1) m) ∧
          ∀ r ∈ tables.routes.routes, ¬r.LeadsTo m := by
  obtain ⟨set, hset⟩ : ∃ set : CheckSet Empty, ofConfiguration {} = .ok set := ⟨_, rfl⟩
  have hmessages : (ofConfiguration (ν := Empty) {}).toOption.bind blogMessages =
      some ["remove unused methods (PostsController#show)"] := by decide +kernel
  have hnames : (ofConfiguration (ν := Empty) {}).toOption.any fun set =>
      set.practice.any (·.name == markingName) := by decide +kernel
  simp only [hset, Except.toOption, Option.bind_some, Option.any_some] at hmessages hnames
  obtain ⟨chk, hchk, hname⟩ := List.any_eq_true.1 hnames
  obtain ⟨⟨report, tables⟩, hrun⟩ : ∃ r, (run blogPlan set blogFiles blogParser).2 = .ok r := by
    cases hrun : (run blogPlan set blogFiles blogParser).2 with
    | ok r => exact ⟨r, rfl⟩
    | error e =>
      simp only [blogMessages, hrun, Except.toOption, Option.map_none] at hmessages
      cases hmessages
  have hplain : ∀ x ∈ parsedFiles blogParser (chosenFiles blogPlan blogFiles),
      x.2.tree.isPlain := by
    intro x hx
    obtain ⟨f, -, hparse⟩ := List.mem_filterMap.1 hx
    cases hparse
    rfl
  exact ⟨set, report, tables, chk, hset, hrun, hmessages, hchk, by simpa using hname,
    used_methods_unreported hset hplain hrun hchk (by simpa using hname)⟩

end Analysis

end RailsReview
