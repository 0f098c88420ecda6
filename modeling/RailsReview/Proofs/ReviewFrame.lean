import RailsReview.Proofs.QuietRuns
import RailsReview.Proofs.UnusedReport

/-!
# What reviews leave alone

Every review may write to all tables. None writes to any but that of the methods of controllers,
where the methods and their order stay: a method may come to be used and may be published, and more
names may be called.
-/
namespace RailsReview
variable {ν : Type}

namespace MethodTable

/-- The table after some of its methods were marked: the same methods in the same order, of which
no use is forgotten and none is hidden. -/
structure Marked (t t' : MethodTable) : Prop where
  methods : List.Forall₂
    (fun e e' => e'.1 = e.1 ∧ List.Forall₂ (MethodRecord.Learned true) e.2 e'.2)
    t.methods.entries t'.methods.entries
  called : t.calledNames ⊆ t'.calledNames

namespace Marked

theorem refl (t : MethodTable) : t.Marked t := by
  have hrecords (ms : List MethodRecord) : List.Forall₂ (MethodRecord.Learned true) ms ms :=
    List.forall₂_same.2 fun m _ => .refl m
  exact ⟨List.forall₂_same.2 fun e _ => ⟨rfl, hrecords e.2⟩, List.Subset.refl _⟩

theorem trans {t t' t'' : MethodTable} (h : t.Marked t') (h' : t'.Marked t'') : t.Marked t'' := by
  refine ⟨forall₂_trans ?_ h.methods h'.methods, List.Subset.trans h.called h'.called⟩
  rintro e e' e'' ⟨hkey, hrecords⟩ ⟨hkey', hrecords'⟩
  exact ⟨hkey'.trans hkey, forall₂_trans (fun _ _ _ h h' => h.trans h') hrecords hrecords'⟩

end Marked

theorem marked_update (t : MethodTable) (className name : String)
    {f : MethodRecord → MethodRecord} (hf : ∀ m : MethodRecord, m.Learned true (f m)) :
    t.Marked (t.update className name f) := by
  have hrecords (ms : List MethodRecord) : List.Forall₂ (MethodRecord.Learned true) ms
      (ms.map fun m => if m.name = name then f m else m) := by
    rw [List.forall₂_map_right_iff, List.forall₂_same]
    intro m _
    by_cases hm : m.name = name
    · rw [if_pos hm]
      exact hf m
    · rw [if_neg hm]
      exact .refl m
  refine ⟨?_, List.Subset.refl _⟩
  simp only [update, Dictionary.modify, List.forall₂_map_right_iff, List.forall₂_same]
  intro e _
  by_cases he : e.1 = className
  · rw [if_pos he]
    exact ⟨rfl, hrecords e.2⟩
  · rw [if_neg he]
    exact ⟨rfl, List.forall₂_same.2 fun m _ => .refl m⟩

theorem marked_apply (t : MethodTable) (x : Mark) : t.Marked (x.apply t) := by
  cases x with
  | used c n => exact t.marked_update c n fun _ => ⟨rfl, fun _ => rfl, .inl rfl⟩
  | public_ c n => exact t.marked_update c n fun _ => ⟨rfl, id, .inr ⟨rfl, rfl⟩⟩
  | called n => exact ⟨(Marked.refl t).methods, fun x hx => mem_insertSorted.2 (.inr hx)⟩

theorem marked_foldl_apply (t : MethodTable) (marks : List Mark) :
    t.Marked (marks.foldl Mark.apply t) := by
  induction marks generalizing t with
  | nil => exact .refl t
  | cons x marks ih => exact (t.marked_apply x).trans (ih _)

end MethodTable

namespace Tables

/-- Tables that differ in nothing but marks on the methods of controllers. -/
structure OnlyMarked (t t' : Tables) : Prop where
  others : { t' with controllerMethods := t.controllerMethods } = t
  methods : t.controllerMethods.Marked t'.controllerMethods

namespace OnlyMarked

theorem refl (t : Tables) : t.OnlyMarked t := ⟨rfl, .refl _⟩

theorem trans {t t' t'' : Tables} (h : t.OnlyMarked t') (h' : t'.OnlyMarked t'') :
    t.OnlyMarked t'' := by
  refine ⟨?_, h.methods.trans h'.methods⟩
  rw [← h.others, ← h'.others]

end OnlyMarked

theorem onlyMarked_learn (t : Tables) (found : List Evidence) :
    t.OnlyMarked (t.learn .controllers found) := by
  rw [learn_eq_marks]
  exact ⟨rfl, t.controllerMethods.marked_foldl_apply _⟩

end Tables

theorem Learns.exists_eq {f : Tables → Tables} (h : Learns f) (t : Tables) :
    ∃ found, f t = t.learn .controllers found := by
  obtain ⟨found, hfound⟩ := h
  exact ⟨found, hfound t⟩

namespace Handler
variable {σ β : Type}

/-- A handler that changes the tables only by what it learns about methods of controllers. -/
def OnlyLearns (h : Handler ν σ β) : Prop :=
  ∀ site b s t, ∃ found, (h site b s t).tables = t.learn .controllers found

theorem ReadsFacts.onlyLearns {h : Handler ν σ β} (hh : h.ReadsFacts) : h.OnlyLearns :=
  fun site b s t => ⟨[], (hh site b s t).1.1⟩

theorem onlyLearns_update (f : β → σ → σ) : (update (ν := ν) f).OnlyLearns :=
  fun _ _ _ _ => ⟨[], rfl⟩

theorem onlyLearns_report (f : Site → β → σ → Tables → List Finding) :
    (report (ν := ν) f).OnlyLearns := fun _ _ _ _ => ⟨[], rfl⟩

theorem onlyLearns_record {f : Site → β → σ → Tables → Tables}
    (h : ∀ site b s t, ∃ found, f site b s t = t.learn .controllers found) :
    (record (ν := ν) f).OnlyLearns := h

theorem OnlyLearns.maintains {h : Handler ν σ β} (hh : h.OnlyLearns) (t : Tables) :
    h.Maintains t.OnlyMarked := by
  intro site b s t' ht
  obtain ⟨found, hfound⟩ := hh site b s t'
  rw [hfound]
  exact ht.trans (t'.onlyMarked_learn found)

end Handler

/-- A check that changes the tables only by what it learns about methods of controllers. -/
def Check.OnlyLearns (c : Check ν) : Prop := c.spec.All Handler.OnlyLearns

namespace Practice
open Handler

theorem onlyLearns_unusedActions (exceptions : List String) (ignored : List FilePattern) :
    (unusedActions (ν := ν) exceptions ignored).OnlyLearns :=
  Spec.All.start |>.trackClasses _ onlyLearns_update |>.interestedIn _
    |>.onEach _ _ (onlyLearns_record fun _ _ _ t => ⟨_, Usage.mark_eq _ _ t⟩)
    |>.interestedIn _
    |>.on _ _ (onlyLearns_update _)
    |>.on _ _ (onlyLearns_record fun _ _ s t => (learns_markHooks s).exists_eq t)
    |>.on _ _ (onlyLearns_update _)
    |>.on _ _ (onlyLearns_record fun _ n s t => (learns_markCommand n s.classes).exists_eq t)
    |>.on _ _ (onlyLearns_update _)
    |>.on _ _ (onlyLearns_update _)
    |>.on _ _ (onlyLearns_record fun _ n s t => (learns_markCall n s.classes).exists_eq t)
    |>.on _ _ (onlyLearns_record fun _ n s t => (learns_markSetter n s.classes).exists_eq t)
    |>.withEnd (onlyLearns_record fun _ _ _ t => ⟨_, markRoutes_eq t⟩)
    |>.withEnd (onlyLearns_report _)

end Practice

namespace Builtin

theorem onlyLearns_practice {b : Builtin ν} (hb : b ∈ all) (hstage : b.stage = .practice)
    (options : CheckOptions) (ignored : List FilePattern) :
    (b.build options ignored).OnlyLearns := by
  have hreporter := reporter_of_mem hb (by rw [hstage]; nofun) options ignored
  rcases hreporter.footprint with hreads | ⟨-, hname, -⟩
  · exact hreads.mono fun _ => Handler.ReadsFacts.onlyLearns
  · have hmarking : marking (ν := ν) ∈ all := by simp [all, plain, marking, markingName]
    obtain rfl : b = marking := base_injective hb hmarking (by rw [hname]; rfl)
    exact Practice.onlyLearns_unusedActions _ _

end Builtin

theorem CheckSet.practice_onlyLearns [PatternLanguage] {c : Configuration} {s : CheckSet ν}
    (h : ofConfiguration c = .ok s) : ∀ chk ∈ s.practice, chk.OnlyLearns := by
  refine addAll_invariant (P := fun s => ∀ chk ∈ s.practice, chk.OnlyLearns)
    (fun b hb options ignored s hs => ?_) (List.forall_mem_nil _) h
  cases hstage : b.stage with
  | practice =>
    refine List.forall_mem_append.2 ⟨hs, List.forall_mem_singleton.2 ?_⟩
    exact Builtin.onlyLearns_practice (List.mem_filter.1 hb).1 hstage options ignored
  | layout => exact hs
  | survey => exact hs

namespace Analysis
open CheckSet
variable {plan : AnalysisPlan} {set : CheckSet ν} {all : List SourceFile} {parser : Parser}
  {report : Report} {tables : Tables}

/-- The tables that an analysis returns are those that its surveys left, except for marks on
methods of controllers. -/
theorem reviews_only_mark [PatternLanguage] {c : Configuration} (hset : ofConfiguration c = .ok set)
    (hrun : (run plan set all parser).2 = .ok (report, tables)) :
    let files := chosenFiles plan all
    let parsed := parsedFiles parser files
    ∃ layout survey practice, layoutStage set.layout files = (layout, none) ∧
      surveyStage plan set.survey files parsed layout = (survey, none) ∧
      practiceStage set.practice files parsed survey = (practice, none) ∧
      tables = practice.tables ∧ survey.tables.OnlyMarked tables := by
  obtain ⟨layout, survey, practice, hL, hS, hR, -, rfl⟩ := run_ok hrun
  refine ⟨layout, survey, practice, hL, hS, hR, rfl, ?_⟩
  have hchecks : ∀ chk ∈ set.practice, chk.Maintains survey.tables.OnlyMarked :=
    fun chk hchk => (practice_onlyLearns hset chk hchk).mono fun _ hg => hg.maintains _
  have hmarked := practiceStage_maintains hchecks (.refl survey.tables)
    (chosenFiles plan all) (parsedFiles parser (chosenFiles plan all))
  rwa [hR] at hmarked

/-- The methods of the blog, and whether a use of them was seen. -/
def blogUses (set : CheckSet Empty) : Option (List (String × Bool)) :=
  (run blogPlan set blogFiles blogParser).2.toOption.map fun r =>
    r.2.controllerMethods.all.map fun m => (m.name, m.used)

theorem reviews_only_mark_blog : ∃ (set : CheckSet Empty) (report : Report) (tables : Tables),
    ofConfiguration {} = .ok set ∧
    (run blogPlan set blogFiles blogParser).2 = .ok (report, tables) ∧
    tables.controllerMethods.all.map (fun m => (m.name, m.used)) =
      [("show", false), ("load", true)] ∧
    ∃ layout survey practice, layoutStage set.layout (chosenFiles blogPlan blogFiles) =
        (layout, none) ∧
      surveyStage blogPlan set.survey (chosenFiles blogPlan blogFiles)
        (parsedFiles blogParser (chosenFiles blogPlan blogFiles)) layout = (survey, none) ∧
      practiceStage set.practice (chosenFiles blogPlan blogFiles)
        (parsedFiles blogParser (chosenFiles blogPlan blogFiles)) survey = (practice, none) ∧
      tables = practice.tables ∧ survey.tables.OnlyMarked tables := by
  obtain ⟨set, hset⟩ : ∃ set : CheckSet Empty, ofConfiguration {} = .ok set := ⟨_, rfl⟩
  have huses : (ofConfiguration (ν := Empty) {}).toOption.bind blogUses =
      some [("show", false), ("load", true)] := by decide +kernel
  simp only [hset, Except.toOption, Option.bind_some, blogUses] at huses
  obtain ⟨⟨report, tables⟩, hrun⟩ : ∃ r, (run blogPlan set blogFiles blogParser).2 = .ok r := by
    cases hrun : (run blogPlan set blogFiles blogParser).2 with
    | ok r => exact ⟨r, rfl⟩
    | error e =>
      rw [hrun] at huses
      cases huses
  rw [hrun] at huses
  exact ⟨set, report, tables, hset, hrun, Option.some.inj huses, reviews_only_mark hset hrun⟩

end Analysis
end RailsReview
