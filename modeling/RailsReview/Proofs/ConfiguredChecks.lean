import Mathlib.Data.List.Nodup
import RailsReview.Proofs.Selection

/-!
# Configured checks

The sets that configurations make of the checks this library brings along are comparable to their
parts. Choosing checks by name and switching one off are ways to take a part.
-/
namespace RailsReview
open Check
variable {ν : Type}

theorem Builtin.configured_ok [PatternLanguage] {b : Builtin ν} {c : Configuration} {stage : Stage}
    {check : Check ν} (h : b.configured c = .ok (stage, check)) :
    stage = b.stage ∧ ∃ ignored, check = b.build (c.optionsOf b.name) ignored := by
  unfold configured at h
  dsimp only at h
  cases hp : (c.optionsOf b.name).ignoredPatterns with
  | error e =>
    rw [hp] at h
    cases h
  | ok ignored =>
    rw [hp] at h
    cases h
    exact ⟨rfl, ignored, rfl⟩

theorem Builtin.configured_congr [PatternLanguage] {b : Builtin ν} {c c' : Configuration}
    (h : c'.optionsOf b.name = c.optionsOf b.name) : b.configured c' = b.configured c := by
  unfold configured
  rw [h]

namespace CheckSet

theorem kept_add_of_pos {keep : String → Bool} (s : CheckSet ν) (stage : Stage) {c : Check ν}
    (h : keep c.name) : (s.add stage c).kept keep = (s.kept keep).add stage c := by
  have hone : keptOf keep [c] = [c] := keptOf_cons_of_pos [] h
  cases stage with
  | layout => simp only [add, kept, keptOf_append, hone]
  | survey => rfl
  | practice => simp only [add, kept, keptOf_append, hone]

theorem kept_add_of_neg {keep : String → Bool} (s : CheckSet ν) {stage : Stage} {c : Check ν}
    (hstage : stage ≠ .survey) (h : ¬keep c.name) : (s.add stage c).kept keep = s.kept keep := by
  have hone : keptOf keep [c] = [] := keptOf_cons_of_neg [] h
  cases stage with
  | layout => simp only [add, kept, keptOf_append, hone, List.append_nil]
  | survey => exact absurd rfl hstage
  | practice => simp only [add, kept, keptOf_append, hone, List.append_nil]

theorem kept_add_of_same (s : CheckSet ν) {b : Builtin ν} (hb : b ∈ Builtin.all)
    (hstage : b.stage ≠ .survey) (options : CheckOptions) (ignored : List FilePattern) :
    (s.add b.stage (b.build options ignored)).kept (· != b.name) = s.kept (· != b.name) := by
  refine kept_add_of_neg s hstage ?_
  rw [(Builtin.reporter_of_mem hb hstage options ignored).named]
  simp

theorem kept_add_of_other (s : CheckSet ν) {b : Builtin ν} (hb : b ∈ Builtin.all) {name : String}
    (hname : b.name ≠ name) (options : CheckOptions) (ignored : List FilePattern) :
    (s.add b.stage (b.build options ignored)).kept (· != name) =
      (s.kept (· != name)).add b.stage (b.build options ignored) := by
  by_cases hsurvey : b.stage = .survey
  · rw [hsurvey]
    rfl
  · refine kept_add_of_pos s b.stage ?_
    rw [(Builtin.reporter_of_mem hb hsurvey options ignored).named]
    simpa using hname

theorem comparable_add {s : CheckSet ν} (h : s.Comparable Builtin.markingName) {b : Builtin ν}
    (hb : b ∈ Builtin.all) (options : CheckOptions) (ignored : List FilePattern) :
    (s.add b.stage (b.build options ignored)).Comparable Builtin.markingName := by
  have hreporter := fun hstage => Builtin.reporter_of_mem hb hstage options ignored
  cases hstage : b.stage with
  | survey => exact ⟨h.layout, h.practice⟩
  | layout =>
    obtain ⟨_, hfresh, hfootprint⟩ := hreporter (by rw [hstage]; nofun)
    refine ⟨fun c hc => ?_, h.practice⟩
    rcases List.mem_append.1 hc with hc | hc
    · exact h.layout c hc
    · rw [List.mem_singleton.1 hc]
      rcases hfootprint with hreads | ⟨hpractice, -⟩
      · exact ⟨hreads, hfresh⟩
      · rw [hstage] at hpractice
        cases hpractice
  | practice =>
    obtain ⟨hname, hfresh, hfootprint⟩ := hreporter (by rw [hstage]; nofun)
    refine ⟨h.layout, fun c hc => ?_⟩
    rcases List.mem_append.1 hc with hc | hc
    · exact h.practice c hc
    · rw [List.mem_singleton.1 hc]
      refine ⟨hfootprint.imp_right fun hm => ⟨hname.trans hm.2.1, hm.2.2⟩, hfresh⟩

theorem addAll_cons [PatternLanguage] (c : Configuration) (b : Builtin ν) (bs : List (Builtin ν))
    {s s' : CheckSet ν} (h : addAll c (b :: bs) s = .ok s') :
    ∃ check, b.configured c = .ok (b.stage, check) ∧
      addAll c bs (s.add b.stage check) = .ok s' := by
  unfold addAll at h
  rcases hb : b.configured c with e | ⟨stage, check⟩
  · rw [hb] at h
    cases h
  · obtain ⟨rfl, -⟩ := Builtin.configured_ok hb
    rw [hb] at h
    exact ⟨check, rfl, h⟩

/-- What each of the checks maintains when it is added holds after all were. -/
theorem addAll_invariant [PatternLanguage] {P : CheckSet ν → Prop} {c : Configuration}
    {bs : List (Builtin ν)}
    (hadd : ∀ b ∈ bs, ∀ options ignored s, P s → P (s.add b.stage (b.build options ignored)))
    {s s' : CheckSet ν} (hs : P s) (h : addAll c bs s = .ok s') : P s' := by
  induction bs generalizing s with
  | nil =>
    cases h
    exact hs
  | cons b bs ih =>
    obtain ⟨hfirst, hrest⟩ := List.forall_mem_cons.1 hadd
    obtain ⟨check, hb, hlater⟩ := addAll_cons c b bs h
    obtain ⟨-, ignored, rfl⟩ := Builtin.configured_ok hb
    exact ih hrest (hfirst _ ignored s hs) hlater

theorem comparable_ofConfiguration [PatternLanguage] {c : Configuration} {s : CheckSet ν}
    (h : ofConfiguration c = .ok s) : s.Comparable Builtin.markingName :=
  addAll_invariant (P := fun s => s.Comparable Builtin.markingName)
    (fun _ hb options ignored _ hs => comparable_add hs (List.mem_filter.1 hb).1 options ignored)
    ⟨List.forall_mem_nil _, List.forall_mem_nil _⟩ h

/-- Adding without one check is adding and then leaving it out. -/
theorem addAll_without [PatternLanguage] {c c' : Configuration} {name : String}
    {bs : List (Builtin ν)} (hbs : bs ⊆ Builtin.all)
    (hstage : ∀ b ∈ bs, b.name = name → b.stage ≠ .survey)
    (hother : ∀ b ∈ bs, b.name ≠ name → c'.optionsOf b.name = c.optionsOf b.name)
    {s s' : CheckSet ν} (h : addAll c bs s = .ok s') :
    addAll c' (bs.filter (·.name != name)) (s.kept (· != name)) = .ok (s'.kept (· != name)) := by
  induction bs generalizing s with
  | nil =>
    cases h
    rfl
  | cons b bs ih =>
    obtain ⟨check, hb, hrest⟩ := addAll_cons c b bs h
    have next := ih (fun x hx => hbs (List.mem_cons_of_mem _ hx))
      (fun x hx => hstage x (List.mem_cons_of_mem _ hx))
      (fun x hx => hother x (List.mem_cons_of_mem _ hx)) hrest
    obtain ⟨-, ignored, rfl⟩ := Builtin.configured_ok hb
    by_cases hname : b.name = name
    · subst hname
      rw [List.filter_cons_of_neg (by simp)]
      rwa [kept_add_of_same s (hbs (by simp)) (hstage b (by simp) rfl)] at next
    · rw [List.filter_cons_of_pos (by simpa using hname)]
      rw [kept_add_of_other s (hbs (by simp)) hname] at next
      unfold addAll
      rw [Builtin.configured_congr (hother b (by simp) hname), hb]
      exact next

end CheckSet

namespace Configuration

/-- `c'` is the configuration `c` with the check of that name switched off; exactly one of its keys
names the check. -/
structure SwitchesOff (c : Configuration) (name : String) (c' : Configuration) : Prop where
  others : c'.checks.filter (CheckName.base ·.1 != CheckName.base name) =
    c.checks.filter (CheckName.base ·.1 != CheckName.base name)
  off : (c'.checks.filter (CheckName.base ·.1 == CheckName.base name)).map (·.2.enabled?) =
    [some false]

theorem lookup_filter {α : Type} {p : String × α → Bool} {key : String} (hp : ∀ v, p (key, v))
    (l : List (String × α)) : (l.filter p).lookup key = l.lookup key := by
  induction l with
  | nil => rfl
  | cons e l ih =>
    obtain ⟨k, v⟩ := e
    rw [Dictionary.lookup_cons_eq]
    by_cases hk : key = k
    · subst hk
      rw [List.filter_cons_of_pos (hp v), Dictionary.lookup_cons_eq]
      simp
    · rw [if_neg hk, ← ih, List.filter_cons]
      split
      · rw [Dictionary.lookup_cons_eq, if_neg hk]
      · rfl

/-- What is said about another check stays. -/
theorem SwitchesOff.optionsOf {name other : String} {c c' : Configuration}
    (h : c.SwitchesOff name c') (hother : CheckName.base other ≠ CheckName.base name) :
    c'.optionsOf other = c.optionsOf other := by
  have hcheck (d : Configuration) : d.check? other =
      (((d.checks.filter (CheckName.base ·.1 != CheckName.base name)).lookup other).or
        (((d.checks.filter (CheckName.base ·.1 != CheckName.base name)).find? fun e =>
          CheckName.base e.1 == CheckName.base other).map (·.2))) := by
    unfold check?
    rw [lookup_filter fun v => by simpa using hother, List.find?_filter]
    congr 3
    funext e
    grind
  unfold Configuration.optionsOf
  rw [hcheck, hcheck, h.others]

theorem mem_of_check? {c : Configuration} {name : String} {o : CheckOptions}
    (h : c.check? name = some o) :
    ∃ e ∈ c.checks, CheckName.base e.1 = CheckName.base name ∧ e.2 = o := by
  unfold check? at h
  rcases Option.or_eq_some_iff.1 h with hlookup | ⟨-, hfind⟩
  · obtain ⟨l₁, l₂, hl, -⟩ := List.lookup_eq_some_iff.1 hlookup
    exact ⟨(name, o), by rw [hl]; simp, rfl, rfl⟩
  · obtain ⟨e, he, rfl⟩ := Option.map_eq_some_iff.1 hfind
    exact ⟨e, List.mem_of_find?_eq_some he, by simpa using List.find?_some he, rfl⟩

theorem exists_check? {c : Configuration} {name : String} {e : String × CheckOptions}
    (he : e ∈ c.checks) (hname : CheckName.base e.1 = CheckName.base name) :
    ∃ o, c.check? name = some o := by
  apply Option.ne_none_iff_exists'.1
  intro hnone
  unfold check? at hnone
  have hfind := (Option.or_eq_none_iff.1 hnone).2
  rw [Option.map_eq_none_iff, List.find?_eq_none] at hfind
  exact hfind e he (by simpa using hname)

theorem SwitchesOff.isEnabled {name : String} {c c' : Configuration} (h : c.SwitchesOff name c') :
    c'.isEnabled name = false := by
  have hall : ∀ e ∈ c'.checks, CheckName.base e.1 = CheckName.base name →
      e.2.enabled? = some false := by
    intro e he hname
    have hmem : e.2.enabled? ∈ (c'.checks.filter
        (CheckName.base ·.1 == CheckName.base name)).map (·.2.enabled?) :=
      List.mem_map.2 ⟨e, List.mem_filter.2 ⟨he, by simpa using hname⟩, rfl⟩
    rw [h.off] at hmem
    exact List.mem_singleton.1 hmem
  obtain ⟨e, he, -⟩ : ∃ e ∈ c'.checks.filter (CheckName.base ·.1 == CheckName.base name),
      e.2.enabled? = some false :=
    List.mem_map.1 (by rw [h.off]; exact List.mem_singleton_self _)
  obtain ⟨he, hname⟩ := List.mem_filter.1 he
  obtain ⟨o, ho⟩ := exists_check? he (by simpa using hname)
  obtain ⟨e', he', hname', rfl⟩ := mem_of_check? ho
  unfold Configuration.isEnabled Configuration.optionsOf
  rw [ho, Option.getD_some, CheckOptions.isEnabled, hall e' he' hname']
  rfl

end Configuration

namespace Builtin

/-- No two checks differ in the ending of their names only. -/
theorem nodup_bases : ((all (ν := ν)).map (CheckName.base ∘ (·.name))).Nodup := by
  have hnames : (all (ν := ν)).map (·.name) = (all (ν := Empty)).map (·.name) := by
    simp only [all, plain, List.map_cons, List.map_nil]
  rw [← List.map_map, hnames]
  decide +kernel

theorem base_injective {b b' : Builtin ν} (hb : b ∈ all) (hb' : b' ∈ all)
    (h : CheckName.base b.name = CheckName.base b'.name) : b = b' :=
  List.inj_on_of_nodup_map nodup_bases hb hb' h

end Builtin

section SwitchedOff
variable {c c' : Configuration} {b : Builtin ν}

theorem Configuration.SwitchesOff.optionsOf_other (h : c.SwitchesOff b.name c')
    (hb : b ∈ Builtin.all) {b' : Builtin ν} (hb' : b' ∈ Builtin.all) (hname : b'.name ≠ b.name) :
    c'.optionsOf b'.name = c.optionsOf b'.name := by
  refine h.optionsOf fun hbase => hname ?_
  rw [Builtin.base_injective hb' hb hbase]

/-- The checks that are wanted are those that were, without the one that is switched off. -/
theorem Configuration.SwitchesOff.wanted (h : c.SwitchesOff b.name c') (hb : b ∈ Builtin.all)
    (hstage : b.stage ≠ .survey) :
    (Builtin.all (ν := ν)).filter (·.isWanted c') =
      ((Builtin.all (ν := ν)).filter (·.isWanted c)).filter (·.name != b.name) := by
  rw [List.filter_filter]
  apply List.filter_congr
  intro b' hb'
  by_cases hname : b'.name = b.name
  · obtain rfl : b' = b := Builtin.base_injective hb' hb (by rw [hname])
    unfold Builtin.isWanted
    rw [h.isEnabled]
    simpa using hstage
  · unfold Builtin.isWanted Configuration.isEnabled
    rw [h.optionsOf_other hb hb' hname]
    simp [hname]

theorem CheckSet.ofConfiguration_without [PatternLanguage] {s : CheckSet ν}
    (h : ofConfiguration c = .ok s) (hb : b ∈ Builtin.all) (hstage : b.stage ≠ .survey)
    (hoff : c.SwitchesOff b.name c') :
    ofConfiguration c' = .ok (s.kept (· != b.name)) := by
  unfold ofConfiguration
  rw [hoff.wanted hb hstage]
  refine addAll_without (fun _ hx => (List.mem_filter.1 hx).1) ?_ ?_ h
  · intro b' hb' hname
    obtain rfl : b' = b :=
      Builtin.base_injective (List.mem_filter.1 hb').1 hb (by rw [hname])
    exact hstage
  · intro b' hb' hname
    exact hoff.optionsOf_other hb (List.mem_filter.1 hb').1 hname

end SwitchedOff

namespace Analysis

/-- Choosing checks by name and switching one off change nothing but whose diagnostics are
reported. -/
theorem selection_projects [PatternLanguage] {c : Configuration} {set : CheckSet ν}
    (h : CheckSet.ofConfiguration c = .ok set) (plan : AnalysisPlan) (all : List SourceFile)
    (parser : Parser) :
    (∀ names : List String, Projects plan all parser set (set.only names) fun d =>
      (names.map CheckName.base).contains (CheckName.base d.check)) ∧
    ∀ b ∈ Builtin.all (ν := ν), b.stage ≠ .survey → ∀ c', c.SwitchesOff b.name c' →
      ∃ set', CheckSet.ofConfiguration c' = .ok set' ∧
        Projects plan all parser set set' (·.check != b.name) := by
  have hset := CheckSet.comparable_ofConfiguration h
  refine ⟨fun names => ?_, fun b hb hstage c' hoff => ?_⟩
  · exact kept_projects hset
      (fun n => (names.map CheckName.base).contains (CheckName.base n)) plan all parser
  · exact ⟨_, CheckSet.ofConfiguration_without h hb hstage hoff,
      kept_projects hset (· != b.name) plan all parser⟩

/-- Switches the check of tabs off, by its name without ending. -/
def tabsAllowed : Configuration := { checks := [("RemoveTab", { enabled? := some false })] }

theorem tabsAllowed_switchesOff : Configuration.SwitchesOff {} "RemoveTabCheck" tabsAllowed where
  others := List.filter_eq_nil_iff.2 (by decide +kernel)
  off := by decide +kernel

/-- The checks that report something in a line with a tab. -/
def reported (set : CheckSet Empty) : Option (List String) :=
  (run ⟨[], [], [], false, false⟩ set [⟨⟨"Gemfile"⟩, "\tx"⟩]
    fun _ _ => .error (.said "")).2.toOption.map (·.1.diagnostics.map (·.check))

theorem selection_projects_tab : ∃ set set' : CheckSet Empty,
    CheckSet.ofConfiguration {} = .ok set ∧ CheckSet.ofConfiguration tabsAllowed = .ok set' ∧
    (Projects ⟨[], [], [], false, false⟩ [⟨⟨"Gemfile"⟩, "\tx"⟩] (fun _ _ => .error (.said "")) set
      (set.only ["RemoveTabReview"]) fun d =>
        (["RemoveTabReview"].map CheckName.base).contains (CheckName.base d.check)) ∧
    (Projects ⟨[], [], [], false, false⟩ [⟨⟨"Gemfile"⟩, "\tx"⟩] (fun _ _ => .error (.said "")) set
      set' (·.check != "RemoveTabCheck")) ∧
    reported set = some ["RemoveTabCheck"] ∧
    reported (set.only ["RemoveTabReview"]) = some ["RemoveTabCheck"] ∧
    reported set' = some [] := by
  obtain ⟨set, h⟩ : ∃ set : CheckSet Empty, CheckSet.ofConfiguration {} = .ok set := ⟨_, rfl⟩
  have hall : (CheckSet.ofConfiguration (ν := Empty) {}).toOption.bind reported =
      some ["RemoveTabCheck"] := by decide +kernel
  have honly : (CheckSet.ofConfiguration (ν := Empty) {}).toOption.bind
      (fun set => reported (set.only ["RemoveTabReview"])) = some ["RemoveTabCheck"] := by
    decide +kernel
  have hoff : (CheckSet.ofConfiguration (ν := Empty) tabsAllowed).toOption.bind reported =
      some [] := by decide +kernel
  obtain ⟨hnames, hswitch⟩ := selection_projects h ⟨[], [], [], false, false⟩
    [⟨⟨"Gemfile"⟩, "\tx"⟩] fun _ _ => .error (.said "")
  obtain ⟨set', h', hprojects⟩ := hswitch
    (.plain "RemoveTabCheck" .layout Layout.tab) (.head _) nofun tabsAllowed
      tabsAllowed_switchesOff
  simp only [h, Except.toOption, Option.bind_some] at hall honly
  simp only [h', Except.toOption, Option.bind_some] at hoff
  exact ⟨set, set', h, h', hnames ["RemoveTabReview"], hprojects, hall, honly, hoff⟩

end Analysis
end RailsReview
