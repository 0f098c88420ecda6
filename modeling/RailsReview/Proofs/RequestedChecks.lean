import Mathlib.Data.List.Perm.Subperm
import RailsReview.CommandLine.Run
import RailsReview.Proofs.ConfiguredChecks

/-!
# Checks asked for by name

A command line may name the checks that it wants. It warns if fewer checks are left than names were
given, and so not only where a name belongs to no check that is on, but also where two names belong
to the same check.
-/
namespace RailsReview

/-- A check that reports is on and has this name, whatever the ending. -/
def Configuration.Offers (c : Configuration) (name : String) : Prop :=
  ∃ b ∈ Builtin.all (ν := Empty), b.stage ≠ .survey ∧ c.isEnabled b.name ∧
    CheckName.base b.name = CheckName.base name

instance (c : Configuration) (name : String) : Decidable (c.Offers name) :=
  inferInstanceAs (Decidable (∃ b ∈ Builtin.all, _))

/-- Different items that are requested are as many as the requests exactly if each request is for an
item and no two of them for the same. -/
theorem length_filter_contains_lt_iff {items requests : List String} (h : items.Nodup) :
    (items.filter (requests.contains ·)).length < requests.length ↔
      ¬((∀ x ∈ requests, x ∈ items) ∧ requests.Nodup) := by
  have hnodup : (items.filter (requests.contains ·)).Nodup := h.filter _
  have hsub : (items.filter (requests.contains ·)).Subperm requests :=
    hnodup.subperm fun x hx => List.contains_iff_mem.1 (List.mem_filter.1 hx).2
  rw [← Nat.not_le, not_iff_not]
  constructor
  · intro hle
    have hperm := hsub.perm_of_length_le hle
    exact ⟨fun x hx => (List.mem_filter.1 (hperm.mem_iff.2 hx)).1, hperm.nodup_iff.1 hnodup⟩
  · rintro ⟨hall, hdistinct⟩
    refine (hdistinct.subperm fun x hx => ?_).length_le
    exact List.mem_filter.2 ⟨hall x hx, List.contains_iff_mem.2 hx⟩

namespace Builtin
variable {ν : Type}

/-- The names without endings of those of the checks that report. -/
def reportingBases (bs : List (Builtin ν)) : List String :=
  (bs.filter (·.stage != .survey)).map (CheckName.base ∘ (·.name))

theorem nodup_reportingBases (c : Configuration) :
    (reportingBases ((all (ν := ν)).filter (·.isWanted c))).Nodup :=
  nodup_bases.sublist ((List.filter_sublist.trans List.filter_sublist).map _)

theorem mem_reportingBases {c : Configuration} {name : String} :
    CheckName.base name ∈ reportingBases ((all (ν := Empty)).filter (·.isWanted c)) ↔
      c.Offers name := by
  rw [reportingBases, List.filter_filter, List.mem_map]
  refine exists_congr fun b => ?_
  rw [List.mem_filter, isWanted]
  simp only [Function.comp_apply]
  grind

end Builtin

namespace CheckSet
variable {ν : Type}

/-- The names without endings of the checks that report. -/
def reportingBases (s : CheckSet ν) : List String :=
  (s.layout ++ s.practice).map (CheckName.base ·.name)

theorem reportingCount_only (names : List String) (s : CheckSet ν) :
    (s.only names).reportingCount =
      (s.reportingBases.filter ((names.map CheckName.base).contains ·)).length := by
  unfold reportingCount only reportingBases
  rw [← List.length_append, ← List.filter_append, List.filter_map, List.length_map]
  rfl

theorem reportingBases_add (s : CheckSet ν) {b : Builtin ν} (hb : b ∈ Builtin.all)
    (options : CheckOptions) (ignored : List FilePattern) :
    (s.add b.stage (b.build options ignored)).reportingBases.Perm
      (s.reportingBases ++ Builtin.reportingBases [b]) := by
  have hone (hstage : b.stage ≠ .survey) : Builtin.reportingBases [b] =
      [b.build options ignored].map (CheckName.base ·.name) := by
    rw [Builtin.reportingBases, List.filter_cons_of_pos (by simpa using hstage), List.map_singleton,
      (Builtin.reporter_of_mem hb hstage options ignored).named]
    rfl
  cases hstage : b.stage with
  | survey =>
    rw [Builtin.reportingBases, List.filter_cons_of_neg (by simp [hstage])]
    simp [add, reportingBases]
  | layout =>
    rw [hone (by simp [hstage]), reportingBases, reportingBases, ← List.map_append]
    refine .map _ ?_
    simp only [add, List.append_assoc]
    exact .append_left _ List.perm_append_comm
  | practice =>
    rw [hone (by simp [hstage]), reportingBases, reportingBases, ← List.map_append,
      List.append_assoc]
    rfl

theorem reportingBases_addAll [PatternLanguage] {c : Configuration} {bs : List (Builtin ν)}
    (hbs : bs ⊆ Builtin.all) {s s' : CheckSet ν} (h : addAll c bs s = .ok s') :
    s'.reportingBases.Perm (s.reportingBases ++ Builtin.reportingBases bs) := by
  induction bs generalizing s with
  | nil =>
    cases h
    simp [Builtin.reportingBases]
  | cons b bs ih =>
    obtain ⟨hb, hrest⟩ := List.cons_subset.1 hbs
    obtain ⟨check, hcheck, hlater⟩ := addAll_cons c b bs h
    obtain ⟨-, ignored, rfl⟩ := Builtin.configured_ok hcheck
    have hsplit : Builtin.reportingBases (b :: bs) =
        Builtin.reportingBases [b] ++ Builtin.reportingBases bs := by
      simp [Builtin.reportingBases, ← List.map_append, ← List.filter_append]
    rw [hsplit, ← List.append_assoc]
    exact (ih hrest hlater).trans ((reportingBases_add s hb _ ignored).append_right _)

/-- The checks that report are those that the configuration leaves in, each once. -/
theorem reportingBases_ofConfiguration [PatternLanguage] {c : Configuration} {s : CheckSet ν}
    (h : ofConfiguration c = .ok s) :
    s.reportingBases.Perm (Builtin.reportingBases ((Builtin.all (ν := ν)).filter (·.isWanted c))) :=
  reportingBases_addAll (fun _ hb => (List.mem_filter.1 hb).1) h

end CheckSet

namespace CommandLine

def requestWarning : String := "Some of the requested checks are unknown or disabled: "

/-- Whether a warning is about the checks that were asked for. -/
def isRequestWarning (warning : String) : Bool :=
  requestWarning.toList.isPrefixOf warning.toList

/-- What there is to say about the checks that a command line asks for: each of them should be on,
and none should be named twice. -/
def requestWarnings (c : Configuration) (list : String) : List String :=
  if (∀ name ∈ requestedNames list, c.Offers name) ∧
      ((requestedNames list).map CheckName.base).Nodup then []
  else [requestWarning ++ list]

theorem selectChecks_warnings [PatternLanguage] {c : Configuration} {checks : CheckSet Empty}
    (h : CheckSet.ofConfiguration c = .ok checks) (list : String) :
    (selectChecks checks (some list)).2 = requestWarnings c list := by
  have hperm := CheckSet.reportingBases_ofConfiguration h
  have hcount := @length_filter_contains_lt_iff _ ((requestedNames list).map CheckName.base)
    (hperm.nodup_iff.2 (Builtin.nodup_reportingBases c))
  have hoffers : (∀ x ∈ (requestedNames list).map CheckName.base, x ∈ checks.reportingBases) ↔
      ∀ name ∈ requestedNames list, c.Offers name := by
    rw [List.forall_mem_map]
    exact forall₂_congr fun name _ => hperm.mem_iff.trans Builtin.mem_reportingBases
  rw [hoffers, ← CheckSet.reportingCount_only, List.length_map] at hcount
  rw [requestWarnings, ← ite_not]
  exact if_congr hcount rfl rfl

theorem isRequestWarning_append (list : String) : isRequestWarning (requestWarning ++ list) := by
  rw [isRequestWarning, String.toList_append, List.isPrefixOf_iff_prefix]
  exact List.prefix_append _ _

theorem filter_requestWarnings (c : Configuration) (list : String) :
    (requestWarnings c list).filter isRequestWarning = requestWarnings c list := by
  rw [List.filter_eq_self]
  unfold requestWarnings
  split
  · exact nofun
  · exact fun w hw => List.mem_singleton.1 hw ▸ isRequestWarning_append list

theorem not_isRequestWarning_rejection {plan : AnalysisPlan} {parser : Parser}
    {files : List SourceFile} {w : String} (h : w ∈ rejectionWarnings plan parser files) :
    ¬isRequestWarning w := by
  obtain ⟨x, -, rfl⟩ := List.mem_map.1 h
  simp [isRequestWarning, requestWarning, String.toList_append]

theorem not_isRequestWarning_skip (paths : List Path) {w : String}
    (h : w ∈ paths.map fun p => "Skipping non-UTF-8 file " ++ p.text) : ¬isRequestWarning w := by
  obtain ⟨p, -, rfl⟩ := List.mem_map.1 h
  simp [isRequestWarning, requestWarning, String.toList_append]

theorem report_warnings (r : CheckRequest) (plan : AnalysisPlan) (checks : CheckSet Empty)
    (parser : Parser) (files : List SourceFile) (warnings : List String) :
    (report r plan checks parser files warnings).warnings =
      warnings ++ rejectionWarnings plan parser files := by
  unfold report
  dsimp only
  split <;> rfl

/-- The other warnings of a check are about files. -/
theorem check_warnings [PatternLanguage] {s : Surroundings} {r : CheckRequest}
    {asked? : Option String} {c : Configuration} {checks : CheckSet Empty}
    (hc : loadConfiguration s r.root asked? = .ok c)
    (h : CheckSet.ofConfiguration c = .ok checks) :
    ∃ others, (check s r asked?).warnings = (selectChecks checks r.checks?).2 ++ others ∧
      ∀ w ∈ others, ¬isRequestWarning w := by
  unfold check
  simp only [hc, h]
  split
  · exact ⟨[], (List.append_nil _).symm, nofun⟩
  · split
    · exact ⟨[], (List.append_nil _).symm, nofun⟩
    · rw [report_warnings, List.append_assoc]
      refine ⟨_, rfl, fun w hw => ?_⟩
      rcases List.mem_append.1 hw with hskip | hrejected
      · exact not_isRequestWarning_skip _ hskip
      · exact not_isRequestWarning_rejection hrejected

/-- Checks that are asked for are warned about exactly if one of them is not on or two of the names
belong to the same check. -/
theorem unavailable_or_repeated_warned [PatternLanguage] {c : Configuration}
    {checks : CheckSet Empty} (h : CheckSet.ofConfiguration c = .ok checks) (list : String) :
    (selectChecks checks (some list)).2 = requestWarnings c list ∧
    ∀ (s : Surroundings) (r : CheckRequest) (asked? : Option String),
      loadConfiguration s r.root asked? = .ok c → r.checks? = some list →
        (check s r asked?).warnings.filter isRequestWarning = requestWarnings c list := by
  refine ⟨selectChecks_warnings h list, fun s r asked? hc hlist => ?_⟩
  obtain ⟨others, hwarnings, hothers⟩ := check_warnings hc h
  rw [hwarnings, hlist, selectChecks_warnings h, List.filter_append, filter_requestWarnings,
    List.filter_eq_nil_iff.2 hothers, List.append_nil]

/-- An application in which the check of tabs is switched off. -/
def tabsAllowedSurroundings : Surroundings where
  application := ⟨[⟨⟨"railsbp.toml"⟩, some "[checks.RemoveTab]\nenabled = false\n"⟩]⟩

theorem unavailable_or_repeated_warned_tab :
    ∃ checks : CheckSet Empty, CheckSet.ofConfiguration Analysis.tabsAllowed = .ok checks ∧
      (selectChecks checks (some " LongLine,,LawOfDemeterReview")).2 = [] ∧
      (selectChecks checks (some "RoutePrepare")).2 = [requestWarning ++ "RoutePrepare"] ∧
      (check tabsAllowedSurroundings { checks? := some "LongLine,RemoveTab" } none).warnings.filter
        isRequestWarning = [requestWarning ++ "LongLine,RemoveTab"] := by
  obtain ⟨checks, h⟩ : ∃ checks : CheckSet Empty,
      CheckSet.ofConfiguration Analysis.tabsAllowed = .ok checks := ⟨_, rfl⟩
  have hlongLine := (unavailable_or_repeated_warned h " LongLine,,LawOfDemeterReview").1
  have hroutes := (unavailable_or_repeated_warned h "RoutePrepare").1
  have htab := (unavailable_or_repeated_warned h "LongLine,RemoveTab").2 tabsAllowedSurroundings
    { checks? := some "LongLine,RemoveTab" } none rfl rfl
  exact ⟨checks, h, hlongLine.trans (by decide +kernel), hroutes.trans (by decide +kernel),
    htab.trans (by decide +kernel)⟩

/-- Names that belong to the same check are warned about although the check is on. -/
theorem repeated_check_warned :
    (∀ name ∈ requestedNames "LongLineCheck,LongLineReview", Configuration.Offers {} name) ∧
    (CheckSet.ofConfiguration {}).toOption.map
        (fun checks => (selectChecks checks "LongLineCheck,LongLineReview").2) =
      some [requestWarning ++ "LongLineCheck,LongLineReview"] := by
  decide +kernel

end CommandLine
end RailsReview
