import RailsReview.Analysis
import RailsReview.Proofs.Matching
import RailsReview.Proofs.Pieces

/-!
# Files that are left out

A directory that is left out is searched for in the text of a path, yet it is found exactly where it
is a whole component and not the last one. With this the reasons for leaving a file out can be told
apart, and including a directory again changes the answer exactly for the files that had no other
reason.
-/
namespace RailsReview

/-- What stands between the slashes of a path, the last of it left out. -/
def Path.directories (p : Path) : List String := (Text.split '/' p.slashed).dropLast

namespace AnalysisPlan
open Regex

theorem isMatch_below_iff (directory text : String) : (below directory).isMatch text ↔
    ∃ front back, text.toList = front ++ directory.toList ++ '/' :: back ∧
      (front = [] ∨ ∃ more, front = more ++ ['/']) := by
  have hslash : ("/" : String).toList = ['/'] := rfl
  simp only [isMatch_iff, below, mem_ends_concat_cons, mem_ends_concat_nil, mem_ends_alt,
    mem_ends_atStart, mem_ends_text, hslash, List.singleton_append, List.reverse_singleton]
  constructor
  · rintro ⟨front, back, htext, q, start, hstart, middle, ⟨hname, -⟩, stop, ⟨hstop, -⟩, rfl⟩
    rw [hstop] at hname
    rcases hstart with ⟨hfront, rfl⟩ | ⟨hback, -⟩
    · obtain rfl : front = [] := List.reverse_eq_nil_iff.1 hfront
      exact ⟨[], q.after, htext.trans hname, .inl rfl⟩
    · refine ⟨front ++ ['/'], q.after, ?_, .inr ⟨front, rfl⟩⟩
      rw [htext, hback, hname]
      simp
  · rintro ⟨front, back, htext, rfl | ⟨more, rfl⟩⟩
    · refine ⟨[], directory.toList ++ '/' :: back, htext, ⟨'/' :: directory.toList.reverse, back⟩,
        ⟨[], directory.toList ++ '/' :: back⟩, .inl ⟨rfl, rfl⟩,
        ⟨directory.toList.reverse, '/' :: back⟩, ⟨rfl, by simp⟩, _, ⟨rfl, rfl⟩, rfl⟩
    · refine ⟨more, '/' :: (directory.toList ++ '/' :: back), by simp [htext],
        ⟨'/' :: (directory.toList.reverse ++ '/' :: more.reverse), back⟩,
        ⟨'/' :: more.reverse, directory.toList ++ '/' :: back⟩, .inr ⟨rfl, rfl⟩,
        ⟨directory.toList.reverse ++ '/' :: more.reverse, '/' :: back⟩, ⟨rfl, rfl⟩, _, ⟨rfl, rfl⟩,
        rfl⟩

/-- The directory is a component of the path, and not the last one. -/
theorem isMatch_below_slashed {directory : String} (h : '/' ∉ directory.toList) (path : Path) :
    (below directory).isMatch path.slashed ↔ directory ∈ path.directories := by
  rw [isMatch_below_iff, ← Text.mem_dropLast_pieces h, Path.directories, Text.split,
    ← List.map_dropLast, List.mem_map]
  constructor
  · exact fun hmem => ⟨directory.toList, hmem, String.ofList_toList⟩
  · rintro ⟨part, hpart, rfl⟩
    rwa [String.toList_ofList]

/-- Compiled patterns are the patterns, read one by one. -/
theorem map_parse?_of_mapM [PatternLanguage] {patterns : List String} {rs : List Regex}
    (h : patterns.mapM compile = .ok rs) : patterns.map PatternLanguage.parse? = rs.map some := by
  induction patterns generalizing rs with
  | nil =>
    cases h
    rfl
  | cons pattern patterns ih =>
    rw [List.mapM_cons] at h
    rcases hparse : PatternLanguage.parse? pattern with _ | r
    · simp only [compile, hparse] at h
      cases h
    · rcases hrest : patterns.mapM compile with e | rest
      · simp only [compile, hparse, hrest] at h
        cases h
      · simp only [compile, hparse, hrest] at h
        cases h
        rw [List.map_cons, List.map_cons, hparse, ih hrest]

/-- What a plan is made of. -/
theorem of_eq_ok_iff [PatternLanguage] {request : AnalysisRequest} {options : AnalysisOptions}
    {plan : AnalysisPlan} :
    of request options = .ok plan ↔ ∃ exclude only,
      (request.exclude ++ options.exclude).mapM compile = .ok exclude ∧
      (request.only ++ options.only).mapM compile = .ok only ∧
      plan =
        { excludedDirs := options.excludedDirs.map below
          exclude := exclude
          only := only
          failOnParseError := request.failOnParseError?.getD options.failOnParseError
          revisitMigrations := request.revisitMigrations?.getD options.revisitMigrations } := by
  unfold of
  rcases (request.exclude ++ options.exclude).mapM compile with e | exclude
  · simp
  · rcases (request.only ++ options.only).mapM compile with e | only
    · simp [Except.map]
    · simp [Except.map, eq_comm]

end AnalysisPlan

/-- Why a file is left out. -/
inductive Exclusion where
  /-- It lies below a directory of that name. -/
  | directory (name : String)
  /-- It matches a pattern of files to leave out. -/
  | pattern (regex : String)
  /-- It matches none of the patterns of files to analyze, and there are some. -/
  | unlisted

namespace Exclusion

/-- Whether the regular expression with that text matches a path. -/
def Matches [PatternLanguage] (regex : String) (path : Path) : Prop :=
  ∃ r, PatternLanguage.parse? regex = some r ∧ r.isMatch path.slashed

/-- Whether it is a reason to leave a file out. -/
def Holds [PatternLanguage] (request : AnalysisRequest) (options : AnalysisOptions) (path : Path) :
    Exclusion → Prop
  | directory name => name ∈ ["vendor", "spec", "test", "stories", "features", "tmp"] ∧
      name ∉ options.includeDirs ∧ name ∈ path.directories
  | pattern regex => regex ∈ request.exclude ++ options.exclude ∧ Matches regex path
  | unlisted => request.only ++ options.only ≠ [] ∧
      ∀ regex ∈ request.only ++ options.only, ¬Matches regex path

end Exclusion

namespace AnalysisPlan

theorem any_isMatch_iff [PatternLanguage] {patterns : List String} {rs : List Regex}
    (h : patterns.mapM compile = .ok rs) (path : Path) :
    rs.any (·.isMatch path.slashed) ↔ ∃ regex ∈ patterns, Exclusion.Matches regex path := by
  have hread : rs.any (·.isMatch path.slashed) =
      patterns.any fun regex => (PatternLanguage.parse? regex).any (·.isMatch path.slashed) := by
    calc rs.any (·.isMatch path.slashed)
        = (rs.map some).any (Option.any (·.isMatch path.slashed)) := by rw [List.any_map]; rfl
      _ = patterns.any fun regex =>
          (PatternLanguage.parse? regex).any (·.isMatch path.slashed) := by
        rw [← map_parse?_of_mapM h, List.any_map]
        rfl
  rw [hread, List.any_eq_true]
  exact exists_congr fun regex => and_congr_right fun _ => Option.any_eq_true ..

theorem any_below_iff (options : AnalysisOptions) (path : Path) :
    (options.excludedDirs.map below).any (·.isMatch path.slashed) ↔
      ∃ name ∈ skippedDirectories, name ∉ options.includeDirs ∧ name ∈ path.directories := by
  have hplain : ∀ name ∈ skippedDirectories, '/' ∉ name.toList := by decide
  rw [List.any_map, List.any_eq_true]
  refine exists_congr fun name => ?_
  rw [AnalysisOptions.excludedDirs, List.mem_filter, and_assoc]
  refine and_congr_right fun hname => ?_
  rw [Function.comp_apply, isMatch_below_slashed (hplain name hname)]
  simp

/-- A file is left out exactly if there is a reason. -/
theorem excludes_iff [PatternLanguage] {request : AnalysisRequest} {options : AnalysisOptions}
    {plan : AnalysisPlan} (h : of request options = .ok plan) (path : Path) :
    plan.excludes path ↔ ∃ reason : Exclusion, reason.Holds request options path := by
  obtain ⟨exclude, only, hexclude, honly, rfl⟩ := of_eq_ok_iff.1 h
  have hunlisted : (!only.isEmpty && !only.any (·.isMatch path.slashed)) ↔
      Exclusion.unlisted.Holds request options path := by
    rw [Bool.and_eq_true, Bool.not_eq_true', List.isEmpty_eq_false_iff, Bool.not_eq_true',
      ← Bool.not_eq_true, any_isMatch_iff honly, not_exists]
    refine and_congr (not_congr ?_) (forall_congr' fun regex => not_and)
    rw [← List.map_eq_nil_iff (f := some), ← map_parse?_of_mapM honly, List.map_eq_nil_iff]
  rw [excludes, Bool.or_eq_true, Bool.or_eq_true, any_below_iff, any_isMatch_iff hexclude,
    hunlisted]
  constructor
  · rintro ((⟨name, hname⟩ | ⟨regex, hregex⟩) | hnone)
    · exact ⟨.directory name, hname⟩
    · exact ⟨.pattern regex, hregex⟩
    · exact ⟨.unlisted, hnone⟩
  · rintro ⟨name | regex | _, h⟩
    · exact .inl (.inl ⟨name, h⟩)
    · exact .inl (.inr ⟨regex, h⟩)
    · exact .inr h

end AnalysisPlan

/-- The options with one more directory to analyze. -/
def AnalysisOptions.including (o : AnalysisOptions) (name : String) : AnalysisOptions :=
  { o with includeDirs := name :: o.includeDirs }

theorem Exclusion.holds_including [PatternLanguage] {request : AnalysisRequest}
    {options : AnalysisOptions} {path : Path} (name : String) (reason : Exclusion) :
    reason.Holds request (options.including name) path ↔
      reason.Holds request options path ∧ reason ≠ .directory name := by
  cases reason with
  | directory other =>
    simp only [Holds, AnalysisOptions.including, List.mem_cons, not_or, ne_eq, directory.injEq]
    constructor
    · exact fun ⟨hskipped, ⟨hother, hincluded⟩, hpath⟩ => ⟨⟨hskipped, hincluded, hpath⟩, hother⟩
    · exact fun ⟨⟨hskipped, hincluded, hpath⟩, hother⟩ => ⟨hskipped, ⟨hother, hincluded⟩, hpath⟩
  | pattern regex => exact (and_iff_left nofun).symm
  | unlisted => exact (and_iff_left nofun).symm

namespace AnalysisPlan

theorem of_including [PatternLanguage] {request : AnalysisRequest} {options : AnalysisOptions}
    {plan : AnalysisPlan} (h : of request options = .ok plan) (name : String) :
    ∃ plan', of request (options.including name) = .ok plan' := by
  obtain ⟨exclude, only, hexclude, honly, -⟩ := of_eq_ok_iff.1 h
  exact ⟨_, of_eq_ok_iff.2 ⟨exclude, only, hexclude, honly, rfl⟩⟩

/-- A file is left out exactly if there is a reason: one of its directories, a pattern that matches
it, or patterns of files to analyze that do not. Including a directory again matters to the files
for which it is the only reason, and to no others. -/
theorem excludes_whole_components [PatternLanguage] {request : AnalysisRequest}
    {options : AnalysisOptions} {plan : AnalysisPlan} (h : of request options = .ok plan)
    (path : Path) :
    (plan.excludes path ↔ ∃ reason : Exclusion, reason.Holds request options path) ∧
    ∀ name, ∃ plan', of request (options.including name) = .ok plan' ∧
      (plan'.excludes path ≠ plan.excludes path ↔
        ∀ reason : Exclusion, reason.Holds request options path ↔ reason = .directory name) := by
  refine ⟨excludes_iff h path, fun name => ?_⟩
  obtain ⟨plan', h'⟩ := of_including h name
  refine ⟨plan', h', ?_⟩
  rw [ne_eq, Bool.eq_iff_iff, excludes_iff h, excludes_iff h']
  simp only [Exclusion.holds_including]
  constructor
  · intro hchanged
    have hall : ∀ reason : Exclusion, reason.Holds request options path →
        reason = .directory name := by
      intro reason hreason
      by_contra hne
      exact hchanged (iff_of_true ⟨reason, hreason, hne⟩ ⟨reason, hreason⟩)
    obtain ⟨reason, hreason⟩ : ∃ reason : Exclusion, reason.Holds request options path := by
      by_contra hnone
      exact hchanged (iff_of_false (fun ⟨reason, hreason, _⟩ => hnone ⟨reason, hreason⟩) hnone)
    exact fun other => ⟨hall other, fun hother => hother ▸ hall reason hreason ▸ hreason⟩
  · intro honly hsame
    obtain ⟨reason, hreason, hne⟩ := hsame.2 ⟨.directory name, (honly _).2 rfl⟩
    exact hne ((honly reason).1 hreason)

/-- Analyzes Ruby files, those below `spec` as well. -/
def rubyRequest : AnalysisRequest := { exclude := ["^/lib/"], only := ["rb$"] }

def specIncluded : AnalysisOptions := { includeDirs := ["spec"] }

theorem excludes_whole_components_plugin :
    let path : Path := ⟨"/blog\\vendor//spec/vendor_spec.rb"⟩
    ∃ plan plan', of rubyRequest specIncluded = .ok plan ∧
      of rubyRequest (specIncluded.including "vendor") = .ok plan' ∧
      plan.excludes path = true ∧ plan'.excludes path = false ∧
      ∀ reason : Exclusion, reason.Holds rubyRequest specIncluded path ↔
        reason = .directory "vendor" := by
  intro path
  have hbefore : (of rubyRequest specIncluded).toOption.any (·.excludes path) := by decide +kernel
  have hafter : (of rubyRequest (specIncluded.including "vendor")).toOption.any
      (!·.excludes path) := by decide +kernel
  rcases h : of rubyRequest specIncluded with e | plan
  · rw [h] at hbefore
    cases hbefore
  obtain ⟨plan', h', hchanges⟩ := (excludes_whole_components h path).2 "vendor"
  rw [h] at hbefore
  rw [h'] at hafter
  have hout : plan.excludes path = true := hbefore
  have hin : plan'.excludes path = false := by simpa [Except.toOption] using hafter
  refine ⟨plan, plan', rfl, h', hout, hin, hchanges.1 ?_⟩
  rw [hout, hin]
  nofun

end AnalysisPlan

end RailsReview
