import RailsReview.Proofs.ClassNames
import RailsReview.Table.Routes

/-!
# Names of controllers

A controller may be written as a path, as a class name or with its namespaces apart. Each way, a
route leads to the same class.
-/
namespace RailsReview.Route
open Inflection

theorem withoutControllerEnding_eq (name : String) :
    withoutControllerEnding name =
      ((Text.afterStart? "Controller".toList.reverse name.toList.reverse).map fun back =>
        String.ofList back.reverse).getD name := by
  unfold withoutControllerEnding
  cases Text.afterStart? "Controller".toList.reverse name.toList.reverse <;> rfl

theorem withoutControllerEnding_append (c : String) :
    withoutControllerEnding (c ++ "Controller") = c := by
  rw [withoutControllerEnding_eq, Text.withoutEnd_eq_some_iff.2 rfl, Option.getD_some]

theorem withoutControllerEnding_eq_self {name : String} (h : ∀ c ∈ name.toList, isPlain c) :
    withoutControllerEnding name = name := by
  rw [withoutControllerEnding_eq]
  generalize hend : Option.map _ _ = base?
  cases base? with
  | none => rfl
  | some base =>
    rw [Text.withoutEnd_eq_some_iff.1 hend, String.toList_append] at h
    exact absurd (h 'C' (List.mem_append_right _ (by decide))) (by decide)

theorem segments_of_underscore {name : String} {parts : List String} (hne : parts ≠ [])
    (hparts : ∀ part ∈ parts, '/' ∉ part.toList)
    (hname : underscore (withoutControllerEnding name) = "/".intercalate parts) :
    segments name = parts.filter (· ≠ "") := by
  rw [segments, hname, Text.split_intercalate rfl hne hparts]

/-- A path is taken as it is, except that its empty parts are left out. -/
theorem segments_of_path {parts : List String} (hne : parts ≠ [])
    (hparts : ∀ part ∈ parts, part = "" ∨ IsSegment part) :
    segments ("/".intercalate parts) = parts.filter (· ≠ "") := by
  have hplain : ∀ c ∈ ("/".intercalate parts).toList, isPlain c := by
    intro c hc
    rw [String.toList_intercalate] at hc
    rcases Text.mem_intercalate hc with hmem | ⟨_, hpart, hmem⟩
    · rw [List.mem_singleton.1 hmem]
      decide
    · obtain ⟨part, hmem', rfl⟩ := List.mem_map.1 hpart
      rcases hparts part hmem' with rfl | hsegment
      · cases hmem
      · exact hsegment.isPlain_of_mem hmem
  have hslash : ∀ part ∈ parts, '/' ∉ part.toList := by
    intro part hpart
    rcases hparts part hpart with rfl | hsegment
    · exact List.not_mem_nil
    · exact hsegment.notMem (by decide) (by decide)
  refine segments_of_underscore hne hslash ?_
  rw [withoutControllerEnding_eq_self hplain, underscore_eq_self hplain]

theorem of_eq {name : String} {q : List String} {p : String} (hname : segments name = q ++ [p])
    (namespaces : List String) (action : String) :
    Route.of namespaces name action = ⟨namespaces.filter (· ≠ "") ++ q, p, action⟩ := by
  simp only [Route.of, hname, List.dropLast_concat, List.getLastD_concat]

section Spelling
variable {q : List String} {p : String} (h : ∀ s ∈ q ++ [p], IsSegment s)
include h

theorem filter_segments : (q ++ [p]).filter (· ≠ "") = q ++ [p] :=
  List.filter_eq_self.2 fun s hs => decide_eq_true (h s hs).ne_empty

theorem notMem_slash : ∀ s ∈ q ++ [p], '/' ∉ s.toList :=
  fun s hs => (h s hs).notMem (by decide) (by decide)

theorem segments_path : segments ("/".intercalate (q ++ [p])) = q ++ [p] := by
  rw [segments_of_path (by simp) fun s hs => .inr (h s hs), filter_segments h]

/-- Without a path in front of it, a controller stands after a slash. -/
theorem segments_slash : segments ("/".intercalate q ++ "/" ++ p) = q ++ [p] := by
  rcases q with _ | ⟨s, q⟩
  · have hparts : ∀ part ∈ ["", p], part = "" ∨ IsSegment part := by
      simpa using Or.inr (h p (by simp))
    have hempty := segments_of_path (by simp) hparts
    have hp : p ≠ "" := (h p (by simp)).ne_empty
    simpa [hp] using hempty
  · have hpath := segments_path h
    rwa [String.intercalate_append_of_ne_nil (by simp) (by simp), String.intercalate_singleton]
      at hpath

theorem segments_className :
    segments (camelize ("/".intercalate (q ++ [p])) ++ "Controller") = q ++ [p] := by
  have hpath : IsPath ("/".intercalate (q ++ [p])) := ⟨q ++ [p], by simp, h, rfl⟩
  refine (segments_of_underscore (by simp) (notMem_slash h) ?_).trans (filter_segments h)
  rw [withoutControllerEnding_append, hpath.underscore_camelize]

theorem of_namespaces (namespaces : List String) (action : String) :
    Route.of (namespaces ++ q) p action = ⟨namespaces.filter (· ≠ "") ++ q, p, action⟩ := by
  have hp : segments p = [] ++ [p] := by
    have hpath := segments_path (q := []) fun s hs => h s (List.mem_append_right q hs)
    rwa [List.nil_append, String.intercalate_singleton] at hpath
  have hq : q.filter (· ≠ "") = q :=
    List.filter_eq_self.2 fun s hs => decide_eq_true (h s (List.mem_append_left _ hs)).ne_empty
  rw [of_eq hp, List.filter_append, hq, List.append_nil]

theorem controllerClass_of_segments (action : String) :
    controllerClass ⟨q, p, action⟩ = camelize ("/".intercalate (q ++ [p])) ++ "Controller" := by
  rw [camelize_intercalate (by simp) (notMem_slash h), controllerClass, List.map_append,
    List.map_singleton]
  rcases q with _ | ⟨s, q⟩
  · simp
  · rw [String.intercalate_append_of_ne_nil (by simp) (by simp),
      String.intercalate_append_of_ne_nil (by simp) (by simp), String.intercalate_singleton,
      String.intercalate_singleton]
    simp only [String.append_assoc]

end Spelling

theorem controllerClass_of_className {c : String} (h : IsClassName c) (action : String) :
    (Route.of [] (c ++ "Controller") action).controllerClass = c ++ "Controller" := by
  obtain ⟨parts, hne, hparts, hpath⟩ := h.isPath_underscore
  have hconcat := List.dropLast_concat_getLast hne
  rw [← hconcat] at hparts hpath
  have hname := segments_className hparts
  have hclass := controllerClass_of_segments hparts action
  rw [← hpath, h.camelize_underscore] at hname hclass
  rw [of_eq hname, List.filter_nil, List.nil_append, hclass]

/-- Paths and class names are the same names in two spellings, and a third gives the namespaces of a
controller separately. -/
theorem names_round_trip :
    (∀ p, IsPath p → IsClassName (camelize p) ∧ underscore (camelize p) = p) ∧
    (∀ c, IsClassName c → IsPath (underscore c) ∧ camelize (underscore c) = c) ∧
    (∀ c action, IsClassName c →
      (Route.of [] (c ++ "Controller") action).controllerClass = c ++ "Controller") ∧
    ∀ namespaces q p action, (∀ s ∈ q ++ [p], IsSegment s) →
      let path := "/".intercalate (q ++ [p])
      Route.of namespaces ("/".intercalate q ++ "/" ++ p) action =
          Route.of (namespaces ++ q) p action ∧
        Route.of namespaces path action = Route.of (namespaces ++ q) p action ∧
        Route.of namespaces (camelize path ++ "Controller") action =
          Route.of (namespaces ++ q) p action ∧
        (Route.of q p action).controllerClass = camelize path ++ "Controller" := by
  refine ⟨fun _ h => ⟨h.isClassName_camelize, h.underscore_camelize⟩,
    fun _ h => ⟨h.isPath_underscore, h.camelize_underscore⟩,
    fun _ action h => controllerClass_of_className h action, fun namespaces q p action h => ?_⟩
  have hclass : (Route.of q p action).controllerClass =
      camelize ("/".intercalate (q ++ [p])) ++ "Controller" := by
    have hnested := of_namespaces h [] action
    rw [List.filter_nil, List.nil_append] at hnested
    rw [hnested, controllerClass_of_segments h]
  rw [of_namespaces h]
  exact ⟨of_eq (segments_slash h) _ _, of_eq (segments_path h) _ _,
    of_eq (segments_className h) _ _, hclass⟩

theorem names_round_trip_user_posts :
    camelize "admin2/user_posts" = "Admin2::UserPosts" ∧
      (IsPath "admin2/user_posts" ∧
        underscore (camelize "admin2/user_posts") = "admin2/user_posts") ∧
      (IsClassName "Admin2::UserPosts" ∧
        camelize (underscore "Admin2::UserPosts") = "Admin2::UserPosts" ∧
        (Route.of [] "Admin2::UserPostsController" "show").controllerClass =
          "Admin2::UserPostsController") ∧
      (∀ s ∈ ["admin2", "user_posts"], IsSegment s) ∧
      Route.of ["api"] "admin2/user_posts" "show" =
        Route.of ["api", "admin2"] "user_posts" "show" := by
  have hsegments : ∀ s ∈ ["admin2", "user_posts"], IsSegment s := by
    rw [List.forall_mem_cons, List.forall_mem_singleton]
    exact ⟨⟨[['a', 'd', 'm', 'i', 'n', '2']], by decide, by decide +kernel,
        by decide +kernel⟩,
      ⟨[['u', 's', 'e', 'r'], ['p', 'o', 's', 't', 's']], by decide, by decide +kernel,
        by decide +kernel⟩⟩
  have hconstants : ∀ s ∈ ["Admin2", "UserPosts"], IsConstant s := by
    rw [List.forall_mem_cons, List.forall_mem_singleton]
    exact ⟨⟨[['A', 'd', 'm', 'i', 'n', '2']], by decide, by decide +kernel,
        by decide +kernel⟩,
      ⟨[['U', 's', 'e', 'r'], ['P', 'o', 's', 't', 's']], by decide, by decide +kernel,
        by decide +kernel⟩⟩
  have hpath : IsPath "admin2/user_posts" :=
    ⟨["admin2", "user_posts"], by decide, hsegments, by decide +kernel⟩
  have hname : IsClassName "Admin2::UserPosts" :=
    ⟨["Admin2", "UserPosts"], by decide, hconstants, by decide +kernel⟩
  obtain ⟨hpaths, hnames, hclasses, hroutes⟩ := names_round_trip
  have hclass := hclasses _ "show" hname
  have hroute := (hroutes ["api"] ["admin2"] "user_posts" "show" hsegments).1
  have hending : "Admin2::UserPosts" ++ "Controller" = "Admin2::UserPostsController" := by
    decide +kernel
  have hjoined : "/".intercalate ["admin2"] ++ "/" ++ "user_posts" = "admin2/user_posts" := by
    decide +kernel
  rw [hending] at hclass
  rw [hjoined] at hroute
  exact ⟨by decide +kernel, ⟨hpath, (hpaths _ hpath).2⟩, ⟨hname, (hnames _ hname).2, hclass⟩,
    hsegments, hroute⟩

end RailsReview.Route
