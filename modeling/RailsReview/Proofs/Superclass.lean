import RailsReview.Proofs.ClassScope

/-!
# The superclass of a class

A superclass is looked up in the modules around the class, the innermost first, among all classes
that are declared. The class itself is one of them, so where the name that is looked up is its own
name, the search can end at the class. Here it is shown when it does, and that it finds the right
class otherwise.
-/
namespace RailsReview

/-- Of candidates that are tried from the deepest on, the first one that satisfies `p` is found. -/
theorem find?_deepest {α : Type} {candidate : Nat → α} {p : α → Bool} {n : Nat} {found : α} :
    ((List.range n).reverse.map candidate).find? p = some found ↔
      p found ∧ ∃ depth < n, candidate depth = found ∧
        ∀ deeper < n, depth < deeper → ¬p (candidate deeper) := by
  induction n with
  | zero => simp
  | succ n ih =>
    rw [List.range_succ, List.reverse_append, List.map_append, List.reverse_singleton,
      List.map_singleton, List.singleton_append]
    by_cases h : p (candidate n)
    · rw [List.find?_cons_of_pos h, Option.some.injEq]
      constructor
      · rintro rfl
        exact ⟨h, n, by omega, rfl, fun deeper hle hlt => by omega⟩
      · rintro ⟨-, depth, hlt, rfl, hnone⟩
        rcases Nat.lt_succ_iff_lt_or_eq.1 hlt with hless | rfl
        · exact absurd h (hnone n (by omega) hless)
        · rfl
    · rw [List.find?_cons_of_neg h, ih]
      constructor
      · rintro ⟨hfound, depth, hlt, rfl, hnone⟩
        refine ⟨hfound, depth, by omega, rfl, fun deeper hdeeper hless => ?_⟩
        rcases Nat.lt_succ_iff_lt_or_eq.1 hdeeper with hbelow | rfl
        · exact hnone deeper hbelow hless
        · exact h
      · rintro ⟨hfound, depth, hlt, rfl, hnone⟩
        rcases Nat.lt_succ_iff_lt_or_eq.1 hlt with hless | rfl
        · exact ⟨hfound, depth, hless, rfl, fun deeper hdeeper => hnone deeper (by omega)⟩
        · exact absurd hfound h

/-- A name in modules can be qualified step by step. -/
theorem qualify_append (outer inner : List String) (name : String) :
    qualify (outer ++ inner) name = qualify outer (qualify inner name) := by
  cases outer with
  | nil => rfl
  | cons m outer =>
    rw [qualify_eq, qualify_eq inner, List.append_assoc,
      String.intercalate_append_of_ne_nil (List.cons_ne_nil m outer) (by simp)]
    rfl

theorem qualify_injective (modules : List String) {name name' : String} :
    qualify modules name = qualify modules name' ↔ name = name' := by
  unfold qualify
  split
  · rfl
  · simp

namespace ClassRecord

/-- The names a superclass may have, from the innermost module to none. -/
theorem superclassCandidates_eq {c : ClassRecord} (hwritten : c.baseName ≠ "")
    (hrelative : absolute? c.base = none) :
    c.superclassCandidates = (List.range (c.modules.length + 1)).reverse.map fun depth =>
      qualify (c.modules.take depth) c.baseName := by
  have hinside : (List.range c.modules.length).reverse.map (fun depth =>
      qualify (c.modules.take (depth + 1)) c.baseName) =
        ((List.range c.modules.length).map Nat.succ).reverse.map fun depth =>
          qualify (c.modules.take depth) c.baseName := by
    rw [← List.map_reverse, List.map_map]
    rfl
  rw [superclassCandidates, if_neg hwritten, hrelative, List.range_succ_eq_map, List.reverse_cons,
    List.map_append, hinside]
  rfl

/-- A candidate is the class itself if the superclass is written as the end of its name. -/
theorem candidate_eq_iff (c : ClassRecord) (depth : Nat) :
    qualify (c.modules.take depth) c.baseName = c.qualifiedName ↔
      c.baseName = qualify (c.modules.drop depth) c.name := by
  have hname : c.qualifiedName =
      qualify (c.modules.take depth) (qualify (c.modules.drop depth) c.name) := by
    rw [← qualify_append, List.take_append_drop, qualifiedName]
  rw [hname, qualify_injective]

end ClassRecord

namespace ClassTable
variable {t : ClassTable} {c : ClassRecord}

/-- The superclass of a class among the other ones: the first candidate that is declared and not the
class itself, or else the name as written. -/
def otherSuperclass (t : ClassTable) (c : ClassRecord) : String :=
  (c.superclassCandidates.find? fun name => t.declares name && name != c.qualifiedName).getD
    c.baseName

/-- Whether a class hides its superclass. Looked up in one of the modules around it, the name of the
superclass is that of the class itself, and further inside nothing of this name is declared. -/
def Hides (t : ClassTable) (c : ClassRecord) : Prop :=
  ClassRecord.absolute? c.base = none ∧
    ∃ depth ≤ c.modules.length, c.baseName = qualify (c.modules.drop depth) c.name ∧
      ∀ deeper ≤ c.modules.length, depth < deeper →
        ¬t.declares (qualify (c.modules.take deeper) c.baseName)

theorem declares_of_mem (hc : c ∈ t.classes) : t.declares c.qualifiedName := by
  rw [declares, find?, List.find?_isSome]
  exact ⟨c, hc, beq_self_eq_true _⟩

theorem getLastD_superclassCandidates (hwritten : c.baseName ≠ "") :
    c.superclassCandidates.getLastD "" = c.baseName := by
  rw [ClassRecord.superclassCandidates, if_neg hwritten]
  split
  · rfl
  · simp

/-- The search ends at the class itself if the class hides its superclass. -/
theorem find?_candidates_eq_self_iff (hc : c ∈ t.classes) (hwritten : c.baseName ≠ "")
    (hother : c.baseName ≠ c.qualifiedName) :
    c.superclassCandidates.find? t.declares = some c.qualifiedName ↔ t.Hides c := by
  cases habsolute : ClassRecord.absolute? c.base with
  | some name =>
    have hone : c.superclassCandidates = [c.baseName] := by
      simp [ClassRecord.superclassCandidates, hwritten, habsolute]
    have hnot : ¬t.Hides c := fun h => by simp [Hides, habsolute] at h
    simp only [hnot, iff_false, hone]
    intro hfound
    exact hother (List.mem_singleton.1 (List.mem_of_find?_eq_some hfound)).symm
  | none =>
    rw [ClassRecord.superclassCandidates_eq hwritten habsolute, find?_deepest]
    simp only [ClassRecord.candidate_eq_iff, declares_of_mem hc, true_and, Hides, habsolute,
      Nat.lt_succ_iff]

/-- A search that does not end at a value finds the same without it. -/
theorem find?_other {α : Type} [DecidableEq α] {p : α → Bool} {x : α} {l : List α}
    (h : l.find? p ≠ some x) : l.find? (fun y => p y && y != x) = l.find? p := by
  induction l with
  | nil => rfl
  | cons y l ih =>
    by_cases hp : p y
    · rw [List.find?_cons_of_pos hp] at h ⊢
      have hne : y ≠ x := fun heq => h (by rw [heq])
      rw [List.find?_cons_of_pos (by simp [hp, hne])]
    · rw [List.find?_cons_of_neg hp] at h ⊢
      rw [List.find?_cons_of_neg (by simp [hp]), ih h]

theorem otherSuperclass_ne (hother : c.baseName ≠ c.qualifiedName) :
    t.otherSuperclass c ≠ c.qualifiedName := by
  unfold otherSuperclass
  cases hfound : c.superclassCandidates.find? fun name =>
      t.declares name && name != c.qualifiedName with
  | none => exact hother
  | some name =>
    have hname := List.find?_some hfound
    simp only [Bool.and_eq_true, bne_iff_ne] at hname
    exact hname.2

/-- The superclass of a class is found among the other classes unless the class hides it, and then
the class is found itself. -/
theorem superclass_unless_hidden (hc : c ∈ t.classes) (hwritten : c.baseName ≠ "")
    (hother : c.baseName ≠ c.qualifiedName) :
    (t.superclass c = t.otherSuperclass c ↔ ¬t.Hides c) ∧
      (t.superclass c = c.qualifiedName ↔ t.Hides c) := by
  have hself := find?_candidates_eq_self_iff hc hwritten hother
  by_cases hhides : t.Hides c
  · have hsuper : t.superclass c = c.qualifiedName := by
      rw [superclass, hself.2 hhides]
      rfl
    have hne := otherSuperclass_ne (t := t) hother
    simp [hsuper, hhides, hne.symm]
  · have hsuper : t.superclass c = t.otherSuperclass c := by
      rw [superclass, otherSuperclass, find?_other fun h => hhides (hself.1 h),
        getLastD_superclassCandidates hwritten]
    have hne := otherSuperclass_ne (t := t) hother
    simp [hsuper, hhides, hne]

/-- An application with a controller in a module that is derived from the one of the same name
outside of it. -/
def adminControllers : ClassTable :=
  ((({} : ClassTable).add ⟨"ApplicationController", "ActionController::Base", []⟩).add
    ⟨"ApplicationController", "ApplicationController", ["Admin"]⟩).add
      ⟨"PostsController", "ApplicationController", ["Admin"]⟩

theorem superclass_unless_hidden_posts :
    let c : ClassRecord := ⟨"PostsController", "ApplicationController", ["Admin"]⟩
    c ∈ adminControllers.classes ∧ c.baseName ≠ "" ∧ c.baseName ≠ c.qualifiedName ∧
      ¬adminControllers.Hides c ∧
      adminControllers.superclass c = adminControllers.otherSuperclass c ∧
      adminControllers.superclass c = "Admin::ApplicationController" := by
  intro c
  have hc : c ∈ adminControllers.classes := by decide +kernel
  have hwritten : c.baseName ≠ "" := by decide +kernel
  have hother : c.baseName ≠ c.qualifiedName := by decide +kernel
  have hsuper : adminControllers.superclass c = "Admin::ApplicationController" := by
    decide +kernel
  obtain ⟨hfound, hself⟩ := superclass_unless_hidden hc hwritten hother
  have hhides : ¬adminControllers.Hides c := by
    rw [← hself, hsuper]
    decide +kernel
  exact ⟨hc, hwritten, hother, hhides, hfound.2 hhides, hsuper⟩

/-- A class can be its own superclass, though another class is meant. -/
theorem superclass_hidden_admin :
    let c : ClassRecord := ⟨"ApplicationController", "ApplicationController", ["Admin"]⟩
    c ∈ adminControllers.classes ∧ c.baseName ≠ "" ∧ c.baseName ≠ c.qualifiedName ∧
      adminControllers.superclass c = c.qualifiedName ∧
      adminControllers.otherSuperclass c = "ApplicationController" := by
  decide +kernel

end ClassTable
end RailsReview
