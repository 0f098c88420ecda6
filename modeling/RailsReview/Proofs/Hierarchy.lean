import Mathlib.Data.List.Perm.Subperm
import RailsReview.Table.Classes

/-!
# Families of classes

The way up from a class leads over its superclass to the superclass of that, and so on; the classes
below a name are those whose way up meets it. A hierarchy may be cyclic, so it has to be shown that
the search upwards is long enough and that the search downwards misses nothing. Neither finds more.
-/
namespace RailsReview.ClassTable
variable {t : ClassTable} {p : String → Bool} {found name : String} {steps : Nat}

/-- On the way up from a name, `found` is the first to satisfy `p`, and this many names come before
it. -/
inductive FirstAbove (t : ClassTable) (p : String → Bool) (found : String) : Nat → String → Prop
  | here {name : String} : t.superclassOf? name = some found → found ≠ "" → p found →
      FirstAbove t p found 0 name
  | further {name above : String} {steps : Nat} : t.superclassOf? name = some above →
      above ≠ "" → ¬p above → FirstAbove t p found steps above →
      FirstAbove t p found (steps + 1) name

theorem FirstAbove.steps_unique (h : t.FirstAbove p found steps name) {steps' : Nat}
    (h' : t.FirstAbove p found steps' name) : steps = steps' := by
  induction h generalizing steps' with
  | here hfound _ hp =>
    cases h' with
    | here => rfl
    | further habove _ hnot _ =>
      obtain rfl := Option.some.inj (hfound.symm.trans habove)
      exact absurd hp hnot
  | further habove _ hnot _ ih =>
    cases h' with
    | here hfound _ hp =>
      obtain rfl := Option.some.inj (hfound.symm.trans habove)
      exact absurd hp hnot
    | further habove' _ _ hrest =>
      obtain rfl := Option.some.inj (habove.symm.trans habove')
      rw [ih hrest]

theorem mem_names_of_superclassOf? {above : String} (h : t.superclassOf? name = some above) :
    name ∈ t.classes.map (·.qualifiedName) := by
  obtain ⟨c, hc, -⟩ := Option.map_eq_some_iff.1 h
  have hname := List.find?_some hc
  exact List.mem_map.2 ⟨c, List.mem_of_find?_eq_some hc, by simpa using hname⟩

/-- The names before the one that is found are different and declared. -/
theorem FirstAbove.exists_names (h : t.FirstAbove p found steps name) :
    ∃ names : List String, names.length = steps ∧ names.Nodup ∧
      names ⊆ t.classes.map (·.qualifiedName) ∧
      ∀ x ∈ names, ∃ k < steps, t.FirstAbove p found k x := by
  induction h with
  | here => exact ⟨[], rfl, List.nodup_nil, List.nil_subset _, nofun⟩
  | @further name above steps _ _ _ hrest ih =>
    obtain ⟨names, hlength, hnodup, hdeclared, hbefore⟩ := ih
    have hfresh : above ∉ names := by
      intro hmem
      obtain ⟨k, hk, hx⟩ := hbefore above hmem
      have := hrest.steps_unique hx
      omega
    have habove : above ∈ t.classes.map (·.qualifiedName) := by
      cases hrest with
      | here hsuper => exact mem_names_of_superclassOf? hsuper
      | further hsuper => exact mem_names_of_superclassOf? hsuper
    refine ⟨above :: names, by simp [hlength], List.nodup_cons.2 ⟨hfresh, hnodup⟩,
      List.cons_subset.2 ⟨habove, hdeclared⟩, fun x hx => ?_⟩
    rcases List.mem_cons.1 hx with rfl | hx
    · exact ⟨steps, by omega, hrest⟩
    · obtain ⟨k, hk, hx⟩ := hbefore x hx
      exact ⟨k, by omega, hx⟩

theorem FirstAbove.steps_le (h : t.FirstAbove p found steps name) :
    steps ≤ t.classes.length := by
  obtain ⟨names, hlength, hnodup, hdeclared, -⟩ := h.exists_names
  have hle := (List.subperm_of_subset hnodup hdeclared).length_le
  simpa [hlength] using hle

/-- The search finds what comes first, if nothing between was seen before. What was seen before is
further away, so it cannot be met again. -/
theorem FirstAbove.find?_climb (h : t.FirstAbove p found steps name) {fuel : Nat}
    (hfuel : steps < fuel) {seen : List String}
    (hseen : ∀ x ∈ seen, ¬p x ∧ ∃ k, steps ≤ k ∧ t.FirstAbove p found k x) :
    (t.climb fuel seen (t.superclassOf? name)).find? p = some found := by
  induction h generalizing fuel seen with
  | here hsuper hne hp =>
    obtain ⟨fuel, rfl⟩ := Nat.exists_eq_succ_of_ne_zero (by omega : fuel ≠ 0)
    have hnew : found ∉ seen := fun hmem => (hseen found hmem).1 hp
    rw [hsuper, climb, if_neg (by simp [hne, hnew]), List.find?_cons_of_pos hp]
  | @further name above steps hsuper hne hp hrest ih =>
    obtain ⟨fuel, rfl⟩ := Nat.exists_eq_succ_of_ne_zero (by omega : fuel ≠ 0)
    have hnew : above ∉ seen := by
      intro hmem
      obtain ⟨-, k, hk, hx⟩ := hseen above hmem
      have := hrest.steps_unique hx
      omega
    rw [hsuper, climb, if_neg (by simp [hne, hnew]), List.find?_cons_of_neg hp]
    apply ih (by omega)
    intro x hx
    rcases List.mem_cons.1 hx with rfl | hx
    · exact ⟨hp, steps, Nat.le_refl _, hrest⟩
    · obtain ⟨hx, k, hk, hfar⟩ := hseen x hx
      exact ⟨hx, k, by omega, hfar⟩

theorem FirstAbove.find?_ancestors (h : t.FirstAbove p found steps name) :
    (t.ancestors name).find? p = some found :=
  h.find?_climb (Nat.lt_succ_of_le h.steps_le) nofun

theorem exists_firstAbove_of_climb {fuel : Nat} {seen : List String}
    (h : (t.climb fuel seen (t.superclassOf? name)).find? p = some found) :
    ∃ steps, t.FirstAbove p found steps name := by
  induction fuel generalizing seen name with
  | zero => simp [climb] at h
  | succ fuel ih =>
    cases hsuper : t.superclassOf? name with
    | none => simp [hsuper, climb] at h
    | some above =>
      rw [hsuper, climb] at h
      split at h
      · simp at h
      · rename_i hstop
        have hne : above ≠ "" := fun heq => hstop (by simp [heq])
        by_cases hp : p above
        · rw [List.find?_cons_of_pos hp] at h
          obtain rfl : above = found := Option.some.inj h
          exact ⟨0, .here hsuper hne hp⟩
        · rw [List.find?_cons_of_neg hp] at h
          obtain ⟨steps, habove⟩ := ih h
          exact ⟨steps + 1, .further hsuper hne hp habove⟩

/-- The search upwards finds what comes first, and nothing else. -/
theorem find?_ancestors_eq_some_iff :
    (t.ancestors name).find? p = some found ↔ ∃ steps, t.FirstAbove p found steps name :=
  ⟨exists_firstAbove_of_climb, fun ⟨_, h⟩ => h.find?_ancestors⟩

theorem climb_none (fuel : Nat) (seen : List String) : t.climb fuel seen none = [] := by
  cases fuel <;> rfl

/-- The way up ends by itself. The names on it are different, and only the last one can be
undeclared, so no more steps are made than there are declared names that were not met yet. -/
theorem climb_add {fuel : Nat} {seen : List String} (hnodup : seen.Nodup)
    (hdeclared : seen ⊆ t.classes.map (·.qualifiedName))
    (hfuel : t.classes.length < fuel + seen.length) (more : Nat) (current : Option String) :
    t.climb (fuel + more) seen current = t.climb fuel seen current := by
  induction fuel generalizing seen current with
  | zero =>
    have hle := (List.subperm_of_subset hnodup hdeclared).length_le
    rw [List.length_map] at hle
    omega
  | succ fuel ih =>
    cases current with
    | none => rw [climb_none, climb_none]
    | some name =>
      rw [Nat.add_right_comm, climb, climb]
      by_cases hstop : name = "" || seen.contains name
      · rw [if_pos hstop, if_pos hstop]
      · rw [if_neg hstop, if_neg hstop]
        congr 1
        have hnew : name ∉ seen := fun hmem => hstop (by simp [hmem])
        cases hsuper : t.superclassOf? name with
        | none => rw [climb_none, climb_none]
        | some above =>
          have hname := mem_names_of_superclassOf? hsuper
          refine ih (List.nodup_cons.2 ⟨hnew, hnodup⟩) (List.cons_subset.2 ⟨hname, hdeclared⟩) ?_ _
          rw [List.length_cons]
          omega

theorem climb_ancestors (t : ClassTable) (name : String) (more : Nat) :
    t.climb (t.classes.length + 1 + more) [] (t.superclassOf? name) = t.ancestors name :=
  climb_add List.nodup_nil (List.nil_subset _) (by simp) more _

/-- The declared classes whose way up meets a name. -/
inductive Below (t : ClassTable) (name : String) : ClassRecord → Prop
  | direct {c : ClassRecord} : c ∈ t.classes → t.superclass c = name → Below t name c
  | further {c above : ClassRecord} : c ∈ t.classes → t.superclass c = above.qualifiedName →
      Below t name above → Below t name c

/-- The classes of `rest` that lead to one of the pending names, over classes of `rest` only. -/
inductive LeadsTo (t : ClassTable) (rest : List ClassRecord) (pending : List String) :
    ClassRecord → Prop
  | direct {c : ClassRecord} : c ∈ rest → t.superclass c ∈ pending → LeadsTo t rest pending c
  | further {c above : ClassRecord} : c ∈ rest → t.superclass c = above.qualifiedName →
      LeadsTo t rest pending above → LeadsTo t rest pending c

/-- Once a name's direct subclasses have been taken out, all others still lead to what is pending,
because the names of those that were taken out are. -/
theorem LeadsTo.step {rest : List ClassRecord} {parent : String} {pending : List String}
    {c : ClassRecord} (h : t.LeadsTo rest (parent :: pending) c) :
    c ∈ t.directBelow parent rest ∨ t.LeadsTo (t.notDirectBelow parent rest)
      (((t.directBelow parent rest).map (·.qualifiedName)).reverse ++ pending) c := by
  have split {c : ClassRecord} (hc : c ∈ rest) :
      c ∈ t.directBelow parent rest ∨ c ∈ t.notDirectBelow parent rest := by
    by_cases hsuper : t.superclass c = parent
    · exact .inl (List.mem_filter.2 ⟨hc, by simpa using hsuper⟩)
    · exact .inr (List.mem_filter.2 ⟨hc, by simpa using hsuper⟩)
  induction h with
  | @direct c hc hsuper =>
    rcases split hc with hdirect | hother
    · exact .inl hdirect
    · rcases List.mem_cons.1 hsuper with heq | hpending
      · exact .inl (List.mem_filter.2 ⟨hc, by simpa using heq⟩)
      · exact .inr (.direct hother (List.mem_append_right _ hpending))
  | @further c above hc hsuper _ ih =>
    rcases split hc with hdirect | hother
    · exact .inl hdirect
    · rcases ih with habove | habove
      · refine .inr (.direct hother (List.mem_append_left _ ?_))
        simpa [hsuper] using ⟨above, habove, rfl⟩
      · exact .inr (.further hother hsuper habove)

theorem LeadsTo.mem_descend {rest : List ClassRecord} {pending : List String} {c : ClassRecord}
    (h : t.LeadsTo rest pending c) : c ∈ t.descend rest pending := by
  induction rest, pending using descend.induct t with
  | case1 rest =>
    exfalso
    induction h with
    | direct _ hsuper => simp at hsuper
    | further _ _ _ ih => exact ih
  | case2 rest parent pending direct ih =>
    rw [descend]
    rcases h.step with hdirect | hother
    · exact List.mem_append_left _ hdirect
    · exact List.mem_append_right _ (ih hother)

theorem Below.mem_subclasses {c : ClassRecord} (h : t.Below name c) : c ∈ t.subclasses name := by
  apply LeadsTo.mem_descend
  induction h with
  | direct hc hsuper => exact .direct hc (by simp [hsuper])
  | further hc hsuper _ ih => exact .further hc hsuper ih

/-- What leads to a direct subclass leads to its superclass. -/
theorem LeadsTo.unstep {rest : List ClassRecord} {parent : String} {pending : List String}
    {c : ClassRecord} (h : t.LeadsTo (t.notDirectBelow parent rest)
      (((t.directBelow parent rest).map (·.qualifiedName)).reverse ++ pending) c) :
    t.LeadsTo rest (parent :: pending) c := by
  induction h with
  | @direct c hc hsuper =>
    have hrest : c ∈ rest := (List.mem_filter.1 hc).1
    rcases List.mem_append.1 hsuper with hdirect | hpending
    · obtain ⟨above, habove, hname⟩ := List.mem_map.1 (List.mem_reverse.1 hdirect)
      obtain ⟨hmem, hparent⟩ := List.mem_filter.1 habove
      have hlead : t.LeadsTo rest (parent :: pending) above :=
        .direct hmem (by simp [eq_of_beq hparent])
      exact .further hrest hname.symm hlead
    · exact .direct hrest (List.mem_cons_of_mem _ hpending)
  | further hc hsuper _ ih => exact .further (List.mem_filter.1 hc).1 hsuper ih

theorem leadsTo_of_mem_descend {rest : List ClassRecord} {pending : List String} {c : ClassRecord}
    (h : c ∈ t.descend rest pending) : t.LeadsTo rest pending c := by
  induction rest, pending using descend.induct t with
  | case1 rest => simp [descend] at h
  | case2 rest parent pending direct ih =>
    rw [descend] at h
    rcases List.mem_append.1 h with hdirect | hother
    · obtain ⟨hmem, hparent⟩ := List.mem_filter.1 hdirect
      exact .direct hmem (by simp [eq_of_beq hparent])
    · exact (ih hother).unstep

/-- The search downwards finds the classes below a name, and nothing else. -/
theorem mem_subclasses_iff {c : ClassRecord} : c ∈ t.subclasses name ↔ t.Below name c := by
  refine ⟨fun h => ?_, Below.mem_subclasses⟩
  have hlead := leadsTo_of_mem_descend h
  induction hlead with
  | direct hc hsuper => exact .direct hc (by simpa using hsuper)
  | further hc hsuper hlead ih => exact .further hc hsuper (ih hlead.mem_descend)

end RailsReview.ClassTable
