import RailsReview.Proofs.ConfiguredChecks
import RailsReview.Proofs.Dictionary

/-!
# The order of configured entries

A check is looked up under its very name first. Only then do entries count that name it with
another ending, and of these the first one. So the order of the entries decides exactly where
several of them name a check in other ways and disagree.
-/
namespace RailsReview
variable {ν : Type}

namespace Configuration
variable {c c' : Configuration} {name : String}

/-- `c'` is the configuration `c` with its entries for checks in another order. -/
structure Rearranges (c c' : Configuration) : Prop where
  analysis : c'.analysis = c.analysis
  checks : c'.checks.Perm c.checks

/-- Whether a configuration has only one thing to say about a check, under its very name or under
all names for it. -/
def Settles (c : Configuration) (name : String) : Prop :=
  name ∈ c.checks.map (·.1) ∨
    ∀ e ∈ c.checks, ∀ e' ∈ c.checks, CheckName.base e.1 = CheckName.base name →
      CheckName.base e'.1 = CheckName.base name → e.2 = e'.2

theorem isSome_lookup (h : name ∈ c.checks.map (·.1)) : (c.checks.lookup name).isSome := by
  obtain ⟨e, he, rfl⟩ := List.mem_map.1 h
  exact List.lookup_isSome_iff.2 ⟨e, he, beq_self_eq_true _⟩

theorem check?_of_mem (h : name ∈ c.checks.map (·.1)) : c.check? name = c.checks.lookup name :=
  Option.or_of_isSome (isSome_lookup h)

theorem check?_of_notMem (h : name ∉ c.checks.map (·.1)) :
    c.check? name =
      (c.checks.find? fun e => CheckName.base e.1 == CheckName.base name).map (·.2) := by
  rw [check?, Dictionary.lookup_eq_none h, Option.none_or]

theorem Rearranges.mem_keys_iff (h : c.Rearranges c') :
    name ∈ c'.checks.map (·.1) ↔ name ∈ c.checks.map (·.1) := (h.checks.map _).mem_iff

theorem Settles.check?_eq (hname : c.Settles name) (hkeys : (c.checks.map (·.1)).Nodup)
    (h : c.Rearranges c') : c'.check? name = c.check? name := by
  by_cases hmem : name ∈ c.checks.map (·.1)
  · rw [check?_of_mem hmem, check?_of_mem (h.mem_keys_iff.2 hmem)]
    exact FirstMatch.lookup_eq_of_perm h.checks hkeys
  · rw [check?_of_notMem hmem, check?_of_notMem (mt h.mem_keys_iff.1 hmem)]
    refine FirstMatch.map_find?_eq_of_perm h.checks fun e he e' he' hbase hbase' => ?_
    exact hname.resolve_left hmem e he e' he' (beq_iff_eq.1 hbase) (beq_iff_eq.1 hbase')

/-- An entry that names a check in another way counts where it comes first. -/
theorem exists_rearranges_check? (hname : name ∉ c.checks.map (·.1)) {e : String × CheckOptions}
    (he : e ∈ c.checks) (hbase : CheckName.base e.1 = CheckName.base name) :
    ∃ c', c.Rearranges c' ∧ c'.check? name = some e.2 := by
  obtain ⟨checks, hperm, hfirst⟩ := FirstMatch.exists_perm_find?_eq
    (p := fun e => CheckName.base e.1 == CheckName.base name) he (by simpa using hbase)
  have h : c.Rearranges { c with checks := checks } := ⟨rfl, hperm⟩
  refine ⟨_, h, ?_⟩
  rw [check?_of_notMem (mt h.mem_keys_iff.1 hname), hfirst, Option.map_some]

theorem settles_of_check?_eq (h : ∀ c', c.Rearranges c' → c'.check? name = c.check? name) :
    c.Settles name := by
  refine or_iff_not_imp_left.2 fun hname e he e' he' hbase hbase' => ?_
  obtain ⟨c₁, hc₁, hfirst⟩ := exists_rearranges_check? hname he hbase
  obtain ⟨c₂, hc₂, hsecond⟩ := exists_rearranges_check? hname he' hbase'
  rw [h c₁ hc₁] at hfirst
  rw [h c₂ hc₂] at hsecond
  exact Option.some.inj (hfirst.symm.trans hsecond)

theorem optionsOf_eq_of_check?_eq (h : c'.check? name = c.check? name) :
    c'.optionsOf name = c.optionsOf name := by
  rw [optionsOf, optionsOf, h]

end Configuration

theorem CheckSet.addAll_congr [PatternLanguage] {c c' : Configuration} {bs : List (Builtin ν)}
    (h : ∀ b ∈ bs, c'.optionsOf b.name = c.optionsOf b.name) (s : CheckSet ν) :
    addAll c' bs s = addAll c bs s := by
  induction bs generalizing s with
  | nil => rfl
  | cons b bs ih =>
    obtain ⟨hb, hrest⟩ := List.forall_mem_cons.1 h
    rw [addAll, addAll, Builtin.configured_congr hb]
    simp only [ih hrest]

theorem CheckSet.ofConfiguration_congr [PatternLanguage] {c c' : Configuration}
    (h : ∀ b ∈ Builtin.all (ν := ν), c'.optionsOf b.name = c.optionsOf b.name) :
    ofConfiguration (ν := ν) c' = ofConfiguration c := by
  have hwanted : (Builtin.all (ν := ν)).filter (·.isWanted c') =
      (Builtin.all (ν := ν)).filter (·.isWanted c) :=
    List.filter_congr fun b hb => by
      rw [Builtin.isWanted, Builtin.isWanted, Configuration.isEnabled, Configuration.isEnabled,
        h b hb]
  rw [ofConfiguration, ofConfiguration, hwanted]
  exact addAll_congr (fun b hb => h b (List.mem_filter.1 hb).1) _

namespace Configuration

/-- The order of the entries is irrelevant for a check exactly where the configuration settles what
it says about it; where it does so for all checks, the set of checks is the same for every order. -/
theorem order_irrelevant_iff_settled [PatternLanguage] {c : Configuration}
    (hkeys : (c.checks.map (·.1)).Nodup) :
    (∀ name, c.Settles name ↔ ∀ c', c.Rearranges c' → c'.check? name = c.check? name) ∧
    (∀ name, c.Settles name → ∀ c', c.Rearranges c' →
      c'.isEnabled name = c.isEnabled name ∧ c'.optionsOf name = c.optionsOf name) ∧
    ((∀ b ∈ Builtin.all (ν := ν), c.Settles b.name) → ∀ c', c.Rearranges c' →
      CheckSet.ofConfiguration (ν := ν) c' = CheckSet.ofConfiguration c) := by
  have hoptions {name : String} (hname : c.Settles name) {c' : Configuration}
      (h : c.Rearranges c') : c'.optionsOf name = c.optionsOf name :=
    optionsOf_eq_of_check?_eq (hname.check?_eq hkeys h)
  refine ⟨fun name => ⟨fun hname c' h => hname.check?_eq hkeys h, settles_of_check?_eq⟩,
    fun name hname c' h => ⟨?_, hoptions hname h⟩, fun hall c' h => ?_⟩
  · rw [isEnabled, isEnabled, hoptions hname h]
  · exact CheckSet.ofConfiguration_congr fun b hb => hoptions (hall b hb) h

/-- Names the check of long lines in two ways, of which one is its very name. -/
def ownNameToo : Configuration :=
  { checks :=
      [("LongLine", { enabled? := some true }), ("LongLineCheck", { enabled? := some false })] }

theorem settles_ownNameToo {b : Builtin ν} (hb : b ∈ Builtin.all) : ownNameToo.Settles b.name := by
  by_cases hlong : CheckName.base b.name = "LongLine"
  · have hname : b.name = "LongLineCheck" := by
      obtain ⟨long, hmem, hown⟩ : ∃ long ∈ Builtin.all (ν := ν), long.name = "LongLineCheck" :=
        ⟨_, List.mem_of_getElem? (l := Builtin.all) (i := 2) rfl, rfl⟩
      have hbase : CheckName.base "LongLineCheck" = "LongLine" := by decide +kernel
      rw [← hown, Builtin.base_injective hb hmem (by rw [hlong, hown, hbase])]
    exact .inl (by rw [hname]; decide)
  · have hkeys : ∀ e ∈ ownNameToo.checks, CheckName.base e.1 = "LongLine" := by decide +kernel
    refine .inr fun e he _ _ hbase _ => absurd ?_ hlong
    rw [← hbase, hkeys e he]

theorem order_irrelevant_iff_settled_long_line :
    (ownNameToo.checks.map (·.1)).Nodup ∧
    (∀ b ∈ Builtin.all (ν := Empty), ownNameToo.Settles b.name) ∧
    ∀ c', ownNameToo.Rearranges c' →
      c'.check? "LongLineCheck" = ownNameToo.check? "LongLineCheck" ∧
      c'.isEnabled "LongLineCheck" = false ∧
      CheckSet.ofConfiguration (ν := Empty) c' = CheckSet.ofConfiguration ownNameToo := by
  have hkeys : (ownNameToo.checks.map (·.1)).Nodup := by decide
  have hlong : ownNameToo.Settles "LongLineCheck" := .inl (by decide)
  obtain ⟨hcheck, hoptions, hset⟩ := order_irrelevant_iff_settled (ν := Empty) hkeys
  refine ⟨hkeys, fun b hb => settles_ownNameToo hb, fun c' h => ⟨?_, ?_, ?_⟩⟩
  · exact (hcheck _).1 hlong c' h
  · exact (hoptions _ hlong c' h).1
  · exact hset (fun b hb => settles_ownNameToo hb) c' h

/-- Names the check of long lines in two ways, neither of which is its very name. -/
def otherNamesOnly : Configuration :=
  { checks :=
      [("LongLine", { enabled? := some true }), ("LongLineReview", { enabled? := some false })] }

/-- Two entries under other names than the very one compete, and the first one wins. -/
theorem order_decides_long_line :
    ∃ c', otherNamesOnly.Rearranges c' ∧ otherNamesOnly.isEnabled "LongLineCheck" = true ∧
      c'.isEnabled "LongLineCheck" = false :=
  ⟨{ checks := otherNamesOnly.checks.reverse }, ⟨rfl, List.reverse_perm _⟩, by decide +kernel,
    by decide +kernel⟩

end Configuration
end RailsReview
