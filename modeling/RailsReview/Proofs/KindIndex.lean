import Mathlib.Data.List.Count
import RailsReview.Check.Run
import RailsReview.Proofs.Dictionary

/-!
# The index of kinds

A run looks up in an index which checks are interested in a kind. The index is made once, by filing
every check under each of its kinds. Since no check names a kind twice, what is found under a kind
are the checks that name it, each once and in their order.
-/
namespace RailsReview.Run.KindIndex
variable {ν : Type}

theorem places_push (index : KindIndex) (k k' : Kind) (place : Nat) :
    (index.push k place).places k' = index.places k' ++ if k' = k then [place] else [] := by
  rw [places, push, Ledger.get?_alter]
  by_cases hk : k' = k
  · rw [if_pos hk, if_pos hk, hk]
    rfl
  · rw [if_neg hk, if_neg hk, List.append_nil]
    rfl

/-- A check is filed under a kind as often as it names it. -/
theorem places_addCheck (index : KindIndex) (x : Check ν × Nat) (k : Kind) :
    (index.addCheck x).places k =
      index.places k ++ List.replicate (x.1.kinds.count k) x.2 := by
  unfold addCheck
  generalize x.1.kinds = kinds
  induction kinds generalizing index with
  | nil => exact (List.append_nil _).symm
  | cons k' kinds ih =>
    rw [List.foldl_cons, ih, places_push, List.append_assoc, List.count_cons]
    by_cases hk : k' = k
    · rw [if_pos hk.symm, if_pos (beq_iff_eq.2 hk), List.replicate_succ, List.singleton_append]
    · rw [if_neg (Ne.symm hk), if_neg (by simpa using hk), List.nil_append, Nat.add_zero]

theorem places_foldl_addCheck (index : KindIndex) (xs : List (Check ν × Nat)) (k : Kind) :
    (xs.foldl addCheck index).places k =
      index.places k ++ xs.flatMap fun x => List.replicate (x.1.kinds.count k) x.2 := by
  induction xs generalizing index with
  | nil => exact (List.append_nil _).symm
  | cons x xs ih =>
    rw [List.foldl_cons, ih, places_addCheck, List.append_assoc, List.flatMap_cons]

theorem replicate_count_kinds (c : Check ν) (place : Nat) (k : Kind) :
    List.replicate (c.kinds.count k) place = if c.kinds.contains k then [place] else [] := by
  have hcount : c.kinds.count k = if k ∈ c.kinds then 1 else 0 := c.spec.kinds_nodup.count
  rw [hcount]
  by_cases hk : k ∈ c.kinds
  · rw [if_pos hk, if_pos (List.contains_iff_mem.2 hk)]
    rfl
  · rw [if_neg hk, if_neg (mt List.contains_iff_mem.1 hk)]
    rfl

/-- What is found under a kind. -/
theorem places_ofChecks (checks : List (Check ν)) (k : Kind) :
    (ofChecks checks).places k =
      (checks.zipIdx.filter fun x => x.1.kinds.contains k).map (·.2) := by
  have hone (xs : List (Check ν × Nat)) :
      (xs.flatMap fun x => List.replicate (x.1.kinds.count k) x.2) =
        (xs.filter fun x => x.1.kinds.contains k).map (·.2) := by
    induction xs with
    | nil => rfl
    | cons x xs ih =>
      rw [List.flatMap_cons, replicate_count_kinds, ih, List.filter_cons]
      split
      · rfl
      · rfl
  rw [ofChecks, places_foldl_addCheck, hone]
  rfl

/-- The index of checks depends on nothing but their kinds, so it holds as long as they do. -/
theorem ofChecks_congr {checks checks' : List (Check ν)}
    (h : checks.map (·.kinds) = checks'.map (·.kinds)) : ofChecks checks = ofChecks checks' := by
  have hkinds (cs : List (Check ν)) : ofChecks cs = (cs.map (·.kinds)).zipIdx.foldl
      (fun index x => x.1.foldl (fun index k => index.push k x.2) index) {} := by
    rw [ofChecks, List.zipIdx_map, List.foldl_map]
    rfl
  rw [hkinds, hkinds, h]

end RailsReview.Run.KindIndex
