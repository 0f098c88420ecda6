import Mathlib.Data.List.Nodup
import RailsReview.Dictionary

/-!
# Laws of dictionaries and ledgers

What is found under a key, and in which order the keys stand, after the value at a key was altered.
The first of several entries that match depends on their order; what is read off it does not, as
long as the matching entries agree on it.
-/
namespace RailsReview

namespace Dictionary

theorem lookup_cons_eq {κ α : Type} [DecidableEq κ] (k key : κ) (v : α)
    (rest : List (κ × α)) :
    ((k, v) :: rest).lookup key = if key = k then some v else rest.lookup key := by
  rw [List.lookup_cons]
  by_cases h : key = k
  · rw [if_pos h, h, beq_self_eq_true]
  · rw [if_neg h, beq_false_of_ne h]

theorem lookup_eq_none {κ α : Type} [DecidableEq κ] {key : κ} {entries : List (κ × α)}
    (h : key ∉ entries.map (·.1)) : entries.lookup key = none :=
  List.lookup_eq_none_iff.2 fun e he =>
    bne_iff_ne.2 fun heq => h (List.mem_map.2 ⟨e, he, heq.symm⟩)

variable {α : Type} {key key' : String} {f : Option α → α} {entries : List (String × α)}

theorem get?_modify (d : Dictionary α) (key key' : String) (f : α → α) :
    (d.modify key f).get? key' = if key' = key then (d.get? key').map f else d.get? key' := by
  obtain ⟨entries⟩ := d
  simp only [get?, modify]
  induction entries with
  | nil => simp
  | cons e rest ih =>
    obtain ⟨k, v⟩ := e
    rw [List.map_cons, lookup_cons_eq k key' v rest]
    by_cases hk : k = key
    · rw [if_pos hk, lookup_cons_eq, ih]
      grind
    · rw [if_neg hk, lookup_cons_eq, ih]
      grind

theorem get?_alter_self (d : Dictionary α) (key : String) (f : Option α → α) :
    ∃ old, (d.alter key f).get? key = some (f old) := by
  obtain ⟨entries⟩ := d
  simp only [get?, alter]
  induction entries with
  | nil => exact ⟨none, by simp [alterEntries]⟩
  | cons e rest ih =>
    obtain ⟨k, v⟩ := e
    unfold alterEntries
    split
    · exact ⟨none, by simp⟩
    · split
      · rename_i hk
        exact ⟨some v, by simp [hk]⟩
      · rename_i hk
        obtain ⟨old, hold⟩ := ih
        exact ⟨old, by rw [lookup_cons_eq, if_neg hk, hold]⟩

theorem lt_of_ne_of_not_lt (hne : key ≠ key') (hnlt : ¬key < key') : key' < key :=
  Decidable.of_not_not fun hngt =>
    hne (String.le_antisymm (String.not_lt.1 hngt) (String.not_lt.1 hnlt))

/-- Two alterations at one key are one. -/
theorem alter_alter (d : Dictionary α) (key : String) (f g : Option α → α) :
    (d.alter key f).alter key g = d.alter key fun o => g (some (f o)) := by
  obtain ⟨entries⟩ := d
  simp only [alter, mk.injEq]
  induction entries with
  | nil => simp [alterEntries]
  | cons e entries ih =>
    obtain ⟨k, v⟩ := e
    by_cases hlt : key < k
    · simp [alterEntries, hlt]
    · by_cases heq : key = k
      · simp [alterEntries, heq]
      · simp [alterEntries, hlt, heq, ih]

theorem alter_comm_of_lt (d : Dictionary α) (h : key < key') (f g : Option α → α) :
    (d.alter key f).alter key' g = (d.alter key' g).alter key f := by
  have hne : key ≠ key' := fun heq => String.lt_irrefl key (heq ▸ h)
  have hnlt : ¬key' < key := fun hlt => String.lt_irrefl key (String.lt_trans h hlt)
  obtain ⟨entries⟩ := d
  simp only [alter, mk.injEq]
  induction entries with
  | nil => simp [alterEntries, h, hnlt, Ne.symm hne]
  | cons e entries ih =>
    obtain ⟨k, v⟩ := e
    by_cases hlt' : key' < k
    · have hlt : key < k := String.lt_trans h hlt'
      simp [alterEntries, h, hnlt, Ne.symm hne, hlt, hlt']
    · by_cases heq' : key' = k
      · subst heq'
        simp [alterEntries, h, hnlt, Ne.symm hne]
      · by_cases hlt : key < k
        · simp [alterEntries, hnlt, Ne.symm hne, hlt, hlt', heq']
        · by_cases heq : key = k
          · simp [alterEntries, heq, hlt', heq']
          · simp [alterEntries, hlt, heq, hlt', heq', ih]

/-- Alterations at different keys commute. -/
theorem alter_comm (d : Dictionary α) (h : key ≠ key') (f g : Option α → α) :
    (d.alter key f).alter key' g = (d.alter key' g).alter key f := by
  by_cases hlt : key < key'
  · exact alter_comm_of_lt d hlt f g
  · exact (alter_comm_of_lt d (lt_of_ne_of_not_lt h hlt) g f).symm

/-- What holds of all entries holds of them after one was changed, if it holds of that one. -/
theorem forall_mem_alterEntries {P : String × α → Prop} (hentries : ∀ e ∈ entries, P e)
    (hnew : P (key, f none)) (hchanged : ∀ v, P (key, v) → P (key, f (some v))) :
    ∀ e ∈ alterEntries key f entries, P e := by
  induction entries with
  | nil =>
    intro e he
    rw [List.mem_singleton.1 he]
    exact hnew
  | cons e entries ih =>
    obtain ⟨k, v⟩ := e
    obtain ⟨hfirst, hrest⟩ := List.forall_mem_cons.1 hentries
    unfold alterEntries
    split
    · exact List.forall_mem_cons.2 ⟨hnew, hentries⟩
    · split
      · rename_i hk
        subst hk
        exact List.forall_mem_cons.2 ⟨hchanged v hfirst, hrest⟩
      · exact List.forall_mem_cons.2 ⟨hfirst, ih hrest⟩

theorem sorted_alterEntries (h : entries.Pairwise (·.1 < ·.1)) :
    (alterEntries key f entries).Pairwise (·.1 < ·.1) := by
  induction entries with
  | nil => exact List.pairwise_singleton _ _
  | cons e entries ih =>
    obtain ⟨k, v⟩ := e
    obtain ⟨hfirst, hrest⟩ := List.pairwise_cons.1 h
    unfold alterEntries
    split
    · rename_i hlt
      refine List.pairwise_cons.2 ⟨List.forall_mem_cons.2 ⟨hlt, fun e he => ?_⟩, h⟩
      exact String.lt_trans hlt (hfirst e he)
    · rename_i hlt
      split
      · exact List.pairwise_cons.2 ⟨hfirst, hrest⟩
      · rename_i hne
        have hgt : k < key := lt_of_ne_of_not_lt hne hlt
        exact List.pairwise_cons.2 ⟨forall_mem_alterEntries hfirst hgt fun _ _ => hgt, ih hrest⟩

/-- In a sorted dictionary every entry is found. -/
theorem lookup_of_mem (h : entries.Pairwise (·.1 < ·.1)) {e : String × α} (he : e ∈ entries) :
    entries.lookup e.1 = some e.2 := by
  induction entries with
  | nil => cases he
  | cons e' entries ih =>
    obtain ⟨hfirst, hrest⟩ := List.pairwise_cons.1 h
    obtain ⟨k, v⟩ := e'
    rw [lookup_cons_eq]
    rcases List.mem_cons.1 he with rfl | he
    · rw [if_pos rfl]
    · have hne : e.1 ≠ k := fun heq => String.lt_irrefl k (heq ▸ hfirst e he)
      rw [if_neg hne]
      exact ih hrest he

/-- A change at a key concerns one entry of a sorted dictionary. -/
theorem mem_alterEntries {entries : List (String × α)} (h : entries.Pairwise (·.1 < ·.1))
    {key : String} {f : Option α → α} {e : String × α} :
    e ∈ alterEntries key f entries ↔
      e ∈ entries ∧ e.1 ≠ key ∨ e = (key, f (entries.lookup key)) := by
  induction entries with
  | nil => simp [alterEntries]
  | cons first entries ih =>
    obtain ⟨k, v⟩ := first
    obtain ⟨hfirst, hrest⟩ := List.pairwise_cons.1 h
    rw [alterEntries, lookup_cons_eq]
    split
    · rename_i hlt
      have hafter : ∀ e ∈ (k, v) :: entries, e.1 ≠ key := List.forall_mem_cons.2
        ⟨(String.ne_of_lt hlt).symm, fun e he =>
          (String.ne_of_lt (String.lt_trans hlt (hfirst e he))).symm⟩
      have hnone : entries.lookup key = none := List.lookup_eq_none_iff.2 fun e he =>
        bne_iff_ne.2 (hafter e (List.mem_cons_of_mem _ he)).symm
      rw [if_neg (String.ne_of_lt hlt), hnone, List.mem_cons, and_iff_left_of_imp (hafter e),
        or_comm]
    · split
      · rename_i heq
        subst heq
        have hafter : ∀ e ∈ entries, e.1 ≠ key := fun e he => (String.ne_of_lt (hfirst e he)).symm
        have hnot : ¬(e = (key, v) ∧ e.1 ≠ key) := fun hboth =>
          hboth.2 (congrArg Prod.fst hboth.1)
        rw [List.mem_cons, List.mem_cons, or_and_right, and_iff_left_of_imp (hafter e),
          or_iff_right hnot, or_comm]
      · rename_i hne
        have hkeep : e = (k, v) → e.1 ≠ key := fun heq => heq ▸ Ne.symm hne
        rw [List.mem_cons, List.mem_cons, ih hrest, or_and_right, and_iff_left_of_imp hkeep,
          or_assoc]

end Dictionary

namespace Ledger
variable {κ α : Type} [DecidableEq κ]
open Dictionary (lookup_cons_eq)

theorem get?_alter (l : Ledger κ α) (key key' : κ) (f : Option α → α) :
    (l.alter key f).get? key' = if key' = key then some (f (l.get? key)) else l.get? key' := by
  obtain ⟨entries⟩ := l
  simp only [get?, alter]
  induction entries with
  | nil => rw [alterEntries, lookup_cons_eq, List.lookup_nil, List.lookup_nil]
  | cons e rest ih =>
    obtain ⟨k, v⟩ := e
    rw [alterEntries, lookup_cons_eq k key]
    by_cases hk : k = key
    · subst hk
      rw [if_pos rfl, if_pos rfl, lookup_cons_eq, lookup_cons_eq]
      split
      · rfl
      · rfl
    · rw [if_neg hk, if_neg (Ne.symm hk), lookup_cons_eq, lookup_cons_eq, ih]
      by_cases hkey' : key' = k
      · subst hkey'
        rw [if_pos rfl, if_pos rfl, if_neg hk]
      · rw [if_neg hkey', if_neg hkey']

theorem keys_alter_of_mem {l : Ledger κ α} {key : κ} (h : key ∈ l.keys) (f : Option α → α) :
    (l.alter key f).keys = l.keys := by
  obtain ⟨entries⟩ := l
  simp only [keys, alter] at h ⊢
  induction entries with
  | nil => cases h
  | cons e rest ih =>
    obtain ⟨k, v⟩ := e
    rw [alterEntries]
    split
    · rfl
    · rename_i hk
      rw [List.map_cons, List.map_cons, ih ((List.mem_cons.1 h).resolve_left (Ne.symm hk))]

/-- A new key comes last. -/
theorem keys_alter_of_not_mem {l : Ledger κ α} {key : κ} (h : key ∉ l.keys) (f : Option α → α) :
    (l.alter key f).keys = l.keys ++ [key] := by
  obtain ⟨entries⟩ := l
  simp only [keys, alter] at h ⊢
  induction entries with
  | nil => rfl
  | cons e rest ih =>
    obtain ⟨k, v⟩ := e
    obtain ⟨hk, hrest⟩ := not_or.1 (List.mem_cons.not.1 h)
    rw [alterEntries, if_neg (Ne.symm hk), List.map_cons, List.map_cons, ih hrest,
      List.cons_append]

/-- What is picked out by its value is found under its key. -/
theorem map_filter_entries (l : Ledger κ α) (h : l.keys.Nodup) (p : α → Bool) :
    (l.entries.filter fun e => p e.2).map (·.1) = l.keys.filter fun k => (l.get? k).any p := by
  obtain ⟨entries⟩ := l
  simp only [keys, get?] at h ⊢
  induction entries with
  | nil => rfl
  | cons e rest ih =>
    obtain ⟨k, v⟩ := e
    obtain ⟨hfresh, hrest⟩ := List.nodup_cons.1 h
    have hthere : (rest.map (·.1)).filter (fun k' => (((k, v) :: rest).lookup k').any p) =
        (rest.map (·.1)).filter fun k' => (rest.lookup k').any p := by
      refine List.filter_congr fun k' hk' => ?_
      have hne : k' ≠ k := fun heq => hfresh (heq ▸ hk')
      rw [lookup_cons_eq, if_neg hne]
    rw [List.map_cons, List.filter_cons, List.filter_cons, hthere, ← ih hrest, lookup_cons_eq,
      if_pos rfl, Option.any_some]
    split
    · rfl
    · rfl

end Ledger

namespace FirstMatch
variable {α β : Type} {p : α → Bool} {l l' : List α}

theorem map_find?_eq_of_perm {f : α → β} (hperm : l'.Perm l)
    (hsame : ∀ x ∈ l, ∀ y ∈ l, p x → p y → f x = f y) :
    (l'.find? p).map f = (l.find? p).map f := by
  cases hx : l.find? p with
  | none =>
    have hnone : l'.find? p = none := by
      rw [List.find?_eq_none] at hx ⊢
      exact fun x hmem => hx x (hperm.mem_iff.1 hmem)
    rw [hnone]
  | some x =>
    have hmem := hperm.mem_iff.2 (List.mem_of_find?_eq_some hx)
    obtain ⟨y, hy⟩ : ∃ y, l'.find? p = some y :=
      Option.isSome_iff_exists.1 (List.find?_isSome.2 ⟨x, hmem, List.find?_some hx⟩)
    have hagree := hsame y (hperm.mem_iff.1 (List.mem_of_find?_eq_some hy)) x
      (List.mem_of_find?_eq_some hx) (List.find?_some hy) (List.find?_some hx)
    rw [hy, Option.map_some, Option.map_some, hagree]

theorem find?_eq_of_perm (hperm : l'.Perm l) (hone : ∀ x ∈ l, ∀ y ∈ l, p x → p y → x = y) :
    l'.find? p = l.find? p := by
  simpa using map_find?_eq_of_perm (f := id) hperm hone

/-- Any entry can be moved to the front, where it is the first match. -/
theorem exists_perm_find?_eq {x : α} (hx : x ∈ l) (hp : p x) :
    ∃ l' : List α, l'.Perm l ∧ l'.find? p = some x := by
  obtain ⟨front, back, rfl⟩ := List.append_of_mem hx
  exact ⟨x :: (front ++ back), List.perm_middle.symm, List.find?_cons_of_pos hp⟩

theorem lookup_eq_find? (key : String) (l : List (String × β)) :
    l.lookup key = (l.find? (·.1 == key)).map (·.2) := by
  induction l with
  | nil => rfl
  | cons e l ih =>
    obtain ⟨k, v⟩ := e
    rw [Dictionary.lookup_cons_eq, ih, List.find?_cons]
    by_cases hk : key = k
    · simp [hk]
    · rw [if_neg hk, beq_false_of_ne (Ne.symm hk)]

/-- Where keys are distinct, what stands under a key is the same in any order. -/
theorem lookup_eq_of_perm {key : String} {l l' : List (String × β)} (hperm : l'.Perm l)
    (hkeys : (l.map (·.1)).Nodup) : l'.lookup key = l.lookup key := by
  rw [lookup_eq_find?, lookup_eq_find?]
  refine congrArg _ (find?_eq_of_perm hperm fun x hx y hy hpx hpy => ?_)
  refine List.inj_on_of_nodup_map hkeys hx hy ?_
  exact (beq_iff_eq.1 hpx).trans (beq_iff_eq.1 hpy).symm

end FirstMatch

end RailsReview
