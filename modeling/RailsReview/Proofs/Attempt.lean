import RailsReview.Check.Run

/-!
# Laws of attempts

Attempts made one after the other form a monoid. A log that grows with every attempt shows, after a
failure, the attempts up to the one that failed and no other.
-/
namespace RailsReview.Attempt
universe u
variable {ε : Type} {σ : Type u}

theorem andThen_of_none {a : Attempt ε σ} {s s' : σ} (b : Attempt ε σ) (h : a s = (s', none)) :
    a.andThen b s = b s' := by
  simp only [andThen, h]

theorem andThen_of_some {a : Attempt ε σ} {s s' : σ} {e : ε} (b : Attempt ε σ)
    (h : a s = (s', some e)) : a.andThen b s = (s', some e) := by
  simp only [andThen, h]

@[simp] theorem andThen_done (a : Attempt ε σ) : a.andThen done = a := by
  funext s
  rcases h : a s with ⟨s', _ | e⟩
  · exact andThen_of_none done h
  · exact andThen_of_some done h

theorem andThen_assoc (a b c : Attempt ε σ) :
    (a.andThen b).andThen c = a.andThen (b.andThen c) := by
  funext s
  rcases h : a s with ⟨s', _ | e⟩
  · simp only [andThen, h]
  · simp only [andThen, h]

theorem all_append (as bs : List (Attempt ε σ)) : all (as ++ bs) = (all as).andThen (all bs) := by
  induction as with
  | nil => rfl
  | cons a as ih => simp only [List.cons_append, all, ih, andThen_assoc]

@[simp] theorem all_singleton (a : Attempt ε σ) : all [a] = a := andThen_done a

/-- Attempts that agree on every state with a property agree when made in sequence, if the first
one keeps the property. -/
theorem andThen_congr {P : σ → Prop} {a a' b b' : Attempt ε σ} (ha : ∀ s, P s → a s = a' s)
    (hb : ∀ s, P s → b s = b' s) (keep : ∀ s, P s → P (a' s).1) (s : σ) (hs : P s) :
    a.andThen b s = a'.andThen b' s := by
  have hk := keep s hs
  rcases h : a' s with ⟨s', _ | e⟩
  · rw [andThen_of_none b ((ha s hs).trans h), andThen_of_none b' h]
    exact hb s' (by simpa only [h] using hk)
  · rw [andThen_of_some b ((ha s hs).trans h), andThen_of_some b' h]

theorem andThen_congr_left {a a' : Attempt ε σ} {s : σ} (h : a s = a' s) (b : Attempt ε σ) :
    a.andThen b s = a'.andThen b s := by
  simp only [andThen, h]

section Log
variable {δ φ : Type} {fails : δ → φ → ε → Prop}

/-- How a log `after` comes about from `before` by what was due: all of it was done without a
failure, or all up to something that failed. -/
def Logged (fails : δ → φ → ε → Prop) (due : List δ) (before after : List (δ × Option φ)) :
    Option ε → Prop
  | none => after = before ++ due.map (·, none)
  | some e => ∃ made d left x, due = made ++ d :: left ∧
      after = before ++ (made.map (·, none) ++ [(d, some x)]) ∧ fails d x e

theorem Logged.nil (log : List (δ × Option φ)) : Logged fails [] log log none :=
  (List.append_nil log).symm

theorem Logged.done (before : List (δ × Option φ)) (d : δ) :
    Logged fails [d] before (before ++ [(d, none)]) none := rfl

theorem Logged.failed (before : List (δ × Option φ)) {d : δ} {x : φ} {e : ε} (h : fails d x e) :
    Logged fails [d] before (before ++ [(d, some x)]) (some e) := ⟨[], d, [], x, rfl, rfl, h⟩

/-- What fails leaves the rest unmade. -/
theorem Logged.cut {due : List δ} {before after : List (δ × Option φ)} {e : ε}
    (h : Logged fails due before after (some e)) (rest : List δ) :
    Logged fails (due ++ rest) before after (some e) := by
  obtain ⟨made, d, left, x, hdue, hafter, hd⟩ := h
  exact ⟨made, d, left ++ rest, x, by rw [hdue, List.append_assoc, List.cons_append], hafter, hd⟩

theorem Logged.append {due due' : List δ} {before mid after : List (δ × Option φ)} {e : Option ε}
    (h : Logged fails due before mid none) (h' : Logged fails due' mid after e) :
    Logged fails (due ++ due') before after e := by
  have hmid : mid = before ++ due.map (·, none) := h
  subst hmid
  cases e with
  | none =>
    have hafter : after = before ++ due.map (·, none) ++ due'.map (·, none) := h'
    change after = before ++ (due ++ due').map (·, none)
    rw [hafter, List.map_append, List.append_assoc]
  | some e =>
    obtain ⟨made, d, left, x, hdue, hafter, hd⟩ := h'
    refine ⟨due ++ made, d, left, x, ?_, ?_, hd⟩
    · rw [hdue, List.append_assoc]
    · rw [hafter]; simp only [List.map_append, List.append_assoc]

theorem Logged.mono {fails' : δ → φ → ε → Prop} {due : List δ}
    {before after : List (δ × Option φ)} {e : Option ε} (h : Logged fails due before after e)
    (imp : ∀ d x y, fails d x y → fails' d x y) : Logged fails' due before after e := by
  cases e with
  | none => exact h
  | some y =>
    obtain ⟨made, d, left, x, hdue, hafter, hd⟩ := h
    exact ⟨made, d, left, x, hdue, hafter, imp d x y hd⟩

end Log

end RailsReview.Attempt
