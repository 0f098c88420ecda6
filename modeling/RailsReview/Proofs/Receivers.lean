import RailsReview.Tree.Size

/-!
# The walk to a receiver

The receiver of a chain of calls is found by going from each link to its subject. On every tree the
walk comes to an end, after fewer steps than the tree has nodes.
-/
namespace RailsReview.Node

/-- Whether a walk goes on from here. -/
def atLink (c : Option Node) : Bool := c.any fun n => isLink n.kind

/-- A walk from link to subject that stops after some steps, at a node that is no link or at a link
without a subject. -/
inductive ChainWalk : Option Node → Nat → Option Node → Prop
  | stop {c : Option Node} : ¬atLink c → ChainWalk c 0 c
  | step {c stop : Option Node} {steps : Nat} : atLink c → ChainWalk (c.bind subject?) steps stop →
      ChainWalk c (steps + 1) stop

/-- What a walk may stop at to be a receiver; calls without receiver and hashes are none. -/
def isReceiver (n : Node) : Bool :=
  n.kind != .functionCall && n.kind != .hash && n.kind != .bareAssocHash

namespace ChainWalk
variable {c stop stop' : Option Node} {steps steps' : Nat}

theorem unique (h : ChainWalk c steps stop) (h' : ChainWalk c steps' stop') :
    steps = steps' ∧ stop = stop' := by
  induction h generalizing steps' with
  | stop hstop =>
    cases h' with
    | stop => exact ⟨rfl, rfl⟩
    | step hlink => exact absurd hlink hstop
  | step hlink _ ih =>
    cases h' with
    | stop hstop => exact absurd hlink hstop
    | step _ hrest =>
      obtain ⟨rfl, rfl⟩ := ih hrest
      exact ⟨rfl, rfl⟩

/-- A walk from a call goes on by way of its subject. -/
theorem of_link {n : Node} (hn : isLink n.kind) :
    ChainWalk (some n) steps stop ↔ ∃ k, steps = k + 1 ∧ ChainWalk n.subject? k stop := by
  have hlink : atLink (some n) := hn
  constructor
  · intro h
    cases h with
    | stop hstop => exact absurd hlink hstop
    | step _ hrest => exact ⟨_, rfl, hrest⟩
  · rintro ⟨k, rfl, hrest⟩
    exact .step hlink hrest

theorem of_not_link {n : Node} (hn : ¬isLink n.kind) :
    ChainWalk (some n) steps stop ↔ steps = 0 ∧ stop = some n := by
  constructor
  · intro h
    exact h.unique (.stop hn)
  · rintro ⟨rfl, rfl⟩
    exact .stop hn

end ChainWalk

/-- A walk along a chain stops, at the start of the chain. -/
theorem exists_walk_chainStart? (n : Node) :
    ∃ steps ≤ n.size, ChainWalk (some n) steps n.chainStart? := by
  fun_induction chainStart? n with
  | case1 n hlink m hm ih =>
    obtain ⟨steps, hsteps, hwalk⟩ := ih
    have hlt := size_lt_of_subject? hm
    exact ⟨steps + 1, by omega, .step hlink (by rwa [Option.bind_some, hm])⟩
  | case2 n hlink hm =>
    refine ⟨1, ?_, .step hlink ?_⟩
    · cases n with
      | mk => exact Nat.le_add_left 1 _
    · rw [Option.bind_some, hm]
      exact .stop Bool.false_ne_true
  | case3 n hlink => exact ⟨0, Nat.zero_le _, .stop hlink⟩

/-- The walk to a receiver takes fewer steps than the tree has nodes. -/
theorem exists_walk_receiver? (n : Node) : ∃ steps < n.size, ∃ stop,
    ChainWalk n.subject? steps stop ∧ n.receiver? = stop.filter isReceiver := by
  rcases hsubject : n.subject? with _ | m
  · refine ⟨0, ?_, none, .stop Bool.false_ne_true, ?_⟩
    · cases n with
      | mk => exact Nat.zero_lt_succ _
    · rw [receiver?, hsubject]
      rfl
  · obtain ⟨steps, hsteps, hwalk⟩ := exists_walk_chainStart? m
    refine ⟨steps, Nat.lt_of_le_of_lt hsteps (size_lt_of_subject? hsubject), _, hwalk, ?_⟩
    rw [receiver?, hsubject]
    rfl

/-- A receiver is what the walk stops at. -/
theorem receiver?_eq_some_iff {n r : Node} :
    n.receiver? = some r ↔ isReceiver r ∧ ∃ steps, ChainWalk n.subject? steps (some r) := by
  obtain ⟨steps, -, stop, hwalk, hreceiver⟩ := exists_walk_receiver? n
  rw [hreceiver, Option.filter_eq_some_iff]
  constructor
  · rintro ⟨rfl, hr⟩
    exact ⟨hr, steps, hwalk⟩
  · rintro ⟨hr, steps', hwalk'⟩
    exact ⟨(hwalk.unique hwalk').2, hr⟩

end RailsReview.Node
