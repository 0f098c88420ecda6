import RailsReview.Tree.Text

/-!
# Sizes and receivers

What is found in a node's slots, among its arguments, elements or pairs is smaller than the node. So
the way from a call to its receiver comes to an end. The receiver of a chain such as
`@post.user.name` is what the chain starts from, here `@post`.
-/
namespace RailsReview.Node

theorem size_lt_of_mem_slots {n m : Node} (h : Slot.node m ∈ n.slots) : m.size < n.size := by
  cases n with
  | mk k slots p f =>
    have key : ∀ slots : List Slot, Slot.node m ∈ slots → m.size ≤ sizeSlots slots := by
      intro slots
      induction slots with
      | nil => simp
      | cons s rest ih =>
        intro h
        rcases List.mem_cons.1 h with rfl | h
        · simp [sizeSlots]
        · have := ih h
          cases s <;> simp only [sizeSlots] <;> omega
    have := key slots h
    simp only [size]
    omega

theorem mem_of_node?_eq {s : Slot} {m : Node} (h : s.node? = some m) : s = .node m := by
  cases s <;> simp_all [Slot.node?]

theorem size_lt_of_slot? {n m : Node} {i : Nat} (h : n.slot? i = some m) : m.size < n.size := by
  obtain ⟨s, hs, hm⟩ := Option.bind_eq_some_iff.1 h
  exact size_lt_of_mem_slots (mem_of_node?_eq hm ▸ List.mem_of_getElem? hs)

theorem size_lt_of_mem_children {n m : Node} (h : m ∈ n.children) : m.size < n.size := by
  obtain ⟨s, hs, hm⟩ := List.mem_filterMap.1 h
  exact size_lt_of_mem_slots (mem_of_node?_eq hm ▸ hs)

theorem size_lt_of_mem_argumentValues {n m : Node} (h : m ∈ n.argumentValues) :
    m.size < n.size := by
  have inner {k : Kind} {a : Node} {rest : List Slot} {p : Option Position} {f : Option Path} :
      a.size < (mk k (.node a :: rest) p f).size := size_lt_of_mem_slots (by simp [slots])
  have listed {k : Kind} {s : List Slot} {p : Option Position} {f : Option Path}
      (h : m ∈ s.filterMap Slot.node?) : m.size < (mk k s p f).size :=
    size_lt_of_mem_children (n := mk k s p f) h
  fun_induction argumentValues n with
  | case1 a rest p f ih => exact Nat.lt_trans (ih h) inner
  | case2 a rest p f ih => exact Nat.lt_trans (ih h) inner
  | case3 s p f => exact listed h
  | case4 a rest p f ih =>
    rcases List.mem_append.1 h with h | h
    · exact Nat.lt_trans (ih h) inner
    · exact listed (List.mem_filterMap.2
        ((List.mem_filterMap.1 h).imp fun s hs => ⟨List.mem_cons_of_mem _ hs.1, hs.2⟩))
  | case5 s rest p f =>
    exact listed (List.mem_filterMap.2
      ((List.mem_filterMap.1 (List.mem_of_mem_drop h)).imp
        fun s hs => ⟨List.mem_cons_of_mem _ hs.1, hs.2⟩))
  | case6 a rest p f _ ih => exact Nat.lt_trans (ih h) inner
  | case7 => simp at h
  | case8 => simp at h

theorem size_lt_of_mem_arrayValues {n m : Node} (h : m ∈ n.arrayValues) : m.size < n.size := by
  unfold arrayValues at h
  split at h
  · exact size_lt_of_mem_argumentValues h
  · simp at h

theorem size_lt_of_mem_hashValues {n m : Node} (h : some m ∈ n.hashValues) : m.size < n.size := by
  obtain ⟨pair, hp, hm⟩ := List.mem_map.1 h
  have hpair := size_lt_of_slot? hm
  obtain ⟨holder, hholder, hin⟩ :
      ∃ holder : Node, pair ∈ holder.children ∧ holder.size < n.size := by
    have hmem := (List.mem_filter.1 hp).1
    split at hmem
    · cases h0 : n.slot? 0 with
      | none => simp [h0] at hmem
      | some a => exact ⟨a, by simpa [h0] using hmem, size_lt_of_slot? h0⟩
    · cases h0 : n.slot? 0 with
      | none => simp [h0] at hmem
      | some a =>
        cases h1 : a.slot? 0 with
        | none => simp [h0, h1] at hmem
        | some b =>
          have hlt := Nat.lt_trans (size_lt_of_slot? h1) (size_lt_of_slot? h0)
          exact ⟨b, by simpa [h0, h1] using hmem, hlt⟩
    · simp at hmem
  have := size_lt_of_mem_children hholder
  omega

theorem size_lt_of_subject? {n m : Node} (h : n.subject? = some m) : m.size < n.size := by
  fun_induction subject? n with
  | case1 a rest p f ih => exact Nat.lt_trans (ih h) (size_lt_of_mem_slots (by simp [slots]))
  | case2 a rest p f ih => exact Nat.lt_trans (ih h) (size_lt_of_mem_slots (by simp [slots]))
  | case8 => simp at h
  | _ => exact size_lt_of_slot? (n := mk _ _ _ _) (i := 0) h

/-- The kinds whose receiver is found further on. -/
def isLink : Kind → Bool
  | .call | .field | .methodAddArg | .methodAddBlock => true
  | _ => false

/-- What a chain of calls starts from. -/
def chainStart? (n : Node) : Option Node :=
  if isLink n.kind then
    match _h : n.subject? with
    | some m => m.chainStart?
    | none => none
  else some n
termination_by n.size
decreasing_by exact size_lt_of_subject? _h

/-- The innermost receiver of a call; a call without receiver and a hash are none. -/
def receiver? (n : Node) : Option Node :=
  (n.subject?.bind chainStart?).filter fun r =>
    r.kind != .functionCall && r.kind != .hash && r.kind != .bareAssocHash

end RailsReview.Node
