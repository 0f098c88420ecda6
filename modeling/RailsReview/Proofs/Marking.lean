import Mathlib.Data.List.Dedup
import Mathlib.Data.List.Forall2
import RailsReview.Proofs.Facts

/-!
# Evidence of use

What is learned of the methods of a layer, from all its calls and publications, comes down to a
list of marks. Marks commute and a second one of a kind changes nothing, so neither the order in
which evidence is found nor its repetition matters, and more of it leaves fewer methods unused.
-/
namespace RailsReview

section Folds
variable {α β : Type*} {f : β → α → β} (comm : ∀ b x y, f (f b x) y = f (f b y) x)
include comm

theorem foldl_perm {l l' : List α} (h : l.Perm l') (b : β) : l.foldl f b = l'.foldl f b :=
  h.foldl_eq' (fun x _ y _ b => comm b x y) b

variable (idem : ∀ b x, f (f b x) x = f b x) [DecidableEq α]
include idem

theorem foldl_of_mem {l : List α} {x : α} (h : x ∈ l) (b : β) :
    l.foldl f (f b x) = l.foldl f b := by
  have hperm := List.perm_cons_erase h
  rw [foldl_perm comm hperm, foldl_perm comm hperm, List.foldl_cons, List.foldl_cons, idem]

theorem foldl_dedup (l : List α) (b : β) : l.dedup.foldl f b = l.foldl f b := by
  induction l generalizing b with
  | nil => simp
  | cons x l ih =>
    by_cases h : x ∈ l
    · rw [List.dedup_cons_of_mem h, ih, List.foldl_cons, foldl_of_mem comm idem h]
    · rw [List.dedup_cons_of_notMem h, List.foldl_cons, ih, List.foldl_cons]

/-- Steps that commute and need not be repeated lead to the same end in any order and number. -/
theorem foldl_eq_of_mem_iff {l l' : List α} (h : ∀ x, x ∈ l ↔ x ∈ l') (b : β) :
    l.foldl f b = l'.foldl f b := by
  have hperm : l.dedup.Perm l'.dedup := by
    rw [List.perm_ext_iff_of_nodup l.nodup_dedup l'.nodup_dedup]
    simpa using h
  rw [← foldl_dedup comm idem l, ← foldl_dedup comm idem l', foldl_perm comm hperm]

end Folds

theorem mem_insertSorted {s x : String} {l : List String} :
    x ∈ insertSorted s l ↔ x = s ∨ x ∈ l := by
  induction l with
  | nil => simp [insertSorted]
  | cons y l ih =>
    unfold insertSorted
    split
    · simp
    · split
      · simp_all
      · simp only [List.mem_cons, ih]
        exact or_left_comm

theorem insertSorted_idem (s : String) (l : List String) :
    insertSorted s (insertSorted s l) = insertSorted s l := by
  induction l with
  | nil => simp [insertSorted]
  | cons y l ih =>
    by_cases hlt : s < y
    · simp [insertSorted, hlt]
    · by_cases heq : s = y
      · simp [insertSorted, heq]
      · simp [insertSorted, hlt, heq, ih]

theorem insertSorted_comm (r s : String) (l : List String) :
    insertSorted r (insertSorted s l) = insertSorted s (insertSorted r l) := by
  have hasymm : r < s → ¬s < r := String.lt_asymm
  have hconnex : ¬r < s → ¬s < r → r = s := fun h h' =>
    String.le_antisymm (String.not_lt.1 h') (String.not_lt.1 h)
  induction l with
  | nil => grind [insertSorted]
  | cons y l ih =>
    have hry : r < s → s < y → r < y := String.lt_trans
    have hsy : s < r → r < y → s < y := String.lt_trans
    have hirrefl := String.lt_irrefl y
    grind [insertSorted]

/-- A piece of evidence: a call of a method in a class, or the publication of one. -/
inductive Evidence where
  | call (className name : String)
  | publish (className name : String)
  deriving DecidableEq

/-- What a piece of evidence comes down to. -/
inductive Mark where
  | used (className name : String)
  | public_ (className name : String)
  | called (name : String)
  deriving DecidableEq

namespace Evidence

def isCall : Evidence → Bool
  | call _ _ => true
  | publish _ _ => false

def apply (layer : Layer) (t : Tables) : Evidence → Tables
  | call className name => t.callMethod layer className name
  | publish className name => t.withMethods layer ((t.methodsOf layer).publicize className name)

end Evidence

/-- Takes evidence into account. -/
def Tables.learn (t : Tables) (layer : Layer) (found : List Evidence) : Tables :=
  found.foldl (Evidence.apply layer) t

def Mark.apply (t : MethodTable) : Mark → MethodTable
  | used className name => t.markUsed className name
  | public_ className name => t.publicize className name
  | called name => t.noteCall name

namespace MethodTable

theorem update_comm (t : MethodTable) (c n c' n' : String) {f g : MethodRecord → MethodRecord}
    (hf : ∀ m, (f m).name = m.name) (hg : ∀ m, (g m).name = m.name)
    (hfg : ∀ m, f (g m) = g (f m)) :
    (t.update c n f).update c' n' g = (t.update c' n' g).update c n f := by
  have hrecord (ms : List MethodRecord) :
      (ms.map fun m => if m.name = n then f m else m).map
          (fun m => if m.name = n' then g m else m) =
        (ms.map fun m => if m.name = n' then g m else m).map
          (fun m => if m.name = n then f m else m) := by
    rw [List.map_map, List.map_map]
    apply List.map_congr_left
    intro m _
    have := hf m
    have := hg m
    have := hfg m
    grind
  simp only [update, Dictionary.modify, List.map_map, mk.injEq, Dictionary.mk.injEq, and_true]
  apply List.map_congr_left
  intro e _
  have := hrecord e.2
  grind

theorem update_idem (t : MethodTable) (c n : String) {f : MethodRecord → MethodRecord}
    (hf : ∀ m, (f m).name = m.name) (hff : ∀ m, f (f m) = f m) :
    (t.update c n f).update c n f = t.update c n f := by
  have hrecord (ms : List MethodRecord) :
      (ms.map fun m => if m.name = n then f m else m).map
          (fun m => if m.name = n then f m else m) =
        ms.map fun m => if m.name = n then f m else m := by
    rw [List.map_map]
    apply List.map_congr_left
    intro m _
    have := hf m
    have := hff m
    grind
  simp only [update, Dictionary.modify, List.map_map, mk.injEq, Dictionary.mk.injEq, and_true]
  apply List.map_congr_left
  intro e _
  have := hrecord e.2
  grind

/-- The classes whose method of that name is used when it is called in the class: the class itself,
its nearest ancestor that has the method, and all classes below. -/
def family (t : MethodTable) (classes? : Option ClassTable) (className name : String) :
    List String :=
  match classes? with
  | none => [className]
  | some classes =>
    className :: (((classes.ancestors className).find? (t.has · name none)).toList ++
      (classes.subclasses className).map (·.qualifiedName))

end MethodTable

def Evidence.marks (t : MethodTable) (classes? : Option ClassTable) : Evidence → List Mark
  | call className name =>
    if name = "" then []
    else (t.family classes? className name).map (.used · name) ++ [.called name]
  | publish className name => [.public_ className name]

namespace Mark

theorem apply_comm (t : MethodTable) (x y : Mark) :
    Mark.apply (Mark.apply t x) y = Mark.apply (Mark.apply t y) x := by
  match x, y with
  | used c n, used c' n' => apply t.update_comm <;> intros <;> rfl
  | used c n, public_ c' n' => apply t.update_comm <;> intros <;> rfl
  | public_ c n, used c' n' => apply t.update_comm <;> intros <;> rfl
  | public_ c n, public_ c' n' => apply t.update_comm <;> intros <;> rfl
  | called n, called n' =>
    exact congrArg (MethodTable.mk t.methods) (insertSorted_comm n' n t.calledNames)
  | called _, used _ _ => rfl
  | called _, public_ _ _ => rfl
  | used _ _, called _ => rfl
  | public_ _ _, called _ => rfl

theorem apply_idem (t : MethodTable) (x : Mark) :
    Mark.apply (Mark.apply t x) x = Mark.apply t x := by
  cases x with
  | used c n => exact t.update_idem c n (fun _ => rfl) fun _ => rfl
  | public_ c n => exact t.update_idem c n (fun _ => rfl) fun _ => rfl
  | called n => exact congrArg (MethodTable.mk t.methods) (insertSorted_idem n t.calledNames)

theorem names_apply (t : MethodTable) (x : Mark) (className : String) :
    ((Mark.apply t x).ofClass className none).map (·.name) =
      (t.ofClass className none).map (·.name) := by
  cases x with
  | used c n =>
    apply t.names_update
    exact fun _ => rfl
  | public_ c n =>
    apply t.names_update
    exact fun _ => rfl
  | called n => rfl

theorem names_foldl_apply (marks : List Mark) (t : MethodTable) (className : String) :
    ((marks.foldl Mark.apply t).ofClass className none).map (·.name) =
      (t.ofClass className none).map (·.name) := by
  induction marks generalizing t with
  | nil => rfl
  | cons x marks ih => rw [List.foldl_cons, ih, names_apply]

theorem has_foldl_apply (marks : List Mark) (t : MethodTable) (className name : String) :
    (marks.foldl Mark.apply t).has className name none = t.has className name none := by
  rw [MethodTable.has_eq_names, names_foldl_apply, MethodTable.has_eq_names]

end Mark

/-- What evidence comes down to depends on which methods there are and on nothing else. -/
theorem Evidence.marks_congr {t t' : MethodTable}
    (h : ∀ c n, t'.has c n none = t.has c n none) (classes? : Option ClassTable) :
    Evidence.marks t' classes? = Evidence.marks t classes? := by
  funext e
  cases e with
  | call c n => simp only [marks, MethodTable.family, h]
  | publish c n => rfl

namespace Tables

@[simp] theorem methodsOf_withMethods (t : Tables) (layer : Layer) (ms : MethodTable) :
    (t.withMethods layer ms).methodsOf layer = ms := by cases layer <;> rfl

theorem withMethods_methodsOf (t : Tables) (layer : Layer) :
    t.withMethods layer (t.methodsOf layer) = t := by cases layer <;> rfl

theorem withMethods_withMethods (t : Tables) (layer : Layer) (ms ms' : MethodTable) :
    (t.withMethods layer ms).withMethods layer ms' = t.withMethods layer ms' := by
  cases layer <;> rfl

@[simp] theorem classesOf?_withMethods (t : Tables) (layer layer' : Layer) (ms : MethodTable) :
    (t.withMethods layer ms).classesOf? layer' = t.classesOf? layer' := by
  cases layer <;> cases layer' <;> rfl

/-- The marks of a piece of evidence, as these tables have it. -/
def marksOf (t : Tables) (layer : Layer) : Evidence → List Mark :=
  Evidence.marks (t.methodsOf layer) (t.classesOf? layer)

theorem apply_eq_marks (t : Tables) (layer : Layer) (e : Evidence) :
    e.apply layer t =
      t.withMethods layer ((t.marksOf layer e).foldl Mark.apply (t.methodsOf layer)) := by
  cases e with
  | publish c n => rfl
  | call c n =>
    by_cases hn : n = ""
    · simp [Evidence.apply, callMethod, marksOf, Evidence.marks, hn,
        withMethods_methodsOf]
    · have hown (classes : ClassTable) (ms : MethodTable) :
          ((ms.markUsed c n).markInAncestor classes c n).markInSubclasses classes c n =
            ((ms.family (some classes) c n).map (Mark.used · n)).foldl Mark.apply ms := by
        simp only [MethodTable.family, MethodTable.markInAncestor, MethodTable.has_markUsed,
          MethodTable.markInSubclasses, List.map_cons, List.map_append, List.foldl_cons,
          List.foldl_append, List.map_map, List.foldl_map]
        cases (classes.ancestors c).find? (ms.has · n none) <;> rfl
      simp only [Evidence.apply, callMethod, if_neg hn, marksOf, Evidence.marks, List.foldl_append]
      congr 2
      cases t.classesOf? layer with
      | none => rfl
      | some classes => exact hown classes _

/-- All evidence comes down to marks that are known from the start. -/
theorem learn_eq_marks (t : Tables) (layer : Layer) (found : List Evidence) :
    t.learn layer found = t.withMethods layer
      ((found.flatMap (t.marksOf layer)).foldl Mark.apply (t.methodsOf layer)) := by
  induction found generalizing t with
  | nil => simp [learn, withMethods_methodsOf]
  | cons e found ih =>
    have hmarks : (e.apply layer t).marksOf layer = t.marksOf layer := by
      rw [apply_eq_marks, marksOf, methodsOf_withMethods, classesOf?_withMethods]
      exact Evidence.marks_congr (Mark.has_foldl_apply _ _) _
    have hlearn : t.learn layer (e :: found) = (e.apply layer t).learn layer found := rfl
    rw [hlearn, ih, hmarks, apply_eq_marks, List.flatMap_cons, List.foldl_append,
      methodsOf_withMethods, withMethods_withMethods]

theorem learn_append (t : Tables) (layer : Layer) (found more : List Evidence) :
    t.learn layer (found ++ more) = (t.learn layer found).learn layer more :=
  List.foldl_append

/-- Evidence may be found in any order and any number of times. -/
theorem learn_congr (t : Tables) (layer : Layer) {found found' : List Evidence}
    (h : ∀ e, e ∈ found ↔ e ∈ found') : t.learn layer found = t.learn layer found' := by
  rw [learn_eq_marks, learn_eq_marks]
  congr 1
  apply foldl_eq_of_mem_iff Mark.apply_comm Mark.apply_idem
  intro x
  simp only [List.mem_flatMap, h]

end Tables

theorem forall₂_trans {α : Type*} {R : α → α → Prop} (hR : ∀ a b c, R a b → R b c → R a c)
    {l l' l'' : List α} (h : List.Forall₂ R l l') (h' : List.Forall₂ R l' l'') :
    List.Forall₂ R l l'' := by
  induction h generalizing l'' with
  | nil => exact h'
  | cons hab _ ih =>
    cases h' with
    | cons hbc h' => exact .cons (hR _ _ _ hab hbc) (ih h')

/-- If what is chosen on the right is chosen on the left, then what is chosen on the right comes
from a part of what is chosen on the left. -/
theorem forall₂_filter {α : Type*} {R S : α → α → Prop} {p q : α → Bool}
    (hR : ∀ a b, R a b → q b → p a ∧ S a b) {l l' : List α} (h : List.Forall₂ R l l') :
    ∃ kept, kept.Sublist (l.filter p) ∧ List.Forall₂ S kept (l'.filter q) := by
  induction h with
  | nil => exact ⟨[], List.Sublist.slnil, .nil⟩
  | @cons a b l l' hab _ ih =>
    obtain ⟨kept, hsub, hkept⟩ := ih
    by_cases hq : q b
    · obtain ⟨hp, hS⟩ := hR a b hab hq
      refine ⟨a :: kept, ?_, ?_⟩
      · rw [List.filter_cons_of_pos hp]
        exact hsub.cons_cons a
      · rw [List.filter_cons_of_pos hq]
        exact .cons hS hkept
    · refine ⟨kept, ?_, ?_⟩
      · exact hsub.trans ((List.sublist_cons_self a l).filter p)
      · rw [List.filter_cons_of_neg hq]
        exact hkept

/-- What may become of a method when evidence is found, published or not. -/
structure MethodRecord.Learned (publishing : Bool) (m m' : MethodRecord) : Prop where
  same : { m' with access := m.access, used := m.used } = m
  used : m.used → m'.used
  access : m'.access = m.access ∨ publishing ∧ m'.access = .public_

namespace MethodRecord.Learned
variable {publishing : Bool}

theorem refl (m : MethodRecord) : m.Learned publishing m := ⟨rfl, id, .inl rfl⟩

theorem trans {m m' m'' : MethodRecord} (h : m.Learned publishing m')
    (h' : m'.Learned publishing m'') : m.Learned publishing m'' := by
  obtain ⟨hsame, hused, haccess⟩ := h
  obtain ⟨hsame', hused', haccess'⟩ := h'
  refine ⟨?_, fun hm => hused' (hused hm), ?_⟩
  · rw [← hsame, ← hsame']
  · rcases haccess' with heq | hpublic
    · rw [heq]
      exact haccess
    · exact .inr hpublic

end MethodRecord.Learned

namespace MethodTable
variable {publishing : Bool}

/-- The table after some evidence was found: the same methods, of which no use is forgotten. -/
structure Learned (publishing : Bool) (t t' : MethodTable) : Prop where
  records : List.Forall₂ (MethodRecord.Learned publishing) t.all t'.all
  called : t.calledNames ⊆ t'.calledNames

theorem Learned.refl (t : MethodTable) : t.Learned publishing t :=
  ⟨List.forall₂_same.2 fun m _ => MethodRecord.Learned.refl m, List.Subset.refl _⟩

theorem Learned.trans {t t' t'' : MethodTable} (h : t.Learned publishing t')
    (h' : t'.Learned publishing t'') : t.Learned publishing t'' :=
  ⟨forall₂_trans (fun _ _ _ h h' => h.trans h') h.records h'.records,
    List.Subset.trans h.called h'.called⟩

theorem learned_update (t : MethodTable) (c n : String) {f : MethodRecord → MethodRecord}
    (hf : ∀ m : MethodRecord, m.Learned publishing (f m)) :
    t.Learned publishing (t.update c n f) := by
  refine ⟨?_, List.Subset.refl _⟩
  simp only [all, Dictionary.values, update, Dictionary.modify, List.map_map]
  induction t.methods.entries with
  | nil => exact .nil
  | cons e entries ih =>
    rw [List.map_cons, List.map_cons, List.flatten_cons, List.flatten_cons]
    refine List.rel_append ?_ ih
    by_cases he : e.1 = c
    · simp only [Function.comp_apply, if_pos he]
      rw [List.forall₂_map_right_iff, List.forall₂_same]
      intro m _
      by_cases hm : m.name = n
      · rw [if_pos hm]
        exact hf m
      · rw [if_neg hm]
        exact .refl m
    · simp only [Function.comp_apply, if_neg he]
      exact List.forall₂_same.2 fun m _ => MethodRecord.Learned.refl m

theorem learned_mark (t : MethodTable) {x : Mark}
    (hx : ∀ c n, x = .public_ c n → publishing) : t.Learned publishing (Mark.apply t x) := by
  cases x with
  | used c n => exact t.learned_update c n fun _ => ⟨rfl, fun _ => rfl, .inl rfl⟩
  | public_ c n => exact t.learned_update c n fun _ => ⟨rfl, id, .inr ⟨hx c n rfl, rfl⟩⟩
  | called n =>
    refine ⟨List.forall₂_same.2 fun m _ => MethodRecord.Learned.refl m, fun x hx => ?_⟩
    exact mem_insertSorted.2 (.inr hx)

theorem learned_marks (t : MethodTable) {marks : List Mark}
    (hmarks : ∀ c n, .public_ c n ∈ marks → publishing) :
    t.Learned publishing (marks.foldl Mark.apply t) := by
  induction marks generalizing t with
  | nil => exact .refl t
  | cons x marks ih =>
    have hx : t.Learned publishing (Mark.apply t x) :=
      t.learned_mark fun c n h => hmarks c n (by simp [h])
    exact hx.trans (ih _ fun c n h => hmarks c n (List.mem_cons_of_mem _ h))

/-- Methods that stay unused stay as they are, except that they may be published. -/
theorem Learned.unused {t t' : MethodTable} (h : t.Learned publishing t') :
    ∃ kept, kept.Sublist (t.unused none) ∧
      List.Forall₂ (fun m m' => m' = m ∨ publishing ∧ m' = { m with access := .public_ }) kept
        (t'.unused none) := by
  refine forall₂_filter (fun m m' hm hunused => ?_) h.records
  obtain ⟨hsame, hused, haccess⟩ := hm
  have hname : m'.name = m.name := by rw [← hsame]
  have hcalled := @h.called m.name
  simp only [MethodRecord.hasAccess, Option.all_none, Bool.and_true, maybeCalled,
    Bool.and_eq_true, Bool.not_eq_true', Bool.and_eq_false_iff] at hunused ⊢
  have hm' : m'.used = m.used := by grind
  refine ⟨?_, ?_⟩
  · grind
  · rcases haccess with heq | ⟨hpublishing, hpublic⟩
    · left
      rw [← hsame, ← heq, ← hm']
    · right
      refine ⟨hpublishing, ?_⟩
      rw [← hsame, ← hpublic, ← hm']

end MethodTable

namespace Tables

theorem learned_learn {publishing : Bool} (t : Tables) (layer : Layer) {found : List Evidence}
    (h : ∀ e ∈ found, publishing || e.isCall) :
    (t.methodsOf layer).Learned publishing ((t.learn layer found).methodsOf layer) := by
  rw [learn_eq_marks, methodsOf_withMethods]
  apply MethodTable.learned_marks
  intro c n hmem
  obtain ⟨e, he, hmark⟩ := List.mem_flatMap.1 hmem
  cases e with
  | publish _ _ => simpa [Evidence.isCall] using h _ he
  | call c' n' =>
    exfalso
    simp only [marksOf, Evidence.marks] at hmark
    split at hmark
    · simp at hmark
    · simp at hmark

end Tables
end RailsReview
