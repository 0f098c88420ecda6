import RailsReview.Proofs.Bench
import RailsReview.Proofs.Watch

/-!
# Watched benches

Attempts on a bench and on the bench under a watch go together when the watch changes nothing and
logs what is due. This is kept by sequences, so that what a stage logs follows from its rounds of
calls.
-/
namespace RailsReview
open Attempt
variable {ν α : Type}

theorem zip_fst_snd {β γ : Type*} (l : List (β × γ)) : (l.map (·.1)).zip (l.map (·.2)) = l := by
  rw [List.zip_map', List.map_id']

namespace Bench
variable {hears : Bool} {texts trees : List (Check ν × α)}

/-- `w` is the bench `b` with all its checks under a watch, where `texts` and `trees` are the checks
with their labels. -/
structure Watches (hears : Bool) (texts trees : List (Check ν × α)) (b : Bench ν)
    (w : Bench (Watched ν α)) : Prop where
  textDesigns : b.texts.map Check.design = (texts.map (·.1)).map Check.design
  treeDesigns : b.trees.map Check.design = (trees.map (·.1)).map Check.design
  textChecks : w.texts = watchAll hears (b.texts.zip (texts.map (·.2)))
  treeChecks : w.trees = watchAll false (b.trees.zip (trees.map (·.2)))
  tables : w.tables = b.tables
  notes : Watched.own w.notes = b.notes

/-- `q` is the attempt `r` under a watch, which logs `due` or what of it comes before a failure. -/
def Logs (hears : Bool) (texts trees : List (Check ν × α)) (due : List (Delivery α))
    (r : Attempt RunError (Bench ν)) (q : Attempt RunError (Bench (Watched ν α))) : Prop :=
  ∀ b w, Watches hears texts trees b w →
    Watches hears texts trees (r b).1 (q w).1 ∧ (q w).2 = (r b).2 ∧
      Logged (Delivery.Ends (texts ++ trees)) due (Watched.outcomes w.notes)
        (Watched.outcomes (q w).1.notes) (r b).2

theorem Logs.andThen {due due' : List (Delivery α)} {r r' : Attempt RunError (Bench ν)}
    {q q' : Attempt RunError (Bench (Watched ν α))} (h : Logs hears texts trees due r q)
    (h' : Logs hears texts trees due' r' q') :
    Logs hears texts trees (due ++ due') (r.andThen r') (q.andThen q') := by
  intro b w hb
  obtain ⟨hwatch, herr, hlog⟩ := h b w hb
  rcases hr : r b with ⟨b₁, _ | e⟩
  · rcases hq : q w with ⟨w₁, e₁⟩
    rw [hr, hq] at hwatch herr hlog
    obtain rfl : e₁ = none := herr
    obtain ⟨hwatch', herr', hlog'⟩ := h' b₁ w₁ hwatch
    rw [andThen_of_none _ hr, andThen_of_none _ hq]
    exact ⟨hwatch', herr', hlog.append hlog'⟩
  · rcases hq : q w with ⟨w₁, e₁⟩
    rw [hr, hq] at hwatch herr hlog
    obtain rfl : e₁ = some e := herr
    rw [andThen_of_some _ hr, andThen_of_some _ hq]
    exact ⟨hwatch, rfl, hlog.cut _⟩

/-- What a watched session logs, by the checks at the start. -/
theorem session_logs {start : List (Check ν × α)} {s : Session ν} {w : Session (Watched ν α)}
    (hd : s.checks.map Check.design = (start.map (·.1)).map Check.design)
    (hw : w.checks = watchAll hears (s.checks.zip (start.map (·.2))))
    (ht : w.tables = s.tables) (hn : Watched.own w.notes = s.notes) {calls : List Call}
    (hs : ∀ call ∈ calls, ∀ x ∈ start, call.seen hears x.1) :
    (Run.hear calls s).1.Watches hears (start.map (·.2)) (Run.hear calls w).1 ∧
      (Run.hear calls w).2 = (Run.hear calls s).2 ∧
      Logged (Delivery.Ends start) (Call.deliveries start calls) (Watched.outcomes w.notes)
        (Watched.outcomes (Run.hear calls w).1.notes) (Run.hear calls s).2 := by
  have hlen : s.checks.length = (start.map (·.2)).length := by
    simpa using congrArg List.length hd
  have hseen : ∀ call ∈ calls, ∀ c ∈ s.checks, call.seen hears c := fun call hcall =>
    Call.seen_of_design hd (List.forall_mem_map.2 (hs call hcall))
  obtain ⟨hwatch, herr, hlog⟩ := Run.hear_watched hears calls _ ⟨hlen, hw, ht, hn⟩ hseen
  rw [Call.deliveries_congr hd, zip_fst_snd] at hlog
  refine ⟨hwatch, herr, hlog.mono fun d _ e he => ?_⟩
  have hend := he.congr hd
  rwa [zip_fst_snd] at hend

theorem onTexts_logs {calls : List Call} (hs : ∀ call ∈ calls, ∀ x ∈ texts, call.seen hears x.1) :
    Logs hears texts trees (Call.deliveries texts calls) (onTexts (Run.hear calls))
      (onTexts (Run.hear calls)) := by
  intro b w hb
  obtain ⟨hwatch, herr, hlog⟩ := session_logs (s := ⟨b.texts, b.tables, b.notes⟩)
    (w := ⟨w.texts, w.tables, w.notes⟩) hb.textDesigns hb.textChecks hb.tables hb.notes hs
  refine ⟨⟨?_, hb.treeDesigns, hwatch.checks, hb.treeChecks, hwatch.tables, hwatch.notes⟩, herr, ?_⟩
  · exact (Run.hear_design calls _).trans hb.textDesigns
  · exact hlog.mono fun d x e => Delivery.Ends.mono (List.subset_append_left _ _)

theorem onTrees_logs {calls : List Call} (hs : ∀ call ∈ calls, ∀ x ∈ trees, call.seen false x.1) :
    Logs hears texts trees (Call.deliveries trees calls) (onTrees (Run.hear calls))
      (onTrees (Run.hear calls)) := by
  intro b w hb
  obtain ⟨hwatch, herr, hlog⟩ := session_logs (s := ⟨b.trees, b.tables, b.notes⟩)
    (w := ⟨w.trees, w.tables, w.notes⟩) hb.treeDesigns hb.treeChecks hb.tables hb.notes hs
  refine ⟨⟨hb.textDesigns, ?_, hb.textChecks, hwatch.checks, hwatch.tables, hwatch.notes⟩, herr, ?_⟩
  · exact (Run.hear_design calls _).trans hb.treeDesigns
  · exact hlog.mono fun d x e => Delivery.Ends.mono (List.subset_append_right _ _)

theorem watchAll_diagnostics {checks : List (Check ν)} {labels : List α}
    (h : checks.length = labels.length) :
    (watchAll hears (checks.zip labels)).flatMap (·.diagnostics) =
      checks.flatMap (·.diagnostics) := by
  unfold watchAll
  rw [List.flatMap_map]
  change (checks.zip labels).flatMap (fun x => x.1.diagnostics) = _
  rw [← List.flatMap_map (f := Prod.fst) (g := Check.diagnostics),
    List.map_fst_zip (Nat.le_of_eq h)]

theorem Watches.diagnostics {b : Bench ν} {w : Bench (Watched ν α)}
    (h : Watches hears texts trees b w) : w.diagnostics = b.diagnostics := by
  have htexts : b.texts.length = (texts.map (·.2)).length := by
    simpa using congrArg List.length h.textDesigns
  have htrees : b.trees.length = (trees.map (·.2)).length := by
    simpa using congrArg List.length h.treeDesigns
  unfold Bench.diagnostics
  rw [h.textChecks, h.treeChecks, watchAll_diagnostics htexts, watchAll_diagnostics htrees]

theorem isTextCheck_watched (c : Check ν) (label : α) :
    (c.watched false label).isTextCheck = c.isTextCheck := by
  simp only [Check.isTextCheck, Spec.isTextCheck, Check.watched, Spec.watched, Bool.false_or]
  cases c.spec.onText <;> rfl

/-- The bench of a stage under a watch. -/
theorem ofChecks_watches (checks : List (Check ν × α)) (t : Tables) {notes : List ν}
    {notes' : List (Watched ν α)} (hn : Watched.own notes' = notes) :
    Watches false (checks.filter (·.1.isTextCheck)) (checks.filter (!·.1.isTextCheck))
      (ofChecks (checks.map (·.1)) t notes) (ofChecks (watchAll false checks) t notes') := by
  have chosen (p : Check ν → Bool) (p' : Check (Watched ν α) → Bool)
      (hp : ∀ x : Check ν × α, p' (x.1.watched false x.2) = p x.1) :
      (watchAll false checks).filter p' =
        watchAll false (((checks.map (·.1)).filter p).zip
          ((checks.filter fun x => p x.1).map (·.2))) := by
    rw [List.filter_map, watchAll, List.filter_map]
    change _ = watchAll false (((checks.filter fun x => p x.1).map (·.1)).zip _)
    rw [zip_fst_snd, watchAll]
    congr 1
    exact List.filter_congr fun x _ => hp x
  refine ⟨?_, ?_, ?_, ?_, rfl, hn⟩
  · simp only [ofChecks, List.filter_map]
    rfl
  · simp only [ofChecks, List.filter_map]
    rfl
  · exact chosen _ _ fun x => isTextCheck_watched x.1 x.2
  · exact chosen (!·.isTextCheck) _ fun x => by rw [isTextCheck_watched]

end Bench
end RailsReview
