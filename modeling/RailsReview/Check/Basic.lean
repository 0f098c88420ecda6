import RailsReview.Diagnostic
import RailsReview.FilePattern
import RailsReview.Tables
import RailsReview.Tree.Line
import RailsReview.Tree.Pattern

/-!
# Checks

A check says which kinds of nodes and which files it is interested in and what it does at each of
them. What it does is an `Effect`: a new state of its own, new tables, findings, notes for whoever
watches the run, and possibly a failure, which ends the run after the other parts have taken effect.
-/
namespace RailsReview

inductive Phase where
  | enter
  | exit
  deriving DecidableEq, Repr

inductive CheckError where
  | message (text : String)
  | pattern (e : PatternError)
  deriving DecidableEq, Repr

/-- Where a check is being run. -/
structure Site where
  file : Option Path
  line : Option Nat

structure Finding where
  message : String
  file : Path
  lines : List Nat

namespace Site

/-- The file; a missing one has the empty path. -/
def path (s : Site) : Path := s.file.getD ⟨""⟩

/-- A finding in this file. -/
def findingAt (s : Site) (line : Nat) (message : String) : Finding := ⟨message, s.path, [line]⟩

/-- A finding at the place where the check is run; a missing line is 0. -/
def finding (s : Site) (message : String) : Finding := s.findingAt (s.line.getD 0) message

end Site

structure Effect (ν σ : Type) where
  state : σ
  tables : Tables
  findings : List Finding := []
  notes : List ν := []
  failure : Option CheckError := none

/-- What a check does with a node, a text, or at the end, where it has nothing to look at. -/
abbrev Handler (ν σ α : Type) := Site → α → σ → Tables → Effect ν σ

/-- What a check is before it runs: `ν` is the type of its notes and `σ` that of its state. -/
structure Spec (ν σ : Type) where
  name : String
  url : Option String := none
  kinds : List Kind := []
  kinds_nodup : kinds.Nodup := by exact List.nodup_nil
  files : List FilePattern := []
  ignored : List FilePattern := []
  /-- What to do at nodes, in the order in which it was added. -/
  onNode : List ((Phase × Kind) × Handler ν σ Node) := []
  onText : List (Handler ν σ String) := []
  atEnd : List (Handler ν σ Unit) := []

namespace Spec

variable {ν σ : Type}

/-- A kind that is named again is not added again. -/
def addKind (kinds : List Kind) (k : Kind) : List Kind :=
  if kinds.contains k then kinds else kinds ++ [k]

theorem nodup_addKind {kinds : List Kind} (h : kinds.Nodup) (k : Kind) :
    (addKind kinds k).Nodup := by
  unfold addKind
  split
  · exact h
  · rename_i hk
    have hfresh : ∀ k' ∈ kinds, k' ≠ k := fun k' hk' heq =>
      hk (List.contains_iff_mem.2 (heq ▸ hk'))
    refine List.nodup_append.2 ⟨h, by simp, fun k' hk' k'' hk'' => ?_⟩
    rw [List.mem_singleton.1 hk'']
    exact hfresh k' hk'

theorem nodup_foldl_addKind {kinds : List Kind} (h : kinds.Nodup) (more : List Kind) :
    (more.foldl addKind kinds).Nodup := by
  induction more generalizing kinds with
  | nil => exact h
  | cons k more ih => exact ih (nodup_addKind h k)

def interestedIn (s : Spec ν σ) (kinds : List Kind) : Spec ν σ :=
  { s with
    kinds := kinds.foldl addKind s.kinds
    kinds_nodup := nodup_foldl_addKind s.kinds_nodup kinds }

/-- Adds a handler for a kind of node. -/
def on (s : Spec ν σ) (phase : Phase) (k : Kind) (h : Handler ν σ Node) : Spec ν σ :=
  { s with onNode := s.onNode ++ [((phase, k), h)] }

def onEach (s : Spec ν σ) (phase : Phase) (kinds : List Kind) (h : Handler ν σ Node) : Spec ν σ :=
  kinds.foldl (fun s k => s.on phase k h) s

def withText (s : Spec ν σ) (h : Handler ν σ String) : Spec ν σ :=
  { s with onText := s.onText ++ [h] }

def withEnd (s : Spec ν σ) (h : Handler ν σ Unit) : Spec ν σ := { s with atEnd := s.atEnd ++ [h] }

/-- The handlers for a kind of node. -/
def handlers (s : Spec ν σ) (phase : Phase) (k : Kind) : List (Handler ν σ Node) :=
  (s.onNode.filter (·.1 == (phase, k))).map (·.2)

/-- A check that handles texts is given texts only. -/
def isTextCheck (s : Spec ν σ) : Bool := !s.onText.isEmpty

def accepts (s : Spec ν σ) (path : Path) : Bool :=
  FilePattern.anyMatch s.files path && !FilePattern.anyMatch s.ignored path

end Spec

namespace Handler

variable {ν σ α : Type}

/-- A handler that changes nothing but the check's own state. -/
def update (f : α → σ → σ) : Handler ν σ α := fun _ a s t => { state := f a s, tables := t }

/-- A handler that changes nothing but the tables. -/
def record (f : Site → α → σ → Tables → Tables) : Handler ν σ α := fun site a s t =>
  { state := s, tables := f site a s t }

/-- A handler that does nothing but report. -/
def report (f : Site → α → σ → Tables → List Finding) : Handler ν σ α := fun site a s t =>
  { state := s, tables := t, findings := f site a s t }

/-- A handler that does nothing but leave notes. -/
def observe (f : Site → α → σ → Tables → List ν) : Handler ν σ α := fun site a s t =>
  { state := s, tables := t, notes := f site a s t }

end Handler

/-- A part of a state that can be read and replaced. -/
structure Field (σ τ : Type) where
  get : σ → τ
  set : τ → σ → σ

namespace Field

def whole {σ : Type} : Field σ σ := ⟨id, fun t _ => t⟩

def modify {σ τ : Type} (f : Field σ τ) (g : τ → τ) (s : σ) : σ := f.set (g (f.get s)) s

/-- A part of a part. -/
def inside {σ τ υ : Type} (f : Field σ τ) (g : Field τ υ) : Field σ υ :=
  ⟨fun s => g.get (f.get s), fun u => f.modify (g.set u)⟩

end Field

/-- A check in the middle of a run. -/
structure Check (ν : Type) where
  {State : Type}
  spec : Spec ν State
  state : State
  diagnostics : List Diagnostic := []

namespace Check

variable {ν : Type}

def name (c : Check ν) : String := c.spec.name

def kinds (c : Check ν) : List Kind := c.spec.kinds

def isTextCheck (c : Check ν) : Bool := c.spec.isTextCheck

def accepts (c : Check ν) (path : Path) : Bool := c.spec.accepts path

def diagnostic (c : Check ν) (f : Finding) : Diagnostic :=
  ⟨f.file, f.lines, f.message, c.spec.name, c.spec.url⟩

end Check

end RailsReview
