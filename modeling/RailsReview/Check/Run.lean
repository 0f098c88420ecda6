import RailsReview.Check.Basic
import RailsReview.Dictionary

/-!
# Running checks

A run goes through the checks' handlers one after the other. A failure ends it at once; what was
done before stays done. Trees are visited depth first: a check enters a node before the nodes below
it and exits it after them. Which checks want a node is looked up by its kind in an index that is
made once.
-/
namespace RailsReview

universe u

/-- Something that changes a state and may fail while doing so. What it changed before it failed
stays changed, and nothing that should follow happens. -/
def Attempt (ε : Type) (σ : Type u) := σ → σ × Option ε

namespace Attempt

variable {ε : Type} {σ : Type u}

def done : Attempt ε σ := fun s => (s, none)

/-- The second attempt follows unless the first one failed. -/
def andThen (a b : Attempt ε σ) : Attempt ε σ := fun s =>
  match a s with
  | (s, none) => b s
  | (s, some e) => (s, some e)

/-- The attempts in order up to the first failure. -/
def all : List (Attempt ε σ) → Attempt ε σ
  | [] => done
  | a :: rest => a.andThen (all rest)

end Attempt

inductive RunError where
  | atNode (file : Path) (line : Nat) (check : String) (cause : CheckError)
  | atEnd (check : String) (cause : CheckError)

/-- A failure in words; what is wrong with a pattern is left to whoever reads patterns. -/
def CheckError.text? : CheckError → Option String
  | message text => some text
  | pattern _ => none

def RunError.text? : RunError → Option String
  | atNode file line check cause =>
    cause.text?.map fun text =>
      check ++ " failed at " ++ file.text ++ ":" ++ toString line ++ ": " ++ text
  | atEnd check cause =>
    cause.text?.map fun text => check ++ " failed after the last file: " ++ text

/-- The checks, the tables they share and the notes left so far. -/
structure Session (ν : Type) where
  checks : List (Check ν)
  tables : Tables := {}
  notes : List ν := []

/-- A part of a run. -/
abbrev Run (ν : Type) := Attempt RunError (Session ν)

namespace Run

variable {ν : Type}

/-- Applies handlers in order up to the first failure. -/
def handleAll {σ α : Type} (site : Site) (a : α) :
    List (Handler ν σ α) → Effect ν σ → Effect ν σ
  | [], e => e
  | h :: rest, e =>
    match e.failure with
    | some _ => e
    | none =>
      let next := h site a e.state e.tables
      handleAll site a rest { next with
        findings := e.findings ++ next.findings
        notes := e.notes ++ next.notes }

/-- Runs the handlers of one check; `handlers` picks them from its description. -/
def runCheck {α : Type} (site : Site) (a : α)
    (handlers : {σ : Type} → Spec ν σ → List (Handler ν σ α)) (c : Check ν) (t : Tables) :
    Check ν × Tables × List ν × Option CheckError :=
  let e := handleAll site a (handlers c.spec) { state := c.state, tables := t }
  ({ c with state := e.state, diagnostics := c.diagnostics ++ e.findings.map c.diagnostic },
    e.tables, e.notes, e.failure)

/-- Lets the check at a place run; `wrap` completes its failure. -/
def step {α : Type} (site : Site) (a : α)
    (handlers : {σ : Type} → Spec ν σ → List (Handler ν σ α))
    (wrap : String → CheckError → RunError) (place : Nat) : Run ν := fun s =>
  match s.checks[place]? with
  | none => (s, none)
  | some c =>
    let (c', tables, notes, failure) := runCheck site a handlers c s.tables
    ({ checks := s.checks.set place c', tables, notes := s.notes ++ notes },
      failure.map (wrap c.name))

/-- Delivers a node to the check at a place. -/
def deliver (phase : Phase) (file : Path) (n : Node) (place : Nat) : Run ν :=
  step ⟨some file, n.line?⟩ n (·.handlers phase n.kind)
    (fun check e => .atNode file (n.line?.getD 0) check e) place

/-- Which checks accept a file. -/
def activity (checks : List (Check ν)) (file : Path) : List Bool := checks.map (·.accepts file)

/-- The places of the checks that are interested in a kind, for every kind. -/
abbrev KindIndex := Ledger Kind (List Nat)

namespace KindIndex

def places (index : KindIndex) (k : Kind) : List Nat := (index.get? k).getD []

/-- Files a place under a kind, after those that are there. -/
def push (index : KindIndex) (k : Kind) (place : Nat) : KindIndex :=
  index.alter k fun places => places.getD [] ++ [place]

/-- Files the place of a check under each of its kinds. -/
def addCheck (index : KindIndex) (x : Check ν × Nat) : KindIndex :=
  x.1.kinds.foldl (fun index k => index.push k x.2) index

def ofChecks (checks : List (Check ν)) : KindIndex := checks.zipIdx.foldl addCheck {}

end KindIndex

mutual

/-- Visits a node. `active` says which checks accept `file`; it is found anew only below a node that
names another file. The checks are those at the start of the run, and so is their index. -/
def visit (checks : List (Check ν)) (index : KindIndex) (file : Path) (active : List Bool) :
    Node → Run ν
  | .mk k slots p own =>
    let n := Node.mk k slots p own
    let moved := own.filter (· != file)
    let file := moved.getD file
    let active := match moved with
      | some f => activity checks f
      | none => active
    let interested := (index.places k).filter fun i => active.getD i false
    (Attempt.all (interested.map (deliver .enter file n))).andThen
      ((visitSlots checks index file active slots).andThen
        (Attempt.all (interested.map (deliver .exit file n))))

def visitSlots (checks : List (Check ν)) (index : KindIndex) (file : Path)
    (active : List Bool) : List Slot → Run ν
  | [] => Attempt.done
  | .node n :: rest =>
    (visit checks index file active n).andThen (visitSlots checks index file active rest)
  | _ :: rest => visitSlots checks index file active rest

end

/-- Sends a tree to the checks by an index of their kinds. A file named on the root counts more than
the one it came from. -/
def dispatch (index : KindIndex) (root : Node) (path : Path) : Run ν := fun s =>
  let file := root.file?.getD path
  visit s.checks index file (activity s.checks file) root s

/-- Sends a tree to the checks. -/
def tree (root : Node) (path : Path) : Run ν := fun s =>
  dispatch (KindIndex.ofChecks s.checks) root path s

/-- Sends a text to the checks that accept its file. -/
def text (path : Path) (content : String) : Run ν := fun s =>
  let places := (List.range s.checks.length).filter fun i => (s.checks[i]?).any (·.accepts path)
  Attempt.all (places.map (step ⟨some path, none⟩ content (·.onText) (.atNode path 0))) s

/-- Lets every check finish. -/
def finish : Run ν := fun s =>
  Attempt.all ((List.range s.checks.length).map (step ⟨none, none⟩ () (·.atEnd) .atEnd)) s

end Run

namespace Session

variable {ν : Type}

/-- The diagnostics of all checks, check by check. -/
def diagnostics (s : Session ν) : List Diagnostic := s.checks.flatMap (·.diagnostics)

end Session

end RailsReview
