/-!
# Dictionaries and ledgers

A dictionary keeps its entries in the order of their keys, each key once, so two dictionaries with
the same entries are equal. A ledger keeps them in the order in which their keys were first met.
-/
namespace RailsReview

structure Dictionary (α : Type) where
  entries : List (String × α) := []
  deriving DecidableEq, Repr

namespace Dictionary

variable {α : Type}

def empty : Dictionary α := ⟨[]⟩

def isEmpty (d : Dictionary α) : Bool := d.entries.isEmpty

def keys (d : Dictionary α) : List String := d.entries.map (·.1)

def values (d : Dictionary α) : List α := d.entries.map (·.2)

def size (d : Dictionary α) : Nat := d.entries.length

def get? (d : Dictionary α) (key : String) : Option α := d.entries.lookup key

def contains (d : Dictionary α) (key : String) : Bool := (d.get? key).isSome

/-- Sets the value at `key` to `f` of the value there. -/
def alterEntries (key : String) (f : Option α → α) : List (String × α) → List (String × α)
  | [] => [(key, f none)]
  | (k, v) :: rest =>
    if key < k then (key, f none) :: (k, v) :: rest
    else if key = k then (k, f (some v)) :: rest
    else (k, v) :: alterEntries key f rest

def alter (d : Dictionary α) (key : String) (f : Option α → α) : Dictionary α :=
  ⟨alterEntries key f d.entries⟩

/-- The last insertion at a key counts. -/
def insert (d : Dictionary α) (key : String) (v : α) : Dictionary α := d.alter key fun _ => v

/-- The first insertion at a key counts. -/
def insertNew (d : Dictionary α) (key : String) (v : α) : Dictionary α := d.alter key (·.getD v)

/-- Changes the value at `key` if there is one. -/
def modify (d : Dictionary α) (key : String) (f : α → α) : Dictionary α :=
  ⟨d.entries.map fun e => if e.1 = key then (e.1, f e.2) else e⟩

end Dictionary

structure Ledger (κ α : Type) where
  entries : List (κ × α) := []
  deriving DecidableEq, Repr

namespace Ledger

variable {κ α : Type} [DecidableEq κ]

def keys (l : Ledger κ α) : List κ := l.entries.map (·.1)

def get? (l : Ledger κ α) (key : κ) : Option α := l.entries.lookup key

/-- Sets the value at `key` to `f` of the value there; a new key comes last. -/
def alterEntries (key : κ) (f : Option α → α) : List (κ × α) → List (κ × α)
  | [] => [(key, f none)]
  | (k, v) :: rest =>
    if k = key then (k, f (some v)) :: rest else (k, v) :: alterEntries key f rest

def alter (l : Ledger κ α) (key : κ) (f : Option α → α) : Ledger κ α :=
  ⟨alterEntries key f l.entries⟩

end Ledger

/-- Adds a text to a sorted list without duplicates. -/
def insertSorted (s : String) : List String → List String
  | [] => [s]
  | t :: rest =>
    if s < t then s :: t :: rest
    else if s = t then t :: rest
    else t :: insertSorted s rest

end RailsReview
