/-!
# Values of a configuration document

A document is a table of values, and its tables and arrays remember how they were written, because
that decides how later lines may extend them. Each line adds to the tables built so far, and fails
where it would define something a second time.
-/
namespace RailsReview.Toml

/-- How a table came into being. -/
inductive Origin where
  /-- Written in braces; nothing can be added to it. -/
  | inline
  /-- By a header of its own. -/
  | header
  /-- By the header of a table inside of it. -/
  | implied
  /-- By a key with dots. -/
  | dotted
  deriving DecidableEq, Repr

inductive Value where
  | str (s : String)
  | int (i : Int)
  /-- A number with a fraction or an exponent, as it was written. -/
  | float (text : String)
  | bool (b : Bool)
  /-- An array; headers in double brackets add their tables to one that they began. -/
  | array (byHeaders : Bool) (items : List Value)
  | table (origin : Origin) (entries : List (String × Value))

abbrev Entries := List (String × Value)

namespace Value

def str? : Value → Option String
  | str s => some s
  | _ => none

def int? : Value → Option Int
  | int i => some i
  | _ => none

def bool? : Value → Option Bool
  | bool b => some b
  | _ => none

def items? : Value → Option (List Value)
  | array _ items => some items
  | _ => none

def entries? : Value → Option Entries
  | table _ entries => some entries
  | _ => none

end Value

/-- Puts what `f` makes of the value at `key`, or of its absence, there. -/
def alterAt? (key : String) (f : Option Value → Option Value) : Entries → Option Entries
  | [] => (f none).map fun v => [(key, v)]
  | (k, v) :: rest =>
    if k = key then (f (some v)).map fun v' => (k, v') :: rest
    else (alterAt? key f rest).map ((k, v) :: ·)

/-- Applies `f` to the last table of an array. -/
def alterLast? (f : Entries → Option Entries) : List Value → Option (List Value)
  | [] => none
  | [.table origin entries] => (f entries).map fun entries => [.table origin entries]
  | v :: rest => (alterLast? f rest).map (v :: ·)

/-- Applies `f` to the table at the end of a path of keys, creating what is missing on the way. A
key with dots does not lead through a table that has a header. -/
def descend? (byDots : Bool) (f : Origin → Entries → Option Entries) :
    List String → Origin → Entries → Option Entries
  | [], origin, entries => f origin entries
  | key :: path, _, entries =>
    alterAt? key (fun
      | none =>
        let origin := if byDots then .dotted else .implied
        (descend? byDots f path origin []).map (.table origin)
      | some (.table origin inner) =>
        if origin == .inline || (byDots && origin == .header) then none
        else (descend? byDots f path origin inner).map (.table origin)
      | some (.array true items) =>
        (alterLast? (descend? byDots f path .header) items).map (.array true)
      | some _ => none) entries

/-- Adds a value under a new key. -/
def insertNew? (key : String) (v : Value) (entries : Entries) : Option Entries :=
  alterAt? key (fun old => if old.isSome then none else some v) entries

/-- Adds a value under a key with dots, all of which have to create the tables they lead to. -/
def assign? (path : List String) (v : Value) (entries : Entries) : Option Entries :=
  match path.getLast? with
  | none => none
  | some key =>
    descend? true (fun origin inner =>
      if path.length = 1 || origin == .dotted then insertNew? key v inner else none)
      path.dropLast .header entries

/-- Begins a table by its header. -/
def openTable? (path : List String) (entries : Entries) : Option Entries :=
  match path.getLast? with
  | none => none
  | some key =>
    descend? false (fun _ => alterAt? key fun
      | none => some (.table .header [])
      | some (.table .implied inner) => some (.table .header inner)
      | some _ => none) path.dropLast .header entries

/-- Adds a table to an array by a header in double brackets. -/
def openItem? (path : List String) (entries : Entries) : Option Entries :=
  match path.getLast? with
  | none => none
  | some key =>
    descend? false (fun _ => alterAt? key fun
      | none => some (.array true [.table .header []])
      | some (.array true items) => some (.array true (items ++ [.table .header []]))
      | some _ => none) path.dropLast .header entries

end RailsReview.Toml
