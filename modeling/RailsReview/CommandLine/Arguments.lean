/-!
# Command line arguments

The arguments name a command and its options. Options have a long name, which a value may follow
after an equals sign or as the next argument, and perhaps a short one; flags may be joined behind
one dash. Arguments that are not understood are a usage error.
-/
namespace RailsReview.CommandLine

inductive Format where
  | text
  | json
  | compact
  deriving DecidableEq, Repr

def Format.ofName? : String → Option Format
  | "text" => some .text
  | "json" => some .json
  | "compact" => some .compact
  | _ => none

structure CheckRequest where
  /-- The root of the application. -/
  root : String := "."
  format : Format := .text
  /-- The names of the checks to run, with commas between them. -/
  checks? : Option String := none
  exclude : List String := []
  /-- The interpreter that parses sources. -/
  interpreter? : Option String := none
  deriving Repr

inductive Command where
  | check (r : CheckRequest)
  | listChecks
  | init (force : Bool)
  deriving Repr

structure Invocation where
  configuration? : Option String
  command : Command
  deriving Repr

/-- An option that can be given. -/
structure OptionName where
  long : String
  short? : Option Char
  takesValue : Bool

/-- An argument that was understood. -/
inductive Word where
  | option (name : String) (value : String)
  | plain (text : String)

namespace Word

/-- The values given to an option. -/
def valuesOf (name : String) (ws : List Word) : List String :=
  ws.filterMap fun
    | .option n v => if n = name then some v else none
    | .plain _ => none

def plains (ws : List Word) : List String :=
  ws.filterMap fun
    | .option _ _ => none
    | .plain text => some text

end Word

def commonOptions : List OptionName :=
  [⟨"verbose", some 'v', false⟩, ⟨"config", some 'c', true⟩]

def checkOptionNames : List OptionName :=
  commonOptions ++
    [⟨"format", some 'f', true⟩, ⟨"checks", none, true⟩, ⟨"exclude", some 'e', true⟩,
      ⟨"ruby", none, true⟩]

def initOptionNames : List OptionName := commonOptions ++ [⟨"force", none, false⟩]

/-- A single dash is no option. -/
def looksLikeOption (arg : String) : Bool := arg.toList.head? == some '-' && arg != "-"

/-- Reads short options behind a dash. The last one may still wait for its value. -/
def shortOptions? (known : List OptionName) : List Char → Option (List Word × Option String)
  | [] => some ([], none)
  | c :: cs =>
    match known.find? (·.short? == some c) with
    | none => none
    | some o =>
      if !o.takesValue then
        (shortOptions? known cs).map fun (ws, waiting) => (.option o.long "" :: ws, waiting)
      else if cs.isEmpty then some ([], some o.long)
      else
        let value := match cs with
          | '=' :: rest => rest
          | _ => cs
        some ([.option o.long (String.ofList value)], none)

/-- Reads a long option behind its dashes. -/
def longOption? (known : List OptionName) (cs : List Char) : Option (List Word × Option String) :=
  let name := String.ofList (cs.takeWhile (· != '='))
  match known.find? (·.long == name), cs.dropWhile (· != '=') with
  | some o, _ :: value =>
    if o.takesValue then some ([.option o.long (String.ofList value)], none) else none
  | some o, [] => if o.takesValue then some ([], some o.long) else some ([.option o.long ""], none)
  | none, _ => none

/-- Reads one argument, with the next one if that is its value. -/
def argument? (known : List OptionName) (arg : String) (rest : List String) :
    Option (List Word × List String) :=
  let options := match arg.toList with
    | '-' :: '-' :: cs => longOption? known cs
    | '-' :: c :: cs => shortOptions? known (c :: cs)
    | _ => some ([.plain arg], none)
  options.bind fun (ws, waiting) =>
    match waiting, rest with
    | none, _ => some (ws, rest)
    | some name, v :: rest =>
      if looksLikeOption v then none else some (ws ++ [.option name v], rest)
    | some _, [] => none

/-- Reads arguments; after a double dash none is an option. Every step takes one at least. -/
def words? (known : List OptionName) : Nat → List String → Option (List Word)
  | _, [] => some []
  | 0, _ => none
  | n + 1, arg :: rest =>
    if arg = "--" then some (rest.map .plain)
    else
      (argument? known arg rest).bind fun (ws, rest) =>
        (words? known n rest).map (ws ++ ·)

/-- Reads the options in front of the command, and finds its name. -/
def commandWord? (known : List OptionName) :
    Nat → List String → Option (List Word × String × List String)
  | _, [] => none
  | 0, _ => none
  | n + 1, arg :: rest =>
    if looksLikeOption arg then
      (argument? known arg rest).bind fun (ws, rest) =>
        (commandWord? known n rest).map fun (more, found) => (ws ++ more, found)
    else some ([], arg, rest)

/-- The value of an option that may be given once. -/
def single? (name : String) (ws : List Word) : Option (Option String) :=
  match Word.valuesOf name ws with
  | [] => some none
  | [v] => some (some v)
  | _ => none

/-- The path given to such an option; an empty one is no path. -/
def path? (name : String) (ws : List Word) : Option (Option String) :=
  (single? name ws).filter fun v => v.all (· ≠ "")

/-- The configuration file; a flag for more output has no influence on what is found. -/
def common? (ws : List Word) : Option (Option String) :=
  (single? "verbose" ws).bind fun _ => path? "config" ws

def root? (ws : List Word) : Option String :=
  match Word.plains ws with
  | [] => some "."
  | [root] => if root = "" then none else some root
  | _ => none

def checkRequest? (ws : List Word) : Option CheckRequest :=
  (root? ws).bind fun root =>
  (single? "format" ws).bind fun format =>
  (Format.ofName? (format.getD "text")).bind fun format =>
  (single? "checks" ws).bind fun checks? =>
  (path? "ruby" ws).map fun interpreter? =>
    { root := root
      format := format
      checks? := checks?
      exclude := Word.valuesOf "exclude" ws
      interpreter? := interpreter? }

/-- Reads a command by its name, and the common options given with it. -/
def command? (name : String) (args : List String) : Option (List Word × Command) :=
  let read (known : List OptionName) (command : List Word → Option Command) :=
    (words? known args.length args).bind fun ws => (command ws).map (ws, ·)
  match name with
  | "check" => read checkOptionNames fun ws => (checkRequest? ws).map .check
  | "list-checks" => read commonOptions fun ws =>
    if (Word.plains ws).isEmpty then some .listChecks else none
  | "init" => read initOptionNames fun ws =>
    if (Word.plains ws).isEmpty then
      (single? "force" ws).map fun force => .init force.isSome
    else none
  | _ => none

/-- Reads the arguments. A common option counts most behind the command. -/
def Invocation.ofArguments? (args : List String) : Option Invocation :=
  (commandWord? commonOptions args.length args).bind fun (before, name, rest) =>
  (command? name rest).bind fun (behind, command) =>
  (common? before).bind fun outer =>
  (common? behind).map fun inner => ⟨inner.or outer, command⟩

end RailsReview.CommandLine
