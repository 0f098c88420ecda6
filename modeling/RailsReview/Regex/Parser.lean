import RailsReview.Regex.Bracket

/-!
# Reading regular expressions

A pattern is read from left to right with the open groups on a stack. Only validity and meaning
matter: groups capture nothing, and greed does not change whether a text matches.
-/
namespace RailsReview.Regex

/-- A part of a sequence; switching flags is a part that cannot be repeated. -/
inductive Part where
  | regex (r : Regex)
  | flags

/-- An open group: its finished branches and the parts of the current one, both last first, and the
flags to return to when it closes. -/
structure Group where
  branches : List Regex
  parts : List Part
  outerFlags : Flags

structure Reader where
  flags : Flags
  group : Group
  outer : List Group
  names : List String

namespace Group

def start (flags : Flags) : Group := ⟨[], [], flags⟩

def sequence (g : Group) : Regex :=
  concat (g.parts.reverse.filterMap fun
    | .regex r => some r
    | .flags => none)

def branch (g : Group) : Group := { g with branches := g.sequence :: g.branches, parts := [] }

/-- The alternatives of the group. -/
def value (g : Group) : Regex := g.branches.foldl (fun r b => alt b r) g.sequence

def add (p : Part) (g : Group) : Group := { g with parts := p :: g.parts }

end Group

namespace Reader

def add (r : Regex) (s : Reader) : Reader := { s with group := s.group.add (.regex r) }

/-- Repeats the part before; there must be one. -/
def repeatLast? (min : Nat) (max : Option Nat) (s : Reader) : Option Reader :=
  match s.group.parts with
  | .regex r :: rest =>
    some { s with group := { s.group with parts := .regex (rep r min max) :: rest } }
  | _ => none

/-- A question mark after a repetition makes it lazy. -/
def dropLazy : List Char → List Char
  | '?' :: rest => rest
  | cs => cs

/-- The greatest count a repetition may name. -/
def maxCount : Nat := 0xffffffff

def count? (f : Flags) (cs : List Char) : Option (Nat × List Char) :=
  let cs := cs.dropWhile Text.isBlank
  let ds := cs.takeWhile Char.isDigit
  let rest := (Bracket.skipBlanks f (cs.dropWhile Char.isDigit)).dropWhile Text.isBlank
  if ds.isEmpty then none
  else
    let n := ds.foldl (fun n c => n * 10 + (c.toNat - '0'.toNat)) 0
    if n ≤ maxCount then some (n, rest) else none

/-- The bounds of a counted repetition after its brace. -/
def bounds? (f : Flags) (cs : List Char) : Option ((Nat × Option Nat) × List Char) :=
  (count? f (Bracket.skipBlanks f cs)).bind fun (min, rest) =>
    match rest with
    | '\x7d' :: rest => some ((min, some min), rest)
    | ',' :: rest =>
      match Bracket.skipBlanks f rest with
      | '\x7d' :: rest => some ((min, none), rest)
      | rest =>
        (count? f rest).bind fun (max, rest) =>
          match rest with
          | '\x7d' :: rest => if min ≤ max then some ((min, some max), rest) else none
          | _ => none
    | _ => none

def setFlag? (on : Bool) (f : Flags) : Char → Option Flags
  | 'i' => some { f with ignoreCase := on }
  | 'm' => some { f with multiLine := on }
  | 's' => some { f with dotAll := on }
  | 'U' => some { f with swapGreed := on }
  | 'u' => some { f with unicode := on }
  | 'R' => some { f with anyLineEnd := on }
  | 'x' => some { f with verbose := on }
  | _ => none

/-- Reads flags up to the colon or the parenthesis that ends them: the new flags, whether any was
named, whether the list ends in a parenthesis, and the rest. -/
def readFlags? (f : Flags) (on : Bool) (seen : List Char) : List Char →
    Option (Flags × Bool × Bool × List Char)
  | [] => none
  | ')' :: rest =>
    if on || seen.head? != some '-' then some (f, !seen.isEmpty, true, rest) else none
  | ':' :: rest =>
    if on || seen.head? != some '-' then some (f, !seen.isEmpty, false, rest) else none
  | '-' :: rest => if on then readFlags? f false ('-' :: seen) rest else none
  | c :: rest =>
    if seen.contains c then none
    else
      match setFlag? on f c with
      | some f => readFlags? f on (c :: seen) rest
      | none => none

def isNameChar (first : Bool) (c : Char) : Bool :=
  c == '_' || (CharSet.isWord c && !(first && CharSet.isDigit c))
    || (!first && (c == '.' || c == '[' || c == ']'))

def isGroupName : List Char → Bool
  | [] => false
  | c :: rest => isNameChar true c && rest.all (isNameChar false)

def openGroup (flags : Flags) (s : Reader) : Reader :=
  { s with flags := flags, group := .start s.flags, outer := s.group :: s.outer }

def openNamed? (s : Reader) (cs : List Char) : Option (Reader × List Char) :=
  let name := cs.takeWhile (· != '>')
  match cs.dropWhile (· != '>') with
  | [] => none
  | _ :: rest =>
    let text := String.ofList name
    if isGroupName name && !s.names.contains text then
      some ({ s with names := text :: s.names }.openGroup s.flags, rest)
    else none

/-- What follows an opening parenthesis. Looking around is not supported. -/
def open? (s : Reader) (cs : List Char) : Option (Reader × List Char) :=
  match Bracket.skipBlanks s.flags cs with
  | '?' :: 'P' :: '<' :: rest => s.openNamed? rest
  | '?' :: '<' :: '=' :: _ | '?' :: '<' :: '!' :: _ => none
  | '?' :: '<' :: rest => s.openNamed? rest
  | '?' :: rest =>
    (readFlags? s.flags true [] rest).bind fun (flags, named, closed, rest) =>
      if closed then
        if named then some ({ s with flags := flags, group := s.group.add .flags }, rest) else none
      else some (s.openGroup flags, rest)
  | rest => some (s.openGroup s.flags, rest)

def close? (s : Reader) : Option Reader :=
  match s.outer with
  | [] => none
  | parent :: outer =>
    some { s with
      flags := s.group.outerFlags
      group := parent.add (.regex s.group.value)
      outer := outer }

def anchored (a : Anchor) (s : Reader) : Reader := s.add (.anchor a (wordSet s.flags))

/-- Any character, except for line ends unless they are asked for. -/
def dot? (f : Flags) : Option CharSet :=
  if !f.unicode then none
  else if f.dotAll then some .any
  else if f.anyLineEnd then some (.compl (.ofList ['\r', '\n']))
  else some .notNewline

def lineStart (f : Flags) : Anchor :=
  if !f.multiLine then .startText else if f.anyLineEnd then .startAnyLine else .startLine

def lineEnd (f : Flags) : Anchor :=
  if !f.multiLine then .endText else if f.anyLineEnd then .endAnyLine else .endLine

def addSet? (set : CharSet) (s : Reader) : Option Reader :=
  (closeSet? s.flags set).map fun set => s.add (.char set)

def addPrimitive? (p : Primitive) (s : Reader) : Option Reader :=
  match p with
  | .literal c => some (s.add (.char (withCase s.flags (.single c))))
  | .byte c =>
    if s.flags.unicode || Text.isAscii c then some (s.add (.char (withCase s.flags (.single c))))
    else none
  | .set set => s.addSet? (withCase s.flags set)
  | .anchor a => some (s.anchored a)

/-- Reads one construct. -/
def step? (s : Reader) : List Char → Option (Reader × List Char)
  | [] => none
  | '(' :: rest => s.open? rest
  | ')' :: rest => s.close?.map (·, rest)
  | '|' :: rest => some ({ s with group := s.group.branch }, rest)
  | '[' :: rest =>
    (Bracket.read? s.flags rest).map fun (set, rest) => (s.add (.char set), rest)
  | '?' :: rest => (s.repeatLast? 0 (some 1)).map (·, dropLazy rest)
  | '*' :: rest => (s.repeatLast? 0 none).map (·, dropLazy rest)
  | '+' :: rest => (s.repeatLast? 1 none).map (·, dropLazy rest)
  | '\x7b' :: rest =>
    (bounds? s.flags rest).bind fun ((min, max), rest) =>
      (s.repeatLast? min max).map (·, dropLazy (Bracket.skipBlanks s.flags rest))
  | '.' :: rest => (dot? s.flags).map fun set => (s.add (.char set), rest)
  | '^' :: rest => some (s.anchored (lineStart s.flags), rest)
  | '$' :: rest => some (s.anchored (lineEnd s.flags), rest)
  | '\\' :: rest => (escape? s.flags rest).bind fun (p, rest) => (s.addPrimitive? p).map (·, rest)
  | c :: rest => (s.addPrimitive? (.literal c)).map (·, rest)

/-- Every construct consumes a character, so the length of the pattern bounds their number. -/
def loop : Nat → Reader → List Char → Option Reader
  | 0, s, cs => if (Bracket.skipBlanks s.flags cs).isEmpty then some s else none
  | n + 1, s, cs =>
    match Bracket.skipBlanks s.flags cs with
    | [] => some s
    | cs => (s.step? cs).bind fun (s, rest) => loop n s rest

end Reader

/-- The regular expression a pattern writes, if it is valid. -/
def parse? (pattern : String) : Option Regex :=
  let cs := pattern.toList
  (Reader.loop cs.length ⟨{}, .start {}, [], []⟩ cs).bind fun s =>
    if s.outer.isEmpty then some s.group.value else none

end RailsReview.Regex
