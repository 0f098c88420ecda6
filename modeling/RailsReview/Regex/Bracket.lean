import RailsReview.Regex.Escape

/-!
# Bracketed sets

A set may be negated, nest other sets, and combine sets by intersection, difference and symmetric
difference. These three bind weaker than juxtaposition and associate to the left.
-/
namespace RailsReview.Regex

inductive SetOp where
  | inter
  | diff
  | symDiff

/-- A bracket that is still open: the finished left operand, if any, with its operator, and the
items after it. -/
structure Bracket where
  negated : Bool
  left : Option (CharSet × SetOp)
  items : List CharSet

namespace Bracket

/-- White space and comments do not count where the verbose flag is set. -/
def skipLine (cs : List Char) : List Char := (cs.dropWhile (· != '\n')).drop 1

def skipBlanks (f : Flags) (cs : List Char) : List Char :=
  if f.verbose then go cs.length cs else cs
where
  /-- Each round drops a character at least. -/
  go : Nat → List Char → List Char
    | 0, cs => cs
    | n + 1, cs =>
      match cs with
      | '#' :: rest => go n (skipLine rest)
      | c :: rest => if Text.isBlank c then go n rest else cs
      | [] => []

def combine (op : SetOp) (a b : CharSet) : CharSet :=
  match op with
  | .inter => .inter a b
  | .diff => .diff a b
  | .symDiff => .symDiff a b

/-- The value of what has been read. -/
def value (f : Flags) (b : Bracket) : CharSet :=
  let items := withCase f (CharSet.unionAll b.items)
  match b.left with
  | some (l, op) => combine op l items
  | none => items

def finish? (f : Flags) (b : Bracket) : Option CharSet :=
  let s := b.value f
  closeSet? f (if b.negated then .compl s else s)

def addOp (f : Flags) (op : SetOp) (b : Bracket) : Bracket := ⟨b.negated, some (b.value f, op), []⟩

def add (s : CharSet) (b : Bracket) : Bracket := { b with items := s :: b.items }

/-- The names between `[:` and `:]`. -/
def namedSet? (name : String) : Option CharSet :=
  match name with
  | "alnum" => some (.union .asciiLetter .asciiDigit)
  | "alpha" => some .asciiLetter
  | "ascii" => some (.range '\x00' '\x7f')
  | "blank" => some (.ofList ['\t', ' '])
  | "cntrl" => some (.union (.range '\x00' '\x1f') (.single '\x7f'))
  | "digit" => some .asciiDigit
  | "graph" => some (.range '!' '~')
  | "lower" => some (.range 'a' 'z')
  | "print" => some (.range ' ' '~')
  | "punct" =>
    some (.unionAll [.range '!' '/', .range ':' '@', .range '[' '\x60', .range '\x7b' '~'])
  | "space" => some .asciiSpace
  | "upper" => some (.range 'A' 'Z')
  | "word" => some .asciiWord
  | "xdigit" => some (.unionAll [.asciiDigit, .range 'a' 'f', .range 'A' 'F'])
  | _ => none

/-- A named set after its opening bracket. -/
def named? : List Char → Option (CharSet × List Char)
  | ':' :: rest =>
    let (negated, rest) := match rest with
      | '^' :: rest => (true, rest)
      | rest => (false, rest)
    match rest.dropWhile (· != ':') with
    | ':' :: ']' :: left =>
      (namedSet? (String.ofList (rest.takeWhile (· != ':')))).map fun s =>
        (if negated then .compl s else s, left)
    | _ => none
  | _ => none

/-- Reads what follows an opening bracket: the negation, then hyphens and a closing bracket that
stand for themselves. -/
def openBracket (f : Flags) (cs : List Char) : Bracket × List Char :=
  let cs := skipBlanks f cs
  let (negated, cs) := match cs with
    | '^' :: rest => (true, skipBlanks f rest)
    | cs => (false, cs)
  let hyphens := cs.takeWhile (· == '-')
  let cs := cs.dropWhile (· == '-')
  match hyphens, cs with
  | [], ']' :: rest => (⟨negated, none, [.single ']']⟩, rest)
  | [], cs => (⟨negated, none, []⟩, cs)
  | _, cs => (⟨negated, none, [.single '-']⟩, cs)

/-- One item: an escape or any character. -/
def item? (f : Flags) : List Char → Option (Primitive × List Char)
  | [] => none
  | '\\' :: rest => escape? f rest
  | c :: rest => some (.literal c, rest)

/-- The character of an item that can bound a range. -/
def bound? (f : Flags) : Primitive → Option Char
  | .literal c | .byte c => if f.unicode || Text.isAscii c then some c else none
  | _ => none

def itemSet? (f : Flags) : Primitive → Option CharSet
  | .set s => some s
  | .anchor _ => none
  | p => (bound? f p).map .single

/-- An item or a range of two. -/
def range? (f : Flags) (cs : List Char) : Option (CharSet × List Char) :=
  (item? f cs).bind fun (p, rest) =>
    let rest := skipBlanks f rest
    let alone := (itemSet? f p).map (·, rest)
    match rest with
    | '-' :: more =>
      match skipBlanks f more with
      | ']' :: _ | '-' :: _ => alone
      | more =>
        (item? f more).bind fun (q, rest) =>
          (bound? f p).bind fun a =>
            (bound? f q).bind fun b => if a ≤ b then some (.range a b, rest) else none
    | _ => alone

/-- Reads sets until the outermost bracket closes. Each round consumes a character, so the length of
the rest bounds their number. -/
def loop (f : Flags) : Nat → Bracket → List Bracket → List Char → Option (CharSet × List Char)
  | 0, _, _, _ => none
  | n + 1, b, outer, cs =>
    match skipBlanks f cs with
    | [] => none
    | '[' :: rest =>
      match named? rest with
      | some (s, rest) => loop f n (b.add s) outer rest
      | none =>
        let (inner, rest) := openBracket f rest
        loop f n inner (b :: outer) rest
    | ']' :: rest =>
      (b.finish? f).bind fun s =>
        match outer with
        | [] => some (s, rest)
        | parent :: outer => loop f n (parent.add s) outer rest
    | '&' :: '&' :: rest => loop f n (b.addOp f .inter) outer rest
    | '-' :: '-' :: rest => loop f n (b.addOp f .diff) outer rest
    | '~' :: '~' :: rest => loop f n (b.addOp f .symDiff) outer rest
    | cs => (range? f cs).bind fun (s, rest) => loop f n (b.add s) outer rest

/-- The set after its opening bracket. -/
def read? (f : Flags) (cs : List Char) : Option (CharSet × List Char) :=
  let (b, rest) := openBracket f cs
  loop f (rest.length + 1) b [] rest

end Bracket

end RailsReview.Regex
